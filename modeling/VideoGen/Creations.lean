import Mathlib.Data.Set.Insert
import VideoGen.JobNames
import VideoGen.PartialCalls

/-!
# Creations among other tasks

While a video is created, workers may already take its job and report on its
row, and everything else goes on as well.  As long as no retry works on the
new video and nobody removes it, a creation that returns leaves one row, one
job, one link between them and one event, and none of its writes undoes what
a worker has reported.
-/

namespace VideoGen

def World.jobsOf (w : World) (v : String) : Set ℕ :=
  {id | ∃ q, w.queue.find? id = some q ∧ q.job.data.videoId = v}

def DomainEvent.isCreation (v : String) : DomainEvent → Bool
  | .created id _ _ _ => id = v
  | _ => false

def World.creationsOf (w : World) (v : String) : List DomainEvent :=
  w.events.filter (DomainEvent.isCreation v)

/-- A retry works on the video, or the video is removed. -/
def Meddles (v : String) (t : Transition State Step) : Prop :=
  (∃ i id c, Executes t i (.retryFailedJob id) c ∧ c.Revives v) ∨ Removes v t

/-! ## What a creation leaves at its video -/

structure SameBirth (v : String) (w w' : World) : Prop where
  row : w'.HasRow v ↔ w.HasRow v
  link : w'.linkOf v = w.linkOf v
  jobs : w'.jobsOf v = w.jobsOf v
  creations : w'.creationsOf v = w.creationsOf v

/-- The call may change what a creation leaves at the video. -/
def Call.Concerns (v : String) : Call → Prop
  | .insertVideo _ _ => True
  | .deleteVideo id => id = v
  | .updateVideo id _ fields => id = v ∧ fields.queueJobId ≠ none
  | .queueAdd _ data _ => data.videoId = v
  | .emit event => event.isCreation v = true
  | _ => False

section World

variable {w w' : World} {v : String}

theorem SameBirth.refl (v : String) (w : World) : SameBirth v w w := ⟨Iff.rfl, rfl, rfl, rfl⟩

theorem linkOf_of_videos (h : w'.videos = w.videos) : w'.linkOf v = w.linkOf v := by
  rw [World.linkOf, World.linkOf, h]

theorem hasRow_of_videos (h : w'.videos = w.videos) : w'.HasRow v ↔ w.HasRow v := by
  rw [World.HasRow, World.HasRow, h]

theorem jobsOf_of_queue (h : w'.queue = w.queue) : w'.jobsOf v = w.jobsOf v := by
  rw [World.jobsOf, World.jobsOf, h]

theorem creationsOf_of_events (h : w'.events = w.events) : w'.creationsOf v = w.creationsOf v := by
  rw [World.creationsOf, World.creationsOf, h]

theorem hasRow_of_update {b : Answer} {id : String} {expected : Option VideoStatus}
    {fields : VideoFields} {n : ℕ}
    (hx : w.answer (.updateVideo id expected fields) b = some (w', n)) :
    w'.HasRow v ↔ w.HasRow v := by
  rw [World.HasRow, World.HasRow, (World.answer_updateVideo hx).1, World.find?_updateVideo]
  by_cases hid : v = id
  · rw [if_pos hid, hid]
    simp [Option.map_eq_some_iff]
  · rw [if_neg hid]

theorem jobsOf_add_of_ne {name : String} {data : VideoGenerationJobData} {opts : JobOptions}
    (hqueue : w'.queue = w.queue.add name data opts) (hne : data.videoId ≠ v) :
    w'.jobsOf v = w.jobsOf v := by
  ext id
  simp only [World.jobsOf, Set.mem_ofPred_eq, hqueue, Queue.find?_add]
  by_cases hid : id = w.queue.lastId + 1
  · rw [if_pos hid]
    constructor
    · rintro ⟨q, hq, hdata⟩
      obtain rfl := Option.some.inj hq
      exact absurd hdata hne
    · rintro ⟨q, hq, -⟩
      have hle := Queue.le_lastId hq
      omega
  · rw [if_neg hid]

theorem jobsOf_add {name : String} {opts : JobOptions}
    (hqueue : w'.queue = w.queue.add name ⟨v⟩ opts) (hnone : w.jobsOf v = ∅) :
    w'.jobsOf v = {w.queue.lastId + 1} := by
  ext id
  simp only [World.jobsOf, Set.mem_ofPred_eq, Set.mem_singleton_iff, hqueue, Queue.find?_add]
  by_cases hid : id = w.queue.lastId + 1
  · rw [if_pos hid]
    exact iff_of_true ⟨_, rfl, rfl⟩ hid
  · rw [if_neg hid]
    refine iff_of_false (fun h ↦ ?_) hid
    have hmem : id ∈ w.jobsOf v := h
    rw [hnone] at hmem
    exact hmem

theorem same_of_answer {c : Call} {b : Answer} {x : c.Reply}
    (hx : w.answer c b = some (w', x)) (hc : ¬c.Concerns v) : SameBirth v w w' := by
  have hframe := World.answer_frame hx
  have hvideos (h : c.WritesVideos = false) : w'.videos = w.videos := hframe.1 h
  refine ⟨?_, ?_, ?_, ?_⟩
  · cases c with
    | insertVideo id fields => exact absurd trivial hc
    | updateVideo id expected fields => exact hasRow_of_update hx
    | deleteVideo id =>
        rw [World.HasRow, World.HasRow, World.answer_deleteVideo hx, if_neg (Ne.symm hc)]
    | _ => exact hasRow_of_videos (hvideos rfl)
  · cases c with
    | insertVideo id fields => exact absurd trivial hc
    | updateVideo id expected fields =>
        by_cases hid : id = v
        · apply World.linkOf_of_silent _ hx
          by_contra hfields
          exact hc ⟨hid, hfields⟩
        · rw [World.linkOf, World.linkOf, (World.answer_updateVideo hx).1,
            World.find?_updateVideo, if_neg (Ne.symm hid)]
    | deleteVideo id =>
        rw [World.linkOf, World.linkOf, World.answer_deleteVideo hx, if_neg (Ne.symm hc)]
    | _ => exact linkOf_of_videos (hvideos rfl)
  · cases c with
    | queueAdd name data opts => exact jobsOf_add_of_ne (World.answer_queueAdd hx).1 hc
    | _ => exact jobsOf_of_queue (hframe.2.2.1 rfl)
  · cases c with
    | emit event =>
        have hevent : event.isCreation v = false := by simpa [Call.Concerns] using hc
        rw [World.creationsOf, World.creationsOf, World.answer_emit hx, List.filter_append,
          List.filter_singleton, hevent]
        simp
    | _ => exact creationsOf_of_events (hframe.2.2.2 rfl)

theorem same_of_env {threads : List Worker} {l : EnvStep} {tasks : List Task}
    (h : envStep w threads l = some (w', tasks)) : SameBirth v w w' := by
  obtain ⟨hvideos, -, hevents⟩ := envStep_frame h
  refine ⟨hasRow_of_videos hvideos, linkOf_of_videos hvideos, ?_, creationsOf_of_events hevents⟩
  ext id
  have hkept {q : QueuedJob} (hq : w.queue.find? id = some q) :
      ∃ q', w'.queue.find? id = some q' ∧ q'.job.data = q.job.data := by
    obtain ⟨q', hq', rfl | hmove⟩ := envStep_job h hq
    · exact ⟨q', hq', rfl⟩
    · exact ⟨q', hq', hmove.job_eq.2.1⟩
  constructor
  · rintro ⟨q', hq', hdata⟩
    obtain ⟨q, hq⟩ := (envStep_old_job h).2 q' hq'
    obtain ⟨q'', hq'', hsame⟩ := hkept hq
    obtain rfl := Option.some.inj (hq'.symm.trans hq'')
    exact ⟨q, hq, by rw [← hsame, hdata]⟩
  · rintro ⟨q, hq, hdata⟩
    obtain ⟨q', hq', hsame⟩ := hkept hq
    exact ⟨q', hq', by rw [hsame, hdata]⟩

end World

/-! ## Every creation stands where its calls have led -/

def Stage.birth? : Stage → Option String
  | .creating _ _ creation => creation.video?
  | _ => none

/-- What the calls of a creation of the video have left so far. -/
def Creation.Stands (v : String) (w : World) : Creation → Prop
  | .adding id => id = v → w.HasRow v ∧ w.jobsOf v = ∅ ∧ w.creationsOf v = []
  | .linking id jobId => id = v → w.HasRow v ∧ w.jobsOf v = {jobId} ∧ w.creationsOf v = []
  | .announcing id jobId => id = v → w.HasRow v ∧ w.jobsOf v = {jobId} ∧
      w.creationsOf v = [] ∧ w.linkOf v = some (toString jobId)
  | _ => True

def Stage.Stands (v : String) (w : World) : Stage → Prop
  | .creating _ _ creation => creation.Stands v w
  | _ => True

theorem Stage.stands_of_ne {v : String} {w : World} {stage : Stage} (h : stage.birth? ≠ some v) :
    stage.Stands v w := by
  cases stage with
  | creating userId dto creation =>
      cases creation with
      | adding id => exact fun hid ↦ absurd (congrArg some hid) h
      | linking id jobId => exact fun hid ↦ absurd (congrArg some hid) h
      | announcing id jobId => exact fun hid ↦ absurd (congrArg some hid) h
      | _ => trivial
  | _ => trivial

theorem Stage.Stands.same {v : String} {w w' : World} {stage : Stage} (h : stage.Stands v w)
    (hsame : SameBirth v w w') : stage.Stands v w' := by
  cases stage with
  | creating userId dto creation =>
      cases creation with
      | adding id =>
          intro hid
          rw [hsame.row, hsame.jobs, hsame.creations]
          exact h hid
      | linking id jobId =>
          intro hid
          rw [hsame.row, hsame.jobs, hsame.creations]
          exact h hid
      | announcing id jobId =>
          intro hid
          rw [hsame.row, hsame.jobs, hsame.creations, hsame.link]
          exact h hid
      | _ => trivial
  | _ => trivial

theorem Stage.Stands.hasRow {v : String} {w : World} {stage : Stage} (h : stage.Stands v w)
    (hbirth : stage.birth? = some v) : w.HasRow v := by
  cases stage with
  | creating userId dto creation =>
      cases creation with
      | adding id => exact (h (Option.some.inj hbirth)).1
      | linking id jobId => exact (h (Option.some.inj hbirth)).1
      | announcing id jobId => exact (h (Option.some.inj hbirth)).1
      | _ => cases hbirth
  | _ => cases hbirth

/-- What is known of the creation of a video with which nobody meddles. -/
structure Births (v : String) (s : State) : Prop where
  conforming : Conforming s
  managed : ∀ t ∈ s.threads, t.task.Managed
  unborn : ¬s.state.HasRow v → s.state.jobsOf v = ∅ ∧ s.state.creationsOf v = []
  stands : ∀ t ∈ s.threads, (stageOf t).Stands v s.state
  single : ∀ (i j : ℕ) (t u : Worker), s.threads[i]? = some t → s.threads[j]? = some u →
    (stageOf t).birth? = some v → (stageOf u).birth? = some v → i = j

namespace Births

variable {config : StorageConfig} {s s' : State} {a : Step} {v : String} {i : ℕ} {f : Fate}
  {t t' : Worker} {c : Call} {r : Except Thrown c.Reply}

theorem start (v : String) : Births v ⟨World.empty, []⟩ where
  conforming := by simp [Conforming]
  managed := by simp
  unborn _ := by simp [World.jobsOf, World.creationsOf, World.empty, Queue.empty, Queue.find?]
  stands := by simp
  single := by simp

theorem of_same (h : Births v s) (hs' : Conforming s') (hm' : ∀ t ∈ s'.threads, t.task.Managed)
    (hsame : SameBirth v s.state s'.state)
    (hthreads : ∀ (j : ℕ) (u : Worker), s'.threads[j]? = some u → (stageOf u).birth? = some v →
      ∃ t, s.threads[j]? = some t ∧ stageOf u = stageOf t) : Births v s' where
  conforming := hs'
  managed := hm'
  unborn hrow := by
    rw [hsame.jobs, hsame.creations]
    exact h.unborn fun hold ↦ hrow (hsame.row.mpr hold)
  stands u hu := by
    by_cases hbirth : (stageOf u).birth? = some v
    · obtain ⟨j, hj⟩ := List.getElem?_of_mem hu
      obtain ⟨t, ht, hstage⟩ := hthreads j u hj hbirth
      rw [hstage]
      exact (h.stands t (List.mem_of_getElem? ht)).same hsame
    · exact Stage.stands_of_ne hbirth
  single i j t u ht hu hti huj := by
    obtain ⟨t₀, ht₀, hstage⟩ := hthreads i t ht hti
    obtain ⟨u₀, hu₀, hstage'⟩ := hthreads j u hu huj
    exact h.single i j t₀ u₀ ht₀ hu₀ (hstage ▸ hti) (hstage' ▸ huj)

theorem start_birth (task : Task) : (stageOf ((system config).start task)).birth? ≠ some v := by
  rw [stageOf_start]
  cases task <;> simp [Stage.init, Stage.birth?, Creation.video?]

theorem of_call_same (h : Births v s) (hs' : Conforming s')
    (hm' : ∀ t ∈ s'.threads, t.task.Managed) (hcall : Answered config s s' i f t t' c r)
    (hsame : SameBirth v s.state s'.state) (ht' : (stageOf t').birth? ≠ some v) :
    Births v s' := by
  apply h.of_same hs' hm' hsame
  intro j u hu hbirth
  rcases hcall.get_cases hu with ⟨-, rfl⟩ | ⟨-, hold⟩ | ⟨-, task, -, rfl⟩
  · exact absurd hbirth ht'
  · exact ⟨u, hold, rfl⟩
  · exact absurd hbirth (start_birth task)

theorem of_call_single (hs' : Conforming s') (hm' : ∀ t ∈ s'.threads, t.task.Managed)
    (hcall : Answered config s s' i f t t' c r) (hrow : s'.state.HasRow v)
    (hsingle : ∀ (j : ℕ) (u : Worker), j ≠ i → s.threads[j]? = some u →
      (stageOf u).birth? ≠ some v) (hstands : (stageOf t').Stands v s'.state) :
    Births v s' where
  conforming := hs'
  managed := hm'
  unborn hnone := absurd hrow hnone
  stands u hu := by
    obtain ⟨j, hj⟩ := List.getElem?_of_mem hu
    rcases hcall.get_cases hj with ⟨-, rfl⟩ | ⟨hne, hold⟩ | ⟨-, task, -, rfl⟩
    · exact hstands
    · exact Stage.stands_of_ne (hsingle j u hne hold)
    · exact Stage.stands_of_ne (start_birth task)
  single j k u u' hu hu' hbirth hbirth' := by
    have hacting {j : ℕ} {u : Worker} (hu : s'.threads[j]? = some u)
        (hbirth : (stageOf u).birth? = some v) : j = i := by
      rcases hcall.get_cases hu with ⟨hj, -⟩ | ⟨hne, hold⟩ | ⟨-, task, -, rfl⟩
      · exact hj
      · exact absurd hbirth (hsingle j u hne hold)
      · exact absurd hbirth (start_birth task)
    rw [hacting hu hbirth, hacting hu' hbirth']

theorem others (h : Births v s) (hget : s.threads[i]? = some t)
    (hbirth : (stageOf t).birth? = some v) (j : ℕ) (u : Worker) (hne : j ≠ i)
    (hu : s.threads[j]? = some u) : (stageOf u).birth? ≠ some v :=
  fun hbirth' ↦ hne (h.single j i u t hu hget hbirth' hbirth)

theorem creation_step (h : Births v s) (hs' : Conforming s')
    (hm' : ∀ t ∈ s'.threads, t.task.Managed) (hcall : Answered config s s' i f t t' c r)
    {userId : String} {dto : CreateVideoDto} {creation : Creation}
    (hstage : stageOf t = .creating userId dto creation)
    (hallows : CreationAllows userId dto creation c) : Births v s' := by
  have hnext := stageOf_of_answered hcall
  have hstands := h.stands t (List.mem_of_getElem? hcall.get)
  have hothers := h.others (i := i) (t := t) hcall.get
  rw [hstage] at hnext hstands hothers
  rcases World.exec_effect hcall.exec with ⟨-, hw, e, rfl⟩ | ⟨-, b, x, hx, hr⟩
  · have hthrown : stageOf t' = .creating userId dto .thrown := by
      rw [hnext]
      cases hallows <;> rfl
    apply h.of_call_same hs' hm' hcall (hw ▸ .refl v s.state)
    rw [hthrown]
    intro hbirth
    cases hbirth
  by_cases hconcerns : c.Concerns v
  · cases hallows with
    | insert =>
        obtain ⟨id, rfl, hfresh, hrows⟩ := World.answer_insertVideo hx
        have hframe := World.answer_frame hx
        have hjobs : s'.state.jobsOf v = s.state.jobsOf v := jobsOf_of_queue (hframe.2.2.1 rfl)
        have hcreations : s'.state.creationsOf v = s.state.creationsOf v :=
          creationsOf_of_events (hframe.2.2.2 rfl)
        by_cases hid : id = v
        · subst hid
          have hnone : ¬s.state.HasRow id := by
            rintro ⟨row, hrow⟩
            rw [hfresh] at hrow
            cases hrow
          have hrow : s'.state.HasRow id := ⟨_, (hrows id).trans (if_pos rfl)⟩
          apply of_call_single hs' hm' hcall hrow
          · intro j u _ hu hbirth
            exact hnone ((h.stands u (List.mem_of_getElem? hu)).hasRow hbirth)
          · obtain ⟨hnojobs, hnoevents⟩ := h.unborn hnone
            rw [hnext]
            rcases hr with rfl | ⟨e, rfl⟩
            · exact fun _ ↦ ⟨hrow, hjobs.trans hnojobs, hcreations.trans hnoevents⟩
            · trivial
        · have hold : s'.state.videos.find? v = s.state.videos.find? v := by
            rw [hrows, if_neg (Ne.symm hid)]
          have hsame : SameBirth v s.state s'.state :=
            ⟨by rw [World.HasRow, World.HasRow, hold], by rw [World.linkOf, World.linkOf, hold],
              hjobs, hcreations⟩
          apply h.of_call_same hs' hm' hcall hsame
          rw [hnext]
          rcases hr with rfl | ⟨e, rfl⟩
          · exact fun hbirth ↦ hid (Option.some.inj hbirth)
          · intro hbirth
            cases hbirth
    | add id =>
        obtain rfl : id = v := hconcerns
        obtain ⟨hrow, hjobs, hcreations⟩ := hstands rfl
        obtain ⟨hqueue, rfl⟩ := World.answer_queueAdd hx
        have hframe := World.answer_frame hx
        have hrow' := (hasRow_of_videos (hframe.1 rfl)).mpr hrow
        apply of_call_single hs' hm' hcall hrow' (hothers rfl)
        rw [hnext]
        rcases hr with rfl | ⟨e, rfl⟩
        · exact fun _ ↦ ⟨hrow', jobsOf_add hqueue hjobs,
            (creationsOf_of_events (hframe.2.2.2 rfl)).trans hcreations⟩
        · trivial
    | link id jobId =>
        obtain ⟨rfl, -⟩ := hconcerns
        obtain ⟨hrow, hjobs, hcreations⟩ := hstands rfl
        have hframe := World.answer_frame hx
        have hrow' := (hasRow_of_update hx).mpr hrow
        apply of_call_single hs' hm' hcall hrow' (hothers rfl)
        rw [hnext]
        rcases hr with rfl | ⟨e, rfl⟩
        · refine fun _ ↦ ⟨hrow', (jobsOf_of_queue (hframe.2.2.1 rfl)).trans hjobs,
            (creationsOf_of_events (hframe.2.2.2 rfl)).trans hcreations, ?_⟩
          obtain ⟨row, hfind⟩ := hrow
          rw [World.linkOf_of_update rfl hx, if_pos rfl, hfind, Option.bind_some]
        · trivial
    | announce id prompt jobId =>
        obtain rfl : id = v := by simpa [Call.Concerns, DomainEvent.isCreation] using hconcerns
        have hrow' := (hasRow_of_videos ((World.answer_frame hx).1 rfl)).mpr (hstands rfl).1
        apply of_call_single hs' hm' hcall hrow' (hothers rfl)
        rw [hnext]
        rcases hr with rfl | ⟨e, rfl⟩ <;> trivial
  · apply h.of_call_same hs' hm' hcall (same_of_answer hx hconcerns)
    rw [hnext]
    cases hallows with
    | insert => exact absurd trivial hconcerns
    | add id =>
        rcases hr with rfl | ⟨e, rfl⟩
        · exact fun hbirth ↦ hconcerns (Option.some.inj hbirth)
        · intro hbirth
          cases hbirth
    | link id jobId =>
        rcases hr with rfl | ⟨e, rfl⟩
        · exact fun hbirth ↦ hconcerns ⟨Option.some.inj hbirth, Option.some_ne_none _⟩
        · intro hbirth
          cases hbirth
    | announce id prompt jobId =>
        rcases hr with rfl | ⟨e, rfl⟩
        · intro hbirth
          cases hbirth
        · intro hbirth
          cases hbirth

theorem not_concerns_of_quiet {c : Call} (h : c.Quiet = true) : ¬c.Concerns v := by
  intro hconcerns
  cases c with
  | emit event =>
      cases event with
      | created id userId prompt jobId => exact absurd h Bool.false_ne_true
      | _ => exact absurd hconcerns Bool.false_ne_true
  | _ => first | exact hconcerns | exact absurd h Bool.false_ne_true

theorem quiet_of_stage (hmanaged : t.task.Managed) (hcall : Answered config s s' i f t t' c r)
    (hf : f.TakesEffect = true) (hmeddles : ¬Meddles v ⟨s, .call i f, s'⟩)
    (hstage : ∀ userId dto creation, stageOf t ≠ .creating userId dto creation) :
    ¬c.Concerns v := by
  intro hconcerns
  have hallows := allows_of_answered hcall
  have hexec := executes_of_pending (t := ⟨s, .call i f, s'⟩) rfl hf hcall.get hcall.pending
  rw [← task_stageOf t] at hmanaged
  generalize stageOf t = stage at hallows hexec hmanaged hstage
  cases hallows with
  | worker hallows =>
      cases hallows with
      | quiet _ hquiet => exact not_concerns_of_quiet hquiet hconcerns
      | start status hallowed => exact hconcerns.2 rfl
      | progress u => exact hconcerns.2 rfl
      | complete url thumbnail hurl => exact hconcerns.2 rfl
      | mark phase hphase hfinal message => exact hconcerns.2 rfl
      | load => exact hconcerns
      | _ => simp [Call.Concerns, DomainEvent.isCreation] at hconcerns
  | creating hallows => exact hstage _ _ _ rfl
  | retrying hallows =>
      cases hallows with
      | look => exact hconcerns
      | reset record => exact hmeddles (.inl ⟨i, _, _, hexec, hconcerns.1⟩)
      | add record => exact hmeddles (.inl ⟨i, _, _, hexec, hconcerns⟩)
      | stamp record jobId => exact hconcerns
      | link record jobId now => exact hmeddles (.inl ⟨i, _, _, hexec, hconcerns.1⟩)
      | mark record jobId now => exact hconcerns
  | listening hallows => cases hallows <;> exact hconcerns
  | removing hallows =>
      cases hallows with
      | read => exact hconcerns
      | delete videoId =>
          obtain rfl : videoId = v := hconcerns
          exact hmeddles (.inr ⟨i, _, hexec⟩)
  | service call => exact hmanaged.elim

theorem step (h : Births v s) (hinvoke : a.InvokesOnly Task.Managed)
    (hmeddles : ¬Meddles v ⟨s, a, s'⟩) (hstep : (system config).step s a = some s') :
    Births v s' := by
  have hs' := step_conforming hstep h.conforming
  have hm' := step_tasks hstep hinvoke (fun _ ↦ trivial) (fun _ ↦ trivial) h.managed
  cases a with
  | call i f =>
      obtain ⟨t, t', c, r, hcall⟩ := answered_of_step hstep h.conforming
      have hmanaged := h.managed t (List.mem_of_getElem? hcall.get)
      by_cases hstage : ∃ userId dto creation, stageOf t = .creating userId dto creation
      · obtain ⟨userId, dto, creation, hstage⟩ := hstage
        have hallows := allows_of_answered hcall
        rw [hstage] at hallows
        cases hallows with
        | creating hallows => exact h.creation_step hs' hm' hcall hstage hallows
      · have hnot : ∀ userId dto creation, stageOf t ≠ .creating userId dto creation :=
          fun userId dto creation heq ↦ hstage ⟨userId, dto, creation, heq⟩
        apply h.of_call_same hs' hm' hcall
        · rcases World.exec_effect hcall.exec with ⟨-, hw, -⟩ | ⟨hf, b, x, hx, -⟩
          · exact hw ▸ .refl v s.state
          · exact same_of_answer hx (quiet_of_stage hmanaged hcall hf hmeddles hnot)
        · rw [stageOf_of_answered hcall]
          generalize stageOf t = stage at hnot
          cases stage with
          | creating userId dto creation => exact absurd rfl (hnot userId dto creation)
          | _ => exact nofun
  | _ =>
      have hsame : SameBirth v s.state s'.state := by
        first
        | obtain rfl := Option.some.inj hstep
          exact .refl v s.state
        | obtain ⟨u, -, rfl⟩ := (system config).step_crash_cases hstep
          exact .refl v s.state
        | obtain ⟨w, tasks, henv, rfl⟩ := (system config).step_env_cases hstep
          exact same_of_env henv
      apply h.of_same hs' hm' hsame
      intro j u hu hbirth
      rcases thread_cases hstep h.conforming hu with ⟨t, ht, -, -, -, hstage, -⟩ |
        ⟨-, task, rfl⟩ | ⟨f, t, c, r, hcall, -⟩
      · exact ⟨t, ht, hstage⟩
      · exact absurd hbirth (start_birth task)
      · cases hcall

end Births

/-! ## The columns of the new row -/

def Video.wish (row : Video) : Video := { row.request with queueJobId := none }

def Video.generation (row : Video) :
    VideoStatus × Option String × Option String × Option String × Option JsObject :=
  (row.status, row.videoUrl, row.thumbnailUrl, row.errorMessage, row.metadata)

theorem Video.request_of_wish {row row' : Video} (hwish : row.wish = row'.wish)
    (hlink : row.queueJobId = row'.queueJobId) : row.request = row'.request := by
  have hrequest (row : Video) : row.request = { row.wish with queueJobId := row.queueJobId } := rfl
  rw [hrequest row, hrequest row', hwish, hlink]

section System

variable {config : StorageConfig} {s s' : State} {a : Step} {v : String}

theorem wish_step (hstep : (system config).step s a = some s') (hs : Conforming s)
    (hmanaged : ∀ t ∈ s.threads, t.task.Managed) (hremove : ¬Removes v ⟨s, a, s'⟩) {row : Video}
    (hrow : s.state.videos.find? v = some row) :
    ∃ row', s'.state.videos.find? v = some row' ∧ row'.wish = row.wish := by
  rcases rowWrite_of_step hstep hs hmanaged with hvideos |
    ⟨i, f, t, c, b, x, rfl, hf, hget, hpending, hwrite, hx⟩
  · exact ⟨row, hvideos ▸ hrow, rfl⟩
  have hupdate {id : String} {expected : Option VideoStatus} {fields : VideoFields} {n : ℕ}
      (hx : s.state.answer (.updateVideo id expected fields) b = some (s'.state, n))
      (hfields : ∀ row : Video, (row.assign fields s.state.now).wish = row.wish) :
      ∃ row', s'.state.videos.find? v = some row' ∧ row'.wish = row.wish := by
    rw [(World.answer_updateVideo hx).1, World.find?_updateVideo]
    by_cases hid : v = id
    · rw [if_pos hid, ← hid, hrow]
      refine ⟨_, rfl, ?_⟩
      by_cases hguard : expected.all (· = row.status) = true
      · simpa only [if_pos hguard] using hfields row
      · simp only [if_neg hguard]
    · rw [if_neg hid]
      exact ⟨row, hrow, rfl⟩
  have hexec := executes_of_pending (t := ⟨s, .call i f, s'⟩) rfl hf hget hpending
  generalize stageOf t = stage at hwrite hexec
  cases hwrite with
  | report job phase hreport =>
      apply hupdate hx
      intro row
      rw [Video.wish, hreport.reports.request_assign]
      rfl
  | insert userId dto =>
      obtain ⟨id, rfl, hfresh, hrows⟩ := World.answer_insertVideo hx
      rw [hrows, if_neg]
      · exact ⟨row, hrow, rfl⟩
      · rintro rfl
        rw [hfresh] at hrow
        cases hrow
  | link userId dto videoId jobId => exact hupdate hx fun _ ↦ rfl
  | reset id record => exact hupdate hx fun _ ↦ rfl
  | relink id record jobId now => exact hupdate hx fun _ ↦ rfl
  | delete id userId videoId =>
      rw [World.answer_deleteVideo hx, if_neg]
      · exact ⟨row, hrow, rfl⟩
      · rintro rfl
        exact hremove ⟨i, _, hexec⟩

theorem wish_run {start : State} {ts : List (Transition State Step)}
    (hrun : Run (system config).step start ts s) (hs : Conforming start)
    (hmanaged : ∀ t ∈ start.threads, t.task.Managed)
    (hinvoke : ∀ t ∈ ts, t.act.InvokesOnly Task.Managed) (hremove : ∀ t ∈ ts, ¬Removes v t)
    {row : Video} (hrow : start.state.videos.find? v = some row) :
    ∃ row', s.state.videos.find? v = some row' ∧ row'.wish = row.wish := by
  have hkept := hrun.invariant (fun s ↦ Conforming s ∧ (∀ t ∈ s.threads, t.task.Managed) ∧
    ∃ row', s.state.videos.find? v = some row' ∧ row'.wish = row.wish)
    ⟨hs, hmanaged, row, hrow, rfl⟩ ?_
  · exact hkept.2.2
  rintro t ht hstep ⟨hs, hmanaged, row', hrow', hwish⟩
  refine ⟨step_conforming hstep hs,
    step_tasks hstep (hinvoke t ht) (fun _ ↦ trivial) (fun _ ↦ trivial) hmanaged, ?_⟩
  obtain ⟨row'', hrow'', hwish'⟩ := wish_step hstep hs hmanaged (hremove t ht) hrow'
  exact ⟨row'', hrow'', hwish'.trans hwish⟩

theorem managed_of_run {ts : List (Transition State Step)} {w : World}
    (hrun : Run (system config).step ⟨w, []⟩ ts s)
    (hinvoke : ∀ t ∈ ts, t.act.InvokesOnly Task.Managed) : ∀ t ∈ s.threads, t.task.Managed :=
  hrun.invariant (fun s ↦ ∀ t ∈ s.threads, t.task.Managed) (by simp) fun t ht hstep hs ↦
    step_tasks hstep (hinvoke t ht) (fun _ ↦ trivial) (fun _ ↦ trivial) hs

theorem wish_of_mem {ts : List (Transition State Step)} {w : World}
    (hrun : Run (system config).step ⟨w, []⟩ ts s)
    (hinvoke : ∀ t ∈ ts, t.act.InvokesOnly Task.Managed) (hremove : ∀ t ∈ ts, ¬Removes v t)
    {t : Transition State Step} (ht : t ∈ ts) {row : Video}
    (hrow : t.after.state.videos.find? v = some row) :
    ∃ row', s.state.videos.find? v = some row' ∧ row'.wish = row.wish := by
  obtain ⟨pre, post, rfl⟩ := List.append_of_mem ht
  obtain ⟨hpre, hstep, hpost⟩ := hrun.at_append_cons
  apply wish_run hpost (step_conforming hstep (run_conforming hpre)) _ _ _ hrow
  · apply step_tasks hstep (hinvoke t ht) (fun _ ↦ trivial) fun _ ↦ trivial
    exact managed_of_run hpre fun u hu ↦ hinvoke u (List.mem_append_left _ hu)
  · exact fun u hu ↦ hinvoke u (by simp [hu])
  · exact fun u hu ↦ hremove u (by simp [hu])

/-! ## Creations that return -/

def ReturnsVideo (i : ℕ) (userId : String) (dto : CreateVideoDto) (entity : Video)
    (t : Transition State Step) : Prop :=
  ∃ f u, t.act = .call i f ∧ t.after.threads[i]? = some u ∧
    u.task = .createAndQueue userId dto ∧ u.prog = .done (.ok (.video entity))

/-- What a creation that has returned the entity has done in the run. -/
structure Created (ts : List (Transition State Step)) (w : World) (i : ℕ) (userId : String)
    (dto : CreateVideoDto) (entity : Video) : Prop where
  /-- One row, one job, one link and one event. -/
  exact : ∃ now jobId row, entity = createdRow userId dto entity.id now (some (toString jobId)) ∧
    w.videos.find? entity.id = some row ∧ row.request = entity.request ∧
    w.jobsOf entity.id = {jobId} ∧
    w.creationsOf entity.id = [.created entity.id userId dto.prompt (toString jobId)]
  inserts : ∃ t ∈ ts, t.before.state.videos.find? entity.id = none ∧
    Executes t i (.createAndQueue userId dto) (.insertVideo none (dto.fields userId))
  /-- No other row is touched. -/
  frame : ∀ t ∈ ts, ∀ f, t.act = .call i f → ∀ k ≠ entity.id,
    t.after.state.videos.find? k = t.before.state.videos.find? k
  /-- Nothing that is reported on the row is lost. -/
  keeps : ∀ t ∈ ts, ∀ f row, t.act = .call i f →
    t.before.state.videos.find? entity.id = some row →
    ∃ row', t.after.state.videos.find? entity.id = some row' ∧ row'.generation = row.generation

theorem answered_of_returned {α β : Type} {c : Call} {next : c.Reply → Prog α} {g : α → β}
    {log : List (Exchange interface)} {y : β}
    (h : (g <$> (ask c >>= next)).Follows log (.done (.ok y))) :
    ∃ x rest, log = ⟨c, .ok x⟩ :: rest ∧ (g <$> next x).Follows rest (.done (.ok y)) := by
  obtain ⟨x, rest, rfl, hnext⟩ := Program.Follows.of_call (I := interface) h
  cases x with
  | error e =>
      obtain ⟨-, hr⟩ := hnext.of_done
      cases hr
  | ok x => exact ⟨x, rest, rfl, hnext⟩

/-- A creation that has returned has made its four calls, and all were answered. -/
theorem createAndQueue_ended {userId : String} {dto : CreateVideoDto} {entity : Video}
    {log : List (Exchange interface)}
    (h : (Value.video <$> createAndQueue userId dto).Follows log (.done (.ok (.video entity)))) :
    ∃ (saved : Video) (jobId affected : ℕ),
      entity = { saved with queueJobId := some (toString jobId) } ∧
      log = [⟨.insertVideo none (dto.fields userId), .ok saved⟩,
        ⟨.queueAdd videoGenerationJob ⟨saved.id⟩ (JobOptions.over {} videosModuleJobOptions),
          .ok jobId⟩,
        ⟨.updateVideo saved.id none (queueJobIdFields jobId), .ok affected⟩,
        ⟨.emit (.created saved.id userId saved.prompt (toString jobId)), .ok ()⟩] := by
  obtain ⟨saved, rest, rfl, hadd⟩ := answered_of_returned h
  obtain ⟨jobId, rest, rfl, hlink⟩ := answered_of_returned hadd
  obtain ⟨affected, rest, rfl, hemit⟩ := answered_of_returned hlink
  obtain ⟨x, rest, rfl, hend⟩ := answered_of_returned hemit
  obtain ⟨rfl, hr⟩ := hend.of_done
  exact ⟨saved, jobId, affected, Value.video.inj (Except.ok.inj hr), rfl⟩

theorem births_of_run {ts : List (Transition State Step)}
    (hrun : Run (system config).step ⟨World.empty, []⟩ ts s)
    (hinvoke : ∀ t ∈ ts, t.act.InvokesOnly Task.Managed) (hkept : ∀ t ∈ ts, ¬Meddles v t) :
    Births v s :=
  hrun.invariant (Births v) (Births.start v) fun t ht hstep h ↦
    h.step (hinvoke t ht) (hkept t ht) hstep

theorem rows_of_creation {w w' : World} {f : Fate} {userId : String} {dto : CreateVideoDto}
    {saved : Video} {jobId affected : ℕ} {c : Call}
    {x : Except Thrown c.Reply} (hexec : w.exec c f = some (w', x))
    (hmem : (⟨c, x⟩ : Exchange interface) ∈
      ([⟨.insertVideo none (dto.fields userId), .ok saved⟩,
        ⟨.queueAdd videoGenerationJob ⟨saved.id⟩ (JobOptions.over {} videosModuleJobOptions),
          .ok jobId⟩,
        ⟨.updateVideo saved.id none (queueJobIdFields jobId), .ok affected⟩,
        ⟨.emit (.created saved.id userId saved.prompt (toString jobId)), .ok ()⟩] :
        List (Exchange interface))) :
    (∀ k ≠ saved.id, w'.videos.find? k = w.videos.find? k) ∧
      ∀ row, w.videos.find? saved.id = some row →
        ∃ row', w'.videos.find? saved.id = some row' ∧ row'.generation = row.generation := by
  simp only [List.mem_cons, List.not_mem_nil, or_false] at hmem
  have hkept (h : w'.videos = w.videos) : (∀ k ≠ saved.id, w'.videos.find? k = w.videos.find? k) ∧
      ∀ row, w.videos.find? saved.id = some row →
        ∃ row', w'.videos.find? saved.id = some row' ∧ row'.generation = row.generation := by
    rw [h]
    exact ⟨fun _ _ ↦ rfl, fun row hrow ↦ ⟨row, hrow, rfl⟩⟩
  rcases hmem with h | h | h | h
  · cases h
    obtain ⟨-, b, hx⟩ := World.exec_ok hexec
    obtain ⟨id, rfl, hfresh, hrows⟩ := World.answer_insertVideo hx
    refine ⟨fun k hk ↦ ?_, fun row hrow ↦ absurd (hfresh.symm.trans hrow) nofun⟩
    have hne : k ≠ id := hk
    rw [hrows, if_neg hne]
  · cases h
    exact hkept (World.exec_videos hexec rfl)
  · cases h
    obtain ⟨-, b, hx⟩ := World.exec_ok hexec
    rw [(World.answer_updateVideo hx).1]
    refine ⟨fun k hk ↦ by rw [World.find?_updateVideo, if_neg hk], fun row hrow ↦ ?_⟩
    rw [World.find?_updateVideo, if_pos rfl, hrow]
    exact ⟨_, rfl, rfl⟩
  · cases h
    exact hkept (World.exec_videos hexec rfl)

/-- However the other tasks interleave, a creation that returns has made one row, one job, one
link and one event. -/
theorem created_of_returns {ts : List (Transition State Step)} {u : Transition State Step}
    (hrun : Run (system config).step ⟨World.empty, []⟩ (ts ++ [u]) s)
    (hinvoke : ∀ t ∈ ts ++ [u], t.act.InvokesOnly Task.Managed) {i : ℕ} {userId : String}
    {dto : CreateVideoDto} {entity : Video} (hkept : ∀ t ∈ ts ++ [u], ¬Meddles entity.id t)
    (hreturns : ReturnsVideo i userId dto entity u) :
    Created (ts ++ [u]) s.state i userId dto entity := by
  obtain ⟨hpre, hstep, hlast⟩ := hrun.at_append_cons
  have hs : s = u.after := by
    generalize hnil : ([] : List (Transition State Step)) = us at hlast
    cases hlast with
    | nil => rfl
    | snoc a head last => simp at hnil
  subst hs
  obtain ⟨f, t', hact, hget', htask, hprog⟩ := hreturns
  have hmem' := List.mem_of_getElem? hget'
  have hfollows := follows_of_run hrun t' hmem'
  rw [htask, hprog] at hfollows
  obtain ⟨saved, jobId, affected, rfl, hlog⟩ := createAndQueue_ended hfollows
  have hlogged := Machine.mem_log_iff hrun rfl hget'
  obtain ⟨t, t₁, c, r, hcall⟩ := answered_of_step (hact ▸ hstep) (run_conforming hpre)
  obtain rfl := Option.some.inj (hcall.get_self.symm.trans hget')
  have hsplit := hcall.log_eq.symm.trans hlog
  obtain ⟨htlog, hlast⟩ := List.append_inj' (show _ ++ [_] = [_, _, _] ++ [_] from hsplit) rfl
  obtain ⟨rfl, hr⟩ := Sigma.mk.inj (List.singleton_inj.mp hlast)
  obtain rfl := eq_of_heq hr
  have hstage : stageOf t = .creating userId dto (.announcing saved.id jobId) := by
    change stageProtocol.after (Stage.init t.task) t.log = _
    rw [htlog, ← hcall.task_eq, htask]
    rfl
  have hbirths := births_of_run hpre (fun t ht ↦ hinvoke t (List.mem_append_left _ ht))
    fun t ht ↦ hkept t (List.mem_append_left _ ht)
  have hstands := hbirths.stands t (List.mem_of_getElem? hcall.get)
  rw [hstage] at hstands
  obtain ⟨-, hjobs, hcreations, hlink⟩ := hstands rfl
  obtain ⟨-, b, hx⟩ := World.exec_ok hcall.exec
  have hframe := World.answer_frame hx
  have hlinked : u.after.state.linkOf saved.id = some (toString jobId) :=
    (linkOf_of_videos (hframe.1 rfl)).trans hlink
  have hannounced : u.after.state.creationsOf saved.id =
      [.created saved.id userId saved.prompt (toString jobId)] := by
    rw [World.creationsOf, World.answer_emit hx, List.filter_append]
    change u.before.state.creationsOf saved.id ++ _ = _
    rw [hcreations]
    simp [DomainEvent.isCreation]
  obtain ⟨v, hv, f₀, t₀, hact₀, hget₀, hpending₀, hexec₀⟩ :=
    (hlogged ⟨.insertVideo none (dto.fields userId), .ok saved⟩).mp (by simp [hlog])
  have htask₀ := (Machine.task_eq_of_mem hrun hv hget₀ hget').trans htask
  obtain ⟨hf₀, b₀, hx₀⟩ := World.exec_ok hexec₀
  obtain ⟨id, hsaved, hfresh, hrows⟩ := World.answer_insertVideo hx₀
  have hid : saved.id = id := by rw [hsaved]; rfl
  subst hid
  have hinserted : v.after.state.videos.find? saved.id = some saved := by
    rw [hrows, if_pos rfl]
  obtain ⟨row, hrow, hwish⟩ := wish_of_mem hrun hinvoke
    (fun t ht hremove ↦ hkept t ht (.inr hremove)) hv hinserted
  have hlinkedRow : row.queueJobId = some (toString jobId) := by
    rw [World.linkOf, hrow] at hlinked
    exact hlinked
  have hcalls {t : Transition State Step} (ht : t ∈ ts ++ [u]) {f : Fate}
      (hact : t.act = .call i f) :
      (∀ k ≠ saved.id, t.after.state.videos.find? k = t.before.state.videos.find? k) ∧
        ∀ row, t.before.state.videos.find? saved.id = some row → ∃ row',
          t.after.state.videos.find? saved.id = some row' ∧ row'.generation = row.generation := by
    obtain ⟨_, _, _, _, _, h⟩ := Machine.called_of_step (hact ▸ hrun.step_of_mem ht)
    exact rows_of_creation h.exec
      (hlog ▸ (hlogged _).mpr ⟨t, ht, f, _, hact, h.get, h.pending, h.exec⟩)
  refine ⟨⟨v.before.state.now, jobId, row, ?_, hrow, ?_, ?_, ?_⟩, ⟨v, hv, hfresh, ?_⟩, ?_, ?_⟩
  · rw [hsaved]
    rfl
  · exact Video.request_of_wish hwish hlinkedRow
  · exact (jobsOf_of_queue (hframe.2.2.1 rfl)).trans hjobs
  · rw [hannounced, hsaved]
    rfl
  · exact ⟨f₀, t₀, hact₀, hf₀, hget₀, htask₀, hpending₀⟩
  · intro t ht f hact
    exact (hcalls ht hact).1
  · intro t ht f row hact
    exact (hcalls ht hact).2 row

/-- On its own, a creation that throws leaves what its earlier calls wrote, and one that returns
has done all.  Among other tasks, one that returns has done all, and has undone nothing. -/
theorem creation_contract (config : StorageConfig) :
    (∀ (w w' : World) (userId : String) (dto : CreateVideoDto)
      (fates : List (Transition World Fate)) (r : Except Thrown Video),
      (createAndQueue userId dto).Evaluates World.exec w fates r w' →
      CreationContract w w' userId dto (fates.map Transition.act) r) ∧
    ∀ (ts : List (Transition State Step)) (u : Transition State Step) (s : State) (i : ℕ)
      (userId : String) (dto : CreateVideoDto) (entity : Video),
      Run (system config).step ⟨World.empty, []⟩ (ts ++ [u]) s →
      (∀ t ∈ ts ++ [u], t.act.InvokesOnly Task.Managed) →
      (∀ t ∈ ts ++ [u], ¬Meddles entity.id t) →
      ReturnsVideo i userId dto entity u → Created (ts ++ [u]) s.state i userId dto entity :=
  ⟨fun _ _ _ _ _ _ h ↦ creation_evaluates h,
    fun _ _ _ _ _ _ _ hrun hinvoke hkept hreturns ↦
      created_of_returns hrun hinvoke hkept hreturns⟩

end System

/-! ## A worker overtakes a creation -/

/-- The worker starts the row before the creation links it. -/
def overtakenActs : List Step :=
  (createActs 0 "video").take 3 ++ [.env (.take 1), okStep 1, okStep 1] ++
    (createActs 0 "video").drop 3

def Transition.returned? (i : ℕ) (t : Transition State Step) :
    Option (String × CreateVideoDto × Video) :=
  match t.act, t.after.threads[i]? with
  | .call j _, some u =>
      match u.task, u.prog with
      | .createAndQueue userId dto, .done (.ok (.video entity)) =>
          if j = i then some (userId, dto, entity) else none
      | _, _ => none
  | _, _ => none

theorem returnsVideo_of_returned? {i : ℕ} {t : Transition State Step} {userId : String}
    {dto : CreateVideoDto} {entity : Video} (h : t.returned? i = some (userId, dto, entity)) :
    ReturnsVideo i userId dto entity t := by
  unfold Transition.returned? at h
  split at h
  · rename_i j f u hact hget
    split at h
    · rename_i userId' dto' entity' htask hprog
      obtain ⟨rfl, heq⟩ := Option.ite_none_right_eq_some.mp h
      simp only [Option.some.injEq, Prod.mk.injEq] at heq
      obtain ⟨rfl, rfl, rfl⟩ := heq
      exact ⟨f, u, hact, hget, htask, hprog⟩
    · cases h
  · cases h

def Transition.creates (t : Transition State Step) : Bool :=
  match t.execution? with
  | some (_, .retryFailedJob _, _) => false
  | some (_, _, .deleteVideo _) => false
  | _ => true

theorem not_meddles_of_creates {v : String} {t : Transition State Step} (h : t.creates = true) :
    ¬Meddles v t := by
  rintro (⟨i, id, c, hexec, -⟩ | ⟨i, task, hexec⟩)
  · simp [Transition.creates, execution?_eq_some_iff.mpr hexec] at h
  · unfold Transition.creates at h
    rw [execution?_eq_some_iff.mpr hexec] at h
    cases task <;> cases h

theorem creation_contract_overtaken : ∃ (ts : List (Transition State Step))
    (u : Transition State Step) (s : State) (userId : String) (dto : CreateVideoDto)
    (entity : Video), Run (system ⟨"bucket", none, "region"⟩).step ⟨World.empty, []⟩ (ts ++ [u]) s ∧
      ReturnsVideo 0 userId dto entity u ∧ s.state.statusOf "video" = some .processing ∧
      Created (ts ++ [u]) s.state 0 userId dto entity := by
  obtain ⟨ts', s, hrun, hacts, hobs⟩ := Run.exists_of_follow
    (system ⟨"bucket", none, "region"⟩).step ⟨World.empty, []⟩ overtakenActs
    (fun p ↦ (p.1.all Transition.creates, (p.1.getLast?.bind (Transition.returned? 0)).isSome,
      decide (p.2.state.statusOf "video" = some .processing)))
    (true, true, true) (by decide +kernel)
  have hinvoke : ∀ a ∈ overtakenActs, a.InvokesOnly Task.Managed := by decide
  obtain ⟨hcreates, hrest⟩ := Prod.mk.inj hobs
  obtain ⟨hsome, hstatus⟩ := Prod.mk.inj hrest
  obtain ⟨⟨userId, dto, entity⟩, hbind⟩ := Option.isSome_iff_exists.mp hsome
  obtain ⟨u, hlast, hreturned⟩ := Option.bind_eq_some_iff.mp hbind
  obtain ⟨ts, rfl⟩ := List.getLast?_eq_some_iff.mp hlast
  have hreturns := returnsVideo_of_returned? hreturned
  refine ⟨ts, u, s, userId, dto, entity, hrun, hreturns, of_decide_eq_true hstatus, ?_⟩
  apply (creation_contract _).2 ts u s 0 userId dto entity hrun _ _ hreturns
  · exact fun t ht ↦ hinvoke _ (hacts ▸ List.mem_map_of_mem ht)
  · exact fun t ht ↦ not_meddles_of_creates (List.all_eq_true.mp hcreates t ht)

/-- A call that throws has changed neither the rows nor the queue; one that returns has made
its row, its job, their link and the event. -/
structure CreatesAtomically (w w' : World) (userId : String) (dto : CreateVideoDto)
    (r : Except Thrown Video) : Prop where
  thrown : ∀ e, r = .error e →
    (∀ k, w'.videos.find? k = w.videos.find? k) ∧ w'.queue = w.queue
  returned : ∀ entity, r = .ok entity → AfterCreation w w' userId dto entity.id 4

def unqueuedCreation : List Fate := [.ok (.uuid "video"), .rejected refusal]

theorem creation_not_atomic : ∃ (dto : CreateVideoDto) (ts : List (Transition World Fate))
    (r : Except Thrown Video) (w' : World),
    (createAndQueue "user" dto).Evaluates World.exec World.empty ts r w' ∧
      ts.map Transition.act = unqueuedCreation ∧
      ¬CreatesAtomically World.empty w' "user" dto r := by
  let dto : CreateVideoDto := ⟨"title", "prompt", none, none, none, none, none⟩
  have hobs : ((createAndQueue "user" dto).evalAll World.exec World.empty unqueuedCreation).map
      (fun p ↦ (isReturned p.2, p.1.statusOf "video")) = some (false, some .pending) := by
    decide +kernel
  obtain ⟨⟨w', r⟩, heval, hseen⟩ := Option.map_eq_some_iff.mp hobs
  obtain ⟨hthrown, hstatus⟩ := Prod.mk.inj hseen
  obtain ⟨ts, hts, hacts⟩ := Program.evaluates_of_evalAll heval
  refine ⟨dto, ts, r, w', hts, hacts, fun h ↦ ?_⟩
  cases r with
  | ok video => cases hthrown
  | error e =>
      obtain ⟨row, hrow, -⟩ := World.statusOf_eq_some_iff.mp hstatus
      have hsame := (h.thrown e rfl).1 "video"
      rw [hrow] at hsame
      cases hsame

end VideoGen
