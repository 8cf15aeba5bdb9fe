import VideoGen.Resurrections

/-!
# The job that a record names

The `video.failed` event does not carry the job.  Its listener takes the job
id from the row, where `createAndQueue` and every retry write it only after
the job has been enqueued.  A record names the job that failed exactly if the
row was linked to that job when the listener read it.
-/

namespace VideoGen

def Links (videoId : String) (jobId : ℕ) (t : Transition State Step) : Prop :=
  ∃ i task, Executes t i task (.updateVideo videoId none (queueJobIdFields jobId))

/-- The row of the video is reset, or linked to another job. -/
def Unlinks (videoId : String) (jobId : ℕ) (t : Transition State Step) : Prop :=
  Resets videoId t ∨ ∃ other, other ≠ jobId ∧ Links videoId other t

def ReadsRow (k : ℕ) (event : VideoFailedEvent) (t : Transition State Step) : Prop :=
  Receives t k (.onVideoFailed event) (.selectVideo event.videoId)

/-- The final attempt of the job publishes the event in the step, and listener `k` is started
for it. -/
def PublishesFailure (job : Job) (event : VideoFailedEvent) (k : ℕ)
    (t : Transition State Step) : Prop :=
  k = t.before.threads.length ∧ ∃ i, Executes t i (.process job) (.emit (.failed event))

def SavesRecord (k : ℕ) (event : VideoFailedEvent) (fields : FailedJobFields)
    (t : Transition State Step) : Prop :=
  Executes t k (.onVideoFailed event) (.insertFailedJob fields)

/-- Every record that a listener saves names the job whose failure it was started for. -/
def NamesFailedJobs (ts : List (Transition State Step)) : Prop :=
  ∀ e ∈ ts, ∀ g ∈ ts, ∀ job event k fields, PublishesFailure job event k e →
    SavesRecord k event fields g → fields.queueJobId = some (toString job.id)

/-- Every listener that saves a record read its row while the row was linked to the job whose
failure it was started for. -/
def LinkedWhenRead (ts : List (Transition State Step)) : Prop :=
  ∀ e ∈ ts, ∀ pre r post, ts = pre ++ r :: post → ∀ g ∈ post, ∀ job event k fields,
    PublishesFailure job event k e → ReadsRow k event r → SavesRecord k event fields g →
    Since (Links event.videoId job.id) (Unlinks event.videoId job.id) pre

def World.linkOf (w : World) (videoId : String) : Option String :=
  (w.videos.find? videoId).bind Video.queueJobId

section System

variable {config : StorageConfig} {s s' : State} {a : Step} {v : String} {n : ℕ}
  {past : List (Transition State Step)}

/-! ## The link of a row -/

theorem World.linkOf_of_silent {w w' : World} {b : Answer} {id : String} {m : ℕ}
    {expected : Option VideoStatus} {fields : VideoFields} (hfields : fields.queueJobId = none)
    (hx : w.answer (.updateVideo id expected fields) b = some (w', m)) :
    w'.linkOf v = w.linkOf v := by
  rw [linkOf, (answer_updateVideo hx).1, find?_updateVideo]
  by_cases hid : v = id
  · subst hid
    rw [if_pos rfl, linkOf]
    cases hrow : w.videos.find? v with
    | none => rfl
    | some row => by_cases hguard : expected.all (· = row.status) = true <;>
        simp [hguard, Video.assign, hfields]
  · rw [if_neg hid, linkOf]

theorem World.linkOf_of_update {w w' : World} {b : Answer} {id : String} {m : ℕ}
    {fields : VideoFields} {link : Option String} (hfields : fields.queueJobId = some link)
    (hx : w.answer (.updateVideo id none fields) b = some (w', m)) :
    w'.linkOf v = if v = id then (w.videos.find? id).bind fun _ ↦ link else w.linkOf v := by
  rw [linkOf, (answer_updateVideo hx).1, find?_updateVideo]
  by_cases hid : v = id
  · rw [if_pos hid, if_pos hid]
    cases hrow : w.videos.find? id with
    | none => rfl
    | some row => simp [Video.assign, hfields]
  · rw [if_neg hid, if_neg hid, linkOf]

theorem toString_jobId_inj {m : ℕ} (h : toString m = toString n) : m = n := by
  have hdigits : Nat.toDigits 10 m = Nat.toDigits 10 n := by
    rw [← Nat.toList_repr, ← Nat.toList_repr]
    exact congrArg String.toList h
  calc
    m = Nat.ofDigitChars 10 (Nat.toDigits 10 m) 0 := Nat.ofDigitChars_ten_toDigits.symm
    _ = Nat.ofDigitChars 10 (Nat.toDigits 10 n) 0 := by rw [hdigits]
    _ = n := Nat.ofDigitChars_ten_toDigits

theorem hasRow_of_links (h : Origins past s) (hstep : (system config).step s a = some s')
    (hlinks : Links v n ⟨s, a, s'⟩) : s.state.HasRow v := by
  obtain ⟨i, task, hexec⟩ := hlinks
  obtain ⟨t, hget, -, hallows⟩ := hexec.allows h.conforming hstep
  have hmanaged := h.managed t (List.mem_of_getElem? hget)
  apply h.threads t (List.mem_of_getElem? hget)
  rw [← task_stageOf t] at hmanaged
  have hwrite := hallows.rowWrite hmanaged rfl
  generalize stageOf t = stage at hwrite
  generalize hc : Call.updateVideo v none (queueJobIdFields n) = c at hwrite
  cases hwrite with
  | report job phase hreport => cases hreport <;> simp [queueJobIdFields, failedFields] at hc
  | insert userId dto => cases hc
  | link userId dto videoId jobId =>
      obtain ⟨rfl, -, -⟩ := Call.updateVideo.inj hc
      rfl
  | reset id record => simp [resetFields, queueJobIdFields] at hc
  | relink id record jobId now =>
      obtain ⟨rfl, -, -⟩ := Call.updateVideo.inj hc
      rfl
  | delete id userId videoId => cases hc

theorem linked_of_links (h : Origins past s) (hstep : (system config).step s a = some s')
    (hlinks : Links v n ⟨s, a, s'⟩) : s'.state.linkOf v = some (toString n) := by
  obtain ⟨row, hrow⟩ := hasRow_of_links h hstep hlinks
  obtain ⟨i, task, hexec⟩ := hlinks
  obtain ⟨b, x, hx⟩ := hexec.answer h.conforming hstep
  rw [World.linkOf_of_update rfl hx, if_pos rfl, hrow, Option.bind_some]

theorem unlinked_of_unlinks (h : Origins past s) (hstep : (system config).step s a = some s')
    (hunlinks : Unlinks v n ⟨s, a, s'⟩) : s'.state.linkOf v ≠ some (toString n) := by
  rcases hunlinks with ⟨i, task, hexec⟩ | ⟨m, hne, hlinks⟩
  · obtain ⟨b, x, hx⟩ := hexec.answer h.conforming hstep
    rw [World.linkOf_of_update rfl hx, if_pos rfl]
    simp
  · rw [linked_of_links h hstep hlinks]
    exact fun heq ↦ hne (toString_jobId_inj (Option.some.inj heq))

/-- A row is linked to a job after a step exactly if the step links it, or it was linked
before and the step does not unlink it. -/
theorem linked_step (h : Origins past s) (hstep : (system config).step s a = some s') :
    s'.state.linkOf v = some (toString n) ↔ Links v n ⟨s, a, s'⟩ ∨
      s.state.linkOf v = some (toString n) ∧ ¬Unlinks v n ⟨s, a, s'⟩ := by
  by_cases hlinks : Links v n ⟨s, a, s'⟩
  · exact iff_of_true (linked_of_links h hstep hlinks) (.inl hlinks)
  by_cases hunlinks : Unlinks v n ⟨s, a, s'⟩
  · apply iff_of_false (unlinked_of_unlinks h hstep hunlinks)
    rintro (hl | ⟨-, hu⟩)
    · exact hlinks hl
    · exact hu hunlinks
  suffices hsame : s'.state.linkOf v = s.state.linkOf v by
    simp [hsame, hlinks, hunlinks]
  have hother (m : ℕ) (hlinks' : Links v m ⟨s, a, s'⟩) : False := by
    by_cases hm : m = n
    · exact hlinks (hm ▸ hlinks')
    · exact hunlinks (.inr ⟨m, hm, hlinks'⟩)
  rcases rowWrite_of_step hstep h.conforming h.managed with hvideos |
    ⟨i, f, t, c, b, x, rfl, hf, hget, hpending, hwrite, hx⟩
  · rw [World.linkOf, World.linkOf, hvideos]
  have hexec := executes_of_pending (t := ⟨s, .call i f, s'⟩) rfl hf hget hpending
  have hcirculating := h.circulating t (List.mem_of_getElem? hget)
  rw [← task_stageOf t] at hcirculating
  generalize stageOf t = stage at hwrite hexec hcirculating
  cases hwrite with
  | report job phase hreport =>
      apply World.linkOf_of_silent _ hx
      rw [hreport.reports]
  | insert userId dto =>
      obtain ⟨id, rfl, hfresh, hrows⟩ := World.answer_insertVideo hx
      rw [World.linkOf, World.linkOf, hrows]
      by_cases hid : v = id
      · rw [if_pos hid, hid, hfresh]
        rfl
      · rw [if_neg hid]
  | link userId dto videoId jobId =>
      rw [World.linkOf_of_update rfl hx, if_neg]
      rintro rfl
      exact hother jobId ⟨i, _, hexec⟩
  | reset id record =>
      rw [World.linkOf_of_update rfl hx, if_neg]
      rintro rfl
      exact hunlinks (.inl ⟨i, _, hexec⟩)
  | relink id record jobId now =>
      rw [World.linkOf_of_update rfl hx, if_neg]
      rintro rfl
      exact hother jobId ⟨i, _, hexec⟩
  | delete id userId videoId => exact hcirculating.elim

theorem linked_iff_since {ts : List (Transition State Step)}
    (hrun : Run (system config).step ⟨World.empty, []⟩ ts s)
    (hcirculates : ∀ t ∈ ts, Circulates t.before t.act) (v : String) (n : ℕ) :
    s.state.linkOf v = some (toString n) ↔ Since (Links v n) (Unlinks v n) ts := by
  apply hrun.since_iff fun s ↦ s.state.linkOf v = some (toString n)
  · simp [World.linkOf, World.empty]
  · intro t ht hstep
    obtain ⟨pre, post, rfl, hpre, -⟩ := hrun.exists_prefix ht
    have h := Origins.run hpre fun u hu ↦ hcirculates u (by simp [hu])
    exact linked_step h hstep

/-! ## What a listener has read -/

def Recording.Remembers (ts : List (Transition State Step)) (k : ℕ) (event : VideoFailedEvent) :
    Recording → Prop
  | .reading => ∀ r ∈ ts, ¬ReadsRow k event r
  | .saving video => (∃ r ∈ ts, ReadsRow k event r) ∧ ∀ r ∈ ts, ReadsRow k event r →
      video = r.before.state.videos.find? event.videoId
  | _ => True

theorem saving_of_readsRow (hs : Conforming s) (hstep : (system config).step s a = some s')
    {k : ℕ} {event : VideoFailedEvent} (hreads : ReadsRow k event ⟨s, a, s'⟩) {u : Worker}
    (hget' : s'.threads[k]? = some u) : ∃ t, s.threads[k]? = some t ∧
      stageOf t = .listening event .reading ∧
      stageOf u = .listening event (.saving (s.state.videos.find? event.videoId)) := by
  obtain ⟨b, t, hact, hget, htask, hpending⟩ := hreads
  obtain rfl : a = .call k (.ok b) := hact
  obtain ⟨t₀, u₀, c, r, h⟩ := answered_of_step hstep hs
  obtain rfl := Option.some.inj (hget.symm.trans h.get)
  obtain rfl := Option.some.inj (hget'.symm.trans h.get_self)
  obtain rfl := Option.some.inj (hpending.symm.trans h.pending)
  have hstage : stageOf t = .listening event .reading := by
    have hallows := allows_of_answered h
    rw [← task_stageOf t] at htask
    generalize stageOf t = stage at hallows htask
    cases hallows with
    | listening hallows =>
        obtain rfl := Task.onVideoFailed.inj htask
        cases hallows
        rfl
    | worker hallows => cases htask
    | creating hallows => cases htask
    | retrying hallows => cases htask
    | removing hallows => cases htask
    | service call => cases htask
  refine ⟨t, hget, hstage, ?_⟩
  have hexec : s.state.exec (.selectVideo event.videoId) (.ok b) = some (s'.state, r) := h.exec
  rcases World.exec_cases hexec with ⟨b', x, -, hx, rfl⟩ | ⟨e, hf, -⟩ | ⟨b', e, x, hf, -⟩
  · rw [stageOf_of_answered h, hstage, ← (World.answer_selectVideo hx).2]
    rfl
  · cases hf
  · cases hf

theorem remembers_of_run {w : World} {ts : List (Transition State Step)}
    (hrun : Run (system config).step ⟨w, []⟩ ts s) {k : ℕ} {t : Worker}
    {event : VideoFailedEvent} {recording : Recording} (hget : s.threads[k]? = some t)
    (hstage : stageOf t = .listening event recording) : recording.Remembers ts k event := by
  induction hrun generalizing t recording with
  | nil => simp at hget
  | @snoc ts s s' a head last ih =>
      have hs := run_conforming head
      by_cases hreads : ReadsRow k event ⟨s, a, s'⟩
      · obtain ⟨t₀, hget₀, hstage₀, hsaving⟩ := saving_of_readsRow hs last hreads hget
        obtain ⟨-, rfl⟩ := Stage.listening.inj (hstage.symm.trans hsaving)
        have hnone : ∀ r ∈ ts, ¬ReadsRow k event r := ih hget₀ hstage₀
        refine ⟨⟨_, by simp, hreads⟩, fun r hr hreads' ↦ ?_⟩
        rcases List.mem_append.mp hr with hr | hr
        · exact absurd hreads' (hnone r hr)
        · obtain rfl := List.mem_singleton.mp hr
          rfl
      have hgrow {recording : Recording} (h : recording.Remembers ts k event) :
          recording.Remembers (ts ++ [⟨s, a, s'⟩]) k event := by
        cases recording with
        | reading =>
            intro r hr
            rcases List.mem_append.mp hr with hr | hr
            · exact h r hr
            · rwa [List.mem_singleton.mp hr]
        | saving video =>
            obtain ⟨⟨r₀, hr₀, hreads₀⟩, hall⟩ := h
            refine ⟨⟨r₀, List.mem_append_left _ hr₀, hreads₀⟩, fun r hr hreads' ↦ ?_⟩
            rcases List.mem_append.mp hr with hr | hr
            · exact hall r hr hreads'
            · rw [List.mem_singleton.mp hr] at hreads'
              exact absurd hreads' hreads
        | saved => trivial
        | dropped => trivial
      rcases thread_cases last hs hget with
        ⟨t₀, ht₀, -, -, -, hstage₀, -⟩ | ⟨hle, task, rfl⟩ | ⟨f, t₀, c, r, rfl, h⟩
      · exact hgrow (ih ht₀ (hstage₀ ▸ hstage))
      · rw [stageOf_start] at hstage
        have hrecording : recording = .reading := by
          cases task <;> cases hstage
          rfl
        subst hrecording
        apply hgrow
        rintro r hr ⟨b, u, -, hgetr, -⟩
        have hlt := (List.getElem?_eq_some_iff.mp hgetr).1
        have hmono := Machine.length_le_of_mem head hr
        omega
      · have hallows := allows_of_answered h
        have hnext := stageOf_of_answered h
        have htask := task_stageOf t₀
        rw [hstage] at hnext
        generalize hstage₀ : stageOf t₀ = stage at hallows hnext htask
        cases hallows with
        | listening hallows =>
            obtain ⟨rfl, rfl⟩ := Stage.listening.inj hnext
            cases hallows with
            | read =>
                rcases r with e | video
                · trivial
                · rcases World.exec_cases h.exec with ⟨b, x, rfl, -⟩ | ⟨e, -, -, -, hr⟩ |
                    ⟨b, e, x, -, -, -, hr⟩
                  · exact absurd ⟨b, t₀, rfl, h.get, htask.symm, h.pending⟩ hreads
                  · cases hr
                  · cases hr
            | save video => rcases r with e | x <;> trivial
        | worker hallows => cases hnext
        | creating hallows => cases hnext
        | retrying hallows => cases hnext
        | removing hallows => cases hnext
        | service call => cases hnext

theorem link_of_savesRecord {w : World} {ts : List (Transition State Step)}
    {g : Transition State Step} (hrun : Run (system config).step ⟨w, []⟩ ts g.before)
    (hstep : (system config).step g.before g.act = some g.after) {k : ℕ}
    {event : VideoFailedEvent} {fields : FailedJobFields} (hsaves : SavesRecord k event fields g) :
    (∃ r ∈ ts, ReadsRow k event r) ∧ ∀ r ∈ ts, ReadsRow k event r →
      fields.queueJobId = r.before.state.linkOf event.videoId := by
  obtain ⟨t, hget, htask, hallows⟩ := hsaves.allows (run_conforming hrun) hstep
  generalize hstage : stageOf t = stage at hallows htask
  generalize hc : Call.insertFailedJob fields = c at hallows
  cases hallows with
  | listening hallows =>
      obtain rfl := Task.onVideoFailed.inj htask
      cases hallows with
      | read => cases hc
      | save video =>
          obtain rfl := Call.insertFailedJob.inj hc
          obtain ⟨hexists, hall⟩ := remembers_of_run hrun hget hstage
          refine ⟨hexists, fun r hr hreads ↦ ?_⟩
          rw [World.linkOf, ← hall r hr hreads]
          rfl
  | worker hallows => cases htask
  | creating hallows => cases htask
  | retrying hallows => cases htask
  | removing hallows => cases htask
  | service call => cases htask

/-- Every record names the job that failed exactly if every listener that saves one read its
row between the link to that job and the next reset or link to another job. -/
theorem namesFailedJobs_iff {ts : List (Transition State Step)}
    (hrun : Run (system config).step ⟨World.empty, []⟩ ts s)
    (hcirculates : ∀ t ∈ ts, Circulates t.before t.act) :
    NamesFailedJobs ts ↔ LinkedWhenRead ts := by
  constructor
  · rintro h e he pre r post rfl g hg job event k fields hpublishes hreads hsaves
    have hname := h e he g (by simp [hg]) job event k fields hpublishes hsaves
    obtain ⟨mid, post', rfl⟩ := List.append_of_mem hg
    have hlist : pre ++ r :: (mid ++ g :: post') = pre ++ r :: mid ++ g :: post' := by simp
    obtain ⟨hpre, -, -⟩ := hrun.at_append_cons
    rw [hlist] at hrun
    obtain ⟨hmid, hstep, -⟩ := hrun.at_append_cons
    rw [← linked_iff_since hpre fun t ht ↦ hcirculates t (List.mem_append_left _ ht), ← hname]
    exact ((link_of_savesRecord hmid hstep hsaves).2 r (by simp) hreads).symm
  · rintro h e he g hg job event k fields hpublishes hsaves
    obtain ⟨pre, post, rfl⟩ := List.append_of_mem hg
    obtain ⟨hpre, hstep, -⟩ := hrun.at_append_cons
    obtain ⟨⟨r, hr, hreads⟩, hall⟩ := link_of_savesRecord hpre hstep hsaves
    rw [hall r hr hreads]
    obtain ⟨pre', mid, rfl⟩ := List.append_of_mem hr
    obtain ⟨hpre', -, -⟩ := hpre.at_append_cons
    rw [linked_iff_since hpre' fun t ht ↦ hcirculates t (by simp [ht])]
    exact h e he pre' r (mid ++ g :: post) (by simp) g (by simp) job event k fields hpublishes
      hreads hsaves

end System

/-! ## A link in time and a link too late -/

def Transition.failure? (t : Transition State Step) : Option (Job × VideoFailedEvent × ℕ) :=
  match t.execution? with
  | some (_, .process job, .emit (.failed event)) => some (job, event, t.before.threads.length)
  | _ => none

def Transition.record? (t : Transition State Step) :
    Option (ℕ × VideoFailedEvent × FailedJobFields) :=
  match t.execution? with
  | some (k, .onVideoFailed event, .insertFailedJob fields) => some (k, event, fields)
  | _ => none

theorem failure?_eq_some_iff {t : Transition State Step} {job : Job} {event : VideoFailedEvent}
    {k : ℕ} : t.failure? = some (job, event, k) ↔ PublishesFailure job event k t := by
  constructor
  · intro h
    unfold Transition.failure? at h
    split at h
    · rename_i i job' event' hexec
      simp only [Option.some.injEq, Prod.mk.injEq] at h
      obtain ⟨rfl, rfl, rfl⟩ := h
      exact ⟨rfl, i, execution?_eq_some_iff.mp hexec⟩
    · cases h
  · rintro ⟨rfl, i, hexec⟩
    simp [Transition.failure?, execution?_eq_some_iff.mpr hexec]

theorem record?_eq_some_iff {t : Transition State Step} {k : ℕ} {event : VideoFailedEvent}
    {fields : FailedJobFields} :
    t.record? = some (k, event, fields) ↔ SavesRecord k event fields t := by
  constructor
  · intro h
    unfold Transition.record? at h
    split at h
    · rename_i k' event' fields' hexec
      simp only [Option.some.injEq, Prod.mk.injEq] at h
      obtain ⟨rfl, rfl, rfl⟩ := h
      exact execution?_eq_some_iff.mp hexec
    · cases h
  · intro h
    simp [Transition.record?, execution?_eq_some_iff.mpr h]

theorem namesFailedJobs_iff_observed {ts : List (Transition State Step)} : NamesFailedJobs ts ↔
    ∀ x ∈ ts.filterMap Transition.failure?, ∀ y ∈ ts.filterMap Transition.record?,
      y.1 = x.2.2 → y.2.1 = x.2.1 → y.2.2.queueJobId = some (toString x.1.id) := by
  constructor
  · rintro h ⟨job, event, k⟩ hx ⟨k', event', fields⟩ hy rfl rfl
    obtain ⟨e, he, hpublishes⟩ := List.mem_filterMap.mp hx
    obtain ⟨g, hg, hsaves⟩ := List.mem_filterMap.mp hy
    exact h e he g hg job _ _ fields (failure?_eq_some_iff.mp hpublishes)
      (record?_eq_some_iff.mp hsaves)
  · intro h e he g hg job event k fields hpublishes hsaves
    exact h (job, event, k) (List.mem_filterMap.mpr ⟨e, he, failure?_eq_some_iff.mpr hpublishes⟩)
      (k, event, fields) (List.mem_filterMap.mpr ⟨g, hg, record?_eq_some_iff.mpr hsaves⟩) rfl rfl

/-- The provider rejects the only attempt of the job, which thread `i` makes. -/
def refusedAttempt (i : ℕ) : List Step :=
  .env (.take 1) :: List.replicate 6 (okStep i) ++ [.call i (.ok (.text none))] ++
    List.replicate 4 (okStep i) ++ [.call i (.rejected refusal)] ++ List.replicate 3 (okStep i)

def recordingActs (k : ℕ) : List Step := [okStep k, .call k (.ok (.uuid "record"))]

/-- The job is taken after the row has been linked to it. -/
def linkedActs : List Step := createActs 0 "video" ++ refusedAttempt 1 ++ recordingActs 2

/-- The job is taken and fails before the row has been linked to it. -/
def unlinkedActs : List Step :=
  (createActs 0 "video").take 3 ++ refusedAttempt 1 ++ recordingActs 2 ++
    (createActs 0 "video").drop 3

theorem linkedWhenRead_linked : ∃ (ts : List (Transition State Step)) (s : State),
    Run (system ⟨"bucket", none, "region"⟩).step ⟨World.empty, []⟩ ts s ∧
      (s.state.failedJobs.find? "record").map FailedJob.queueJobId = some (some "1") ∧
      NamesFailedJobs ts ∧ LinkedWhenRead ts := by
  obtain ⟨ts, s, hrun, hacts, hobs⟩ := Run.exists_of_follow
    (system ⟨"bucket", none, "region"⟩).step ⟨World.empty, []⟩ linkedActs
    (fun p ↦ (decide (∀ x ∈ p.1.filterMap Transition.failure?,
        ∀ y ∈ p.1.filterMap Transition.record?, y.1 = x.2.2 → y.2.1 = x.2.1 →
          y.2.2.queueJobId = some (toString x.1.id)),
      decide ((p.2.state.failedJobs.find? "record").map FailedJob.queueJobId = some (some "1"))))
    (true, true) (by decide +kernel)
  have hinvoke : ∀ a ∈ linkedActs, a.InvokesOnly Task.Requested := by decide
  obtain ⟨hnames, hrecord⟩ := Prod.mk.inj hobs
  have hnames := namesFailedJobs_iff_observed.mpr (of_decide_eq_true hnames)
  refine ⟨ts, s, hrun, of_decide_eq_true hrecord, hnames, (namesFailedJobs_iff hrun ?_).mp hnames⟩
  exact fun t ht ↦ circulates_of_requested (hinvoke _ (hacts ▸ List.mem_map_of_mem ht))

def Transition.disturbed (t : Transition State Step) : Bool :=
  match t.act with
  | .crash _ => true
  | .call _ (.ok _) => false
  | .call _ _ => t.call?.any Call.Infrastructure
  | _ => false

theorem orderly_of_undisturbed {p : Task → Prop} {t : Transition State Step}
    (hinvoke : t.act.InvokesOnly fun task ↦ task.Request ∧ p task) (h : t.disturbed = false) :
    Orderly p t.before t.act := by
  refine ⟨hinvoke, ?_, ?_⟩
  · intro i hact
    simp [Transition.disturbed, hact] at h
  · intro i f u c hact hget hpending hc
    cases f with
    | ok b => exact ⟨b, rfl⟩
    | rejected e =>
        simp [Transition.disturbed, Transition.call?, hact, hget, hpending, hc] at h
    | lost b e =>
        simp [Transition.disturbed, Transition.call?, hact, hget, hpending, hc] at h

/-- A record that names no job, without a fault of the infrastructure. -/
theorem nameless_record : ∃ (ts : List (Transition State Step)) (s : State),
    Run (system ⟨"bucket", none, "region"⟩).step ⟨World.empty, []⟩ ts s ∧
      (∀ t ∈ ts, Orderly Task.Requested t.before t.act) ∧
      (s.state.failedJobs.find? "record").map FailedJob.queueJobId = some none ∧
      ¬NamesFailedJobs ts := by
  obtain ⟨ts, s, hrun, hacts, hobs⟩ := Run.exists_of_follow
    (system ⟨"bucket", none, "region"⟩).step ⟨World.empty, []⟩ unlinkedActs
    (fun p ↦ (decide (∀ x ∈ p.1.filterMap Transition.failure?,
        ∀ y ∈ p.1.filterMap Transition.record?, y.1 = x.2.2 → y.2.1 = x.2.1 →
          y.2.2.queueJobId = some (toString x.1.id)),
      p.1.any Transition.disturbed,
      decide ((p.2.state.failedJobs.find? "record").map FailedJob.queueJobId = some none)))
    (false, false, true) (by decide +kernel)
  have hinvoke : ∀ a ∈ unlinkedActs, a.InvokesOnly fun task ↦ task.Request ∧ task.Requested := by
    decide
  obtain ⟨hnames, hrest⟩ := Prod.mk.inj hobs
  obtain ⟨hcalm, hrecord⟩ := Prod.mk.inj hrest
  refine ⟨ts, s, hrun, fun t ht ↦ ?_, of_decide_eq_true hrecord, fun h ↦ ?_⟩
  · apply orderly_of_undisturbed (hinvoke _ (hacts ▸ List.mem_map_of_mem ht))
    simpa using List.any_eq_false.mp hcalm t ht
  · exact of_decide_eq_false hnames (namesFailedJobs_iff_observed.mp h)

end VideoGen
