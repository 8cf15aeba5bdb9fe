import VideoGen.EventStream
import VideoGen.Lib.Evaluation
import VideoGen.RetryCalls

/-!
# The two ways of enqueueing

`createAndQueue` and `retryFailedJob` hand jobs for the same processor to the
same queue, but the options come from different places: the queue that
`VideosModule` registers has no default options, so a new job is tried once,
while a retried job is tried three times.  The two jobs behave alike exactly
when the first attempt does not throw.
-/

namespace VideoGen

/-! ## Enqueueing -/

/-- The video is pending and its job, with these options, waits for the first attempt. -/
structure Enqueued (opts : JobOptions) (videoId : String) (w : World) (q : QueuedJob) : Prop where
  pending : w.statusOf videoId = some .pending
  found : w.queue.find? w.queue.lastId = some q
  name : q.job.name = videoGenerationJob
  data : q.job.data = ⟨videoId⟩
  opts : q.job.opts = opts
  attemptsMade : q.job.attemptsMade = 0
  state : q.state = .waiting

def CreatedBy (videoId : String) (w : World) (q : QueuedJob) : Prop :=
  w.queue.find? w.queue.lastId = some q ∧
    ∃ w₀ userId dto ts video, video.id = videoId ∧
      (createAndQueue userId dto).Evaluates World.exec w₀ ts (.ok video) w

/-- A call of `retryFailedJob` for a record of the video has just returned; the video
exists. -/
def RetriedBy (videoId : String) (w : World) (q : QueuedJob) : Prop :=
  w.queue.find? w.queue.lastId = some q ∧ w.statusOf videoId ≠ none ∧
    ∃ w₀ id ts dto, dto.videoId = videoId ∧
      (retryFailedJob id).Evaluates World.exec w₀ ts (.ok dto) w

/-- The row, if there is one, is pending, and the last job is a new one for the video. -/
structure Leaves (opts : JobOptions) (videoId : String) (w : World) : Prop where
  pending : ∀ status, w.statusOf videoId = some status → status = .pending
  queued : ∃ id, w.queue.find? w.queue.lastId =
    some ⟨⟨id, videoGenerationJob, ⟨videoId⟩, opts, 0⟩, .waiting, 0⟩

theorem Leaves.enqueued {opts : JobOptions} {videoId : String} {w : World} {q : QueuedJob}
    (h : Leaves opts videoId w) (hrow : w.statusOf videoId ≠ none)
    (hq : w.queue.find? w.queue.lastId = some q) : Enqueued opts videoId w q := by
  obtain ⟨status, hstatus⟩ := Option.ne_none_iff_exists'.mp hrow
  obtain rfl := h.pending status hstatus
  obtain ⟨id, hqueued⟩ := h.queued
  obtain rfl := Option.some.inj (hqueued.symm.trans hq)
  exact ⟨hstatus, hq, rfl, rfl, rfl, rfl, rfl⟩

namespace World

variable {w w' : World} {f : Fate}

theorem leaves_update {opts : JobOptions} {videoId id : String} {fields : VideoFields} {n : ℕ}
    (hexec : w.exec (.updateVideo id none fields) f = some (w', .ok n))
    (hstatus : fields.status = none) (h : Leaves opts videoId w) : Leaves opts videoId w' := by
  obtain ⟨-, a, hx⟩ := exec_ok hexec
  obtain ⟨hw, -⟩ := answer_updateVideo hx
  constructor
  · intro status hs
    rw [hw, statusOf_updateVideo] at hs
    split at hs
    · rename_i hid
      rw [hstatus] at hs
      apply h.pending
      simpa [hid] using hs
    · exact h.pending status hs
  · rw [exec_queue hexec rfl]
    exact h.queued

theorem leaves_of_add {opts : JobOptions} {videoId : String} {n : ℕ}
    (hexec : w.exec (.queueAdd videoGenerationJob ⟨videoId⟩ opts) f = some (w', .ok n))
    (hpending : ∀ status, w.statusOf videoId = some status → status = .pending) :
    Leaves opts videoId w' := by
  obtain ⟨-, a, hx⟩ := exec_ok hexec
  obtain ⟨hqueue, -⟩ := answer_queueAdd hx
  constructor
  · unfold statusOf
    rw [exec_videos hexec rfl]
    exact hpending
  · rw [hqueue, Queue.lastId_add, Queue.find?_add, if_pos rfl]
    exact ⟨_, rfl⟩

theorem leaves_of_frame {opts : JobOptions} {videoId : String} (hvideos : w'.videos = w.videos)
    (hqueue : w'.queue = w.queue) (h : Leaves opts videoId w) : Leaves opts videoId w' := by
  constructor
  · unfold statusOf
    rw [hvideos]
    exact h.pending
  · rw [hqueue]
    exact h.queued

end World

abbrev anyFate : Fate → Prop := fun _ ↦ True

theorem leaves_createAndQueue (userId : String) (dto : CreateVideoDto) (w : World) :
    (createAndQueue userId dto).Keeps (Program.environment World.exec anyFate)
      (fun w' r ↦ ∀ video, r = .ok video → w'.statusOf video.id ≠ none ∧
        Leaves (JobOptions.over {} videosModuleJobOptions) video.id w') w := by
  refine Program.keeps_bind.mpr ⟨trivial, ?_⟩
  rintro (e | saved) w₁ ⟨f₁, -, hinsert⟩
  · rintro video ⟨⟩
  obtain ⟨-, a, hx⟩ := World.exec_ok hinsert
  obtain ⟨id, rfl, -, hfind⟩ := World.answer_insertVideo hx
  have hsaved : w₁.statusOf id = some .pending := by
    unfold World.statusOf
    rw [hfind, if_pos rfl]
    rfl
  refine Program.keeps_bind.mpr ⟨trivial, ?_⟩
  rintro (e | jobId) w₂ ⟨f₂, -, hadd⟩
  · rintro video ⟨⟩
  have hleaves : Leaves (JobOptions.over {} videosModuleJobOptions) id w₂ := by
    apply World.leaves_of_add hadd
    intro status hstatus
    exact (Option.some.inj (hsaved.symm.trans hstatus)).symm
  have hrow : w₂.statusOf id ≠ none := by
    unfold World.statusOf at hsaved ⊢
    rw [World.exec_videos hadd rfl, hsaved]
    simp
  refine Program.keeps_bind.mpr ⟨trivial, ?_⟩
  rintro (e | affected) w₃ ⟨f₃, -, hlink⟩
  · rintro video ⟨⟩
  have hleaves₃ := World.leaves_update hlink rfl hleaves
  have hrow₃ : w₃.statusOf id ≠ none := by
    obtain ⟨-, b, hx⟩ := World.exec_ok hlink
    have hlinked : w₃ = (w₂.updateVideo id none (queueJobIdFields jobId)).1 :=
      (World.answer_updateVideo hx).1
    rw [hlinked, World.statusOf_updateVideo, if_pos rfl]
    simpa using hrow
  refine Program.keeps_bind.mpr ⟨trivial, ?_⟩
  rintro (e | x) w₄ ⟨f₄, -, hemit⟩
  · rintro video ⟨⟩
  rintro video ⟨⟩
  constructor
  · unfold World.statusOf at hrow₃ ⊢
    rw [World.exec_videos hemit rfl]
    exact hrow₃
  · exact World.leaves_of_frame (World.exec_videos hemit rfl) (World.exec_queue hemit rfl) hleaves₃

theorem leaves_retryFailedJob (id : String) (w : World) :
    (retryFailedJob id).Keeps (Program.environment World.exec anyFate)
      (fun w' r ↦ ∀ dto, r = .ok dto →
        Leaves (retryJobOptions.over queueModuleJobOptions) dto.videoId w') w := by
  refine Program.keeps_bind.mpr ⟨trivial, ?_⟩
  rintro (e | _ | record) w₁ ⟨f₁, -, hread⟩
  · rintro dto ⟨⟩
  · rintro dto ⟨⟩
  change Program.Keeps _ _ (if record.retried = true then _ else _) _
  split
  · rintro dto ⟨⟩
  refine Program.keeps_bind.mpr ⟨trivial, ?_⟩
  rintro (e | affected) w₂ ⟨f₂, -, hreset⟩
  · rintro dto ⟨⟩
  have hpending : ∀ status, w₂.statusOf record.videoId = some status → status = .pending := by
    intro status hstatus
    obtain ⟨-, a, hx⟩ := World.exec_ok hreset
    rw [(World.answer_updateVideo hx).1, World.statusOf_updateVideo, if_pos rfl] at hstatus
    obtain ⟨before, -, rfl⟩ := Option.map_eq_some_iff.mp hstatus
    rfl
  refine Program.keeps_bind.mpr ⟨trivial, ?_⟩
  rintro (e | jobId) w₃ ⟨f₃, -, hadd⟩
  · rintro dto ⟨⟩
  have hleaves := World.leaves_of_add hadd hpending
  refine Program.keeps_bind.mpr ⟨trivial, ?_⟩
  rintro (e | now) w₄ ⟨f₄, -, hnow⟩
  · rintro dto ⟨⟩
  have hleaves₄ := World.leaves_of_frame (World.exec_videos hnow rfl) (World.exec_queue hnow rfl)
    hleaves
  refine Program.keeps_bind.mpr ⟨trivial, ?_⟩
  rintro (e | linked) w₅ ⟨f₅, -, hlink⟩
  · rintro dto ⟨⟩
  have hleaves₅ := World.leaves_update hlink rfl hleaves₄
  refine Program.keeps_bind.mpr ⟨trivial, ?_⟩
  rintro (e | x) w₆ ⟨f₆, -, hmark⟩
  · rintro dto ⟨⟩
  rintro dto ⟨⟩
  exact World.leaves_of_frame (World.exec_videos hmark rfl) (World.exec_queue hmark rfl) hleaves₅

theorem enqueued_of_created {videoId : String} {w : World} {q : QueuedJob}
    (h : CreatedBy videoId w q) :
    Enqueued (JobOptions.over {} videosModuleJobOptions) videoId w q := by
  obtain ⟨hq, w₀, userId, dto, ts, video, rfl, heval⟩ := h
  obtain ⟨hrow, hleaves⟩ := heval.post (leaves_createAndQueue userId dto w₀)
    (fun _ _ ↦ trivial) video rfl
  exact hleaves.enqueued hrow hq

theorem enqueued_of_retried {videoId : String} {w : World} {q : QueuedJob}
    (h : RetriedBy videoId w q) :
    Enqueued (retryJobOptions.over queueModuleJobOptions) videoId w q := by
  obtain ⟨hq, hrow, w₀, id, ts, dto, rfl, heval⟩ := h
  exact (heval.post (leaves_retryFailedJob id w₀) (fun _ _ ↦ trivial) dto rfl).enqueued hrow hq

/-! ## One attempt after the other -/

structure Attempt where
  steps : List (Transition World Fate)
  result : Except Thrown Unit

def Fate.generation? : Fate → Option GenerateVideoResult
  | .ok (.generation result) => some result
  | _ => none

def generations (steps : List (Transition World Fate)) : List GenerateVideoResult :=
  steps.filterMap fun t ↦ t.act.generation?

/-- How the attempt went: it threw, or it returned after the given answers. -/
def Attempt.outcome (a : Attempt) : Option (List GenerateVideoResult) :=
  match a.result with
  | .ok _ => some (generations a.steps)
  | .error _ => none

/-- The attempts with which a job comes to its end, when nobody else writes the stores. -/
inductive Lifecycle (config : StorageConfig) :
    World → QueuedJob → List Attempt → World → QueuedJob → Prop where
  | settled {w : World} {q : QueuedJob} (hstate : ¬q.state.Live) : Lifecycle config w q [] w q
  | attempt {w w₁ w₂ : World} {q q' : QueuedJob} {steps : List (Transition World Fate)}
      {result : Except Thrown Unit} {attempts : List Attempt}
      (hstate : q.state = .waiting ∨ q.state = .delayed)
      (hrun : (process config q.job).Evaluates World.exec w steps result w₁)
      (hrest : Lifecycle config w₁ (q.settle result) attempts w₂ q') :
      Lifecycle config w q (⟨steps, result⟩ :: attempts) w₂ q'

def extend (trail : List (Option VideoStatus)) (status : Option VideoStatus) :
    List (Option VideoStatus) :=
  if trail.getLast? = some status then trail else trail ++ [status]

def trail (videoId : String) (w : World) (steps : List (Transition World Fate)) :
    List (Option VideoStatus) :=
  steps.foldl (fun trail t ↦ extend trail (t.after.statusOf videoId)) [w.statusOf videoId]

def eventsSince (w w' : World) : List DomainEvent := w'.events.drop w.events.length

/-- As far as both jobs were run, their attempts went the same way. -/
def SameOutcomes (attempts attempts' : List Attempt) : Prop :=
  ∀ p ∈ attempts.zip attempts', p.1.outcome = p.2.outcome

/-! ## An attempt that returns -/

/-- The row has gone through the statuses `earlier` and is now in `status`. -/
structure Shows (videoId : String) (w₀ : World) (past : List (Transition World Fate)) (w : World)
    (earlier : List VideoStatus) (status : VideoStatus) : Prop where
  trail : trail videoId w₀ past = (earlier ++ [status]).map some
  status : w.statusOf videoId = some status

section Shows

variable {videoId : String} {w₀ w w' : World} {past : List (Transition World Fate)} {f : Fate}
  {earlier : List VideoStatus} {status status' : VideoStatus}

theorem trail_append_singleton (t : Transition World Fate) :
    trail videoId w₀ (past ++ [t]) =
      extend (trail videoId w₀ past) (t.after.statusOf videoId) := by
  simp [trail]

theorem Shows.same (h : Shows videoId w₀ past w earlier status)
    (hsame : w'.statusOf videoId = some status) :
    Shows videoId w₀ (past ++ [⟨w, f, w'⟩]) w' earlier status := by
  refine ⟨?_, hsame⟩
  rw [trail_append_singleton, h.trail, hsame]
  simp [extend]

theorem Shows.change (h : Shows videoId w₀ past w earlier status)
    (hstatus : w'.statusOf videoId = some status') (hne : status ≠ status') :
    Shows videoId w₀ (past ++ [⟨w, f, w'⟩]) w' (earlier ++ [status]) status' := by
  refine ⟨?_, hstatus⟩
  rw [trail_append_singleton, h.trail, hstatus]
  simp [extend, hne]

end Shows

/-- The statuses that the row has shown in each phase of an attempt that has not thrown. -/
def Phase.Trails (videoId : String) (w₀ : World) (past : List (Transition World Fate))
    (w : World) : Phase → Prop
  | .fresh => Shows videoId w₀ past w [] .pending
  | .loaded status => status = .pending ∧ Shows videoId w₀ past w [] .pending
  | .skipped => False
  | .working => Shows videoId w₀ past w [.pending] .processing
  | .completed _ _ => Shows videoId w₀ past w [.pending, .processing] .completed
  | .recorded _ _ => Shows videoId w₀ past w [.pending, .processing] .completed
  | .announced _ _ => Shows videoId w₀ past w [.pending, .processing] .completed
  | _ => True

theorem trails_of_quiet {videoId : String} {w₀ w w' : World}
    {past : List (Transition World Fate)} {f : Fate} {phase : Phase}
    (h : phase.Trails videoId w₀ past w) (hsame : w'.videos = w.videos) :
    phase.Trails videoId w₀ (past ++ [⟨w, f, w'⟩]) w' := by
  have hstatus {status : VideoStatus} (hbefore : w.statusOf videoId = some status) :
      w'.statusOf videoId = some status := by
    unfold World.statusOf at hbefore ⊢
    rw [hsame]
    exact hbefore
  cases phase with
  | fresh => exact h.same (hstatus h.status)
  | loaded status => exact ⟨h.1, h.2.same (hstatus h.2.status)⟩
  | skipped => exact h
  | working => exact Shows.same h (hstatus h.status)
  | completed applied event => exact Shows.same h (hstatus h.status)
  | recorded applied event => exact Shows.same h (hstatus h.status)
  | announced applied event => exact Shows.same h (hstatus h.status)
  | _ => trivial

theorem statusOf_of_update {w w' : World} {f : Fate} {videoId : String} {before : VideoStatus}
    {fields : VideoFields} {n : ℕ}
    (hexec : w.exec (.updateVideo videoId (some before) fields) f = some (w', .ok n))
    (hbefore : w.statusOf videoId = some before) :
    n ≠ 0 ∧ w'.statusOf videoId = some (fields.status.getD before) := by
  obtain ⟨-, a, hx⟩ := World.exec_ok hexec
  obtain ⟨hw, hn⟩ := World.answer_updateVideo hx
  constructor
  · obtain ⟨row, hrow, hstatus⟩ := World.statusOf_eq_some_iff.mp hbefore
    rw [hn]
    exact (World.updateVideo_affected _ _ _ _).mpr ⟨row, hrow, by simp [hstatus]⟩
  · rw [hw, World.statusOf_updateVideo, if_pos rfl, hbefore]
    simp

theorem trails_step {job : Job} {w₀ w w' : World} {past : List (Transition World Fate)}
    {phase : Phase} {c : Call} {f : Fate} {r : Except Thrown c.Reply}
    (hallows : WorkerAllows job phase c) (hexec : w.exec c f = some (w', r))
    (h : phase.Trails job.data.videoId w₀ past w) :
    (phase.next c r).Trails job.data.videoId w₀ (past ++ [⟨w, f, w'⟩]) w' := by
  have hquiet (hc : c.WritesVideos = false) :
      phase.Trails job.data.videoId w₀ (past ++ [⟨w, f, w'⟩]) w' :=
    trails_of_quiet h (World.exec_videos hexec hc)
  cases hallows with
  | load =>
      have hfresh : Shows job.data.videoId w₀ (past ++ [⟨w, f, w'⟩]) w' [] .pending := hquiet rfl
      rcases r with e | _ | video
      · trivial
      · trivial
      · obtain ⟨-, a, hx⟩ := World.exec_ok hexec
        obtain ⟨rfl, hvideo⟩ := World.answer_selectVideo hx
        have hstatus : w'.statusOf job.data.videoId = some video.status := by
          unfold World.statusOf
          rw [← hvideo]
          rfl
        exact ⟨Option.some.inj (hstatus.symm.trans hfresh.status), hfresh⟩
  | start status hallowed =>
      obtain ⟨rfl, hshows⟩ := h
      rcases r with e | n
      · trivial
      · obtain ⟨hne, hstatus⟩ := statusOf_of_update hexec hshows.status
        change Phase.Trails _ _ _ _ (if (n : ℕ) = 0 then Phase.skipped else Phase.working)
        rw [if_neg hne]
        exact hshows.change hstatus (by decide)
  | quiet _ hq =>
      have hworking := hquiet (by cases c <;> first | rfl | cases hq)
      rw [Phase.next_quiet hq]
      rcases r with e | x
      · by_cases hcaught : c.Caught = true
        · simpa [hcaught] using hworking
        · simp [hcaught, Phase.Trails]
      · exact hworking
  | progress u =>
      rcases r with e | n
      · trivial
      · obtain ⟨-, hstatus⟩ := statusOf_of_update hexec h.status
        exact Shows.same h hstatus
  | complete url thumbnail hurl =>
      rcases r with e | n
      · trivial
      · obtain ⟨-, hstatus⟩ := statusOf_of_update hexec h.status
        exact Shows.change h hstatus (by decide)
  | stamp applied event => exact hquiet rfl
  | cache applied event key value => exact hquiet rfl
  | record applied event =>
      rcases r with e | x
      · trivial
      · exact hquiet rfl
  | announce applied event => exact hquiet rfl
  | mark _ hphase hfinal message =>
      rw [next_mark hphase]
      cases r <;> trivial
  | evict message key => trivial
  | report message => trivial

theorem answers_next {t : Track} {w w' : World} {c : Call} {f : Fate}
    {r : Except Thrown c.Reply} (h : w.exec c f = some (w', r)) :
    (t.next c r).answers = t.answers ++ f.generation?.toList := by
  rcases World.exec_cases h with ⟨a, x, rfl, hx, rfl⟩ | ⟨e, rfl, -, -, rfl⟩ |
    ⟨a, e, x, rfl, -, -, rfl⟩
  · cases c with
    | insertVideo id fields =>
        cases id <;> cases a <;>
          simp only [World.answer, reduceCtorEq, Option.map_eq_some_iff] at hx <;>
          simp [Track.next, Fate.generation?]
    | generateVideo params videoId =>
        cases a <;> simp only [World.answer, reduceCtorEq, Option.some.injEq, Prod.mk.injEq] at hx
        obtain ⟨-, rfl⟩ := hx
        simp [Track.next, Fate.generation?]
    | getGenerationStatus jobId =>
        cases a <;> simp only [World.answer, reduceCtorEq, Option.some.injEq, Prod.mk.injEq] at hx
        obtain ⟨-, rfl⟩ := hx
        simp [Track.next, Fate.generation?]
    | _ =>
        cases a <;> simp only [World.answer, reduceCtorEq] at hx
        all_goals simp [Track.next, Fate.generation?]
  · cases c <;> simp [Track.next, Fate.generation?]
  · cases c <;> simp [Track.next, Fate.generation?]

theorem events_next {t : Track} {w w' : World} {base : List DomainEvent} {c : Call} {f : Fate}
    {r : Except Thrown c.Reply} (h : w.exec c f = some (w', r))
    (hevents : w.events = base ++ t.events) : w'.events = base ++ (t.next c r).events := by
  rw [Track.next_events]
  cases c with
  | emit event =>
      rcases World.exec_cases h with ⟨a, x, -, hx, -⟩ | ⟨e, -, hc, -⟩ | ⟨a, e, x, -, hc, -⟩
      · rw [World.answer_emit hx, hevents, List.append_assoc]
      · cases hc
      · cases hc
  | _ =>
      rw [World.exec_events h rfl, hevents]
      simp

/-- An attempt that runs alone from a pending row, seen by both automata. -/
structure Goes (job : Job) (w₀ : World) (past : List (Transition World Fate)) (w : World)
    (x : Phase × Track) : Prop where
  trails : x.1.Trails job.data.videoId w₀ past w
  events : w.events = w₀.events ++ x.2.events
  answers : x.2.answers = generations past
  announced : ∀ applied event, x.1 = .announced applied event → x.2.events ≠ []

theorem announced_of_next {job : Job} {phase : Phase} {c : Call} {r : Except Thrown c.Reply}
    (hallows : WorkerAllows job phase c) {applied : Bool} {event : VideoCompletedEvent}
    (h : phase.next c r = .announced applied event) : ∃ e, c = .emit e := by
  cases hallows with
  | load => rcases r with e | _ | video <;> cases h
  | start status hallowed =>
      rcases r with e | n
      · cases h
      · change (if (n : ℕ) = 0 then Phase.skipped else Phase.working) = _ at h
        split at h <;> cases h
  | quiet _ hquiet =>
      rw [Phase.next_quiet hquiet] at h
      rcases r with e | x
      · by_cases hcaught : c.Caught = true <;> simp [hcaught] at h
      · cases h
  | announce applied event => exact ⟨_, rfl⟩
  | mark _ hphase hfinal message =>
      rw [next_mark hphase] at h
      rcases r with e | n <;> cases h
  | report message => exact ⟨_, rfl⟩
  | _ => rcases r with e | n <;> cases h

theorem goes_step {job : Job} {w₀ w w' : World} {past : List (Transition World Fate)}
    {x : Phase × Track} {c : Call} {f : Fate} {r : Except Thrown c.Reply}
    (hallows : WorkerAllows job x.1 c) (hexec : w.exec c f = some (w', r))
    (h : Goes job w₀ past w x) :
    Goes job w₀ (past ++ [⟨w, f, w'⟩]) w' (x.1.next c r, x.2.next c r) where
  trails := trails_step hallows hexec h.trails
  events := events_next hexec h.events
  answers := by
    change (x.2.next c r).answers = _
    rw [answers_next hexec, h.answers]
    unfold generations
    rw [List.filterMap_append]
    congr 1
  announced := by
    intro applied event hnext
    change (x.2.next c r).events ≠ []
    obtain ⟨e, rfl⟩ := announced_of_next hallows hnext
    exact List.append_ne_nil_of_right_ne_nil _ (List.cons_ne_nil e [])

/-- An attempt that returns on a pending row took it through all three statuses and emitted
what the provider's answers say. -/
theorem returned_attempt {config : StorageConfig} {job : Job} {w w' : World}
    {steps : List (Transition World Fate)} (hname : job.name = videoGenerationJob)
    (hpending : w.statusOf job.data.videoId = some .pending)
    (heval : (process config job).Evaluates World.exec w steps (.ok ()) w') :
    trail job.data.videoId w steps = [some .pending, some .processing, some .completed] ∧
      eventsSince w w' = completionEvents config job (generations steps) := by
  have hkeeps := (show (process config job).Keeps (workerProtocol job).spec (Phase.Ends job) .fresh from
    keeps_process).prod tracks_process
  have hstart : Goes job w [] w (.fresh, {}) := by
    constructor
    · exact ⟨by simp [trail, hpending], hpending⟩
    · simp
    · rfl
    · intro applied event h
      cases h
  obtain ⟨⟨phase, t⟩, ⟨hends, htrack⟩, hgoes⟩ := heval.invariant
    ((workerProtocol job).prod (trackProtocol job)) (Goes job w)
    (fun past s q c f s₁ x hallows hexec hinv ↦
      ⟨⟨World.possible_of_exec hexec, World.possible_of_exec hexec⟩,
        goes_step hallows.1 hexec hinv⟩) hkeeps hstart
  rw [List.nil_append] at hgoes
  have htrails := hgoes.trails
  cases phase with
  | fresh => exact absurd hname hends
  | loaded status =>
      obtain ⟨rfl, -⟩ := htrails
      exact absurd (by decide) hends
  | skipped => exact htrails.elim
  | announced applied event =>
      refine ⟨htrails.trail, ?_⟩
      rcases htrack with hnone | hevents
      · exact absurd hnone (hgoes.announced applied event rfl)
      · have hall : w'.events = w.events ++ t.events := hgoes.events
        have hanswers : t.answers = generations steps := hgoes.answers
        rw [eventsSince, hall, List.drop_left, hevents, hanswers]
  | _ => exact hends.elim

/-! ## Both ways compared -/

structure BehavesAlike (videoId : String) (w w' w₁ w₁' : World)
    (attempts attempts' : List Attempt) : Prop where
  count : attempts.length = attempts'.length
  statuses : trail videoId w (attempts.flatMap Attempt.steps) =
    trail videoId w' (attempts'.flatMap Attempt.steps)
  events : eventsSince w w₁ = eventsSince w' w₁'

theorem completionEvents_congr {config : StorageConfig} {job job' : Job}
    (hdata : job.data = job'.data) (hmade : job.attemptsMade = job'.attemptsMade)
    (answers : List GenerateVideoResult) :
    completionEvents config job answers = completionEvents config job' answers := by
  unfold completionEvents pollEvents storedUrl
  rw [hdata, hmade]

theorem Lifecycle.first {config : StorageConfig} {w w' : World} {q q' : QueuedJob}
    {attempts : List Attempt} (h : Lifecycle config w q attempts w' q')
    (hwaiting : q.state = .waiting) : ∃ steps result rest w₁,
      attempts = ⟨steps, result⟩ :: rest ∧
      (process config q.job).Evaluates World.exec w steps result w₁ ∧
      Lifecycle config w₁ (q.settle result) rest w' q' := by
  cases h with
  | settled hstate =>
      rw [hwaiting] at hstate
      exact absurd trivial hstate
  | attempt hstate hrun hrest => exact ⟨_, _, _, _, rfl, hrun, hrest⟩

theorem Lifecycle.over {config : StorageConfig} {w w' : World} {q q' : QueuedJob}
    {attempts : List Attempt} (h : Lifecycle config w q attempts w' q')
    (hstate : ¬q.state.Live) : attempts = [] ∧ w' = w := by
  cases h with
  | settled _ => exact ⟨rfl, rfl⟩
  | attempt hlive hrun hrest =>
      rcases hlive with hlive | hlive
      · rw [hlive] at hstate
        exact absurd trivial hstate
      · rw [hlive] at hstate
        exact absurd trivial hstate

/-- For attempts that go the same way, a created and a retried video behave alike exactly
when the first attempt does not throw. -/
theorem behaves_alike_iff {config : StorageConfig} {videoId : String} {w w' w₁ w₁' : World}
    {q q' q₁ q₁' : QueuedJob} {attempts attempts' : List Attempt}
    (hcreated : CreatedBy videoId w q) (hretried : RetriedBy videoId w' q')
    (hlife : Lifecycle config w q attempts w₁ q₁)
    (hlife' : Lifecycle config w' q' attempts' w₁' q₁')
    (hsame : SameOutcomes attempts attempts') :
    BehavesAlike videoId w w' w₁ w₁' attempts attempts' ↔
      ∀ a ∈ attempts.head?, a.outcome ≠ none := by
  have hnew := enqueued_of_created hcreated
  have hagain := enqueued_of_retried hretried
  obtain ⟨steps, result, rest, v, rfl, heval, hrest⟩ := hlife.first hnew.state
  obtain ⟨steps', result', rest', v', rfl, heval', hrest'⟩ := hlife'.first hagain.state
  have hfirst : Attempt.outcome ⟨steps, result⟩ = Attempt.outcome ⟨steps', result'⟩ :=
    hsame (⟨steps, result⟩, ⟨steps', result'⟩) (by simp)
  have hhead : (∀ a ∈ (Attempt.mk steps result :: rest).head?, a.outcome ≠ none) ↔
      Attempt.outcome ⟨steps, result⟩ ≠ none := by simp
  rw [hhead]
  cases result with
  | error e =>
      cases result' with
      | ok x => cases hfirst
      | error e' =>
          refine iff_of_false ?_ fun h ↦ h rfl
          intro halike
          -- The created job has no attempt left, the retried one has.
          have honce : q.job.maxAttempts = 1 := by
            unfold Job.maxAttempts
            rw [hnew.opts]
            rfl
          have hthree : q'.job.maxAttempts = 3 := by
            unfold Job.maxAttempts
            rw [hagain.opts]
            rfl
          have hover : rest = [] := by
            refine (hrest.over ?_).1
            have hnot : ¬q.job.Retryable := by
              unfold Job.Retryable
              omega
            simp [QueuedJob.settle, hnot, JobState.Live]
          have hlive : rest' ≠ [] := by
            rintro rfl
            have hretry : q'.job.Retryable := by
              unfold Job.Retryable
              rw [hagain.attemptsMade]
              omega
            cases hrest' with
            | settled hstate =>
                apply hstate
                simp only [QueuedJob.settle, if_pos hretry]
                split <;> trivial
          have hlength := halike.count
          have hpositive := List.length_pos_iff.mpr hlive
          rw [hover, List.length_singleton, List.length_cons] at hlength
          omega
  | ok x =>
      cases result' with
      | error e => cases hfirst
      | ok x' =>
          have hanswers : generations steps = generations steps' := Option.some.inj hfirst
          refine iff_of_true ?_ (Option.some_ne_none _)
          obtain ⟨rfl, rfl⟩ := hrest.over fun h ↦ h
          obtain ⟨rfl, rfl⟩ := hrest'.over fun h ↦ h
          have hvideo : q.job.data.videoId = videoId := congrArg _ hnew.data
          have hvideo' : q'.job.data.videoId = videoId := congrArg _ hagain.data
          obtain ⟨htrail, hevents⟩ := returned_attempt hnew.name
            (hvideo.symm ▸ hnew.pending) heval
          obtain ⟨htrail', hevents'⟩ := returned_attempt hagain.name
            (hvideo'.symm ▸ hagain.pending) heval'
          rw [hvideo] at htrail
          rw [hvideo'] at htrail'
          constructor
          · rfl
          · rw [List.flatMap_singleton, List.flatMap_singleton, htrail, htrail']
          · rw [hevents, hevents', hanswers]
            apply completionEvents_congr
            · rw [hnew.data, hagain.data]
            · rw [hnew.attemptsMade, hagain.attemptsMade]

/-! ## Concrete jobs -/

def outcomeOf (fates : List Fate) : Except Thrown Unit → Option (List GenerateVideoResult)
  | .ok _ => some (fates.filterMap Fate.generation?)
  | .error _ => none

def runAttempts (config : StorageConfig) : World → QueuedJob → List (List Fate) →
    Option (World × List (Option (List GenerateVideoResult)))
  | w, q, [] => if q.state.Live then none else some (w, [])
  | w, q, fates :: rest =>
      if q.state = .waiting ∨ q.state = .delayed then
        match (process config q.job).evalAll World.exec w fates with
        | some (w₁, result) => (runAttempts config w₁ (q.settle result) rest).map fun p ↦
            (p.1, outcomeOf fates result :: p.2)
        | none => none
      else none

theorem lifecycle_of_runAttempts {config : StorageConfig} {script : List (List Fate)}
    {w w' : World} {q : QueuedJob} {outcomes : List (Option (List GenerateVideoResult))}
    (h : runAttempts config w q script = some (w', outcomes)) :
    ∃ attempts q', Lifecycle config w q attempts w' q' ∧
      attempts.map Attempt.outcome = outcomes := by
  induction script generalizing w q outcomes with
  | nil =>
      obtain ⟨hstate, heq⟩ := Option.ite_none_left_eq_some.mp h
      obtain ⟨rfl, rfl⟩ := Prod.mk.inj (Option.some.inj heq)
      exact ⟨[], q, .settled hstate, rfl⟩
  | cons fates rest ih =>
      obtain ⟨hstate, h⟩ := Option.ite_none_right_eq_some.mp h
      split at h
      · rename_i w₁ result heval
        obtain ⟨⟨w₂, later⟩, hrest, heq⟩ := Option.map_eq_some_iff.mp h
        obtain ⟨rfl, rfl⟩ := Prod.mk.inj heq
        obtain ⟨attempts, q', hlife, hlater⟩ := ih hrest
        obtain ⟨steps, hsteps, hacts⟩ := Program.evaluates_of_evalAll heval
        refine ⟨⟨steps, result⟩ :: attempts, q', .attempt hstate hsteps hlife, ?_⟩
        rw [List.map_cons, hlater, ← hacts]
        cases result with
        | ok x => simp [Attempt.outcome, outcomeOf, generations, List.filterMap_map]
        | error e => rfl
      · cases h

theorem sameOutcomes_of_first {attempts attempts' : List Attempt}
    {outcome : Option (List GenerateVideoResult)}
    {later : List (Option (List GenerateVideoResult))}
    (h : attempts.map Attempt.outcome = [outcome])
    (h' : attempts'.map Attempt.outcome = outcome :: later) : SameOutcomes attempts attempts' := by
  obtain ⟨a, rest, rfl, ha, hrest⟩ := List.map_eq_cons_iff.mp h
  obtain ⟨b, rest', rfl, hb, -⟩ := List.map_eq_cons_iff.mp h'
  obtain rfl := List.map_eq_nil_iff.mp hrest
  intro p hp
  obtain rfl : p = (a, b) := by simpa using hp
  exact ha.trans hb.symm

/-- Enqueue the video "video" with the program and run its job through the scripted attempts:
the outcomes, and the status of the row before and after the attempts. -/
def outcomesAfter {α : Type} (p : Prog α) (videoIdOf : α → String) (w₀ : World)
    (fates : List Fate) (script : List (List Fate)) :
    Option (List (Option (List GenerateVideoResult)) × Option VideoStatus × Option VideoStatus) :=
  match p.evalAll World.exec w₀ fates with
  | some (w, .ok x) =>
      match w.queue.find? w.queue.lastId with
      | some q =>
          match runAttempts ⟨"bucket", none, "region"⟩ w q script with
          | some (w', outcomes) => if videoIdOf x = "video" then
              some (outcomes, w.statusOf "video", w'.statusOf "video") else none
          | none => none
      | none => none
  | _ => none

theorem lifecycle_of_outcomesAfter {α : Type} {p : Prog α} {videoIdOf : α → String}
    {w₀ : World} {fates : List Fate} {script : List (List Fate)}
    {outcomes : List (Option (List GenerateVideoResult))} {before after : Option VideoStatus}
    (h : outcomesAfter p videoIdOf w₀ fates script = some (outcomes, before, after)) :
    ∃ ts x w q attempts w' q', p.Evaluates World.exec w₀ ts (.ok x) w ∧ videoIdOf x = "video" ∧
      w.queue.find? w.queue.lastId = some q ∧
      Lifecycle ⟨"bucket", none, "region"⟩ w q attempts w' q' ∧
      attempts.map Attempt.outcome = outcomes ∧ w.statusOf "video" = before ∧
      w'.statusOf "video" = after := by
  unfold outcomesAfter at h
  split at h
  · rename_i w x heval
    split at h
    · rename_i q hq
      split at h
      · rename_i w' outcomes' hrun
        obtain ⟨hvideo, heq⟩ := Option.ite_none_right_eq_some.mp h
        simp only [Option.some.injEq, Prod.mk.injEq] at heq
        obtain ⟨rfl, hbefore, hafter⟩ := heq
        obtain ⟨attempts, q', hlife, houtcomes⟩ := lifecycle_of_runAttempts hrun
        obtain ⟨ts, hts, -⟩ := Program.evaluates_of_evalAll heval
        exact ⟨ts, x, w, q, attempts, w', q', hts, hvideo, hq, hlife, houtcomes, hbefore, hafter⟩
      · cases h
    · cases h
  · cases h

def createVideo : Prog Video :=
  createAndQueue "user" ⟨"title", "prompt", none, none, none, none, none⟩

def createFates : List Fate := [.ok (.uuid "video"), .ok .unit, .ok .unit, .ok .unit]

/-- An attempt that cannot read the row; the last one also marks and announces the failure. -/
def unreadable : List Fate := [.rejected (.instance .error "connection")]

def unreadableLast : List Fate := unreadable ++ List.replicate 3 (.ok .unit)

def completing : List Fate :=
  (completingActs 0 ++ List.replicate 2 (okStep 0)).filterMap fun a ↦
    match a with
    | .call _ f => some f
    | _ => none

def onePoll : List GenerateVideoResult :=
  [{ jobId := "job", status := .processing },
    { jobId := "job", status := .completed, videoUrl := some "url", alreadyStored := some true }]

theorem created_completes : outcomesAfter createVideo Video.id World.empty createFates
    [completing] = some ([some onePoll], some .pending, some .completed) := by
  decide +kernel

theorem retried_completes : outcomesAfter (retryFailedJob "record") RetryFailedJobDto.videoId
    failedWorld (List.replicate 6 (.ok .unit)) [completing] =
      some ([some onePoll], some .pending, some .completed) := by
  decide +kernel

theorem created_fails_once : outcomesAfter createVideo Video.id World.empty createFates
    [unreadableLast] = some ([none], some .pending, some .failed) := by
  decide +kernel

theorem retried_fails_thrice : outcomesAfter (retryFailedJob "record")
    RetryFailedJobDto.videoId failedWorld (List.replicate 6 (.ok .unit))
    [unreadable, unreadable, unreadableLast] =
      some ([none, none, none], some .pending, some .failed) := by
  decide +kernel

theorem behaves_alike_completed : ∃ (w w' w₁ w₁' : World) (q q' q₁ q₁' : QueuedJob)
    (attempts attempts' : List Attempt), CreatedBy "video" w q ∧ RetriedBy "video" w' q' ∧
      Lifecycle ⟨"bucket", none, "region"⟩ w q attempts w₁ q₁ ∧
      Lifecycle ⟨"bucket", none, "region"⟩ w' q' attempts' w₁' q₁' ∧
      BehavesAlike "video" w w' w₁ w₁' attempts attempts' := by
  obtain ⟨ts, video, w, q, attempts, w₁, q₁, heval, hvideo, hq, hlife, houtcomes, -, -⟩ :=
    lifecycle_of_outcomesAfter created_completes
  obtain ⟨ts', dto, w', q', attempts', w₁', q₁', heval', hdto, hq', hlife', houtcomes', hrow, -⟩ :=
    lifecycle_of_outcomesAfter retried_completes
  have hcreated : CreatedBy "video" w q := ⟨hq, _, _, _, ts, video, hvideo, heval⟩
  have hretried : RetriedBy "video" w' q' :=
    ⟨hq', by rw [hrow]; simp, _, _, ts', dto, hdto, heval'⟩
  refine ⟨w, w', w₁, w₁', q, q', q₁, q₁', attempts, attempts', hcreated, hretried, hlife, hlife',
    (behaves_alike_iff hcreated hretried hlife hlife'
      (sameOutcomes_of_first houtcomes houtcomes')).mpr ?_⟩
  intro a ha
  obtain ⟨b, rest, rfl, hb, -⟩ := List.map_eq_cons_iff.mp houtcomes
  obtain rfl : b = a := by simpa using ha
  rw [hb]
  simp

/-- When every attempt throws, the created video has failed after one of them and the
retried one after three. -/
theorem created_not_retried : ∃ (w w' w₁ w₁' : World) (q q' q₁ q₁' : QueuedJob)
    (attempts attempts' : List Attempt), CreatedBy "video" w q ∧ RetriedBy "video" w' q' ∧
      Lifecycle ⟨"bucket", none, "region"⟩ w q attempts w₁ q₁ ∧
      Lifecycle ⟨"bucket", none, "region"⟩ w' q' attempts' w₁' q₁' ∧
      SameOutcomes attempts attempts' ∧ attempts.length = 1 ∧ attempts'.length = 3 ∧
      w₁.statusOf "video" = some .failed ∧
      ¬BehavesAlike "video" w w' w₁ w₁' attempts attempts' := by
  obtain ⟨ts, video, w, q, attempts, w₁, q₁, heval, hvideo, hq, hlife, houtcomes, -, hfailed⟩ :=
    lifecycle_of_outcomesAfter created_fails_once
  obtain ⟨ts', dto, w', q', attempts', w₁', q₁', heval', hdto, hq', hlife', houtcomes', hrow, -⟩ :=
    lifecycle_of_outcomesAfter retried_fails_thrice
  have hone : attempts.length = 1 := by simpa using congrArg List.length houtcomes
  have hthree : attempts'.length = 3 := by simpa using congrArg List.length houtcomes'
  refine ⟨w, w', w₁, w₁', q, q', q₁, q₁', attempts, attempts',
    ⟨hq, _, _, _, ts, video, hvideo, heval⟩,
    ⟨hq', by rw [hrow]; simp, _, _, ts', dto, hdto, heval'⟩, hlife, hlife',
    sameOutcomes_of_first houtcomes houtcomes', hone, hthree, hfailed, ?_⟩
  intro halike
  have hcount := halike.count
  omega

end VideoGen
