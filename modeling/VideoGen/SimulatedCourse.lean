import VideoGen.Deployment

/-!
# The course of an execution with the simulated provider

The simulator accepts every job, and it completes the job by the thirtieth poll.
With such answers an execution announces its video or is hindered by a store; it
downloads nothing and stores nothing.
-/

namespace VideoGen

open FakeVideoProvider (jobName completed notFound processing buildVideoUrl buildThumbnailUrl)

/-! ## What an execution does with the answers -/

/-- How far an execution has come. -/
structure Course where
  /-- The job that the simulator has accepted. -/
  jobId : Option String := none
  polls : ℕ := 0
  /-- The pause before the next poll is over. -/
  paused : Bool := false
  /-- The simulator has completed the job. -/
  rendered : Bool := false
  announced : Option VideoCompletedEvent := none
  /-- A call to the stores was rejected, or the row is gone. -/
  hindered : Bool := false

def simulatedEvent (videoId : String) : VideoCompletedEvent where
  videoId := videoId
  videoUrl := buildVideoUrl videoId
  thumbnailUrl := some (buildThumbnailUrl videoId)

namespace Course

def next (x : Course) : (c : Call) → Except Thrown c.Reply → Course
  | .generateVideo _ _, .ok (result : GenerateVideoResult) => { x with jobId := some result.jobId }
  | .getGenerationStatus _, .ok (result : GenerateVideoResult) =>
      { x with polls := x.polls + 1, paused := false, rendered := result.videoUrl.isSome }
  | .setTimeout _, .ok _ => { x with paused := true }
  | .emit (.completed event), .ok _ => { x with announced := some event }
  | .selectVideo _, .ok none => { x with hindered := true }
  | c, .error _ => { x with hindered := x.hindered || c.Infrastructure }
  | _, _ => x

/-- Nothing is downloaded or stored, and nothing fails unless something hinders it. -/
def Admits (job : Job) (x : Course) : Call → Prop
  | .generateVideo _ videoId => videoId = job.data.videoId ∧ x = {}
  | .getGenerationStatus jobId => x.jobId = some jobId ∧ x.paused = true ∧ x.rendered = false
  | .setTimeout ms => x.jobId.isSome = true ∧ x.rendered = false ∧ ms = 10000
  | .updateVideo videoId _ fields =>
      fields.status = some .failed → videoId = job.data.videoId ∧ x.hindered = true
  | .emit (.failed event) => event.videoId = job.data.videoId ∧ x.hindered = true
  | .emit (.completed event) => x.rendered = true ∧ event = simulatedEvent job.data.videoId
  | .httpsGet _ => False
  | .s3Put _ _ _ => False
  | _ => True

/-- The simulator accepts every job, and it completes the job by the thirtieth poll. -/
def Answered (job : Job) (x : Course) : (c : Call) → Except Thrown c.Reply → Prop
  | .generateVideo _ _, r => ∃ result : GenerateVideoResult, r = .ok result ∧
      result.status = .processing
  | .getGenerationStatus jobId, r =>
      (r = .ok (processing jobId) ∧ x.polls + 1 < maxPollAttempts) ∨
        r = .ok (completed jobId job.data.videoId)
  | c, r => c.Possible r

/-- An execution that returns has not submitted anything or has announced its video; what is
thrown comes from the stores. -/
def Ends (job : Job) (x : Course) : Except Thrown Unit → Prop
  | .ok _ => x.jobId = none ∨ x.announced = some (simulatedEvent job.data.videoId)
  | .error _ => x.hindered = true

end Course

def courseSpec (job : Job) : Spec interface Course where
  Allows := Course.Admits job
  Moves x c r x' := x.Answered job c r ∧ x' = x.next c r

section Conformance

variable {config : StorageConfig} {job : Job} {x : Course} {α β : Type}

abbrev Takes (job : Job) (p : Prog α) (Post : Course → Except Thrown α → Prop) (x : Course) :
    Prop := p.Keeps (courseSpec job) Post x

/-- The program returns and leaves the course as it is, or it throws and is hindered. -/
def Steady (job : Job) (p : Prog α) : Prop := ∀ x, Takes job p (fun x' r ↦
  (∃ a, r = .ok a ∧ x' = x) ∨ ∃ e, r = .error e ∧ x' = { x with hindered := true }) x

theorem takes_ask {c : Call} {Post : Course → Except Thrown c.Reply → Prop} :
    Takes job (ask c) Post x ↔
      x.Admits job c ∧ ∀ r, x.Answered job c r → Post (x.next c r) r := by
  constructor
  · intro h
    exact ⟨h.1, fun r hr ↦ h.2 r _ ⟨hr, rfl⟩⟩
  · intro h
    refine ⟨h.1, ?_⟩
    rintro r x' ⟨hr, rfl⟩
    exact h.2 r hr

def Call.Routine : Call → Bool
  | .updateVideo _ _ fields => fields.status ≠ some .failed
  | .redisSetLater _ _ => true
  | .dateNow => true
  | .jobUpdateProgress _ _ => true
  | .emit (.processingStarted _ _) => true
  | .emit (.progressUpdated _ _ _) => true
  | _ => false

theorem infrastructure_of_routine {c : Call} (hc : c.Routine = true) : c.Infrastructure = true := by
  cases c <;> first | rfl | cases hc

theorem Course.next_error (c : Call) (e : Thrown) :
    x.next c (.error e) = { x with hindered := x.hindered || c.Infrastructure } := by
  cases c with
  | emit event => cases event <;> rfl
  | _ => rfl

theorem steady_ask {c : Call} (hc : c.Routine = true) : Steady job (ask c) := by
  intro x
  refine takes_ask.mpr ⟨?_, fun r _ ↦ ?_⟩
  · cases c with
    | updateVideo videoId expected fields =>
        intro hfailed
        simp [Call.Routine, hfailed] at hc
    | emit event =>
        cases event with
        | processingStarted videoId attempt => trivial
        | progressUpdated videoId percent message => trivial
        | _ => cases hc
    | _ => trivial
  · cases r with
    | ok a =>
        refine .inl ⟨a, rfl, ?_⟩
        cases c with
        | emit event =>
            cases event with
            | processingStarted videoId attempt => rfl
            | progressUpdated videoId percent message => rfl
            | _ => cases hc
        | _ => first | rfl | cases hc
    | error e =>
        refine .inr ⟨e, rfl, ?_⟩
        rw [Course.next_error, infrastructure_of_routine hc, Bool.or_true]

theorem steady_pure (a : α) : Steady job (pure a : Prog α) := fun _ ↦ .inl ⟨a, rfl, rfl⟩

theorem Steady.then {p : Prog α} {f : α → Prog β} {Post : Course → Except Thrown β → Prop}
    (hp : Steady job p) (hf : ∀ a, Takes job (f a) Post x)
    (he : ∀ e, Post { x with hindered := true } (.error e)) : Takes job (p >>= f) Post x := by
  refine Program.keeps_bind.mpr (Program.Keeps.mono ?_ (hp x))
  rintro x' r (⟨a, rfl, rfl⟩ | ⟨e, rfl, rfl⟩)
  · exact hf a
  · exact he e

theorem Steady.bind {p : Prog α} {f : α → Prog β} (hp : Steady job p)
    (hf : ∀ a, Steady job (f a)) : Steady job (p >>= f) := fun x ↦
  hp.then (fun a ↦ hf a x) fun e ↦ .inr ⟨e, rfl, rfl⟩

theorem steady_writeCache (videoId : String) (status : VideoStatus) (progress message : JsValue) :
    Steady job (writeCache videoId status progress message) :=
  (steady_ask rfl).bind fun _ ↦ steady_ask rfl

theorem steady_updateProgress (videoId : String) (percent : ℤ) (message : String)
    (additionalMeta : JsObject) :
    Steady job (updateProgress videoId percent message additionalMeta) :=
  (steady_ask rfl).bind fun _ ↦ steady_writeCache _ _ _ _

theorem steady_transitionStatus (videoId : String) (expectedStatus newStatus : VideoStatus)
    (extra : TransitionExtra) (hnew : newStatus ≠ .failed) :
    Steady job (transitionStatus videoId expectedStatus newStatus extra) := by
  unfold transitionStatus
  split
  · refine (steady_ask ?_).bind fun affected ↦ ?_
    · simpa [Call.Routine, TransitionExtra.fields] using hnew
    split
    · exact steady_pure false
    · exact (steady_writeCache _ _ _ _).bind fun _ ↦ steady_pure true
  · exact steady_pure false

theorem steady_findById (videoId : String) : Steady job (findById videoId) := by
  intro x
  refine Program.keeps_bind.mpr (takes_ask.mpr ⟨trivial, ?_⟩)
  rintro (e | row) -
  · exact .inr ⟨e, rfl, (Course.next_error (.selectVideo videoId) e).trans
      (by simp [Call.Infrastructure])⟩
  · cases row with
    | none => exact .inr ⟨_, rfl, rfl⟩
    | some video => exact .inl ⟨video, rfl, rfl⟩

theorem steady_enhancePrompt (prompt : String) : Steady job (enhancePrompt prompt) := by
  intro x
  refine Program.keeps_catchWith.mpr (Program.keeps_bind.mpr (takes_ask.mpr ⟨trivial, ?_⟩))
  rintro (e | content) -
  · exact .inl ⟨prompt, rfl, (Course.next_error (.chatCompletion prompt) e).trans
      (by simp [Call.Infrastructure])⟩
  · exact .inl ⟨_, rfl, rfl⟩

/-! ### The polling loop -/

def polling (jobId : String) (polls : ℕ) : Course := { jobId := some jobId, polls := polls }

theorem buildVideoUrl_ne_empty (videoId : String) : buildVideoUrl videoId ≠ "" := by
  intro h
  exact absurd (String.append_eq_empty_iff.mp h).2 (by decide)

theorem truthy_completed (jobId videoId : String) :
    truthy (completed jobId videoId).videoUrl = some (buildVideoUrl videoId) := by
  change (if buildVideoUrl videoId = "" then none else some (buildVideoUrl videoId)) = _
  rw [if_neg (buildVideoUrl_ne_empty videoId)]

theorem takes_finishGeneration (jobId : String) (polls : ℕ) :
    Takes job (finishGeneration config job (completed jobId job.data.videoId)
      (buildVideoUrl job.data.videoId)) (Course.Ends job)
      { polling jobId polls with rendered := true } := by
  have hstored : storeVideo config job (completed jobId job.data.videoId)
      (buildVideoUrl job.data.videoId) = pure (buildVideoUrl job.data.videoId) := if_pos rfl
  unfold finishGeneration
  rw [hstored]
  refine (steady_transitionStatus _ _ _ _ VideoStatus.noConfusion).then (fun _ ↦ ?_) fun _ ↦ rfl
  refine (steady_ask rfl).then (fun _ ↦ ?_) fun _ ↦ rfl
  refine takes_ask.mpr ⟨⟨rfl, rfl⟩, ?_⟩
  rintro (e | a) hanswered
  · cases hanswered
  · exact .inr rfl

theorem takes_pollLoop (jobId : String) (remaining polls : ℕ)
    (hpolls : polls + remaining = maxPollAttempts) (hfew : polls < maxPollAttempts) :
    Takes job (pollLoop config job jobId .processing polls remaining) (Course.Ends job)
      (polling jobId polls) := by
  induction remaining generalizing polls with
  | zero => omega
  | succ remaining ih =>
      unfold pollLoop
      rw [if_pos rfl]
      refine Program.keeps_bind.mpr (takes_ask.mpr ⟨⟨rfl, rfl, rfl⟩, ?_⟩)
      rintro (e | a) hanswered
      · cases hanswered
      refine Program.keeps_bind.mpr (takes_ask.mpr ⟨⟨rfl, rfl, rfl⟩, ?_⟩)
      rintro r (⟨rfl, hmore⟩ | rfl)
      · refine (steady_updateProgress _ _ _ _).then (fun _ ↦ ?_) fun _ ↦ rfl
        refine (steady_ask rfl).then (fun _ ↦ ?_) fun _ ↦ rfl
        refine (steady_ask rfl).then (fun _ ↦ ?_) fun _ ↦ rfl
        exact ih (polls + 1) (by omega) hmore
      · refine (steady_updateProgress _ _ _ _).then (fun _ ↦ ?_) fun _ ↦ rfl
        refine (steady_ask rfl).then (fun _ ↦ ?_) fun _ ↦ rfl
        refine (steady_ask rfl).then (fun _ ↦ ?_) fun _ ↦ rfl
        rw [truthy_completed]
        exact takes_finishGeneration jobId (polls + 1)

theorem takes_generate (video : Video) :
    Takes job (generate config job video) (Course.Ends job) {} := by
  refine (steady_ask rfl).then (fun _ ↦ ?_) fun _ ↦ rfl
  refine (steady_ask rfl).then (fun _ ↦ ?_) fun _ ↦ rfl
  refine (steady_enhancePrompt video.prompt).then (fun prompt ↦ ?_) fun _ ↦ rfl
  refine (steady_updateProgress _ _ _ _).then (fun _ ↦ ?_) fun _ ↦ rfl
  refine (steady_ask rfl).then (fun _ ↦ ?_) fun _ ↦ rfl
  refine Program.keeps_bind.mpr (takes_ask.mpr ⟨⟨rfl, rfl⟩, ?_⟩)
  rintro r ⟨result, rfl, hstatus⟩
  refine (steady_updateProgress _ _ _ _).then (fun _ ↦ ?_) fun _ ↦ rfl
  refine (steady_ask rfl).then (fun _ ↦ ?_) fun _ ↦ rfl
  rw [hstatus]
  exact takes_pollLoop result.jobId maxPollAttempts 0 rfl (by decide)

/-! ### The catch block -/

theorem Course.hindered_next (h : x.hindered = true) (c : Call) (r : Except Thrown c.Reply) :
    (x.next c r).hindered = true := by
  cases r with
  | error e => simp [next_error, h]
  | ok a =>
      cases c with
      | emit event => cases event <;> exact h
      | selectVideo id =>
          cases a with
          | none => rfl
          | some video => exact h
      | _ => exact h

def Call.Failing (videoId : String) : Call → Prop
  | .updateVideo id _ _ => id = videoId
  | .redisDel _ => True
  | .emit (.failed event) => event.videoId = videoId
  | _ => False

theorem takes_failing {p : Prog α} (hp : p.Calls (Call.Failing job.data.videoId))
    (h : x.hindered = true) :
    Takes job p (fun x' _ ↦ x'.hindered = true) x := by
  induction p generalizing x with
  | done r => exact h
  | call c next ih =>
      refine ⟨?_, ?_⟩
      · have hc := hp.1
        cases c with
        | updateVideo videoId expected fields => exact fun _ ↦ ⟨hc, h⟩
        | emit event => cases event <;> first | exact ⟨hc, h⟩ | exact hc.elim
        | _ => trivial
      · rintro r x' ⟨-, rfl⟩
        exact ih r (hp.2 r) (Course.hindered_next h c r)

/-- What the try block throws was hindered, so the catch block may write it. -/
theorem takes_onGenerationError (error : Thrown) (h : x.hindered = true) :
    Takes job (onGenerationError job error) (Course.Ends job) x := by
  change Takes job (if IsFinalAttempt job then _ else _) _ _
  split
  · refine Program.keeps_bind.mpr (Program.Keeps.mono ?_
      (takes_failing (calls_markFailed rfl trivial) h))
    rintro x' (e | a) hx'
    · exact hx'
    refine Program.keeps_bind.mpr (Program.Keeps.mono ?_ (takes_failing (calls_ask rfl) hx'))
    rintro x'' (e | a) hx''
    · exact hx''
    · exact hx''
  · exact h

theorem takes_process (job : Job) : Takes job (process config job) (Course.Ends job) {} := by
  unfold process
  split
  · refine Program.keeps_catchWith.mpr (Program.Keeps.mono (fun x' r hends ↦ ?_)
      (?_ : Takes job (attemptGeneration config job) (Course.Ends job) {}))
    · cases r with
      | ok a => exact hends
      | error e => exact takes_onGenerationError e hends
    · refine (steady_findById _).then (fun video ↦ ?_) fun _ ↦ rfl
      refine (steady_transitionStatus _ _ _ _ VideoStatus.noConfusion).then (fun started ↦ ?_)
        fun _ ↦ rfl
      split
      · exact takes_generate video
      · exact .inl rfl
  · exact .inl rfl

end Conformance

/-! ## What an execution was told -/

/-- The stores have rejected the call, or have no row for the execution. -/
def Hinders : Exchange interface → Prop
  | ⟨.selectVideo _, .ok none⟩ => True
  | ⟨c, .error _⟩ => c.Infrastructure = true
  | _ => False

theorem Course.hindered_next_iff {x : Course} {c : Call} {r : Except Thrown c.Reply} :
    (x.next c r).hindered = true ↔ x.hindered = true ∨ Hinders ⟨c, r⟩ := by
  cases r with
  | error e =>
      rw [Course.next_error]
      have herror : Hinders ⟨c, .error e⟩ ↔ c.Infrastructure = true := by cases c <;> rfl
      simp [herror]
  | ok a =>
      cases c with
      | selectVideo videoId =>
          cases a with
          | none => exact ⟨fun _ ↦ .inr trivial, fun _ ↦ rfl⟩
          | some video => exact (or_iff_left id).symm
      | emit event => cases event <;> exact (or_iff_left id).symm
      | _ => exact (or_iff_left id).symm

theorem Course.submitted_next {x : Course} {c : Call} {r : Except Thrown c.Reply}
    (h : (x.next c r).jobId = none) : x.jobId = none ∧
      ∀ params videoId result, (⟨c, r⟩ : Exchange interface) ≠
        ⟨.generateVideo params videoId, .ok result⟩ := by
  cases r with
  | error e =>
      rw [Course.next_error] at h
      refine ⟨h, ?_⟩
      rintro params videoId result ⟨⟩
  | ok a =>
      cases c with
      | generateVideo params videoId => cases h
      | selectVideo id =>
          cases a with
          | none =>
              refine ⟨h, ?_⟩
              rintro params videoId result ⟨⟩
          | some video =>
              refine ⟨h, ?_⟩
              rintro params videoId result ⟨⟩
      | emit event =>
          refine ⟨by cases event <;> exact h, ?_⟩
          rintro params videoId result ⟨⟩
      | _ =>
          refine ⟨h, ?_⟩
          rintro params videoId result ⟨⟩

theorem Course.announced_next {x : Course} {c : Call} {r : Except Thrown c.Reply}
    {event : VideoCompletedEvent} (h : (x.next c r).announced = some event) :
    x.announced = some event ∨
      (⟨c, r⟩ : Exchange interface) = ⟨.emit (.completed event), .ok ()⟩ := by
  cases r with
  | error e =>
      rw [Course.next_error] at h
      exact .inl h
  | ok a =>
      cases c with
      | selectVideo id => cases a <;> exact .inl h
      | emit event' =>
          cases event' with
          | completed event' =>
              obtain rfl := Option.some.inj h
              exact .inr rfl
          | _ => exact .inl h
      | _ => exact .inl h

section Logs

def courseOf (t : Worker) : Course := t.log.foldl (fun x e ↦ x.next e.1 e.2) {}

theorem foldl_snoc (log : List (Exchange interface)) (e : Exchange interface) :
    (log ++ [e]).foldl (fun x e ↦ x.next e.1 e.2) ({} : Course) =
      (log.foldl (fun x e ↦ x.next e.1 e.2) ({} : Course)).next e.1 e.2 := by
  rw [List.foldl_append]
  rfl

theorem hindered_iff (t : Worker) : (courseOf t).hindered = true ↔ ∃ e ∈ t.log, Hinders e := by
  unfold courseOf
  induction t.log using List.reverseRecOn with
  | nil => simp
  | append_singleton log e ih =>
      rw [foldl_snoc, Course.hindered_next_iff, ih]
      constructor
      · rintro (⟨e', hmem, hhinders⟩ | hhinders)
        · exact ⟨e', List.mem_append_left _ hmem, hhinders⟩
        · exact ⟨e, List.mem_append_right _ (List.mem_singleton_self _), hhinders⟩
      · rintro ⟨e', hmem, hhinders⟩
        rcases List.mem_append.mp hmem with hold | hnew
        · exact .inl ⟨e', hold, hhinders⟩
        · obtain rfl := List.mem_singleton.mp hnew
          exact .inr hhinders

def HasSubmitted (t : Worker) : Prop := ∃ params videoId result,
  (⟨.generateVideo params videoId, .ok result⟩ : Exchange interface) ∈ t.log

theorem not_submitted {t : Worker} (h : (courseOf t).jobId = none) : ¬HasSubmitted t := by
  unfold courseOf at h
  unfold HasSubmitted
  generalize t.log = log at h ⊢
  induction log using List.reverseRecOn with
  | nil => simp
  | append_singleton log e ih =>
      rw [foldl_snoc] at h
      obtain ⟨hbefore, hne⟩ := Course.submitted_next h
      rintro ⟨params, videoId, result, hmem⟩
      rcases List.mem_append.mp hmem with hold | hnew
      · exact ih hbefore ⟨params, videoId, result, hold⟩
      · exact hne params videoId result (List.mem_singleton.mp hnew).symm

theorem announced_mem {t : Worker} {event : VideoCompletedEvent}
    (h : (courseOf t).announced = some event) :
    (⟨.emit (.completed event), .ok ()⟩ : Exchange interface) ∈ t.log := by
  unfold courseOf at h
  generalize t.log = log at h ⊢
  induction log using List.reverseRecOn with
  | nil => cases h
  | append_singleton log e ih =>
      rw [foldl_snoc] at h
      rcases Course.announced_next h with hold | hnew
      · exact List.mem_append_left _ (ih hold)
      · exact List.mem_append_right _ (List.mem_singleton.mpr hnew.symm)

end Logs

end VideoGen
