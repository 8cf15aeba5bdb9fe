import VideoGen.System

/-!
# The phases of a worker execution

An execution of `handleVideoGeneration` is watched by an automaton with
eleven phases.  It says which call may come in which phase, in particular
which writes to the row, and how the execution may end.  That the program
conforms to it is proved once, by following the program; everything about
interleavings is then proved about phases.
-/

namespace VideoGen

/-- Where an execution of `handleVideoGeneration` stands. -/
inductive Phase where
  /-- The row has not been read. -/
  | fresh
  /-- The row was read in this status; the start transition comes next. -/
  | loaded (status : VideoStatus)
  /-- The start transition was refused. -/
  | skipped
  /-- The start transition was applied. -/
  | working
  /-- The completing transition was answered. -/
  | completed (applied : Bool) (event : VideoCompletedEvent)
  /-- `job.updateProgress(100)` went through. -/
  | recorded (applied : Bool) (event : VideoCompletedEvent)
  | announced (applied : Bool) (event : VideoCompletedEvent)
  /-- A call of the `try` block was rejected. -/
  | failing
  /-- `markFailed` has written the row. -/
  | marked (message : String)
  | reported (message : String)
  /-- The update of `markFailed` was rejected. -/
  | broken
  deriving DecidableEq

/-- Calls that touch no row and publish no final event. -/
def Call.Quiet : Call → Bool
  | .dateNow => true
  | .redisSetLater _ _ => true
  | .jobUpdateProgress _ _ => true
  | .emit (.processingStarted _ _) => true
  | .emit (.progressUpdated _ _ _) => true
  | .chatCompletion _ => true
  | .generateVideo _ _ => true
  | .getGenerationStatus _ => true
  | .httpsGet _ => true
  | .s3Put _ _ _ => true
  | .setTimeout _ => true
  | _ => false

/-- Rejections of these calls are caught where they occur. -/
def Call.Caught : Call → Bool
  | .chatCompletion _ => true
  | .httpsGet _ => true
  | .s3Put _ _ _ => true
  | _ => false

structure ProgressUpdate where
  percent : ℤ
  message : String
  additionalMeta : JsObject
  ten_le : 10 ≤ percent
  le_ninety : percent ≤ 90
  keeps_percent : additionalMeta.has "progressPercent" = false

def ProgressUpdate.fields (u : ProgressUpdate) : VideoFields :=
  progressFields u.percent u.message u.additionalMeta

inductive WorkerAllows (job : Job) : Phase → Call → Prop where
  | load : WorkerAllows job .fresh (.selectVideo job.data.videoId)
  | start (status : VideoStatus) (hallowed : Allowed status .processing) :
      WorkerAllows job (.loaded status)
        (.updateVideo job.data.videoId (some status) (startExtra.fields .processing))
  | quiet (c : Call) (hquiet : c.Quiet = true) : WorkerAllows job .working c
  | progress (u : ProgressUpdate) : WorkerAllows job .working
      (.updateVideo job.data.videoId (some .processing) u.fields)
  | complete (url : String) (thumbnail : Option String) (hurl : url ≠ "") :
      WorkerAllows job .working (.updateVideo job.data.videoId (some .processing)
        ((completeExtra url thumbnail).fields .completed))
  | stamp (applied : Bool) (event : VideoCompletedEvent) :
      WorkerAllows job (.completed applied event) .dateNow
  | cache (applied : Bool) (event : VideoCompletedEvent) (key : String)
      (value : StatusSnapshot) :
      WorkerAllows job (.completed applied event) (.redisSetLater key value)
  | record (applied : Bool) (event : VideoCompletedEvent) :
      WorkerAllows job (.completed applied event) (.jobUpdateProgress job.id 100)
  | announce (applied : Bool) (event : VideoCompletedEvent) :
      WorkerAllows job (.recorded applied event) (.emit (.completed event))
  | mark (phase : Phase) (hphase : phase = .working ∨ phase = .failing)
      (hfinal : IsFinalAttempt job) (message : String) :
      WorkerAllows job phase (.updateVideo job.data.videoId none (failedFields message))
  | evict (message key : String) : WorkerAllows job (.marked message) (.redisDel key)
  | report (message : String) : WorkerAllows job (.marked message)
      (.emit (.failed ⟨job.data.videoId, message, job.attemptsMade + 1⟩))

def completionOf (videoId : String) (fields : VideoFields) : VideoCompletedEvent where
  videoId := videoId
  videoUrl := (fields.videoUrl.bind id).getD ""
  thumbnailUrl := fields.thumbnailUrl.bind id

namespace Phase

def afterUpdate (videoId : String) (fields : VideoFields) : Except Thrown ℕ → Phase
  | .ok n =>
      match fields.status with
      | some .completed => .completed (n ≠ 0) (completionOf videoId fields)
      | some .failed => .marked ((fields.errorMessage.bind id).getD "")
      | _ => .working
  | .error _ => if fields.status = some .failed then .broken else .failing

def next : Phase → (c : Call) → Except Thrown c.Reply → Phase
  | .fresh, .selectVideo _, .ok (some (video : Video)) => .loaded video.status
  | .fresh, .selectVideo _, _ => .failing
  | .loaded _, .updateVideo _ _ _, .ok (n : ℕ) => if n = 0 then .skipped else .working
  | .loaded _, .updateVideo _ _ _, .error _ => .failing
  | .working, .updateVideo videoId _ fields, r => afterUpdate videoId fields r
  | .failing, .updateVideo videoId _ fields, r => afterUpdate videoId fields r
  | .working, c, .error _ => if c.Caught then .working else .failing
  | .completed applied event, .jobUpdateProgress _ _, .ok _ => .recorded applied event
  | .completed _ _, .jobUpdateProgress _ _, .error _ => .failing
  | .recorded applied event, .emit _, _ => .announced applied event
  | .marked message, .emit _, _ => .reported message
  | phase, _, _ => phase

def Ends (job : Job) : Phase → Except Thrown Unit → Prop
  | .fresh, .ok _ => job.name ≠ videoGenerationJob
  | .loaded status, .ok _ => ¬Allowed status .processing
  | .skipped, .ok _ => True
  | .announced _ _, .ok _ => True
  | .working, .error _ => ¬IsFinalAttempt job
  | .failing, .error _ => ¬IsFinalAttempt job
  | .reported message, .error e => e.errorMessage = message
  | .broken, .error _ => True
  | _, _ => False

end Phase

def workerProtocol (job : Job) : Protocol interface Phase where
  Allows := WorkerAllows job
  Possible := Call.Possible
  next := Phase.next

theorem keeps_ask {S : Type} {P : Protocol interface S} {c : Call}
    {Post : S → Except Thrown c.Reply → Prop} {s : S} :
    (ask c).Keeps P.spec Post s ↔
      P.Allows s c ∧ ∀ r, P.Possible c r → Post (P.next s c r) r := by
  refine and_congr Iff.rfl (forall_congr' fun r ↦ ⟨fun h hr ↦ h _ ⟨hr, rfl⟩, ?_⟩)
  rintro h _ ⟨hr, rfl⟩
  exact h hr

/-! ## Conformance of the program -/

section Conformance

variable {config : StorageConfig} {job : Job} {α β : Type}

theorem Phase.next_quiet {c : Call} (hc : c.Quiet = true) (r : Except Thrown c.Reply) :
    Phase.next .working c r =
      match r with
      | .ok _ => .working
      | .error _ => if c.Caught then .working else .failing := by
  cases c <;> first | (cases r <;> rfl) | simp [Call.Quiet] at hc

/-- The ends of a part of the `try` block that starts and stays in phase
`working`: its value satisfies `Q`, or it threw. -/
def Works (Q : α → Prop) (phase : Phase) : Except Thrown α → Prop
  | .ok a => phase = .working ∧ Q a
  | .error _ => phase = .working ∨ phase = .failing

abbrev WorksAs (job : Job) (Q : α → Prop) (p : Prog α) : Prop :=
  p.Keeps (workerProtocol job).spec (Works Q) .working

theorem WorksAs.then {Q : α → Prop} {Post : Phase → Except Thrown β → Prop}
    {p : Prog α} {f : α → Prog β} (hp : WorksAs job Q p)
    (hf : ∀ a, Q a → (f a).Keeps (workerProtocol job).spec Post .working)
    (herror : ∀ phase e, phase = .working ∨ phase = .failing → Post phase (.error e)) :
    (p >>= f).Keeps (workerProtocol job).spec Post .working := by
  rw [Program.keeps_bind]
  refine Program.Keeps.mono ?_ hp
  rintro phase (e | a) h
  · exact herror phase e h
  · obtain ⟨rfl, ha⟩ := h
    exact hf a ha

theorem WorksAs.bind {Q : α → Prop} {R : β → Prop} {p : Prog α} {f : α → Prog β}
    (hp : WorksAs job Q p) (hf : ∀ a, Q a → WorksAs job R (f a)) :
    WorksAs job R (p >>= f) :=
  hp.then hf fun _ _ h ↦ h

theorem worksAs_quiet {c : Call} (hc : c.Quiet = true) :
    WorksAs job (fun _ ↦ True) (ask c) := by
  refine keeps_ask.mpr ⟨.quiet c hc, ?_⟩
  rintro (e | x) -
  · change Works _ (Phase.next .working c (.error e)) _
    rw [Phase.next_quiet hc]
    by_cases hcaught : c.Caught <;> simp [Works, hcaught]
  · change Works _ (Phase.next .working c (.ok x)) _
    rw [Phase.next_quiet hc]
    exact ⟨rfl, trivial⟩

theorem worksAs_catch {Q : α → Prop} {p : Prog α} {h : Thrown → Prog α}
    (hp : p.Keeps (workerProtocol job).spec
      (fun phase r ↦ phase = .working ∧ ∀ a, r = .ok a → Q a) .working)
    (hh : ∀ e, WorksAs job Q (h e)) : WorksAs job Q (p.catchWith h) := by
  rw [WorksAs, Program.keeps_catchWith]
  refine Program.Keeps.mono ?_ hp
  rintro phase (e | a) ⟨rfl, ha⟩
  · exact hh e
  · exact ⟨rfl, ha a rfl⟩

theorem worksAs_writeCache (videoId : String) (status : VideoStatus)
    (progress message : JsValue) :
    WorksAs job (fun _ ↦ True) (writeCache videoId status progress message) :=
  (worksAs_quiet rfl).bind fun _ _ ↦ worksAs_quiet rfl

theorem worksAs_updateProgress (u : ProgressUpdate) : WorksAs job (fun _ ↦ True)
    (updateProgress job.data.videoId u.percent u.message u.additionalMeta) := by
  refine WorksAs.bind (Q := fun _ ↦ True) ?_ fun _ _ ↦ worksAs_writeCache _ _ _ _
  refine keeps_ask.mpr ⟨.progress u, ?_⟩
  rintro (e | n) -
  · exact .inr rfl
  · exact ⟨rfl, trivial⟩

theorem worksAs_enhancePrompt (prompt : String) :
    WorksAs job (fun _ ↦ True) (enhancePrompt prompt) := by
  refine worksAs_catch ?_ fun _ ↦ ⟨rfl, trivial⟩
  refine Program.keeps_bind.mpr (keeps_ask.mpr ⟨.quiet _ rfl, ?_⟩)
  rintro (e | content) -
  · exact ⟨rfl, by simp⟩
  · exact ⟨rfl, fun _ _ ↦ trivial⟩

theorem keeps_caught {c : Call} (hquiet : c.Quiet = true) (hcaught : c.Caught = true) :
    (ask c).Keeps (workerProtocol job).spec (fun phase _ ↦ phase = .working) .working := by
  refine keeps_ask.mpr ⟨.quiet c hquiet, ?_⟩
  rintro r -
  change Phase.next .working c r = .working
  rw [Phase.next_quiet hquiet]
  cases r <;> simp [hcaught]

theorem keeps_withRetryFrom {operation : Prog α} (maxAttempts : ℕ)
    (hop : operation.Keeps (workerProtocol job).spec (fun phase _ ↦ phase = .working)
      .working) (remaining attempt : ℕ) (lastError : Thrown) :
    (withRetryFrom operation maxAttempts attempt lastError remaining).Keeps
      (workerProtocol job).spec (fun phase _ ↦ phase = .working) .working := by
  induction remaining generalizing attempt lastError with
  | zero => rfl
  | succ remaining ih =>
      refine Program.keeps_bind.mpr (Program.keeps_attempt.mpr (Program.Keeps.mono ?_ hop))
      rintro phase (error | value) rfl
      · change Program.Keeps _ _ (if attempt < maxAttempts then _ else _) _
        split
        · refine Program.keeps_bind.mpr (keeps_ask.mpr ⟨.quiet _ rfl, ?_⟩)
          rintro (e | x) h
          · exact (Bool.false_ne_true h).elim
          · exact ih (attempt + 1) error
        · exact ih (attempt + 1) error
      · rfl

theorem worksAs_uploadFromUrl (sourceUrl key : String) :
    WorksAs job (fun url ↦ url ≠ "") (uploadFromUrl config sourceUrl key) := by
  refine WorksAs.bind (Q := fun _ ↦ True) ?_ fun buffer _ ↦ ?_
  · refine worksAs_catch ?_ fun _ ↦ .inl rfl
    exact Program.Keeps.mono (fun _ _ h ↦ ⟨h, fun _ _ ↦ trivial⟩)
      (keeps_caught (c := .httpsGet sourceUrl) rfl rfl)
  · refine worksAs_catch ?_ fun _ ↦ .inl rfl
    refine Program.keeps_bind.mpr (Program.Keeps.mono ?_ (keeps_withRetryFrom _
      (keeps_caught (c := .s3Put key buffer "video/mp4") rfl rfl) _ _ _))
    rintro phase (e | x) rfl
    · exact ⟨rfl, by simp⟩
    · refine ⟨rfl, ?_⟩
      rintro a ha
      obtain rfl := Except.ok.inj ha
      exact getPublicUrl_ne_empty config key

def TryEnds : Phase → Except Thrown Unit → Prop
  | .loaded status, .ok _ => ¬Allowed status .processing
  | .skipped, .ok _ => True
  | .announced _ _, .ok _ => True
  | .working, .error _ => True
  | .failing, .error _ => True
  | _, _ => False

theorem tryEnds_error (phase : Phase) (e : Thrown)
    (h : phase = .working ∨ phase = .failing) : TryEnds phase (.error e) := by
  rcases h with rfl | rfl <;> trivial

@[simp] theorem completionOf_complete (videoId url : String) (thumbnail : Option String) :
    completionOf videoId ((completeExtra url thumbnail).fields .completed) =
      ⟨videoId, url, thumbnail⟩ := by
  cases thumbnail <;> rfl

theorem keeps_announce (applied : Bool) (event : VideoCompletedEvent) :
    (do jobUpdateProgress job 100
        emit (.completed event) : Prog Unit).Keeps (workerProtocol job).spec TryEnds
      (.completed applied event) := by
  refine Program.keeps_bind.mpr (keeps_ask.mpr ⟨.record applied event, ?_⟩)
  rintro (e | x) -
  · trivial
  · refine keeps_ask.mpr ⟨.announce applied event, ?_⟩
    rintro (e | x) h
    · exact (Bool.false_ne_true h).elim
    · trivial

theorem keeps_writeCache_completed {Post : Phase → Except Thrown Unit → Prop}
    (applied : Bool) (event : VideoCompletedEvent) (videoId : String)
    (status : VideoStatus) (progress message : JsValue)
    (hpost : Post (.completed applied event) (.ok ())) :
    (writeCache videoId status progress message).Keeps (workerProtocol job).spec Post
      (.completed applied event) := by
  refine Program.keeps_bind.mpr (keeps_ask.mpr ⟨.stamp applied event, ?_⟩)
  rintro (e | x) h
  · exact (Bool.false_ne_true h).elim
  · refine keeps_ask.mpr ⟨.cache applied event _ _, ?_⟩
    rintro (e | y) h
    · exact (Bool.false_ne_true h).elim
    · exact hpost

theorem allowed_processing_completed : Allowed .processing .completed := by decide

theorem keeps_finishGeneration (result : GenerateVideoResult) {videoUrl : String}
    (hurl : videoUrl ≠ "") :
    (finishGeneration config job result videoUrl).Keeps (workerProtocol job).spec TryEnds
      .working := by
  refine WorksAs.then (Q := fun url ↦ url ≠ "") ?_ (fun storedUrl hstored ↦ ?_) tryEnds_error
  · unfold WorksAs storeVideo
    split
    · exact ⟨rfl, hurl⟩
    · exact worksAs_uploadFromUrl videoUrl _
  · refine Program.keeps_bind.mpr ?_
    rw [transitionStatus, if_pos allowed_processing_completed]
    refine Program.keeps_bind.mpr (keeps_ask.mpr ⟨.complete _ _ hstored, ?_⟩)
    rintro (e | affected) -
    · trivial
    · have hphase : (workerProtocol job).next .working (.updateVideo job.data.videoId
          (some .processing) ((completeExtra storedUrl result.thumbnailUrl).fields .completed))
          (.ok affected) =
          .completed (affected ≠ 0) ⟨job.data.videoId, storedUrl, result.thumbnailUrl⟩ := by
        rw [← completionOf_complete]
        rfl
      rw [hphase]
      change Program.Keeps _ _ (if affected = 0 then _ else _) _
      split
      · exact keeps_announce _ _
      · exact Program.keeps_bind.mpr
          (keeps_writeCache_completed _ _ _ _ _ _ (keeps_announce _ _))

def pollUpdate (pollAttempts : ℕ) : ProgressUpdate where
  percent := pollPercent pollAttempts
  message := pollMessage pollAttempts
  additionalMeta := pollMeta pollAttempts
  ten_le := by
    unfold pollPercent
    omega
  le_ninety := by
    unfold pollPercent
    omega
  keeps_percent := by simp [pollMeta, JsObject.has]

theorem truthy_ne_empty {s : Option String} {t : String} (h : truthy s = some t) : t ≠ "" := by
  cases s with
  | none => simp [truthy] at h
  | some s =>
      by_cases hs : s = ""
      · simp [truthy, hs] at h
      · obtain rfl : s = t := by simpa [truthy, hs] using h
        exact hs

theorem keeps_pollLoop (generationJobId : String) (remaining : ℕ)
    (status : GenerationStatus) (pollAttempts : ℕ) :
    (pollLoop config job generationJobId status pollAttempts remaining).Keeps
      (workerProtocol job).spec TryEnds .working := by
  induction remaining generalizing status pollAttempts with
  | zero => trivial
  | succ remaining ih =>
      unfold pollLoop
      split
      · refine (worksAs_quiet rfl).then (fun _ _ ↦ ?_) tryEnds_error
        refine (worksAs_quiet rfl).then (fun result _ ↦ ?_) tryEnds_error
        refine (worksAs_updateProgress (pollUpdate (pollAttempts + 1))).then
          (fun _ _ ↦ ?_) tryEnds_error
        refine (worksAs_quiet rfl).then (fun _ _ ↦ ?_) tryEnds_error
        refine (worksAs_quiet rfl).then (fun _ _ ↦ ?_) tryEnds_error
        split
        · rename_i videoUrl hurl
          exact keeps_finishGeneration result (truthy_ne_empty hurl)
        · exact ih _ _
      · trivial

def enhancedUpdate : ProgressUpdate where
  percent := 20
  message := "Prompt enhanced, submitting to AI provider..."
  additionalMeta := JsObject.empty
  ten_le := by decide
  le_ninety := by decide
  keeps_percent := rfl

def submittedUpdate (result : GenerateVideoResult) : ProgressUpdate where
  percent := 40
  message := "Job submitted, waiting for AI provider..."
  additionalMeta := submittedMeta result
  ten_le := by decide
  le_ninety := by decide
  keeps_percent := by simp [submittedMeta, JsObject.has]

theorem keeps_generate (video : Video) :
    (generate config job video).Keeps (workerProtocol job).spec TryEnds .working := by
  refine (worksAs_quiet rfl).then (fun _ _ ↦ ?_) tryEnds_error
  refine (worksAs_quiet rfl).then (fun _ _ ↦ ?_) tryEnds_error
  refine (worksAs_enhancePrompt video.prompt).then (fun _ _ ↦ ?_) tryEnds_error
  refine (worksAs_updateProgress enhancedUpdate).then (fun _ _ ↦ ?_) tryEnds_error
  refine (worksAs_quiet rfl).then (fun _ _ ↦ ?_) tryEnds_error
  refine (worksAs_quiet rfl).then (fun result _ ↦ ?_) tryEnds_error
  refine (worksAs_updateProgress (submittedUpdate result)).then (fun _ _ ↦ ?_) tryEnds_error
  refine (worksAs_quiet rfl).then (fun _ _ ↦ ?_) tryEnds_error
  exact keeps_pollLoop _ _ _ _

theorem keeps_start (video : Video) :
    (do let started ← transitionStatus job.data.videoId video.status .processing startExtra
        if started then generate config job video else pure () : Prog Unit).Keeps
      (workerProtocol job).spec TryEnds (.loaded video.status) := by
  refine Program.keeps_bind.mpr ?_
  unfold transitionStatus
  split
  · rename_i hallowed
    refine Program.keeps_bind.mpr (keeps_ask.mpr ⟨.start _ hallowed, ?_⟩)
    rintro (e | affected) -
    · trivial
    · change Program.Keeps _ _ (if affected = 0 then _ else _)
        (if affected = 0 then Phase.skipped else Phase.working)
      split
      · trivial
      · refine (worksAs_writeCache _ _ _ _).then (fun _ _ ↦ ?_) tryEnds_error
        exact keeps_generate video
  · rename_i hallowed
    exact hallowed

theorem keeps_attemptGeneration :
    (attemptGeneration config job).Keeps (workerProtocol job).spec TryEnds .fresh := by
  refine Program.keeps_bind.mpr (Program.keeps_bind.mpr (keeps_ask.mpr ⟨.load, ?_⟩))
  rintro (e | video) -
  · trivial
  · cases video with
    | none => trivial
    | some video => exact keeps_start video

theorem keeps_evictCache (message : String) (videoId : String) :
    (evictCache videoId).Keeps (workerProtocol job).spec
      (fun phase r ↦ phase = .marked message ∧ r = .ok ()) (.marked message) := by
  refine Program.keeps_catchWith.mpr (keeps_ask.mpr ⟨.evict message _, ?_⟩)
  rintro (e | x) -
  · exact ⟨rfl, rfl⟩
  · exact ⟨rfl, rfl⟩

theorem next_mark {phase : Phase} (hphase : phase = .working ∨ phase = .failing)
    (videoId : String) (expected : Option VideoStatus) (message : String)
    (r : Except Thrown ℕ) :
    Phase.next phase (.updateVideo videoId expected (failedFields message)) r =
      match r with
      | .ok _ => .marked message
      | .error _ => .broken := by
  rcases hphase with rfl | rfl <;> cases r <;> rfl

theorem keeps_onGenerationError {phase : Phase}
    (hphase : phase = .working ∨ phase = .failing) (error : Thrown) :
    (onGenerationError job error).Keeps (workerProtocol job).spec (Phase.Ends job) phase := by
  change Program.Keeps _ _ (if IsFinalAttempt job then _ else _) _
  split
  · rename_i hfinal
    refine Program.keeps_bind.mpr (Program.keeps_bind.mpr
      (keeps_ask.mpr ⟨WorkerAllows.mark phase hphase hfinal _, ?_⟩))
    intro r _
    have hnext := next_mark hphase job.data.videoId none error.errorMessage r
    cases r with
    | error e =>
        change Phase.Ends job (Phase.next phase _ (.error e)) (.error e)
        rw [hnext]
        trivial
    | ok affected =>
        change Program.Keeps _ _ (evictCache job.data.videoId)
          (Phase.next phase (.updateVideo job.data.videoId none
            (failedFields error.errorMessage)) (.ok affected))
        rw [hnext]
        refine Program.Keeps.mono ?_ (keeps_evictCache error.errorMessage job.data.videoId)
        rintro phase r ⟨rfl, rfl⟩
        refine Program.keeps_bind.mpr (keeps_ask.mpr ⟨.report _, ?_⟩)
        rintro (e | x) h
        · exact (Bool.false_ne_true h).elim
        · rfl
  · rename_i hfinal
    rcases hphase with rfl | rfl <;> exact hfinal

theorem keeps_handleVideoGeneration :
    (handleVideoGeneration config job).Keeps (workerProtocol job).spec (Phase.Ends job)
      .fresh := by
  refine Program.keeps_catchWith.mpr (Program.Keeps.mono ?_ keeps_attemptGeneration)
  rintro phase (error | x) h
  · refine keeps_onGenerationError ?_ error
    cases phase <;> simp_all [TryEnds]
  · change Phase.Ends job phase (.ok x)
    cases phase <;> simp_all [TryEnds, Phase.Ends]

theorem keeps_process :
    (process config job).Keeps (workerProtocol job).spec (Phase.Ends job) .fresh := by
  unfold process
  split
  · exact keeps_handleVideoGeneration
  · rename_i hname
    exact hname

end Conformance

end VideoGen
