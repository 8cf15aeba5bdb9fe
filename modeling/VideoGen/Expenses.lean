import VideoGen.Lib.Budget
import VideoGen.System

/-!
# What the programs spend

Calls, submissions to the AI provider, polls, uploads and waiting time are counted.
A call that sets further work in motion is charged for it at once: an added job for
all the executions that the queue can start for it, an announced failure for its
listener.  Every task then has a budget that it keeps to whatever it is answered.
-/

namespace VideoGen

/-- What is counted: calls, moves of the queue, and what some calls ask of others. -/
inductive Resource where
  | call
  | move
  | submission
  | poll
  | enhancement
  | download
  | upload
  /-- Milliseconds of timers. -/
  | pause
  deriving DecidableEq, Repr

def Call.uses : Call → Resource → ℕ
  | _, .call => 1
  | .generateVideo _ _, .submission => 1
  | .getGenerationStatus _, .poll => 1
  | .chatCompletion _, .enhancement => 1
  | .httpsGet _, .download => 1
  | .s3Put _ _ _, .upload => 1
  | .setTimeout ms, .pause => ms
  | _, _ => 0

def callsOf (n : ℕ) : Resource → ℕ
  | .call => n
  | _ => 0

/-- What one execution of a job spends, with the listener to its failure. -/
def executionCost : Resource → ℕ
  | .call => 242
  | .move => 0
  | .submission => 1
  | .poll => 30
  | .enhancement => 1
  | .download => 1
  | .upload => 3
  | .pause => 300600

/-- The job is taken, executed, settled and perhaps promoted. -/
def turnCost : Resource → ℕ
  | .move => 3
  | r => executionCost r

def JobOptions.turns (opts : JobOptions) : ℕ :=
  max 1 (opts.attempts.getD 1) + QueuedJob.maxStalledCount

/-- What the call uses, and what it sets in motion. -/
def Call.price (r : Resource) : Call → ℕ
  | .queueAdd name data opts =>
      (Call.queueAdd name data opts).uses r + opts.turns * turnCost r
  | .emit (.failed event) => (Call.emit (.failed event)).uses r + callsOf 2 r
  | c => c.uses r

def requestCost (calls turns : ℕ) (r : Resource) : ℕ := callsOf calls r + turns * turnCost r

def ServiceCall.calls : ServiceCall → ℕ
  | .update _ _ _ => 3
  | .transitionStatus _ _ _ _ => 3
  | .updateProgress _ _ _ _ => 3
  | .markFailed _ _ => 2
  | .evictCache _ => 1
  | .getCachedStatus _ => 4

def Task.budget (r : Resource) : Task → ℕ
  | .process _ => executionCost r
  | .createAndQueue _ _ => requestCost 4 2 r
  | .retryFailedJob _ => requestCost 6 4 r
  | .onVideoFailed _ => callsOf 2 r
  | .remove _ _ => callsOf 2 r
  | .service call => callsOf call.calls r

/-! ## Plain calls -/

def Call.Plain : Call → Bool
  | .queueAdd _ _ _ => false
  | .chatCompletion _ => false
  | .generateVideo _ _ => false
  | .getGenerationStatus _ => false
  | .httpsGet _ => false
  | .s3Put _ _ _ => false
  | .setTimeout _ => false
  | .emit (.failed _) => false
  | _ => true

section Programs

variable {r : Resource} {α : Type}

theorem price_of_plain {c : Call} (h : c.Plain = true) : c.price r = callsOf 1 r := by
  cases c with
  | emit event => cases event <;> cases r <;> first | rfl | cases h
  | _ => cases r <;> first | rfl | cases h

theorem callsOf_add (n m : ℕ) (r : Resource) : callsOf n r + callsOf m r = callsOf (n + m) r := by
  cases r <;> rfl

abbrev Costs (p : Prog α) (r : Resource) (n : ℕ) : Prop := p.AtMost (Call.price r) n

theorem costs_pure (a : α) (n : ℕ) : Costs (pure a) r n := Program.atMost_pure a n

theorem costs_raise (cls : ErrorClass) (message : String) (n : ℕ) :
    Costs (raise cls message : Prog α) r n := Program.atMost_throw _ n

theorem costs_mono {p : Prog α} {n m : ℕ} (hp : Costs p r (callsOf n r)) (h : n ≤ m) :
    Costs p r (callsOf m r) := by
  refine hp.mono ?_
  cases r with
  | call => exact h
  | _ => exact Nat.le_refl 0

theorem costs_plain {c : Call} {n : ℕ} (h : c.Plain = true) :
    Costs (ask c) r (callsOf (n + 1) r) :=
  costs_mono (Program.atMost_perform (price_of_plain h).le) (Nat.le_add_left 1 n)

theorem costs_bind (n m : ℕ) {β : Type} {p : Prog α} {f : α → Prog β}
    (hp : Costs p r (callsOf n r)) (hf : ∀ a, Costs (f a) r (callsOf m r)) :
    Costs (p >>= f) r (callsOf (n + m) r) := by
  rw [← callsOf_add]
  exact hp.bind hf

theorem costs_catchWith (n m : ℕ) {p : Prog α} {h : Thrown → Prog α}
    (hp : Costs p r (callsOf n r)) (hh : ∀ e, Costs (h e) r (callsOf m r)) :
    Costs (p.catchWith h) r (callsOf (n + m) r) := by
  rw [← callsOf_add]
  exact hp.catchWith hh

theorem costs_ask {c : Call} {n : ℕ} {f : c.Reply → Prog α} (h : c.Plain = true)
    (hf : ∀ a, Costs (f a) r (callsOf n r)) :
    Costs (ask c >>= f) r (callsOf (n + 1) r) := by
  rw [Nat.add_comm]
  exact costs_bind 1 n (costs_plain h) hf

/-! ## The services -/

theorem costs_writeCache (videoId : String) (status : VideoStatus) (progress message : JsValue) :
    Costs (writeCache videoId status progress message) r (callsOf 2 r) :=
  costs_ask (by rfl) fun _ ↦ costs_plain (by rfl)

theorem costs_transitionStatus (videoId : String) (expected status : VideoStatus)
    (extra : TransitionExtra) :
    Costs (transitionStatus videoId expected status extra) r (callsOf 3 r) := by
  unfold transitionStatus
  split
  · refine costs_ask (by rfl) fun affected ↦ ?_
    split
    · exact costs_pure _ _
    · exact costs_bind 2 0 (costs_writeCache _ _ _ _) fun _ ↦ costs_pure _ _
  · exact costs_pure _ _

theorem costs_updateProgress (videoId : String) (percent : ℤ) (message : String)
    (additionalMeta : JsObject) :
    Costs (updateProgress videoId percent message additionalMeta) r (callsOf 3 r) :=
  costs_ask (by rfl) fun _ ↦ costs_writeCache _ _ _ _

theorem costs_evictCache (videoId : String) : Costs (evictCache videoId) r (callsOf 1 r) :=
  costs_catchWith 1 0 (costs_plain (by rfl)) fun _ ↦ costs_pure _ _

theorem costs_markFailed (videoId errorMessage : String) :
    Costs (markFailed videoId errorMessage) r (callsOf 2 r) :=
  costs_ask (by rfl) fun _ ↦ costs_evictCache _

theorem costs_loadFromDb (videoId : String) : Costs (loadFromDb videoId) r (callsOf 3 r) := by
  refine costs_catchWith 3 0 (costs_ask (by rfl) fun found ↦ ?_) fun _ ↦ costs_pure _ _
  cases found with
  | none => exact costs_pure _ _
  | some video =>
      exact costs_ask (by rfl) fun _ ↦ costs_ask (by rfl) fun _ ↦ costs_pure _ _

theorem costs_getCachedStatus (videoId : String) :
    Costs (getCachedStatus videoId) r (callsOf 4 r) := by
  refine costs_bind 1 3 (costs_catchWith 1 0 (costs_ask (by rfl) fun raw ↦ ?_) fun _ ↦
    costs_pure _ _) fun hit ↦ ?_
  · unfold parseSnapshot
    split
    · exact costs_pure _ _
    · exact costs_pure _ _
    · split
      · exact costs_pure _ _
      · exact costs_raise _ _ _
  · cases hit with
    | some snapshot => exact costs_pure _ _
    | none => exact costs_loadFromDb videoId

theorem costs_findById (id : String) : Costs (findById id) r (callsOf 1 r) := by
  refine costs_ask (by rfl) fun found ↦ ?_
  cases found with
  | none => exact costs_raise _ _ _
  | some video => exact costs_pure _ _

theorem costs_findOneForUser (id userId : String) :
    Costs (findOneForUser id userId) r (callsOf 1 r) := by
  refine costs_ask (by rfl) fun found ↦ ?_
  cases found with
  | none => exact costs_raise _ _ _
  | some video =>
      dsimp only
      split
      · exact costs_pure _ _
      · exact costs_raise _ _ _

theorem costs_saveVideo (entity : Video) : Costs (saveVideo entity) r (callsOf 2 r) := by
  refine costs_ask (by rfl) fun found ↦ ?_
  cases found with
  | none => exact costs_plain (by rfl)
  | some row =>
      dsimp only
      split
      · exact costs_pure _ _
      · exact costs_ask (by rfl) fun _ ↦ costs_pure _ _

theorem costs_update (id userId : String) (dto : UpdateVideoDto) :
    Costs (update id userId dto) r (callsOf 3 r) :=
  costs_bind 1 2 (costs_findOneForUser id userId) fun _ ↦ costs_saveVideo _

theorem costs_remove (id userId : String) : Costs (remove id userId) r (callsOf 2 r) :=
  costs_bind 1 1 (costs_findOneForUser id userId) fun _ ↦ costs_plain (by rfl)

theorem costs_onVideoFailed (event : VideoFailedEvent) :
    Costs (onVideoFailed event) r (callsOf 2 r) :=
  costs_catchWith 2 0 (costs_ask (by rfl) fun _ ↦ costs_ask (by rfl) fun _ ↦ costs_pure _ _)
    fun _ ↦ costs_pure _ _

theorem ServiceCall.costs (call : ServiceCall) : Costs call.body r (callsOf call.calls r) := by
  cases call with
  | update id userId dto => exact (costs_update id userId dto).map _
  | transitionStatus videoId expected status extra =>
      exact (costs_transitionStatus videoId expected status extra).map _
  | updateProgress videoId percent message additionalMeta =>
      exact (costs_updateProgress videoId percent message additionalMeta).map _
  | markFailed videoId message => exact (costs_markFailed videoId message).map _
  | evictCache videoId => exact (costs_evictCache videoId).map _
  | getCachedStatus videoId => exact (costs_getCachedStatus videoId).map _

/-! ## Requests -/

theorem costs_queueAdd (defaults opts : JobOptions) (name : String)
    (data : VideoGenerationJobData) :
    Costs (queueAdd defaults name data opts) r (requestCost 1 (opts.over defaults).turns r) := by
  apply Program.atMost_perform
  cases r <;> exact Nat.le_refl _

theorem costs_createAndQueue (userId : String) (dto : CreateVideoDto) :
    Costs (createAndQueue userId dto) r (requestCost 4 2 r) := by
  have hall : Costs (createAndQueue userId dto) r
      (callsOf 1 r + (requestCost 1 2 r + callsOf 2 r)) := by
    refine Program.AtMost.bind (costs_plain (by rfl)) fun saved ↦ ?_
    refine Program.AtMost.bind (costs_queueAdd _ _ _ _) fun jobId ↦ ?_
    exact costs_ask (by rfl) fun _ ↦ costs_ask (by rfl) fun _ ↦ costs_pure _ _
  refine hall.mono ?_
  have hcalls : callsOf 1 r + callsOf 1 r + callsOf 2 r = callsOf 4 r := by
    rw [callsOf_add, callsOf_add]
  unfold requestCost
  omega

theorem costs_retryFailedJob (id : String) :
    Costs (retryFailedJob id) r (requestCost 6 4 r) := by
  have hall : Costs (retryFailedJob id) r
      (callsOf 1 r + (callsOf 1 r + (requestCost 1 4 r + callsOf 3 r))) := by
    refine Program.AtMost.bind (costs_plain (by rfl)) fun record ↦ ?_
    cases record with
    | none => exact costs_raise _ _ _
    | some record =>
        dsimp only
        split
        · exact costs_raise _ _ _
        · refine Program.AtMost.bind (costs_plain (by rfl)) fun _ ↦ ?_
          refine Program.AtMost.bind (costs_queueAdd _ _ _ _) fun jobId ↦ ?_
          exact costs_ask (by rfl) fun _ ↦ costs_ask (by rfl) fun _ ↦ costs_ask (by rfl) fun _ ↦
            costs_pure _ _
  refine hall.mono ?_
  have hcalls : callsOf 1 r + callsOf 1 r + callsOf 1 r + callsOf 3 r = callsOf 6 r := by
    rw [callsOf_add, callsOf_add, callsOf_add]
  unfold requestCost
  omega

/-! ## An execution -/

theorem costs_perform (c : Call) : Costs (ask c) r (c.price r) :=
  Program.atMost_perform (Nat.le_refl _)

/-- What the loop of `withRetry` spends from an attempt on, with so many turns left. -/
def backoffCost (r : Resource) (n maxAttempts attempt : ℕ) : ℕ → ℕ
  | 0 => 0
  | remaining + 1 =>
      n + ((if attempt < maxAttempts then
          (Call.setTimeout (timerDelay (baseRetryDelayMs * 2 ^ (attempt - 1)))).price r else 0) +
        backoffCost r n maxAttempts (attempt + 1) remaining)

theorem costs_withRetryFrom {operation : Prog α} {n : ℕ} (h : Costs operation r n)
    (maxAttempts attempt : ℕ) (lastError : Thrown) (remaining : ℕ) :
    Costs (withRetryFrom operation maxAttempts attempt lastError remaining) r
      (backoffCost r n maxAttempts attempt remaining) := by
  induction remaining generalizing attempt lastError with
  | zero => exact Program.atMost_throw _ _
  | succ remaining ih =>
      refine h.attempt.bind fun result ↦ ?_
      cases result with
      | ok value => exact costs_pure _ _
      | error error =>
          have hrest := ih (attempt + 1) error
          by_cases hmore : attempt < maxAttempts
          · simp only [if_pos hmore, readMessage_then]
            exact Program.AtMost.bind (costs_perform (.setTimeout _)) fun _ ↦ hrest
          · simp only [if_neg hmore]
            exact hrest.mono (Nat.le_add_left _ _)

/-- Three puts and the two pauses between them. -/
def uploadCost : Resource → ℕ
  | .call => 5
  | .upload => 3
  | .pause => 600
  | _ => 0

theorem costs_uploadBuffer (config : StorageConfig) (buffer : Bytes) (key contentType : String) :
    Costs (uploadBuffer config buffer key contentType) r (uploadCost r) := by
  have hput := costs_withRetryFrom (r := r) (costs_perform (.s3Put key buffer contentType))
    maxRetryAttempts 1
    (Runtime.error (I := interface) "S3 operation failed after all retry attempts")
    maxRetryAttempts
  have hcost : backoffCost r ((Call.s3Put key buffer contentType).price r) maxRetryAttempts 1
      maxRetryAttempts = uploadCost r := by
    cases r <;> simp [backoffCost, Call.price, Call.uses, maxRetryAttempts, baseRetryDelayMs,
      timerDelay, uploadCost]
  rw [hcost] at hput
  exact Program.AtMost.catchWith (m := 0) (Program.AtMost.bind (m := 0) hput fun _ ↦
    costs_pure _ _) fun _ ↦ costs_raise _ _ _

/-- A download and an upload, the transition, the queue's progress and the announcement. -/
def finishCost : Resource → ℕ
  | .call => 11
  | .download => 1
  | .upload => 3
  | .pause => 600
  | _ => 0

theorem costs_storeVideo (config : StorageConfig) (job : Job) (result : GenerateVideoResult)
    (videoUrl : String) : Costs (storeVideo config job result videoUrl) r
      ((Call.httpsGet videoUrl).price r + uploadCost r) := by
  unfold storeVideo
  split
  · exact costs_pure _ _
  · exact Program.AtMost.bind (Program.AtMost.catchWith (m := 0) (costs_perform _) fun _ ↦
      costs_raise _ _ _) fun _ ↦ costs_uploadBuffer config _ _ _

theorem costs_finishGeneration (config : StorageConfig) (job : Job)
    (result : GenerateVideoResult) (videoUrl : String) :
    Costs (finishGeneration config job result videoUrl) r (finishCost r) := by
  have hall : Costs (finishGeneration config job result videoUrl) r
      ((Call.httpsGet videoUrl).price r + uploadCost r + callsOf 5 r) := by
    refine Program.AtMost.bind (costs_storeVideo config job result videoUrl) fun storedUrl ↦ ?_
    exact costs_bind 3 2 (costs_transitionStatus _ _ _ _) fun _ ↦
      costs_ask (by rfl) fun _ ↦ costs_plain (by rfl)
  refine hall.mono ?_
  cases r <;> exact Nat.le_refl _

/-- A pause, a poll and its report. -/
def pollCost : Resource → ℕ
  | .call => 7
  | .poll => 1
  | .pause => 10000
  | _ => 0

theorem costs_pollLoop (config : StorageConfig) (job : Job) (generationJobId : String)
    (status : GenerationStatus) (pollAttempts remaining : ℕ) :
    Costs (pollLoop config job generationJobId status pollAttempts remaining) r
      (remaining * pollCost r + finishCost r) := by
  induction remaining generalizing status pollAttempts with
  | zero => exact costs_raise _ _ _
  | succ remaining ih =>
      unfold pollLoop
      split
      · have hall {p : Prog Unit} (h : Costs p r ((Call.setTimeout 10000).price r +
            ((Call.getGenerationStatus generationJobId).price r +
              (callsOf 3 r + (callsOf 2 r + (remaining * pollCost r + finishCost r)))))) :
            Costs p r ((remaining + 1) * pollCost r + finishCost r) := by
          refine h.mono ?_
          have hpoll : (Call.setTimeout 10000).price r +
              ((Call.getGenerationStatus generationJobId).price r + (callsOf 3 r + callsOf 2 r)) =
                pollCost r := by cases r <;> rfl
          rw [Nat.add_one_mul]
          omega
        apply hall
        refine Program.AtMost.bind (costs_perform _) fun _ ↦ ?_
        refine Program.AtMost.bind (costs_perform _) fun result ↦ ?_
        refine Program.AtMost.bind (costs_updateProgress _ _ _ _) fun _ ↦ ?_
        rw [← callsOf_add 1 1, Nat.add_assoc]
        refine Program.AtMost.bind (costs_plain (by rfl)) fun _ ↦ ?_
        refine Program.AtMost.bind (costs_plain (by rfl)) fun _ ↦ ?_
        cases truthy result.videoUrl with
        | some videoUrl =>
            exact (costs_finishGeneration config job result videoUrl).mono (Nat.le_add_left _ _)
        | none => exact ih _ _
      · exact costs_raise _ _ _

theorem costs_enhancePrompt (prompt : String) :
    Costs (enhancePrompt prompt) r (callsOf 1 r + if r = .enhancement then 1 else 0) := by
  refine Program.AtMost.catchWith (m := 0) (Program.AtMost.bind (m := 0) (n := _)
    (Program.atMost_perform ?_) fun _ ↦ costs_pure _ _) fun _ ↦ costs_pure _ _
  cases r <;> exact Nat.le_refl _

theorem costs_generateVideo (params : GenerateVideoParams) (videoId : String) :
    Costs (generateVideo params videoId) r (callsOf 1 r + if r = .submission then 1 else 0) := by
  apply Program.atMost_perform
  cases r <;> exact Nat.le_refl _

theorem costs_generate (config : StorageConfig) (job : Job) (video : Video) :
    Costs (generate config job video) r
      (callsOf 12 r + (if r = .enhancement then 1 else 0) + (if r = .submission then 1 else 0) +
        (maxPollAttempts * pollCost r + finishCost r)) := by
  have hall : Costs (generate config job video) r
      (callsOf 1 r + (callsOf 1 r + ((callsOf 1 r + if r = .enhancement then 1 else 0) +
        (callsOf 3 r + (callsOf 1 r + ((callsOf 1 r + if r = .submission then 1 else 0) +
          (callsOf 3 r + (callsOf 1 r +
            (maxPollAttempts * pollCost r + finishCost r))))))))) := by
    refine Program.AtMost.bind (costs_plain (by rfl)) fun _ ↦ ?_
    refine Program.AtMost.bind (costs_plain (by rfl)) fun _ ↦ ?_
    refine Program.AtMost.bind (costs_enhancePrompt _) fun enhancedPrompt ↦ ?_
    refine Program.AtMost.bind (costs_updateProgress _ _ _ _) fun _ ↦ ?_
    refine Program.AtMost.bind (costs_plain (by rfl)) fun _ ↦ ?_
    refine Program.AtMost.bind (costs_generateVideo _ _) fun generationResult ↦ ?_
    refine Program.AtMost.bind (costs_updateProgress _ _ _ _) fun _ ↦ ?_
    refine Program.AtMost.bind (costs_plain (by rfl)) fun _ ↦ ?_
    exact costs_pollLoop _ _ _ _ _ _
  refine hall.mono ?_
  have hcalls : callsOf 1 r + (callsOf 1 r + (callsOf 1 r + (callsOf 3 r + (callsOf 1 r +
      (callsOf 1 r + (callsOf 3 r + callsOf 1 r)))))) = callsOf 12 r := by
    simp only [callsOf_add]
  omega

theorem costs_onGenerationError (job : Job) (error : Thrown) :
    Costs (onGenerationError job error) r (callsOf 5 r) := by
  have hfailed (event : VideoFailedEvent) : Costs (emit (.failed event)) r (callsOf 3 r) := by
    apply Program.atMost_perform
    cases r <;> exact Nat.le_refl _
  have hthrow : Costs (Program.throw (I := interface) error : Prog Unit) r 0 :=
    Program.atMost_throw _ _
  unfold onGenerationError
  by_cases hfinal : IsFinalAttempt job
  · simp only [if_pos hfinal]
    exact costs_bind 2 3 (costs_markFailed _ _) fun _ ↦
      Program.AtMost.bind (m := 0) (hfailed _) fun _ ↦ hthrow
  · simp only [if_neg hfinal]
    exact hthrow.mono (Nat.zero_le _)

theorem costs_process (config : StorageConfig) (job : Job) :
    Costs (process config job) r (executionCost r) := by
  have hgenerate (video : Video) := costs_generate (r := r) config job video
  unfold process
  split
  · have hall : Costs (handleVideoGeneration config job) r
        (callsOf 1 r + (callsOf 3 r + (callsOf 12 r + (if r = .enhancement then 1 else 0) +
          (if r = .submission then 1 else 0) + (maxPollAttempts * pollCost r + finishCost r))) +
          callsOf 5 r) := by
      refine Program.AtMost.catchWith ?_ (costs_onGenerationError job)
      refine Program.AtMost.bind (costs_findById _) fun video ↦ ?_
      refine Program.AtMost.bind (costs_transitionStatus _ _ _ _) fun started ↦ ?_
      split
      · exact hgenerate video
      · exact costs_pure _ _
    refine hall.mono ?_
    cases r <;> decide
  · exact costs_pure _ _

/-- Every task keeps to its budget, whatever its calls are answered. -/
theorem Task.costs (config : StorageConfig) (task : Task) :
    Costs (task.body config) r (task.budget r) := by
  cases task with
  | process job => exact (costs_process config job).map _
  | createAndQueue userId dto => exact (costs_createAndQueue userId dto).map _
  | retryFailedJob id => exact (costs_retryFailedJob id).map _
  | onVideoFailed event => exact (costs_onVideoFailed event).map _
  | remove id userId => exact (costs_remove id userId).map _
  | service call => exact call.costs

end Programs

end VideoGen
