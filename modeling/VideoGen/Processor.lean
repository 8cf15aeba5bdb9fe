import VideoGen.VideosService

/-!
# The video generation processor

One execution of `handleVideoGeneration`: read the row, take it with the
start transition, submit to the provider, poll, store the result, complete
the row and announce it.  Whatever the `try` block throws is written to the
row on the last attempt and thrown again.
-/

namespace VideoGen

def jobUpdateProgress (job : Job) (percent : ℤ) : Prog Unit :=
  ask (.jobUpdateProgress job.id percent)

def startExtra : TransitionExtra where
  metadata := some (some (progressMetadata 10 "Starting generation..." JsObject.empty))

def completeExtra (storedUrl : String) (thumbnailUrl : Option String) : TransitionExtra where
  videoUrl := some (some storedUrl)
  thumbnailUrl := thumbnailUrl.map some
  metadata := some (some (progressMetadata 100 "Completed" JsObject.empty))

/-- `Math.ceil(ms / 1000)` -/
def ceilSeconds (ms : ℤ) : ℤ := -(-ms / 1000)

/-- `estimatedDurationMs ? Math.ceil(estimatedDurationMs / 1000) : undefined` -/
def estimatedSeconds : Option ℤ → JsValue
  | some ms => if ms = 0 then .undefined else .number (ceilSeconds ms)
  | none => .undefined

def submittedMeta (result : GenerateVideoResult) : JsObject :=
  [("aiJobId", .string result.jobId),
    ("estimatedSecondsRemaining", estimatedSeconds result.estimatedDurationMs)]

def maxPollAttempts : ℕ := 30

def outputKey (videoId : String) : String := "videos/" ++ videoId ++ "/output.mp4"

/-- Percent written after the given number of polls. -/
def pollPercent (pollAttempts : ℕ) : ℤ := 40 + min 50 (pollAttempts * 2)

def pollMessage (pollAttempts : ℕ) : String :=
  "Rendering... (poll " ++ toString pollAttempts ++ "/" ++ toString maxPollAttempts ++ ")"

def pollMeta (pollAttempts : ℕ) : JsObject :=
  [("estimatedSecondsRemaining",
    .number (max 0 (((maxPollAttempts : ℤ) - pollAttempts) * 10)))]

section Handler

variable (config : StorageConfig) (job : Job)

/-- `alreadyStored ? videoUrl : await uploadFromUrl(videoUrl, key)` -/
def storeVideo (result : GenerateVideoResult) (videoUrl : String) : Prog String :=
  if result.alreadyStored = some true then pure videoUrl
  else uploadFromUrl config videoUrl (outputKey job.data.videoId)

def finishGeneration (result : GenerateVideoResult) (videoUrl : String) : Prog Unit := do
  let videoId := job.data.videoId
  let storedUrl ← storeVideo config job result videoUrl
  -- The answer of this transition is not looked at.
  let _ ← transitionStatus videoId .processing .completed
    (completeExtra storedUrl result.thumbnailUrl)
  jobUpdateProgress job 100
  emit (.completed ⟨videoId, storedUrl, result.thumbnailUrl⟩)

/-- The polling loop; `remaining` is `maxPollAttempts - pollAttempts`. -/
def pollLoop (generationJobId : String) (status : GenerationStatus) (pollAttempts : ℕ) :
    ℕ → Prog Unit
  | 0 => raise .error ("AI provider did not return a video after " ++
      toString pollAttempts ++ " polling attempts")
  | remaining + 1 =>
      if status = .processing then do
        setTimeout 10000
        let result ← getGenerationStatus generationJobId
        let pollAttempts := pollAttempts + 1
        updateProgress job.data.videoId (pollPercent pollAttempts) (pollMessage pollAttempts)
          (pollMeta pollAttempts)
        jobUpdateProgress job (pollPercent pollAttempts)
        emit (.progressUpdated job.data.videoId (pollPercent pollAttempts)
          (pollMessage pollAttempts))
        match truthy result.videoUrl with
        | some videoUrl => finishGeneration config job result videoUrl
        | none => pollLoop generationJobId result.status pollAttempts remaining
      else raise .error ("AI provider did not return a video after " ++
        toString pollAttempts ++ " polling attempts")

/-- From the successful start transition to the end of the `try` block. -/
def generate (video : Video) : Prog Unit := do
  let videoId := job.data.videoId
  jobUpdateProgress job 10
  emit (.processingStarted videoId (job.attemptsMade + 1))
  let enhancedPrompt ← enhancePrompt video.prompt
  updateProgress videoId 20 "Prompt enhanced, submitting to AI provider..." JsObject.empty
  jobUpdateProgress job 20
  let generationResult ← generateVideo
    { prompt := enhancedPrompt
      negativePrompt := video.negativePrompt
      width := video.width
      height := video.height
      fps := video.fps
      model := video.model } videoId
  updateProgress videoId 40 "Job submitted, waiting for AI provider..."
    (submittedMeta generationResult)
  jobUpdateProgress job 40
  pollLoop config job generationResult.jobId generationResult.status 0 maxPollAttempts

/-- The `try` block. -/
def attemptGeneration : Prog Unit := do
  let videoId := job.data.videoId
  let video ← findById videoId
  let started ← transitionStatus videoId video.status .processing startExtra
  if started then generate config job video else pure ()

/-- `job.attemptsMade >= maxAttempts - 1` -/
def IsFinalAttempt : Prop := job.maxAttempts - 1 ≤ job.attemptsMade

instance : Decidable (IsFinalAttempt job) := inferInstanceAs (Decidable (_ ≤ _))

/-- The `catch` block. -/
def onGenerationError (error : Thrown) : Prog Unit := do
  let videoId := job.data.videoId
  let errorMessage := error.errorMessage
  let _ ← if IsFinalAttempt job then do
      markFailed videoId errorMessage
      emit (.failed ⟨videoId, errorMessage, job.attemptsMade + 1⟩)
    else pure ()
  Program.throw (I := interface) error

def handleVideoGeneration : Prog Unit :=
  (attemptGeneration config job).catchWith (onGenerationError job)

def process : Prog Unit :=
  if job.name = videoGenerationJob then handleVideoGeneration config job else pure ()

end Handler

theorem isFinalAttempt_iff_not_retryable (job : Job) :
    IsFinalAttempt job ↔ ¬job.Retryable := by
  unfold IsFinalAttempt Job.Retryable
  omega

end VideoGen
