import VideoGen.VideosService

/-!
# The dead letter queue service

A listener records every `video.failed` event in `failed_jobs`; an
administrator can retry a record, which resets the video and enqueues a
fresh job through the queue that `QueueModule` registers.
-/

namespace VideoGen

/-! ## Dates in messages -/

def padded (width n : ℕ) : String :=
  String.ofList (List.leftpad width '0' (toString n).toList)

/-- `new Date(ms).toISOString()`, by the proleptic Gregorian calendar. -/
def toIsoString (ms : ℕ) : String :=
  -- Days are counted from 1 March of year 0, in eras of 400 years.
  let days := ms / 86400000 + 719468
  let dayOfEra := days % 146097
  let yearOfEra :=
    (dayOfEra - dayOfEra / 1460 + dayOfEra / 36524 - dayOfEra / 146096) / 365
  let dayOfYear := dayOfEra - (365 * yearOfEra + yearOfEra / 4 - yearOfEra / 100)
  let month := (5 * dayOfYear + 2) / 153
  let day := dayOfYear - (153 * month + 2) / 5 + 1
  let year := yearOfEra + days / 146097 * 400 + if month < 10 then 0 else 1
  let yearText := if year ≤ 9999 then padded 4 year else "+" ++ padded 6 year
  yearText ++ "-" ++ padded 2 (if month < 10 then month + 3 else month - 9) ++ "-" ++
    padded 2 day ++ "T" ++ padded 2 (ms / 3600000 % 24) ++ ":" ++
    padded 2 (ms / 60000 % 60) ++ ":" ++ padded 2 (ms / 1000 % 60) ++ "." ++
    padded 3 (ms % 1000) ++ "Z"

/-! ## The service -/

/-- The default options that `QueueModule` registers. -/
def queueModuleJobOptions : JobOptions where
  attempts := some 3
  backoff := some ⟨"exponential", 5000⟩
  removeOnComplete := some 100
  removeOnFail := some 500

def retryJobOptions : JobOptions where
  attempts := some 3
  backoff := some ⟨"exponential", 5000⟩
  removeOnComplete := some 100
  removeOnFail := some 500

def failedJobFields (event : VideoFailedEvent) (video : Option Video) : FailedJobFields where
  videoId := event.videoId
  queueJobId := video.bind Video.queueJobId
  errorMessage := event.errorMessage
  jobName := videoGenerationJob
  jobData := ⟨event.videoId⟩
  attemptsMade := event.attemptsMade
  retried := false
  retriedAt := none
  retryJobId := none

/-- The listener never throws: an error of its calls is only logged. -/
def onVideoFailed (event : VideoFailedEvent) : Prog Unit :=
  Program.catchWith (do
    let video ← selectVideo event.videoId
    let _ ← ask (.insertFailedJob (failedJobFields event video))
    pure ()) fun _ ↦ pure ()

def resetFields : VideoFields where
  status := some .pending
  errorMessage := some none
  metadata := some (some JsObject.empty)
  queueJobId := some none

def retryFailedJob (id : String) : Prog RetryFailedJobDto := do
  let record : Option FailedJob ← ask (.selectFailedJob id)
  match record with
  | none => raise .notFound ("DLQ record " ++ id ++ " not found")
  | some record =>
      if record.retried then
        raise .conflict ("DLQ record " ++ id ++ " was already retried at " ++
          (record.retriedAt.map toIsoString).getD "undefined")
      else do
        let _ ← updateVideo record.videoId none resetFields
        let jobId ← queueAdd queueModuleJobOptions videoGenerationJob ⟨record.videoId⟩
          retryJobOptions
        let retryJobId := toString jobId
        let now ← dateNow
        let _ ← updateVideo record.videoId none (queueJobIdFields jobId)
        let _ ← ask (.markRetried id now retryJobId)
        pure { id := record.id, retryJobId := retryJobId, videoId := record.videoId }

end VideoGen
