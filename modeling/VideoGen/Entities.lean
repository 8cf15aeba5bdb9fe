import Mathlib.Data.Int.Notation
import Mathlib.Data.Nat.Notation

/-!
# Entities, transfer objects and domain events

The rows of the `videos` and `failed_jobs` tables, the partial objects that
insert and update statements write, the metadata objects of the `jsonb`
column and the events that services publish.  An absent or `undefined`
property is `none`; a nullable column holds an `Option`.
-/

namespace VideoGen

inductive VideoStatus where
  | pending
  | processing
  | completed
  | failed
  | cancelled
  deriving DecidableEq, Repr

def VideoStatus.text : VideoStatus → String
  | .pending => "pending"
  | .processing => "processing"
  | .completed => "completed"
  | .failed => "failed"
  | .cancelled => "cancelled"

/-! ## Thrown values -/

inductive ErrorClass where
  | error
  | notFound
  | conflict
  | forbidden
  | internal
  deriving DecidableEq, Repr

/-- What a client rejects with: an instance of `Error`, or another value, known by its
`String(...)` text.  `null` and `undefined`, whose properties cannot be read, are no
such values. -/
inductive Thrown where
  | instance (cls : ErrorClass) (message : String)
  | other (text : String)
  deriving DecidableEq, Repr

/-- `error instanceof Error ? error.message : String(error)` -/
def Thrown.errorMessage : Thrown → String
  | .instance _ message => message
  | .other text => text

/-! ## Metadata objects -/

inductive JsValue where
  | undefined
  | null
  | bool (b : Bool)
  | number (n : ℤ)
  | string (s : String)
  | other (json : String)
  deriving DecidableEq, Repr

/-- `v ?? d` -/
def JsValue.orElse (v d : JsValue) : JsValue :=
  match v with
  | .undefined => d
  | .null => d
  | v => v

/-- A `Record<string, any>`: its own properties, each at most once. -/
abbrev JsObject := List (String × JsValue)

namespace JsObject

def empty : JsObject := []

def get (o : JsObject) (key : String) : JsValue := (o.lookup key).getD .undefined

def has (o : JsObject) (key : String) : Bool := o.any (·.1 = key)

/-- `{ ...o, ...extra }` -/
def spread (o extra : JsObject) : JsObject := o.filter (fun p ↦ !extra.has p.1) ++ extra

/-- What a `jsonb` column keeps: properties with value `undefined` are dropped. -/
def stored (o : JsObject) : JsObject := o.filter (·.2 ≠ .undefined)

end JsObject

/-! ## Rows -/

structure Video where
  id : String
  title : String
  prompt : String
  negativePrompt : Option String
  status : VideoStatus
  videoUrl : Option String
  thumbnailUrl : Option String
  errorMessage : Option String
  durationSeconds : Option ℤ
  width : Option ℤ
  height : Option ℤ
  fps : Option ℤ
  model : Option String
  queueJobId : Option String
  metadata : Option JsObject
  userId : String
  createdAt : ℕ
  updatedAt : ℕ
  deriving DecidableEq, Repr

/-- `Partial<Video>`: a property that is `none` is not written. -/
structure VideoFields where
  title : Option String := none
  prompt : Option String := none
  negativePrompt : Option (Option String) := none
  status : Option VideoStatus := none
  videoUrl : Option (Option String) := none
  thumbnailUrl : Option (Option String) := none
  errorMessage : Option (Option String) := none
  durationSeconds : Option (Option ℤ) := none
  width : Option (Option ℤ) := none
  height : Option (Option ℤ) := none
  fps : Option (Option ℤ) := none
  model : Option (Option String) := none
  queueJobId : Option (Option String) := none
  metadata : Option (Option JsObject) := none
  userId : Option String := none
  deriving DecidableEq, Repr

namespace Video

/-- The row that `INSERT` makes of an entity, with the defaults of its columns. -/
def create (id : String) (fields : VideoFields) (now : ℕ) : Video where
  id := id
  title := fields.title.getD ""
  prompt := fields.prompt.getD ""
  negativePrompt := fields.negativePrompt.getD none
  status := fields.status.getD .pending
  videoUrl := fields.videoUrl.getD none
  thumbnailUrl := fields.thumbnailUrl.getD none
  errorMessage := fields.errorMessage.getD none
  durationSeconds := fields.durationSeconds.getD none
  width := fields.width.getD (some 1024)
  height := fields.height.getD (some 576)
  fps := fields.fps.getD (some 24)
  model := fields.model.getD none
  queueJobId := fields.queueJobId.getD none
  metadata := (fields.metadata.getD (some JsObject.empty)).map JsObject.stored
  userId := fields.userId.getD ""
  createdAt := now
  updatedAt := now

/-- The row after an `UPDATE` that sets the given columns; the update date
column is set by the same statement. -/
def assign (r : Video) (fields : VideoFields) (now : ℕ) : Video where
  id := r.id
  title := fields.title.getD r.title
  prompt := fields.prompt.getD r.prompt
  negativePrompt := fields.negativePrompt.getD r.negativePrompt
  status := fields.status.getD r.status
  videoUrl := fields.videoUrl.getD r.videoUrl
  thumbnailUrl := fields.thumbnailUrl.getD r.thumbnailUrl
  errorMessage := fields.errorMessage.getD r.errorMessage
  durationSeconds := fields.durationSeconds.getD r.durationSeconds
  width := fields.width.getD r.width
  height := fields.height.getD r.height
  fps := fields.fps.getD r.fps
  model := fields.model.getD r.model
  queueJobId := fields.queueJobId.getD r.queueJobId
  metadata := (fields.metadata.map (Option.map JsObject.stored)).getD r.metadata
  userId := fields.userId.getD r.userId
  createdAt := r.createdAt
  updatedAt := now

@[simp] theorem assign_id (r : Video) (fields : VideoFields) (now : ℕ) :
    (r.assign fields now).id = r.id := rfl

@[simp] theorem assign_status (r : Video) (fields : VideoFields) (now : ℕ) :
    (r.assign fields now).status = fields.status.getD r.status := rfl

/-- `video.metadata?.[key]` -/
def metadataAt (r : Video) (key : String) : JsValue :=
  match r.metadata with
  | none => .undefined
  | some o => o.get key

end Video

structure VideoGenerationJobData where
  videoId : String
  deriving DecidableEq, Repr

structure FailedJob where
  id : String
  videoId : String
  queueJobId : Option String
  errorMessage : String
  jobData : VideoGenerationJobData
  jobName : String
  attemptsMade : ℕ
  retried : Bool
  retriedAt : Option ℕ
  retryJobId : Option String
  failedAt : ℕ
  deriving DecidableEq, Repr

/-- What `failedJobRepo.create` is given; the database adds `id` and `failedAt`. -/
structure FailedJobFields where
  videoId : String
  queueJobId : Option String
  errorMessage : String
  jobData : VideoGenerationJobData
  jobName : String
  attemptsMade : ℕ
  retried : Bool
  retriedAt : Option ℕ
  retryJobId : Option String
  deriving DecidableEq, Repr

def FailedJob.create (id : String) (f : FailedJobFields) (now : ℕ) : FailedJob where
  id := id
  videoId := f.videoId
  queueJobId := f.queueJobId
  errorMessage := f.errorMessage
  jobData := f.jobData
  jobName := f.jobName
  attemptsMade := f.attemptsMade
  retried := f.retried
  retriedAt := f.retriedAt
  retryJobId := f.retryJobId
  failedAt := now

def FailedJob.markRetried (r : FailedJob) (retriedAt : ℕ) (retryJobId : String) : FailedJob :=
  { r with retried := true, retriedAt := some retriedAt, retryJobId := some retryJobId }

@[simp] theorem FailedJob.markRetried_id (r : FailedJob) (retriedAt : ℕ) (jobId : String) :
    (r.markRetried retriedAt jobId).id = r.id := rfl

/-! ## Domain events -/

structure VideoFailedEvent where
  videoId : String
  errorMessage : String
  attemptsMade : ℕ
  deriving DecidableEq, Repr

structure VideoCompletedEvent where
  videoId : String
  videoUrl : String
  thumbnailUrl : Option String
  deriving DecidableEq, Repr

inductive DomainEvent where
  | created (videoId userId prompt queueJobId : String)
  | processingStarted (videoId : String) (jobAttempt : ℕ)
  | progressUpdated (videoId : String) (percent : ℤ) (message : String)
  | completed (event : VideoCompletedEvent)
  | failed (event : VideoFailedEvent)
  deriving DecidableEq, Repr

/-! ## Transfer objects -/

structure CreateVideoDto where
  title : String
  prompt : String
  negativePrompt : Option String
  width : Option ℤ
  height : Option ℤ
  fps : Option ℤ
  model : Option String

structure VideoProgressDto where
  percent : JsValue
  message : JsValue
  estimatedSecondsRemaining : JsValue
  deriving DecidableEq, Repr

structure VideoStatusResponseDto where
  id : String
  status : VideoStatus
  queueJobId : Option String
  createdAt : ℕ
  updatedAt : ℕ
  progress : Option VideoProgressDto
  errorMessage : Option String
  resultReady : Bool
  deriving DecidableEq, Repr

def VideoStatusResponseDto.from (video : Video) : VideoStatusResponseDto where
  id := video.id
  status := video.status
  queueJobId := video.queueJobId
  createdAt := video.createdAt
  updatedAt := video.updatedAt
  errorMessage := video.errorMessage
  resultReady := video.status = .completed
  progress :=
    if video.status = .processing then some
      { percent := (video.metadataAt "progressPercent").orElse (.number 0)
        message := (video.metadataAt "progressMessage").orElse (.string "Processing…")
        estimatedSecondsRemaining := video.metadataAt "estimatedSecondsRemaining" }
    else none

structure RetryFailedJobDto where
  id : String
  retryJobId : String
  videoId : String
  deriving DecidableEq, Repr

end VideoGen
