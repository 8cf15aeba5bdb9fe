import VideoGen.JobStatusService
import VideoGen.StorageService

/-!
# The videos service

Creating a video inserts the row, enqueues its job through the queue that
`VideosModule` registers and then stores the job id.  Edits save the whole
entity; removal deletes the row only.
-/

namespace VideoGen

/-- `registerQueue({ name })` of `VideosModule` passes no default options. -/
def videosModuleJobOptions : JobOptions := {}

/-- `queue.add(name, data, opts)` on a queue instance with the given defaults. -/
def queueAdd (defaultJobOptions : JobOptions) (name : String)
    (data : VideoGenerationJobData) (opts : JobOptions) : Prog ℕ :=
  ask (.queueAdd name data (opts.over defaultJobOptions))

/-- The entity that `videoRepository.create({ ...dto, ... })` makes of a request. -/
def CreateVideoDto.fields (dto : CreateVideoDto) (userId : String) : VideoFields where
  title := some dto.title
  prompt := some dto.prompt
  negativePrompt := dto.negativePrompt.map some
  width := dto.width.map some
  height := dto.height.map some
  fps := dto.fps.map some
  model := dto.model.map some
  status := some .pending
  userId := some userId

def queueJobIdFields (jobId : ℕ) : VideoFields where
  queueJobId := some (some (toString jobId))

def createAndQueue (userId : String) (dto : CreateVideoDto) : Prog Video := do
  let saved : Video ← ask (.insertVideo none (dto.fields userId))
  let jobId ← queueAdd videosModuleJobOptions videoGenerationJob ⟨saved.id⟩ {}
  let _ ← updateVideo saved.id none (queueJobIdFields jobId)
  emit (.created saved.id userId saved.prompt (toString jobId))
  pure { saved with queueJobId := some (toString jobId) }

def findOneForUser (id userId : String) : Prog Video := do
  match ← selectVideo id with
  | none => raise .notFound ("Video " ++ id ++ " not found")
  | some video =>
      if video.userId = userId then pure video else raise .forbidden "Forbidden"

def findById (id : String) : Prog Video := do
  match ← selectVideo id with
  | none => raise .notFound ("Video " ++ id ++ " not found")
  | some video => pure video

/-! ## Editing and removing -/

structure UpdateVideoDto where
  title : Option String

/-- The columns in which an entity differs from the row. -/
def Video.changes (entity row : Video) : VideoFields where
  title := if entity.title = row.title then none else some entity.title
  prompt := if entity.prompt = row.prompt then none else some entity.prompt
  negativePrompt :=
    if entity.negativePrompt = row.negativePrompt then none else some entity.negativePrompt
  status := if entity.status = row.status then none else some entity.status
  videoUrl := if entity.videoUrl = row.videoUrl then none else some entity.videoUrl
  thumbnailUrl :=
    if entity.thumbnailUrl = row.thumbnailUrl then none else some entity.thumbnailUrl
  errorMessage :=
    if entity.errorMessage = row.errorMessage then none else some entity.errorMessage
  durationSeconds :=
    if entity.durationSeconds = row.durationSeconds then none else some entity.durationSeconds
  width := if entity.width = row.width then none else some entity.width
  height := if entity.height = row.height then none else some entity.height
  fps := if entity.fps = row.fps then none else some entity.fps
  model := if entity.model = row.model then none else some entity.model
  queueJobId := if entity.queueJobId = row.queueJobId then none else some entity.queueJobId
  metadata := if entity.metadata = row.metadata then none else some entity.metadata
  userId := if entity.userId = row.userId then none else some entity.userId

/-- All columns of an entity, as `INSERT` writes them. -/
def Video.allFields (entity : Video) : VideoFields where
  title := some entity.title
  prompt := some entity.prompt
  negativePrompt := some entity.negativePrompt
  status := some entity.status
  videoUrl := some entity.videoUrl
  thumbnailUrl := some entity.thumbnailUrl
  errorMessage := some entity.errorMessage
  durationSeconds := some entity.durationSeconds
  width := some entity.width
  height := some entity.height
  fps := some entity.fps
  model := some entity.model
  queueJobId := some entity.queueJobId
  metadata := some entity.metadata
  userId := some entity.userId

/-- `videoRepository.save(entity)`: re-read the row, then write the columns that
differ, if any, or insert the entity when the row is gone. -/
def saveVideo (entity : Video) : Prog Video := do
  match ← selectVideo entity.id with
  | none => ask (.insertVideo (some entity.id) entity.allFields)
  | some row =>
      if entity.changes row = {} then pure entity else do
        let _ ← updateVideo entity.id none (entity.changes row)
        pure entity

def update (id userId : String) (dto : UpdateVideoDto) : Prog Video := do
  let video ← findOneForUser id userId
  saveVideo { video with title := dto.title.getD video.title }

def remove (id userId : String) : Prog Unit := do
  let video ← findOneForUser id userId
  ask (.deleteVideo video.id)

/-! ## Download links -/

def maxPresignTtl : ℤ := 86400

structure VideoFileMetaDto where
  contentType : String
  sizeBytes : JsValue
  durationSeconds : ℤ
  width : Option ℤ
  height : Option ℤ
  fps : Option ℤ

structure VideoResultDto where
  videoId : String
  downloadUrl : String
  thumbnailUrl : Option String
  expiresInSeconds : JsNumber
  expiresAt : JsNumber
  file : VideoFileMetaDto

/-- A nullable string in a condition: `null` and the empty string are falsy. -/
def truthy : Option String → Option String
  | some s => if s = "" then none else some s
  | none => none

/-- `new Date(Date.now() + ttl * 1000).toISOString()`, which throws for an
invalid date. -/
def toExpiryDate (now : ℕ) : JsNumber → Prog JsNumber
  | .real (some (some ttl)) => pure (.real (some (some (now + ttl * 1000))))
  | _ => raise .error "Invalid time value"

/-- The part of `getVideoResult` after the row was loaded; `extractS3Key` is the
service's key extraction. -/
def videoResult (extractS3Key : String → String) (video : Video) (expiresIn : JsNumber) :
    Prog VideoResultDto :=
  match video.status, truthy video.videoUrl with
  | .completed, some videoUrl => do
      let ttl := (expiresIn.max (.ofInt 60)).min (.ofInt maxPresignTtl)
      let downloadUrl ← getPresignedDownloadUrl (extractS3Key videoUrl) ttl
      let thumbnailUrl ← match truthy video.thumbnailUrl with
        | some url => some <$> getPresignedDownloadUrl (extractS3Key url) ttl
        | none => pure none
      let now ← dateNow
      let expiresAt ← toExpiryDate now ttl
      pure
        { videoId := video.id
          downloadUrl := downloadUrl
          thumbnailUrl := thumbnailUrl
          expiresInSeconds := ttl
          expiresAt := expiresAt
          file :=
            { contentType := "video/mp4"
              sizeBytes := (video.metadataAt "sizeBytes").orElse (.number 0)
              durationSeconds := video.durationSeconds.getD 0
              width := video.width
              height := video.height
              fps := video.fps } }
  | status, _ =>
      raise .conflict ("Video is not yet completed. Current status: " ++ status.text)

def getVideoResult (extractS3Key : String → String) (id userId : String)
    (expiresIn : JsNumber) : Prog VideoResultDto := do
  let video ← findOneForUser id userId
  videoResult extractS3Key video expiresIn

end VideoGen
