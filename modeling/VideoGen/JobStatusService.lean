import VideoGen.World

/-!
# The job status service

Status transitions are compare-and-set updates of the video row; progress
updates are guarded to `processing` rows; `markFailed` is an unguarded
update.  The cache is written behind the database and without awaiting it.
-/

namespace VideoGen

/-! ## Typed calls -/

def selectVideo (id : String) : Prog (Option Video) := ask (.selectVideo id)

def updateVideo (id : String) (expected : Option VideoStatus) (fields : VideoFields) :
    Prog ℕ := ask (.updateVideo id expected fields)

def dateNow : Prog ℕ := ask .dateNow

def emit (event : DomainEvent) : Prog Unit := ask (.emit event)

/-! ## The state machine -/

def statusKey (videoId : String) : String := "video:status:" ++ videoId

/-- Which target statuses are reachable from each source status. -/
def validTransitions : VideoStatus → Option (List VideoStatus)
  | .pending => some [.processing, .failed]
  | .processing => some [.processing, .completed, .failed]
  | _ => none

/-- `VALID_TRANSITIONS[expected]?.includes(target)` -/
def Allowed (expected target : VideoStatus) : Prop :=
  ∃ targets, validTransitions expected = some targets ∧ target ∈ targets

instance (expected target : VideoStatus) : Decidable (Allowed expected target) :=
  match h : validTransitions expected with
  | none => isFalse fun ⟨_, htargets, _⟩ ↦ by simp [h] at htargets
  | some targets => decidable_of_iff (target ∈ targets) (by simp [Allowed, h])

/-- `Partial<Pick<Video, 'videoUrl' | 'thumbnailUrl' | 'metadata'>>` -/
structure TransitionExtra where
  videoUrl : Option (Option String) := none
  thumbnailUrl : Option (Option String) := none
  metadata : Option (Option JsObject) := none

namespace TransitionExtra

/-- The columns that a transition writes: the status and the defined fields. -/
def fields (extra : TransitionExtra) (newStatus : VideoStatus) : VideoFields where
  status := some newStatus
  videoUrl := extra.videoUrl
  thumbnailUrl := extra.thumbnailUrl
  metadata := extra.metadata

def metadataAt (extra : TransitionExtra) (key : String) : JsValue :=
  match extra.metadata with
  | some (some o) => o.get key
  | _ => .undefined

end TransitionExtra

/-- `this.writeCache(...).catch(...)`: the promise is not awaited. -/
def writeCache (videoId : String) (status : VideoStatus) (progress message : JsValue) :
    Prog Unit := do
  let updatedAt ← dateNow
  ask (.redisSetLater (statusKey videoId) ⟨status, progress, message, updatedAt⟩)

def transitionStatus (videoId : String) (expectedStatus newStatus : VideoStatus)
    (extra : TransitionExtra) : Prog Bool :=
  if Allowed expectedStatus newStatus then do
    let affected ← updateVideo videoId (some expectedStatus) (extra.fields newStatus)
    if affected = 0 then
      pure false
    else do
      writeCache videoId newStatus
        ((extra.metadataAt "progressPercent").orElse (.number 0))
        ((extra.metadataAt "progressMessage").orElse (.string ""))
      pure true
  else pure false

/-- `{ progressPercent: percent, progressMessage: message, ...additionalMeta }` -/
def progressMetadata (percent : ℤ) (message : String) (additionalMeta : JsObject) :
    JsObject :=
  JsObject.spread [("progressPercent", .number percent), ("progressMessage", .string message)]
    additionalMeta

def progressFields (percent : ℤ) (message : String) (additionalMeta : JsObject) :
    VideoFields where
  metadata := some (some (progressMetadata percent message additionalMeta))

def updateProgress (videoId : String) (percent : ℤ) (message : String)
    (additionalMeta : JsObject) : Prog Unit := do
  let _ ← updateVideo videoId (some .processing)
    (progressFields percent message additionalMeta)
  writeCache videoId .processing (.number percent) (.string message)

def evictCache (videoId : String) : Prog Unit :=
  (ask (.redisDel (statusKey videoId))).catchWith fun _ ↦ pure ()

def failedFields (errorMessage : String) : VideoFields where
  status := some .failed
  errorMessage := some (some errorMessage)
  metadata := some (some (progressMetadata 0 "Failed" JsObject.empty))

/-- Force-write `failed` with no optimistic guard. -/
def markFailed (videoId errorMessage : String) : Prog Unit := do
  let _ ← updateVideo videoId none (failedFields errorMessage)
  evictCache videoId

/-! ## Reading the status -/

/-- `JSON.parse(raw)`; an empty text is falsy and counts as a miss. -/
def parseSnapshot : Option CachedText → Prog (Option StatusSnapshot)
  | none => pure none
  | some (.snapshot s) => pure (some s)
  | some (.malformed text) =>
      if text = "" then pure none else raise .error "Unexpected token"

def loadFromDb (videoId : String) : Prog (Option StatusSnapshot) :=
  Program.catchWith (do
    match ← selectVideo videoId with
    | none => pure none
    | some video => do
        let updatedAt ← dateNow
        let snapshot : StatusSnapshot :=
          ⟨video.status, (video.metadataAt "progressPercent").orElse (.number 0),
            (video.metadataAt "progressMessage").orElse (.string ""), updatedAt⟩
        let _ ← ask (.redisSet (statusKey videoId) snapshot)
        pure (some snapshot)) fun _ ↦ pure none

def getCachedStatus (videoId : String) : Prog (Option StatusSnapshot) := do
  let hit ← Program.catchWith (do
    let raw ← ask (.redisGet (statusKey videoId))
    parseSnapshot raw) fun _ ↦ pure none
  match hit with
  | some snapshot => pure (some snapshot)
  | none => loadFromDb videoId

end VideoGen
