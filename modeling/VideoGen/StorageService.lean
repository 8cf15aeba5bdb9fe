import Mathlib.Algebra.Group.Nat.Defs
import Mathlib.Logic.Unique
import VideoGen.World

/-!
# The storage and AI services

Uploads are retried with exponential back-off; every failure of a storage
operation surfaces as an internal server error.  Prompt enhancement falls
back to the original prompt.
-/

namespace VideoGen

structure StorageConfig where
  bucket : String
  endpoint : Option String
  region : String
  deriving DecidableEq, Repr

def maxRetryAttempts : ℕ := 3

def baseRetryDelayMs : ℕ := 200

/-- A timer waits 1 to 2147483647 milliseconds, and 1 when it is asked for anything else. -/
def timerDelay (ms : ℕ) : ℕ := if 1 ≤ ms ∧ ms ≤ 2147483647 then ms else 1

def setTimeout (ms : ℕ) : Prog Unit := ask (.setTimeout (timerDelay ms))

/-- What `withRetry` needs of a runtime: timers, new errors, and the message of a caught value,
which cannot be read of `null` and `undefined`. -/
class Runtime (I : Interface) where
  timer : ℕ → I.Call
  fired (ms : ℕ) : Unique (I.Reply (timer ms))
  error : String → I.Error
  readMessage : I.Error → Except I.Error Unit

instance : Runtime interface where
  timer := .setTimeout
  fired _ := inferInstanceAs (Unique Unit)
  error := .instance .error
  readMessage _ := .ok ()

section Retry

variable {I : Interface} [Runtime I] {α : Type}

/-- The loop of `withRetry` from attempt `attempt` on, with `remaining` turns left. -/
def withRetryFrom (operation : Program I α) (maxAttempts attempt : ℕ) (lastError : I.Error) :
    ℕ → Program I α
  | 0 => Program.throw lastError
  | remaining + 1 => do
      match ← operation.attempt with
      | .ok value => pure value
      | .error error =>
          if attempt < maxAttempts then do
            -- The warning reads `lastError.message`.
            let _ ← Program.done (Runtime.readMessage error)
            let _ ← Program.perform
              (Runtime.timer (timerDelay (baseRetryDelayMs * 2 ^ (attempt - 1))))
            withRetryFrom operation maxAttempts (attempt + 1) error remaining
          else withRetryFrom operation maxAttempts (attempt + 1) error remaining

def withRetry (operation : Program I α) (maxAttempts : ℕ) : Program I α :=
  withRetryFrom operation maxAttempts 1
    (Runtime.error "S3 operation failed after all retry attempts") maxAttempts

end Retry

/-- The message of every error of the clients can be read. -/
theorem readMessage_then {α : Type} (error : Thrown) (f : Unit → Prog α) :
    (Program.done (Runtime.readMessage (I := interface) error) : Prog Unit) >>= f = f () := rfl

section Storage

variable (config : StorageConfig)

def getPublicUrl (key : String) : String :=
  match config.endpoint with
  | some endpoint =>
      if endpoint = "" then
        "https://" ++ config.bucket ++ ".s3." ++ config.region ++ ".amazonaws.com/" ++ key
      else endpoint ++ "/" ++ config.bucket ++ "/" ++ key
  | none =>
      "https://" ++ config.bucket ++ ".s3." ++ config.region ++ ".amazonaws.com/" ++ key

theorem getPublicUrl_ne_empty (key : String) : getPublicUrl config key ≠ "" := by
  unfold getPublicUrl
  split
  · split <;> simp
  · simp

def uploadBuffer (buffer : Bytes) (key contentType : String) : Prog String :=
  Program.catchWith (do
    let _ ← withRetry (ask (.s3Put key buffer contentType)) maxRetryAttempts
    pure (getPublicUrl config key))
    fun _ ↦ raise .internal ("S3 upload failed for key: " ++ key)

def uploadFromUrl (sourceUrl key : String) : Prog String := do
  let buffer ← Program.catchWith (ask (.httpsGet sourceUrl)) fun _ ↦
    raise .internal "Failed to fetch video from source URL"
  uploadBuffer config buffer key "video/mp4"

end Storage

def getPresignedDownloadUrl (key : String) (expiresIn : JsNumber) : Prog String :=
  Program.catchWith
    (ask (.s3Sign key ((expiresIn.max (.ofInt 60)).min (.ofInt 86400)))) fun _ ↦
    raise .internal "Failed to generate download URL"

/-! ## The AI service -/

def enhancePrompt (prompt : String) : Prog String :=
  Program.catchWith (do
    let content : Option String ← ask (.chatCompletion prompt)
    pure (content.getD prompt)) fun _ ↦ pure prompt

def generateVideo (params : GenerateVideoParams) (videoId : String) :
    Prog GenerateVideoResult := ask (.generateVideo params videoId)

def getGenerationStatus (jobId : String) : Prog GenerateVideoResult :=
  ask (.getGenerationStatus jobId)

end VideoGen
