import VideoGen.Processor

/-!
# The calls of the service methods

Which calls a method can make, whatever the replies.  Each rule reduces a
property of all calls of a method to the calls that it issues itself.
-/

namespace VideoGen

section Calls

variable {config : StorageConfig} {Q : Call → Prop} {α : Type}

theorem calls_ask {c : Call} (h : Q c) : (ask c).Calls Q := Program.calls_perform h

/-! ## Storage and AI -/

theorem calls_withRetryFrom (htimeout : ∀ ms, Q (.setTimeout ms)) {operation : Prog α}
    (hop : operation.Calls Q) (maxAttempts remaining attempt : ℕ) (lastError : Thrown) :
    (withRetryFrom operation maxAttempts attempt lastError remaining).Calls Q := by
  induction remaining generalizing attempt lastError with
  | zero => trivial
  | succ remaining ih =>
      refine hop.attempt.bind fun r ↦ ?_
      cases r with
      | ok value => trivial
      | error error =>
          change Program.Calls _ (if attempt < maxAttempts then _ else _)
          split
          · exact (calls_ask (htimeout _)).bind fun _ ↦ ih _ _
          · exact ih _ _

theorem calls_uploadFromUrl {key sourceUrl : String} (hget : Q (.httpsGet sourceUrl))
    (hput : ∀ body contentType, Q (.s3Put key body contentType))
    (htimeout : ∀ ms, Q (.setTimeout ms)) : (uploadFromUrl config sourceUrl key).Calls Q := by
  have hfetch : (Program.catchWith (ask (.httpsGet sourceUrl)) fun _ ↦
      raise .internal "Failed to fetch video from source URL").Calls Q :=
    (calls_ask hget).catchWith fun _ ↦ trivial
  refine hfetch.bind fun buffer ↦ ?_
  have hretried := calls_withRetryFrom htimeout
    (calls_ask (hput buffer "video/mp4")) maxRetryAttempts maxRetryAttempts 1
    (Runtime.error (I := interface) "S3 operation failed after all retry attempts")
  refine Program.Calls.catchWith ?_ fun _ ↦ trivial
  exact hretried.bind fun _ ↦ trivial

theorem calls_enhancePrompt (prompt : String) (h : Q (.chatCompletion prompt)) :
    (enhancePrompt prompt).Calls Q := by
  refine Program.Calls.catchWith ?_ fun _ ↦ trivial
  exact (calls_ask h).bind fun _ ↦ trivial

/-! ## Job status -/

variable (hnow : Q .dateNow) (hcache : ∀ key value, Q (.redisSetLater key value))

include hnow hcache

theorem calls_writeCache (videoId : String) (status : VideoStatus) (progress message : JsValue) :
    (writeCache videoId status progress message).Calls Q :=
  (calls_ask hnow).bind fun _ ↦ calls_ask (hcache _ _)

theorem calls_transitionStatus {videoId : String} {expectedStatus newStatus : VideoStatus}
    {extra : TransitionExtra}
    (hupdate : Allowed expectedStatus newStatus →
      Q (.updateVideo videoId (some expectedStatus) (extra.fields newStatus))) :
    (transitionStatus videoId expectedStatus newStatus extra).Calls Q := by
  unfold transitionStatus
  split
  · rename_i hallowed
    refine (calls_ask (hupdate hallowed)).bind fun affected ↦ ?_
    split
    · trivial
    · exact (calls_writeCache hnow hcache _ _ _ _).bind fun _ ↦ trivial
  · trivial

theorem calls_updateProgress {videoId : String} {percent : ℤ} {message : String}
    {additionalMeta : JsObject} (hupdate : Q (.updateVideo videoId (some .processing)
      (progressFields percent message additionalMeta))) :
    (updateProgress videoId percent message additionalMeta).Calls Q :=
  (calls_ask hupdate).bind fun _ ↦ calls_writeCache hnow hcache _ _ _ _

omit hnow hcache

theorem calls_evictCache {videoId : String} (h : Q (.redisDel (statusKey videoId))) :
    (evictCache videoId).Calls Q :=
  (calls_ask h).catchWith fun _ ↦ trivial

theorem calls_markFailed {videoId errorMessage : String}
    (hupdate : Q (.updateVideo videoId none (failedFields errorMessage)))
    (hdel : Q (.redisDel (statusKey videoId))) : (markFailed videoId errorMessage).Calls Q :=
  (calls_ask hupdate).bind fun _ ↦ calls_evictCache hdel

/-! ## Reading the status -/

theorem calls_loadFromDb {videoId : String} (hselect : Q (.selectVideo videoId))
    (hnow : Q .dateNow) (hset : ∀ snapshot, Q (.redisSet (statusKey videoId) snapshot)) :
    (loadFromDb videoId).Calls Q := by
  refine Program.Calls.catchWith ?_ fun _ ↦ trivial
  refine (calls_ask hselect).bind fun row ↦ ?_
  cases row with
  | none => trivial
  | some row => exact (calls_ask hnow).bind fun _ ↦ (calls_ask (hset _)).bind fun _ ↦ trivial

theorem calls_getCachedStatus {videoId : String} (hget : Q (.redisGet (statusKey videoId)))
    (hload : (loadFromDb videoId).Calls Q) : (getCachedStatus videoId).Calls Q := by
  have hparse (text : Option CachedText) : (parseSnapshot text).Calls Q := by
    unfold parseSnapshot
    split
    · trivial
    · trivial
    · split <;> trivial
  refine (((calls_ask hget).bind hparse).catchWith ?_).bind fun hit ↦ ?_
  · exact fun _ ↦ trivial
  cases hit with
  | none => exact hload
  | some snapshot => trivial

end Calls

end VideoGen
