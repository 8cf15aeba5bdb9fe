import VideoGen.Lib.Evaluation
import VideoGen.StorageService

/-!
# Downloading a video and storing it

`downloadToBuffer` is a promise that the listeners of a request settle: the
first of them that settles it decides.  It is rejected for a status of 400 or
more only, so the body of a redirect is taken for the video.
-/

namespace VideoGen

/-! ## The download -/

/-- What can happen to a request after it was sent. -/
inductive SourceEvent where
  | response (statusCode : Option ℕ)
  | data (chunk : Bytes)
  | ended
  | responseError (e : Thrown)
  | requestError (e : Thrown)

/-- The promise of `downloadToBuffer` and its listeners: the ones on the response collect
chunks once they are registered. -/
structure Download where
  responded : Bool := false
  chunks : Option (List Bytes) := none
  settled : Option (Except Thrown Bytes) := none

namespace Download

/-- Only the first call of `resolve` or `reject` has an effect. -/
def settle (d : Download) (r : Except Thrown Bytes) : Download :=
  { d with settled := some (d.settled.getD r) }

def next (url : String) (d : Download) : SourceEvent → Download
  | .response statusCode =>
      if d.responded then d
      else
        let code := statusCode.getD 0
        let d := { d with responded := true }
        if code ≠ 0 ∧ 400 ≤ code then
          d.settle (.error (.instance .error
            ("HTTP " ++ toString code ++ " downloading " ++ url)))
        else { d with chunks := some [] }
  | .data chunk => { d with chunks := d.chunks.map (· ++ [chunk]) }
  | .ended =>
      match d.chunks with
      | some chunks => d.settle (.ok chunks.flatten)
      | none => d
  | .responseError e => if d.chunks.isSome then d.settle (.error e) else d
  | .requestError e => d.settle (.error e)

end Download

/-- What the promise is settled with, if it is. -/
def downloadToBuffer (url : String) (events : List SourceEvent) :
    Option (Except Thrown Bytes) :=
  (events.foldl (Download.next url) {}).settled

/-! ## What the source sends -/

def completeBody : List SourceEvent → Option (List Bytes)
  | [] => none
  | .ended :: _ => some []
  | .data chunk :: events => (completeBody events).map (chunk :: ·)
  | .response _ :: events => completeBody events
  | .responseError _ :: _ => none
  | .requestError _ :: _ => none

def completeResponse : List SourceEvent → Option (Option ℕ × List Bytes)
  | [] => none
  | .response statusCode :: events => (completeBody events).map fun chunks ↦ (statusCode, chunks)
  | .requestError _ :: _ => none
  | _ :: events => completeResponse events

def SourceEvent.endsBody : SourceEvent → Bool
  | .ended => true
  | .responseError _ => true
  | .requestError _ => true
  | _ => false

/-- The request comes to an end: it fails, or it is answered with an error status or with a
body that ends. -/
def sourceEnds : List SourceEvent → Bool
  | [] => false
  | .response statusCode :: events =>
      400 ≤ statusCode.getD 0 || events.any SourceEvent.endsBody
  | .requestError _ :: _ => true
  | _ :: events => sourceEnds events

section Downloads

variable {url : String} {d : Download} {events : List SourceEvent} {body : Bytes}

theorem settled_next {r : Except Thrown Bytes} (h : d.settled = some r) (event : SourceEvent) :
    (d.next url event).settled = some r := by
  cases event with
  | response statusCode =>
      by_cases hresponded : d.responded = true
      · simp [Download.next, hresponded, h]
      · by_cases hcode : statusCode.getD 0 ≠ 0 ∧ 400 ≤ statusCode.getD 0
        · simp only [Download.next, hresponded, if_pos hcode]
          simp [Download.settle, h]
        · simp only [Download.next, hresponded, if_neg hcode]
          simp [h]
  | data chunk => exact h
  | ended => cases hchunks : d.chunks <;> simp [Download.next, Download.settle, hchunks, h]
  | responseError e => cases hchunks : d.chunks <;> simp [Download.next, Download.settle, hchunks, h]
  | requestError e => simp [Download.next, Download.settle, h]

theorem settled_foldl {r : Except Thrown Bytes} (h : d.settled = some r) :
    (events.foldl (Download.next url) d).settled = some r := by
  induction events generalizing d with
  | nil => exact h
  | cons event events ih => exact ih (settled_next h event)

/-- With listeners on the response the body decides. -/
theorem settled_listening {chunks : List Bytes} (hresponded : d.responded = true)
    (hchunks : d.chunks = some chunks) (hopen : d.settled = none) :
    (events.foldl (Download.next url) d).settled = some (.ok body) ↔
      ∃ rest, completeBody events = some rest ∧ body = (chunks ++ rest).flatten := by
  induction events generalizing d chunks with
  | nil => simp [completeBody, hopen]
  | cons event events ih =>
      rw [List.foldl_cons]
      cases event with
      | response statusCode =>
          have hsame : d.next url (.response statusCode) = d := by
            simp [Download.next, hresponded]
          rw [hsame]
          exact ih hresponded hchunks hopen
      | data chunk =>
          have hmore : (d.next url (.data chunk)).chunks = some (chunks ++ [chunk]) := by
            simp [Download.next, hchunks]
          have hresponded' : (d.next url (.data chunk)).responded = true := hresponded
          rw [ih hresponded' hmore hopen]
          simp [completeBody]
      | ended =>
          have hsettled : (d.next url .ended).settled = some (.ok chunks.flatten) := by
            simp [Download.next, Download.settle, hchunks, hopen]
          rw [settled_foldl hsettled]
          simp [completeBody, eq_comm]
      | responseError e =>
          have hsettled : (d.next url (.responseError e)).settled = some (.error e) := by
            simp [Download.next, Download.settle, hchunks, hopen]
          rw [settled_foldl hsettled]
          simp [completeBody]
      | requestError e =>
          have hsettled : (d.next url (.requestError e)).settled = some (.error e) := by
            simp [Download.next, Download.settle, hopen]
          rw [settled_foldl hsettled]
          simp [completeBody]

/-- The promise is resolved exactly with the chunks of a complete response whose status is
below 400. -/
theorem downloadToBuffer_ok_iff : downloadToBuffer url events = some (.ok body) ↔
    ∃ statusCode chunks, completeResponse events = some (statusCode, chunks) ∧
      statusCode.getD 0 < 400 ∧ body = chunks.flatten := by
  unfold downloadToBuffer
  induction events with
  | nil => simp [completeResponse]
  | cons event events ih =>
      rw [List.foldl_cons]
      cases event with
      | response statusCode =>
          by_cases hcode : statusCode.getD 0 < 400
          · have hnot : ¬(statusCode.getD 0 ≠ 0 ∧ 400 ≤ statusCode.getD 0) := by omega
            have hnext : Download.next url {} (.response statusCode) =
                { responded := true, chunks := some [] } := by
              simp only [Download.next, if_neg hnot]
              rfl
            rw [hnext, settled_listening rfl rfl rfl]
            simp [completeResponse, hcode]
          · have hcond : statusCode.getD 0 ≠ 0 ∧ 400 ≤ statusCode.getD 0 := by omega
            have hsettled : ∃ e, (Download.next url {} (.response statusCode)).settled =
                some (.error e) := by
              simp only [Download.next, if_pos hcond]
              exact ⟨_, rfl⟩
            obtain ⟨e, he⟩ := hsettled
            rw [settled_foldl he]
            simp [completeResponse, hcode]
      | requestError e =>
          have hsettled : (Download.next url {} (.requestError e)).settled = some (.error e) := rfl
          rw [settled_foldl hsettled]
          simp [completeResponse]
      | data chunk => exact ih
      | ended => exact ih
      | responseError e => exact ih

theorem settled_isSome_listening {chunks : List Bytes} (hresponded : d.responded = true)
    (hchunks : d.chunks = some chunks) (hopen : d.settled = none) :
    (events.foldl (Download.next url) d).settled.isSome = events.any SourceEvent.endsBody := by
  induction events generalizing d chunks with
  | nil => simp [hopen]
  | cons event events ih =>
      rw [List.foldl_cons, List.any_cons]
      cases event with
      | response statusCode =>
          have hsame : d.next url (.response statusCode) = d := by
            simp [Download.next, hresponded]
          rw [hsame, ih hresponded hchunks hopen]
          rfl
      | data chunk =>
          have hmore : (d.next url (.data chunk)).chunks = some (chunks ++ [chunk]) := by
            simp [Download.next, hchunks]
          have hresponded' : (d.next url (.data chunk)).responded = true := hresponded
          rw [ih hresponded' hmore hopen]
          rfl
      | ended =>
          have hsettled : (d.next url .ended).settled = some (.ok chunks.flatten) := by
            simp [Download.next, Download.settle, hchunks, hopen]
          rw [settled_foldl hsettled]
          rfl
      | responseError e =>
          have hsettled : (d.next url (.responseError e)).settled = some (.error e) := by
            simp [Download.next, Download.settle, hchunks, hopen]
          rw [settled_foldl hsettled]
          rfl
      | requestError e =>
          have hsettled : (d.next url (.requestError e)).settled = some (.error e) := by
            simp [Download.next, Download.settle, hopen]
          rw [settled_foldl hsettled]
          rfl

/-- The promise is settled exactly if the request comes to an end. -/
theorem downloadToBuffer_isSome (url : String) :
    (downloadToBuffer url events).isSome = sourceEnds events := by
  unfold downloadToBuffer
  induction events with
  | nil => rfl
  | cons event events ih =>
      rw [List.foldl_cons]
      cases event with
      | response statusCode =>
          by_cases hcode : 400 ≤ statusCode.getD 0
          · have hcond : statusCode.getD 0 ≠ 0 ∧ 400 ≤ statusCode.getD 0 := by omega
            have hsettled : ∃ e, (Download.next url {} (.response statusCode)).settled =
                some (.error e) := by
              simp only [Download.next, if_pos hcond]
              exact ⟨_, rfl⟩
            obtain ⟨e, he⟩ := hsettled
            rw [settled_foldl he]
            simp [sourceEnds, hcode]
          · have hnot : ¬(statusCode.getD 0 ≠ 0 ∧ 400 ≤ statusCode.getD 0) := by omega
            have hnext : Download.next url {} (.response statusCode) =
                { responded := true, chunks := some [] } := by
              simp only [Download.next, if_neg hnot]
              rfl
            rw [hnext, settled_isSome_listening rfl rfl rfl]
            simp [sourceEnds, hcode]
      | requestError e =>
          have hsettled : (Download.next url {} (.requestError e)).settled = some (.error e) := rfl
          rw [settled_foldl hsettled]
          rfl
      | data chunk => exact ih
      | ended => exact ih
      | responseError e => exact ih

end Downloads

/-! ## Uploading alone -/

inductive Upload where
  | ok
  | rejected (e : Thrown)
  | lost (e : Thrown)

def Upload.TakesEffect : Upload → Prop
  | .ok => True
  | .rejected _ => False
  | .lost _ => True

/-- The stores, the number of puts that were sent and those that took effect. -/
structure Intake where
  world : World
  attempts : ℕ
  stored : List (String × Bytes)

namespace Intake

def sent (s : Intake) : Intake := { s with attempts := s.attempts + 1 }

def put (s : Intake) (key : String) (body : Bytes) (contentType : String) : Intake where
  world := s.world.setBucket key (some (body, contentType))
  attempts := s.attempts + 1
  stored := s.stored ++ [(key, body)]

/-- The source sends the events, and the puts fare in order as listed; the other calls go
through. -/
def exec (events : List SourceEvent) (uploads : ℕ → Upload) (s : Intake) :
    (c : Call) → Unit → Option (Intake × Except Thrown c.Reply)
  | .httpsGet url, _ => (downloadToBuffer url events).map fun r ↦ (s, r)
  | .s3Put key body contentType, _ =>
      match uploads s.attempts with
      | .ok => some (s.put key body contentType, .ok ())
      | .rejected e => some (s.sent, .error e)
      | .lost e => some (s.put key body contentType, .error e)
  | c, _ => (s.world.answer c .unit).map fun p ↦ ({ s with world := p.1 }, .ok p.2)

section Exec

variable {events : List SourceEvent} {uploads : ℕ → Upload} {s s' : Intake} {c : Call}

theorem exec_eq (hget : ∀ url, c ≠ .httpsGet url) (hput : ∀ key body type, c ≠ .s3Put key body type) :
    s.exec events uploads c () =
      (s.world.answer c .unit).map fun p ↦ ({ s with world := p.1 }, .ok p.2) := by
  cases c with
  | httpsGet url => exact absurd rfl (hget url)
  | s3Put key body type => exact absurd rfl (hput key body type)
  | _ => rfl

theorem exec_world {r : Except Thrown c.Reply} (h : s.exec events uploads c () = some (s', r)) :
    ∃ f, s.world.exec c f = some (s'.world, r) := by
  by_cases hget : ∃ url, c = .httpsGet url
  · obtain ⟨url, rfl⟩ := hget
    obtain ⟨x, -, heq⟩ := Option.map_eq_some_iff.mp h
    obtain ⟨rfl, rfl⟩ := Prod.mk.inj heq
    cases x with
    | ok body => exact ⟨.ok (.bytes body), rfl⟩
    | error e => exact ⟨.rejected e, rfl⟩
  by_cases hput : ∃ key body type, c = .s3Put key body type
  · obtain ⟨key, body, type, rfl⟩ := hput
    simp only [exec] at h
    split at h
    · obtain ⟨rfl, rfl⟩ := Prod.mk.inj (Option.some.inj h)
      exact ⟨.ok .unit, rfl⟩
    · rename_i e hupload
      obtain ⟨rfl, rfl⟩ := Prod.mk.inj (Option.some.inj h)
      exact ⟨.rejected e, rfl⟩
    · rename_i e hupload
      obtain ⟨rfl, rfl⟩ := Prod.mk.inj (Option.some.inj h)
      exact ⟨.lost .unit e, rfl⟩
  · rw [exec_eq (fun url h ↦ hget ⟨url, h⟩) fun key body type h ↦ hput ⟨key, body, type, h⟩] at h
    obtain ⟨⟨w, x⟩, hanswer, heq⟩ := Option.map_eq_some_iff.mp h
    obtain ⟨rfl, rfl⟩ := Prod.mk.inj heq
    exact ⟨.ok .unit, by simp [World.exec, hanswer]⟩

end Exec

end Intake

/-! ## The retried put -/

section Put

variable {events : List SourceEvent} {uploads : ℕ → Upload} {key contentType : String}
  {body : Bytes}

/-- What the retries of a put from here on come to: it returns exactly if one of the puts does,
and it stores the body exactly if one of them takes effect. -/
structure PutsFrom (uploads : ℕ → Upload) (key contentType : String) (body : Bytes)
    (remaining : ℕ) (s s' : Intake) (r : Except Thrown Unit) : Prop where
  returns : (∃ k < remaining, uploads (s.attempts + k) = .ok) ↔ r = .ok ()
  none : (∀ k < remaining, ¬(uploads (s.attempts + k)).TakesEffect) →
    s'.stored = s.stored ∧ s'.world.bucket = s.world.bucket
  some : (∃ k < remaining, (uploads (s.attempts + k)).TakesEffect) →
    (key, body) ∈ s'.stored ∧ s'.world.bucket key = .some (body, contentType)

theorem PutsFrom.later {remaining : ℕ} {s s₁ s' : Intake} {r : Except Thrown Unit}
    (h : PutsFrom uploads key contentType body remaining s₁ s' r)
    (hattempts : s₁.attempts = s.attempts + 1) (hfails : uploads s.attempts ≠ .ok)
    (hnone : ¬(uploads s.attempts).TakesEffect → s₁ = s.sent)
    (hsome : (uploads s.attempts).TakesEffect → s₁ = s.put key body contentType) :
    PutsFrom uploads key contentType body (remaining + 1) s s' r := by
  have hshift (k : ℕ) : s₁.attempts + k = s.attempts + (k + 1) := by omega
  constructor
  · rw [← h.returns]
    constructor
    · rintro ⟨k, hk, hok⟩
      cases k with
      | zero => exact absurd hok hfails
      | succ k => exact ⟨k, by omega, by rw [hshift]; exact hok⟩
    · rintro ⟨k, hk, hok⟩
      exact ⟨k + 1, by omega, by rw [← hshift]; exact hok⟩
  · intro hall
    have hfirst := hnone (hall 0 (by omega))
    obtain ⟨hstored, hbucket⟩ := h.none fun k hk ↦ by rw [hshift]; exact hall (k + 1) (by omega)
    rw [hstored, hbucket, hfirst]
    exact ⟨rfl, rfl⟩
  · rintro ⟨k, hk, heffect⟩
    by_cases hlater : ∃ k < remaining, (uploads (s₁.attempts + k)).TakesEffect
    · exact h.some hlater
    · have hquiet : ∀ k < remaining, ¬(uploads (s₁.attempts + k)).TakesEffect :=
        fun k hk he ↦ hlater ⟨k, hk, he⟩
      cases k with
      | zero =>
          obtain ⟨hstored, hbucket⟩ := h.none hquiet
          rw [hstored, hbucket, hsome heffect]
          simp [Intake.put, World.setBucket]
      | succ k =>
          rw [← hshift] at heffect
          exact absurd heffect (hquiet k (by omega))

theorem evalWith_withRetryFrom (events : List SourceEvent) (uploads : ℕ → Upload)
    (key contentType : String) (body : Bytes) (remaining maxAttempts attempt : ℕ)
    (lastError : Thrown) (s : Intake) : ∃ s' r,
      (withRetryFrom (ask (.s3Put key body contentType)) maxAttempts attempt lastError
        remaining).evalWith (Intake.exec events uploads) () s = .some (s', r) ∧
      PutsFrom uploads key contentType body remaining s s' r := by
  induction remaining generalizing attempt lastError s with
  | zero =>
      refine ⟨s, .error lastError, rfl, ⟨by simp, fun _ ↦ ⟨rfl, rfl⟩, by simp⟩⟩
  | succ remaining ih =>
      -- The wait between two puts changes nothing.
      have hwait (e : Thrown) (s₁ : Intake) : (if attempt < maxAttempts then do
            setTimeout (baseRetryDelayMs * 2 ^ (attempt - 1))
            withRetryFrom (ask (.s3Put key body contentType)) maxAttempts (attempt + 1) e
              remaining
          else withRetryFrom (ask (.s3Put key body contentType)) maxAttempts (attempt + 1) e
            remaining : Prog Unit).evalWith (Intake.exec events uploads) () s₁ =
          (withRetryFrom (ask (.s3Put key body contentType)) maxAttempts (attempt + 1) e
            remaining).evalWith (Intake.exec events uploads) () s₁ := by
        split <;> rfl
      unfold withRetryFrom
      rw [Program.evalWith_bind, Program.evalWith_attempt, ask, Program.evalWith_perform]
      cases hupload : uploads s.attempts with
      | ok =>
          refine ⟨s.put key body contentType, .ok (), ?_, ?_⟩
          · simp only [Intake.exec, hupload]
            rfl
          · refine ⟨iff_of_true ⟨0, by omega, hupload⟩ rfl, fun hall ↦ ?_, fun _ ↦ ?_⟩
            · exact absurd (hupload ▸ trivial : (uploads s.attempts).TakesEffect)
                (hall 0 (by omega))
            · simp [Intake.put, World.setBucket]
      | rejected e =>
          obtain ⟨s', r, heval, hputs⟩ := ih (attempt + 1) e s.sent
          refine ⟨s', r, ?_, hputs.later rfl (by simp [hupload]) (fun _ ↦ rfl) ?_⟩
          · simp only [Intake.exec, hupload]
            exact (hwait e _).trans heval
          · rw [hupload]
            exact False.elim
      | lost e =>
          obtain ⟨s', r, heval, hputs⟩ := ih (attempt + 1) e (s.put key body contentType)
          refine ⟨s', r, ?_, hputs.later rfl (by simp [hupload]) ?_ fun _ ↦ rfl⟩
          · simp only [Intake.exec, hupload]
            exact (hwait e _).trans heval
          · rw [hupload]
            exact fun h ↦ absurd trivial h

def uploadResult (config : StorageConfig) (key : String) : Except Thrown Unit →
    Except Thrown String
  | .ok _ => .ok (getPublicUrl config key)
  | .error _ => .error (.instance .internal ("S3 upload failed for key: " ++ key))

theorem evalWith_uploadBuffer (events : List SourceEvent) (uploads : ℕ → Upload)
    (key contentType : String) (body : Bytes) (config : StorageConfig) (s : Intake) : ∃ s' r,
    (uploadBuffer config body key contentType).evalWith (Intake.exec events uploads) () s =
      .some (s', uploadResult config key r) ∧
    PutsFrom uploads key contentType body maxRetryAttempts s s' r := by
  obtain ⟨s', r, heval, hputs⟩ := evalWith_withRetryFrom events uploads key contentType body
    maxRetryAttempts maxRetryAttempts 1
    (Runtime.error (I := interface) "S3 operation failed after all retry attempts") s
  refine ⟨s', r, ?_, hputs⟩
  unfold uploadBuffer withRetry
  rw [Program.evalWith_catchWith, Program.evalWith_bind, heval]
  cases r <;> rfl

/-- Nothing is stored under the key and the upload throws, or the source sent a complete
response with a status of 2xx and the object under the key consists of its chunks. -/
def StoresGenuine (events : List SourceEvent) (key : String) (s : Intake)
    (r : Except Thrown String) : Prop :=
  ((∃ e, r = .error e) ∧ ∀ body, (key, body) ∉ s.stored) ∨
  ∃ code chunks, completeResponse events = .some (.some code, chunks) ∧
    200 ≤ code ∧ code < 300 ∧
    ∃ contentType, s.world.bucket key = .some (chunks.flatten, contentType)

/-- The upload of a complete response returns. -/
theorem evalWith_uploadFromUrl (config : StorageConfig) (key : String) (uploads : ℕ → Upload)
    {url : String} (hdownload : downloadToBuffer url events = .some (.ok body)) (w : World) : ∃ s r,
    (uploadFromUrl config url key).evalWith (Intake.exec events uploads) () ⟨w, 0, []⟩ =
      .some (s, uploadResult config key r) ∧
    PutsFrom uploads key "video/mp4" body maxRetryAttempts ⟨w, 0, []⟩ s r := by
  obtain ⟨s, r, heval, hputs⟩ :=
    evalWith_uploadBuffer events uploads key "video/mp4" body config ⟨w, 0, []⟩
  refine ⟨s, r, ?_, hputs⟩
  unfold uploadFromUrl
  rw [Program.evalWith_bind, Program.evalWith_catchWith, ask, Program.evalWith_perform]
  simp only [Intake.exec, hdownload]
  exact heval

theorem evalWith_failedDownload {config : StorageConfig} {url : String} {e : Thrown}
    (hdownload : downloadToBuffer url events = .some (.error e)) (s : Intake) :
    (uploadFromUrl config url key).evalWith (Intake.exec events uploads) () s =
      .some (s, .error (.instance .internal "Failed to fetch video from source URL")) := by
  unfold uploadFromUrl
  rw [Program.evalWith_bind, Program.evalWith_catchWith, ask, Program.evalWith_perform]
  simp only [Intake.exec, hdownload]
  rfl

theorem evalWith_isSome (config : StorageConfig) (url key : String) (w : World)
    (events : List SourceEvent) (uploads : ℕ → Upload) :
    ((uploadFromUrl config url key).evalWith (Intake.exec events uploads) () ⟨w, 0, []⟩).isSome =
      sourceEnds events := by
  rw [← downloadToBuffer_isSome url]
  cases hdownload : downloadToBuffer url events with
  | none =>
      unfold uploadFromUrl
      rw [Program.evalWith_bind, Program.evalWith_catchWith, ask, Program.evalWith_perform]
      simp [Intake.exec, hdownload]
  | some x =>
      cases x with
      | error e =>
          rw [evalWith_failedDownload hdownload]
          rfl
      | ok body =>
          obtain ⟨s, r, heval, -⟩ := evalWith_uploadFromUrl config key uploads hdownload w
          rw [heval]
          rfl

theorem storesGenuine_of_puts {config : StorageConfig} {w : World} {s : Intake}
    {r : Except Thrown Unit} {statusCode : Option ℕ} {chunks : List Bytes}
    (hresponse : completeResponse events = .some (statusCode, chunks))
    (hputs : PutsFrom uploads key "video/mp4" chunks.flatten maxRetryAttempts ⟨w, 0, []⟩ s r) :
    StoresGenuine events key s (uploadResult config key r) ↔
      ((∃ k < maxRetryAttempts, (uploads k).TakesEffect) →
        ∃ code, statusCode = .some code ∧ 200 ≤ code ∧ code < 300) := by
  obtain ⟨hreturns, hquiet, heffect⟩ := hputs
  simp only [Nat.zero_add] at hreturns hquiet heffect
  constructor
  · intro hgenuine hputs
    obtain ⟨hstored, -⟩ := heffect hputs
    rcases hgenuine with ⟨-, hnone⟩ | ⟨code, chunks', hresponse', hlow, hhigh, -⟩
    · exact absurd hstored (hnone _)
    · rw [hresponse] at hresponse'
      obtain ⟨rfl, -⟩ := Prod.mk.inj (Option.some.inj hresponse')
      exact ⟨code, rfl, hlow, hhigh⟩
  · intro hall
    by_cases hputs : ∃ k < maxRetryAttempts, (uploads k).TakesEffect
    · obtain ⟨code, rfl, hlow, hhigh⟩ := hall hputs
      exact .inr ⟨code, chunks, hresponse, hlow, hhigh, _, (heffect hputs).2⟩
    · obtain ⟨hstored, -⟩ := hquiet fun k hk he ↦ hputs ⟨k, hk, he⟩
      refine .inl ⟨?_, by simp [hstored]⟩
      cases r with
      | error e => exact ⟨_, rfl⟩
      | ok u =>
          obtain ⟨k, hk, hok⟩ := hreturns.mpr rfl
          exact absurd ⟨k, hk, hok ▸ trivial⟩ hputs

/-- An upload comes to an end exactly if the request to its source does.  Then only genuine
videos are stored exactly if the response, when it is complete with a status below 400 and a put
takes effect, has a status of 2xx; and with such a status a put that succeeds in time ends the
upload with the public URL of the stored video. -/
theorem storesGenuine_iff (config : StorageConfig) (url key : String) (w : World)
    (events : List SourceEvent) (uploads : ℕ → Upload) :
    ((uploadFromUrl config url key).evalWith (Intake.exec events uploads) () ⟨w, 0, []⟩).isSome =
      sourceEnds events ∧
    (∀ s r, (uploadFromUrl config url key).evalWith (Intake.exec events uploads) () ⟨w, 0, []⟩ =
        .some (s, r) →
      (StoresGenuine events key s r ↔
        ∀ statusCode chunks, completeResponse events = .some (statusCode, chunks) →
          statusCode.getD 0 < 400 → (∃ k < maxRetryAttempts, (uploads k).TakesEffect) →
            ∃ code, statusCode = .some code ∧ 200 ≤ code ∧ code < 300)) ∧
    ∀ code chunks, completeResponse events = .some (.some code, chunks) →
      200 ≤ code → code < 300 → (∃ k < maxRetryAttempts, uploads k = .ok) →
        ∃ s, (uploadFromUrl config url key).evalWith (Intake.exec events uploads) () ⟨w, 0, []⟩ =
            .some (s, .ok (getPublicUrl config key)) ∧
          s.world.bucket key = .some (chunks.flatten, "video/mp4") := by
  refine ⟨evalWith_isSome config url key w events uploads, ?_, ?_⟩
  · intro s r h
    have hends : (downloadToBuffer url events).isSome = true := by
      rw [downloadToBuffer_isSome, ← evalWith_isSome config url key w events uploads, h]
      rfl
    obtain ⟨x, hdownload⟩ := Option.isSome_iff_exists.mp hends
    cases x with
    | error e =>
        rw [evalWith_failedDownload hdownload] at h
        obtain ⟨rfl, rfl⟩ := Prod.mk.inj (Option.some.inj h)
        refine iff_of_true (.inl ⟨⟨_, rfl⟩, by simp⟩) ?_
        intro statusCode chunks hresponse hstatus
        have hok : downloadToBuffer url events = .some (.ok chunks.flatten) :=
          downloadToBuffer_ok_iff.mpr ⟨statusCode, chunks, hresponse, hstatus, rfl⟩
        rw [hdownload] at hok
        cases hok
    | ok body =>
        obtain ⟨statusCode, chunks, hresponse, hstatus, rfl⟩ :=
          downloadToBuffer_ok_iff.mp hdownload
        obtain ⟨s', x, heval, hputs⟩ :=
          evalWith_uploadFromUrl config key uploads hdownload w
        obtain ⟨rfl, rfl⟩ := Prod.mk.inj (Option.some.inj (h.symm.trans heval))
        rw [storesGenuine_of_puts hresponse hputs]
        constructor
        · intro hall statusCode' chunks' hresponse' _
          rw [hresponse] at hresponse'
          obtain ⟨rfl, -⟩ := Prod.mk.inj (Option.some.inj hresponse')
          exact hall
        · intro hall
          exact hall statusCode chunks hresponse hstatus
  · rintro code chunks hresponse - hcode ⟨k, hk, hok⟩
    have hstatus : (some code).getD 0 < 400 := Nat.lt_trans hcode (by omega)
    have hdownload : downloadToBuffer url events = .some (.ok chunks.flatten) :=
      downloadToBuffer_ok_iff.mpr ⟨_, chunks, hresponse, hstatus, rfl⟩
    obtain ⟨s, r, heval, hputs⟩ :=
      evalWith_uploadFromUrl config key uploads hdownload w
    have hreturns := hputs.returns
    have heffect := hputs.some
    simp only [Nat.zero_add] at hreturns heffect
    obtain rfl := hreturns.mp ⟨k, hk, hok⟩
    exact ⟨s, heval, (heffect ⟨k, hk, hok ▸ trivial⟩).2⟩

theorem upload_world {config : StorageConfig} {url : String} {w : World} {s : Intake}
    {r : Except Thrown String}
    (h : (uploadFromUrl config url key).evalWith (Intake.exec events uploads) () ⟨w, 0, []⟩ =
      .some (s, r)) :
    ∃ ts, (uploadFromUrl config url key).Evaluates World.exec w ts r s.world := by
  obtain ⟨ts, hts, -⟩ := Program.evaluates_of_evalWith h
  have hcall (s : Intake) (c : Call) (u : Unit) (s₁ : Intake) (x : Except Thrown c.Reply)
      (hexec : s.exec events uploads c u = .some (s₁, x)) :
      ∃ f, True ∧ s.world.exec c f = .some (s₁.world, x) := by
    obtain ⟨f, hf⟩ := Intake.exec_world hexec
    exact ⟨f, trivial, hf⟩
  obtain ⟨us, hus, -⟩ := hts.simulated Intake.world hcall
  exact ⟨us, hus⟩

/-! ## A video and a redirect -/

def videoEvents : List SourceEvent := [.response (.some 200), .data [1, 2], .data [3], .ended]

def secondPut : ℕ → Upload
  | 0 => .rejected (.instance .error "timeout")
  | _ => .ok

theorem storesGenuine_video : ∃ s,
    (uploadFromUrl ⟨"bucket", .none, "region"⟩ "https://provider/video.mp4" "key").evalWith
      (Intake.exec videoEvents secondPut) () ⟨World.empty, 0, []⟩ =
        .some (s, .ok "https://bucket.s3.region.amazonaws.com/key") ∧
    s.world.bucket "key" = .some ([1, 2, 3], "video/mp4") ∧
    StoresGenuine videoEvents "key" s (.ok "https://bucket.s3.region.amazonaws.com/key") := by
  obtain ⟨-, hgenuine, hreturns⟩ := storesGenuine_iff ⟨"bucket", .none, "region"⟩
    "https://provider/video.mp4" "key" World.empty videoEvents secondPut
  obtain ⟨s, heval, hbucket⟩ :=
    hreturns 200 [[1, 2], [3]] rfl (by omega) (by omega) ⟨1, by decide, rfl⟩
  refine ⟨s, heval, hbucket, (hgenuine s _ heval).mpr ?_⟩
  intro statusCode chunks hresponse _ _
  obtain ⟨rfl, -⟩ := Prod.mk.inj (Option.some.inj hresponse)
  exact ⟨200, rfl, by omega, by omega⟩

def redirectEvents : List SourceEvent := [.response (.some 302), .data [60, 97, 62], .ended]

theorem redirect_stored : ∃ s,
    (uploadFromUrl ⟨"bucket", .none, "region"⟩ "https://provider/video.mp4" "key").evalWith
      (Intake.exec redirectEvents fun _ ↦ .ok) () ⟨World.empty, 0, []⟩ =
        .some (s, .ok "https://bucket.s3.region.amazonaws.com/key") ∧
    ¬StoresGenuine redirectEvents "key" s
      (.ok "https://bucket.s3.region.amazonaws.com/key") := by
  refine ⟨_, rfl, ?_⟩
  rintro (⟨⟨e, he⟩, -⟩ | ⟨code, chunks, hresponse, -, hhigh, -⟩)
  · cases he
  · obtain ⟨hcode, -⟩ := Prod.mk.inj (Option.some.inj hresponse)
    obtain rfl := Option.some.inj hcode
    omega

end Put

end VideoGen
