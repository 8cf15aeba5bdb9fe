import Mathlib.Algebra.Order.Ring.Unbundled.Rat
import Mathlib.Order.WithBot
import VideoGen.Lib.Pool
import VideoGen.Queue

/-!
# The stores and the calls

One `World` holds everything the services share: the two tables, the job
queue, the Redis cache, the bucket and the events published so far.  A
`Call` is one request to one of the stores, to the AI provider or to the
runtime; it takes effect atomically.  The outcome of a call is chosen by
the environment: it is answered, it is rejected before it had an effect,
or it is rejected although the effect took place.
-/

namespace VideoGen

abbrev Bytes := List UInt8

/-- A JavaScript number: `NaN`, or a value between the two infinities. -/
inductive JsNumber where
  | nan
  | real (x : WithBot (WithTop ℚ))
  deriving DecidableEq

namespace JsNumber

def ofInt (n : ℤ) : JsNumber := .real (some (some (n : ℚ)))

def max : JsNumber → JsNumber → JsNumber
  | .real x, .real y => .real (x ⊔ y)
  | _, _ => .nan

def min : JsNumber → JsNumber → JsNumber
  | .real x, .real y => .real (x ⊓ y)
  | _, _ => .nan

end JsNumber

/-! ## The AI provider -/

inductive GenerationStatus where
  | pending
  | processing
  | completed
  | failed
  deriving DecidableEq, Repr

structure GenerateVideoParams where
  prompt : String
  negativePrompt : Option String
  width : Option ℤ
  height : Option ℤ
  fps : Option ℤ
  model : Option String
  deriving DecidableEq, Repr

structure GenerateVideoResult where
  jobId : String
  status : GenerationStatus
  videoUrl : Option String := none
  thumbnailUrl : Option String := none
  errorMessage : Option String := none
  estimatedDurationMs : Option ℤ := none
  alreadyStored : Option Bool := none
  deriving DecidableEq, Repr

/-! ## The cache -/

structure StatusSnapshot where
  status : VideoStatus
  progress : JsValue
  message : JsValue
  updatedAt : ℕ
  deriving DecidableEq, Repr

/-- The text stored under a cache key: the JSON of a snapshot or something that
`JSON.parse` rejects. -/
inductive CachedText where
  | snapshot (s : StatusSnapshot)
  | malformed (text : String)
  deriving DecidableEq, Repr

/-! ## Calls -/

inductive Call where
  | selectVideo (id : String)
  | insertVideo (id : Option String) (fields : VideoFields)
  | updateVideo (id : String) (expected : Option VideoStatus) (fields : VideoFields)
  | deleteVideo (id : String)
  | selectFailedJob (id : String)
  | insertFailedJob (fields : FailedJobFields)
  | markRetried (id : String) (retriedAt : ℕ) (retryJobId : String)
  | queueAdd (name : String) (data : VideoGenerationJobData) (opts : JobOptions)
  | jobUpdateProgress (jobId : ℕ) (percent : ℤ)
  | redisGet (key : String)
  | redisSet (key : String) (value : StatusSnapshot)
  | redisDel (key : String)
  /-- A `SET` whose promise is not awaited. -/
  | redisSetLater (key : String) (value : StatusSnapshot)
  | chatCompletion (prompt : String)
  | generateVideo (params : GenerateVideoParams) (videoId : String)
  | getGenerationStatus (jobId : String)
  | httpsGet (url : String)
  | s3Put (key : String) (body : Bytes) (contentType : String)
  | s3Delete (key : String)
  | s3Sign (key : String) (expiresIn : JsNumber)
  | dateNow
  | setTimeout (ms : ℕ)
  | emit (event : DomainEvent)

namespace Call

abbrev Reply : Call → Type
  | .selectVideo _ => Option Video
  | .insertVideo _ _ => Video
  | .updateVideo _ _ _ => ℕ
  | .deleteVideo _ => Unit
  | .selectFailedJob _ => Option FailedJob
  | .insertFailedJob _ => FailedJob
  | .markRetried _ _ _ => Unit
  | .queueAdd _ _ _ => ℕ
  | .jobUpdateProgress _ _ => Unit
  | .redisGet _ => Option CachedText
  | .redisSet _ _ => Unit
  | .redisDel _ => Unit
  | .redisSetLater _ _ => Unit
  | .chatCompletion _ => Option String
  | .generateVideo _ _ => GenerateVideoResult
  | .getGenerationStatus _ => GenerateVideoResult
  | .httpsGet _ => Bytes
  | .s3Put _ _ _ => Unit
  | .s3Delete _ => Unit
  | .s3Sign _ _ => String
  | .dateNow => ℕ
  | .setTimeout _ => Unit
  | .emit _ => Unit

/-- The call returns a promise that the code awaits and that can be rejected. -/
def Fallible : Call → Bool
  | .redisSetLater _ _ => false
  | .dateNow => false
  | .setTimeout _ => false
  | .emit _ => false
  | _ => true

/-- A call that is not fallible never throws. -/
def Possible (c : Call) : Except Thrown c.Reply → Prop
  | .ok _ => True
  | .error _ => c.Fallible = true

@[simp] theorem possible_ok (c : Call) (x : c.Reply) : c.Possible (.ok x) := trivial

@[simp] theorem possible_error (c : Call) (e : Thrown) :
    c.Possible (.error e) ↔ c.Fallible = true := Iff.rfl

/-- Calls to PostgreSQL, Redis and the queue, as opposed to the AI provider and
the object store. -/
def Infrastructure : Call → Bool
  | .chatCompletion _ => false
  | .generateVideo _ _ => false
  | .getGenerationStatus _ => false
  | .httpsGet _ => false
  | .s3Put _ _ _ => false
  | .s3Delete _ => false
  | .s3Sign _ _ => false
  | _ => true

end Call

abbrev interface : Interface where
  Call := Call
  Reply := Call.Reply
  Error := Thrown

abbrev Prog (α : Type) := Program interface α

def ask (c : Call) : Prog c.Reply := Program.perform (I := interface) c

def raise {α : Type} (cls : ErrorClass) (message : String) : Prog α :=
  Program.throw (I := interface) (.instance cls message)

/-! ## Effects -/

structure World where
  now : ℕ
  videos : Table Video.id
  failedJobs : Table FailedJob.id
  queue : Queue
  jobProgress : ℕ → Option ℤ
  redis : String → Option CachedText
  redisWrites : List (String × StatusSnapshot)
  bucket : String → Option (Bytes × String)
  events : List DomainEvent

/-- Data of a reply that only the environment knows. -/
inductive Answer where
  | unit
  | uuid (id : String)
  | text (s : Option String)
  | generation (r : GenerateVideoResult)
  | bytes (b : Bytes)

namespace World

def empty : World where
  now := 0
  videos := Table.empty
  failedJobs := Table.empty
  queue := Queue.empty
  jobProgress := fun _ ↦ none
  redis := fun _ ↦ none
  redisWrites := []
  bucket := fun _ ↦ none
  events := []

/-- `UPDATE videos SET fields WHERE id = :id [AND status = :expected]`, with the
number of affected rows. -/
def updateVideo (w : World) (id : String) (expected : Option VideoStatus)
    (fields : VideoFields) : World × ℕ :=
  match w.videos.find? id with
  | none => (w, 0)
  | some r =>
      if expected.all (· = r.status) then
        let videos := w.videos.modify id (fun r ↦ r.assign fields w.now)
          fun r ↦ r.assign_id fields w.now
        ({ w with videos := videos }, 1)
      else (w, 0)

def markRetried (w : World) (id : String) (retriedAt : ℕ) (retryJobId : String) : World :=
  let failedJobs := w.failedJobs.modify id (fun r ↦ r.markRetried retriedAt retryJobId)
    fun r ↦ r.markRetried_id retriedAt retryJobId
  { w with failedJobs := failedJobs }

def setRedis (w : World) (key : String) (value : Option CachedText) : World :=
  { w with redis := fun k ↦ if k = key then value else w.redis k }

def setBucket (w : World) (key : String) (value : Option (Bytes × String)) : World :=
  { w with bucket := fun k ↦ if k = key then value else w.bucket k }

/-- The effect of a call that goes through, and its reply. -/
def answer (w : World) : (c : Call) → Answer → Option (World × c.Reply)
  | .selectVideo id, .unit => some (w, w.videos.find? id)
  | .insertVideo none fields, .uuid id =>
      (w.videos.insert? (Video.create id fields w.now)).map fun videos ↦
        ({ w with videos := videos }, Video.create id fields w.now)
  | .insertVideo (some id) fields, .unit =>
      (w.videos.insert? (Video.create id fields w.now)).map fun videos ↦
        ({ w with videos := videos }, Video.create id fields w.now)
  | .updateVideo id expected fields, .unit => some (w.updateVideo id expected fields)
  | .deleteVideo id, .unit => some ({ w with videos := w.videos.erase id }, ())
  | .selectFailedJob id, .unit => some (w, w.failedJobs.find? id)
  | .insertFailedJob fields, .uuid id =>
      (w.failedJobs.insert? (FailedJob.create id fields w.now)).map fun failedJobs ↦
        ({ w with failedJobs := failedJobs }, FailedJob.create id fields w.now)
  | .markRetried id retriedAt retryJobId, .unit =>
      some (w.markRetried id retriedAt retryJobId, ())
  | .queueAdd name data opts, .unit =>
      some ({ w with queue := w.queue.add name data opts }, w.queue.lastId + 1)
  | .jobUpdateProgress jobId percent, .unit =>
      some ({ w with jobProgress :=
        fun id ↦ if id = jobId then some percent else w.jobProgress id }, ())
  | .redisGet key, .unit => some (w, w.redis key)
  | .redisSet key value, .unit => some (w.setRedis key (some (.snapshot value)), ())
  | .redisDel key, .unit => some (w.setRedis key none, ())
  | .redisSetLater key value, .unit =>
      some ({ w with redisWrites := w.redisWrites ++ [(key, value)] }, ())
  | .chatCompletion _, .text content => some (w, content)
  | .generateVideo _ _, .generation r => some (w, r)
  | .getGenerationStatus _, .generation r => some (w, r)
  | .httpsGet _, .bytes b => some (w, b)
  | .s3Put key body contentType, .unit => some (w.setBucket key (some (body, contentType)), ())
  | .s3Delete key, .unit => some (w.setBucket key none, ())
  | .s3Sign _ _, .text url => some (w, url.getD "")
  | .dateNow, .unit => some (w, w.now)
  | .setTimeout _, .unit => some (w, ())
  | .emit event, .unit => some ({ w with events := w.events ++ [event] }, ())
  | _, _ => none

end World

/-- How the environment settles a call. -/
inductive Fate where
  | ok (a : Answer)
  | rejected (e : Thrown)
  | lost (a : Answer) (e : Thrown)

namespace World

def exec (w : World) (c : Call) : Fate → Option (World × Except Thrown c.Reply)
  | .ok a => (w.answer c a).map fun p ↦ (p.1, .ok p.2)
  | .rejected e => if c.Fallible then some (w, .error e) else none
  | .lost a e =>
      if c.Fallible then (w.answer c a).map fun p ↦ (p.1, .error e) else none

/-- A call either leaves the world alone and throws, or has the effect of an
answer and returns it or throws. -/
theorem exec_cases {w w' : World} {c : Call} {f : Fate} {r : Except Thrown c.Reply}
    (h : w.exec c f = some (w', r)) :
    (∃ a x, f = .ok a ∧ w.answer c a = some (w', x) ∧ r = .ok x) ∨
    (∃ e, f = .rejected e ∧ c.Fallible = true ∧ w' = w ∧ r = .error e) ∨
    (∃ a e x, f = .lost a e ∧ c.Fallible = true ∧ w.answer c a = some (w', x) ∧
      r = .error e) := by
  cases f with
  | ok a =>
      obtain ⟨⟨w₁, x⟩, hanswer, heq⟩ := Option.map_eq_some_iff.mp h
      obtain ⟨rfl, rfl⟩ := Prod.mk.inj heq
      exact .inl ⟨a, x, rfl, hanswer, rfl⟩
  | rejected e =>
      obtain ⟨hc, heq⟩ := Option.ite_none_right_eq_some.mp h
      obtain ⟨rfl, rfl⟩ := Prod.mk.inj (Option.some.inj heq)
      exact .inr (.inl ⟨e, rfl, hc, rfl, rfl⟩)
  | lost a e =>
      obtain ⟨hc, h⟩ := Option.ite_none_right_eq_some.mp h
      obtain ⟨⟨w₁, x⟩, hanswer, heq⟩ := Option.map_eq_some_iff.mp h
      obtain ⟨rfl, rfl⟩ := Prod.mk.inj heq
      exact .inr (.inr ⟨a, e, x, rfl, hc, hanswer, rfl⟩)

theorem possible_of_exec {w w' : World} {c : Call} {f : Fate} {r : Except Thrown c.Reply}
    (h : w.exec c f = some (w', r)) : c.Possible r := by
  rcases exec_cases h with ⟨a, x, -, -, rfl⟩ | ⟨e, -, hc, -, rfl⟩ | ⟨a, e, x, -, hc, -, rfl⟩
  · trivial
  · exact hc
  · exact hc

end World

end VideoGen
