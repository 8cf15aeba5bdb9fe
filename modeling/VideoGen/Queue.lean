import Mathlib.Order.Basic
import VideoGen.Entities
import VideoGen.Lib.Table

/-!
# The job queue

What the application relies on in BullMQ: jobs get increasing identifiers,
a job is waiting, delayed or held by one worker until it settles, and a
thrown job is run again while `attemptsMade + 1 < attempts`.  A job whose
worker died is given back to the queue until the stalled limit is reached;
then it is failed without the processor being called.
-/

namespace VideoGen

def videoGenerationJob : String := "generate"

structure Backoff where
  type : String
  delay : ℕ
  deriving DecidableEq, Repr

structure JobOptions where
  attempts : Option ℕ := none
  backoff : Option Backoff := none
  removeOnComplete : Option ℕ := none
  removeOnFail : Option ℕ := none
  deriving DecidableEq, Repr

/-- `{ ...defaultJobOptions, ...opts }` -/
def JobOptions.over (opts defaultJobOptions : JobOptions) : JobOptions where
  attempts := opts.attempts <|> defaultJobOptions.attempts
  backoff := opts.backoff <|> defaultJobOptions.backoff
  removeOnComplete := opts.removeOnComplete <|> defaultJobOptions.removeOnComplete
  removeOnFail := opts.removeOnFail <|> defaultJobOptions.removeOnFail

structure Job where
  id : ℕ
  name : String
  data : VideoGenerationJobData
  opts : JobOptions
  attemptsMade : ℕ
  deriving DecidableEq, Repr

namespace Job

/-- `job.opts.attempts ?? 1` -/
def maxAttempts (job : Job) : ℕ := job.opts.attempts.getD 1

/-- BullMQ runs a thrown job again while attempts remain. -/
def Retryable (job : Job) : Prop := job.attemptsMade + 1 < job.maxAttempts

instance (job : Job) : Decidable job.Retryable := inferInstanceAs (Decidable (_ < _))

end Job

inductive JobState where
  | waiting
  | delayed
  | active (worker : ℕ)
  | completed
  | failed
  deriving DecidableEq, Repr

/-- The job still has work to come: it is waiting, delayed or held by a worker. -/
def JobState.Live : JobState → Prop
  | .completed => False
  | .failed => False
  | _ => True

instance : DecidablePred JobState.Live
  | .waiting => isTrue trivial
  | .delayed => isTrue trivial
  | .active _ => isTrue trivial
  | .completed => isFalse id
  | .failed => isFalse id

structure QueuedJob where
  job : Job
  state : JobState
  stalledCounter : ℕ
  deriving DecidableEq, Repr

namespace QueuedJob

def jobId (q : QueuedJob) : ℕ := q.job.id

/-- The job after its worker returned or threw. -/
def settle {ε α : Type} (q : QueuedJob) : Except ε α → QueuedJob
  | .ok _ => { q with state := .completed }
  | .error _ =>
      { q with
        job := { q.job with attemptsMade := q.job.attemptsMade + 1 }
        state := if q.job.Retryable then
            if q.job.opts.backoff.isSome then .delayed else .waiting
          else .failed }

/-- `maxStalledCount` of a worker that does not set it. -/
def maxStalledCount : ℕ := 1

/-- The job after its worker was found dead. -/
def stall (q : QueuedJob) : QueuedJob :=
  { q with
    stalledCounter := q.stalledCounter + 1
    state := if q.stalledCounter + 1 > maxStalledCount then .failed else .waiting }

@[simp] theorem settle_jobId {ε α : Type} (q : QueuedJob) (r : Except ε α) :
    (q.settle r).jobId = q.jobId := by cases r <;> rfl

@[simp] theorem stall_jobId (q : QueuedJob) : q.stall.jobId = q.jobId := rfl

end QueuedJob

/-- All jobs ever added; identifiers are handed out in increasing order. -/
structure Queue where
  jobs : Table QueuedJob.jobId
  lastId : ℕ
  id_le : ∀ q ∈ jobs.rows, q.jobId ≤ lastId

namespace Queue

def empty : Queue := ⟨Table.empty, 0, by simp [Table.empty]⟩

def find? (q : Queue) (id : ℕ) : Option QueuedJob := q.jobs.find? id

def newJob (q : Queue) (name : String) (data : VideoGenerationJobData)
    (opts : JobOptions) : QueuedJob where
  job := { id := q.lastId + 1, name := name, data := data, opts := opts, attemptsMade := 0 }
  state := .waiting
  stalledCounter := 0

theorem newJob_fresh (q : Queue) (name : String) (data : VideoGenerationJobData)
    (opts : JobOptions) : (q.newJob name data opts).jobId ∉ q.jobs.rows.map QueuedJob.jobId := by
  intro hmem
  obtain ⟨j, hj, hid⟩ := List.mem_map.mp hmem
  have hle := q.id_le j hj
  have hnew : (q.newJob name data opts).jobId = q.lastId + 1 := rfl
  omega

def add (q : Queue) (name : String) (data : VideoGenerationJobData)
    (opts : JobOptions) : Queue where
  jobs := q.jobs.insert (q.newJob name data opts) (q.newJob_fresh name data opts)
  lastId := q.lastId + 1
  id_le := by
    intro j hj
    rcases List.mem_append.mp hj with hj | hj
    · exact Nat.le_succ_of_le (q.id_le j hj)
    · obtain rfl := List.mem_singleton.mp hj
      exact Nat.le_refl _

def modify (q : Queue) (id : ℕ) (f : QueuedJob → QueuedJob)
    (hf : ∀ j, (f j).jobId = j.jobId) : Queue where
  jobs := q.jobs.modify id f hf
  lastId := q.lastId
  id_le := by
    intro j hj
    obtain ⟨j', hj', rfl⟩ := List.mem_map.mp hj
    have hle := q.id_le j' hj'
    by_cases hid : j'.jobId = id <;> simpa [hid, hf] using hle

theorem find?_add (q : Queue) (name : String) (data : VideoGenerationJobData)
    (opts : JobOptions) (id : ℕ) : (q.add name data opts).find? id =
      if id = q.lastId + 1 then some (q.newJob name data opts) else q.find? id :=
  Table.find?_insert q.jobs _ (q.newJob_fresh name data opts) id

theorem find?_modify (q : Queue) (id : ℕ) (f : QueuedJob → QueuedJob)
    (hf : ∀ j, (f j).jobId = j.jobId) (id' : ℕ) : (q.modify id f hf).find? id' =
      if id' = id then (q.find? id').map f else q.find? id' :=
  Table.find?_modify q.jobs id f hf id'

@[simp] theorem lastId_add (q : Queue) (name : String) (data : VideoGenerationJobData)
    (opts : JobOptions) : (q.add name data opts).lastId = q.lastId + 1 := rfl

@[simp] theorem lastId_modify (q : Queue) (id : ℕ) (f : QueuedJob → QueuedJob)
    (hf : ∀ j, (f j).jobId = j.jobId) : (q.modify id f hf).lastId = q.lastId := rfl

theorem le_lastId {q : Queue} {id : ℕ} {j : QueuedJob} (h : q.find? id = some j) :
    id ≤ q.lastId := by
  obtain ⟨hmem, hid⟩ := Table.find?_eq_some_iff.mp h
  exact hid ▸ q.id_le j hmem

theorem jobId_of_find? {q : Queue} {id : ℕ} {j : QueuedJob} (h : q.find? id = some j) :
    j.jobId = id := Table.key_of_find? h

end Queue

end VideoGen
