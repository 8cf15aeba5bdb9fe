import VideoGen.DlqService
import VideoGen.Processor

/-!
# The whole system

Any number of API calls and worker executions interleave at their awaited
calls.  Publishing `video.failed` starts the dead letter listener.  The
queue hands a waiting job to a worker, settles it when the worker's
execution has returned or thrown, and takes it back from a dead worker; the
clock and the cache also move on their own.
-/

namespace VideoGen

/-- Service methods that are called on their own. -/
inductive ServiceCall where
  | update (id userId : String) (dto : UpdateVideoDto)
  | transitionStatus (videoId : String) (expectedStatus newStatus : VideoStatus)
      (extra : TransitionExtra)
  | updateProgress (videoId : String) (percent : ℤ) (message : String)
      (additionalMeta : JsObject)
  | markFailed (videoId errorMessage : String)
  | evictCache (videoId : String)
  | getCachedStatus (videoId : String)

inductive Task where
  | process (job : Job)
  | createAndQueue (userId : String) (dto : CreateVideoDto)
  | retryFailedJob (id : String)
  | onVideoFailed (event : VideoFailedEvent)
  | remove (id userId : String)
  | service (call : ServiceCall)

inductive Value where
  | unit
  | bool (b : Bool)
  | video (video : Video)
  | retried (dto : RetryFailedJobDto)
  | snapshot (s : Option StatusSnapshot)

inductive EnvStep where
  /-- A worker takes a waiting job. -/
  | take (jobId : ℕ)
  /-- The delay of a job is over. -/
  | promote (jobId : ℕ)
  /-- BullMQ processes the end of the execution that holds the job. -/
  | settle (jobId : ℕ)
  /-- BullMQ finds the worker of a job dead. -/
  | stall (jobId : ℕ)
  | tick (ms : ℕ)
  /-- An unawaited cache write arrives. -/
  | deliver (i : ℕ)
  /-- An unawaited cache write fails. -/
  | drop (i : ℕ)
  | expire (key : String)

abbrev Worker := Thread interface Task Value

abbrev State := Config interface Task Value World

abbrev Step := Act Task Fate EnvStep

def ServiceCall.body : ServiceCall → Prog Value
  | .update id userId dto => .video <$> VideoGen.update id userId dto
  | .transitionStatus videoId expectedStatus newStatus extra =>
      .bool <$> VideoGen.transitionStatus videoId expectedStatus newStatus extra
  | .updateProgress videoId percent message additionalMeta =>
      (fun _ ↦ .unit) <$> VideoGen.updateProgress videoId percent message additionalMeta
  | .markFailed videoId errorMessage =>
      (fun _ ↦ .unit) <$> VideoGen.markFailed videoId errorMessage
  | .evictCache videoId => (fun _ ↦ .unit) <$> VideoGen.evictCache videoId
  | .getCachedStatus videoId => .snapshot <$> VideoGen.getCachedStatus videoId

section System

variable (config : StorageConfig)

def Task.body : Task → Prog Value
  | .process job => (fun _ ↦ .unit) <$> VideoGen.process config job
  | .createAndQueue userId dto => .video <$> VideoGen.createAndQueue userId dto
  | .retryFailedJob id => .retried <$> VideoGen.retryFailedJob id
  | .onVideoFailed event => (fun _ ↦ .unit) <$> VideoGen.onVideoFailed event
  | .remove id userId => (fun _ ↦ .unit) <$> VideoGen.remove id userId
  | .service call => call.body

/-- The listeners that a call starts. -/
def listeners : Call → List Task
  | .emit (.failed event) => [.onVideoFailed event]
  | _ => []

def World.setJob (w : World) (jobId : ℕ) (f : QueuedJob → QueuedJob)
    (hf : ∀ q, (f q).jobId = q.jobId) : World :=
  { w with queue := w.queue.modify jobId f hf }

def setState (state : JobState) (q : QueuedJob) : QueuedJob := { q with state := state }

@[simp] theorem setState_jobId (state : JobState) (q : QueuedJob) :
    (setState state q).jobId = q.jobId := rfl

def envStep (w : World) (threads : List Worker) :
    EnvStep → Option (World × List Task)
  | .take jobId =>
      match w.queue.find? jobId with
      | some q =>
          if q.state = .waiting then
            some (w.setJob jobId (setState (.active threads.length)) (by simp),
              [.process q.job])
          else none
      | none => none
  | .promote jobId =>
      match w.queue.find? jobId with
      | some q =>
          if q.state = .delayed then
            some (w.setJob jobId (setState .waiting) (by simp), [])
          else none
      | none => none
  | .settle jobId =>
      match w.queue.find? jobId with
      | some q =>
          match q.state with
          | .active i =>
              match threads[i]? with
              | some t =>
                  if t.crashed then none else
                  match t.prog with
                  | .done r => some (w.setJob jobId (·.settle r) (by simp), [])
                  | .call _ _ => none
              | none => none
          | _ => none
      | none => none
  | .stall jobId =>
      match w.queue.find? jobId with
      | some q =>
          match q.state with
          | .active i =>
              match threads[i]? with
              | some t =>
                  if t.crashed then
                    some (w.setJob jobId QueuedJob.stall (by simp), [])
                  else none
              | none => none
          | _ => none
      | none => none
  | .tick ms => some ({ w with now := w.now + ms }, [])
  | .deliver i =>
      match w.redisWrites[i]? with
      | some (key, value) =>
          some ({ w.setRedis key (some (.snapshot value)) with
            redisWrites := w.redisWrites.eraseIdx i }, [])
      | none => none
  | .drop i => some ({ w with redisWrites := w.redisWrites.eraseIdx i }, [])
  | .expire key => some (w.setRedis key none, [])

def system : Machine interface Task Value World Fate EnvStep where
  body := Task.body config
  exec := World.exec
  forks := listeners
  env := envStep

end System

/-! ## Acts of concrete runs -/

def okStep (i : ℕ) : Step := .call i (.ok .unit)

def createActs (i : ℕ) (videoId : String) : List Step :=
  [.invoke (.createAndQueue "user" ⟨"title", "prompt", none, none, none, none, none⟩),
    .call i (.ok (.uuid videoId)), okStep i, okStep i, okStep i]

/-- From the start transition's effect to the poll that returns a stored video:
the answers that thread `i` gets before it completes the row. -/
def renderActs (i : ℕ) (url : String) : List Step :=
  List.replicate 4 (okStep i) ++ [.call i (.ok (.text none))] ++
    List.replicate 4 (okStep i) ++
    [.call i (.ok (.generation { jobId := "job", status := .processing }))] ++
    List.replicate 5 (okStep i) ++
    [.call i (.ok (.generation
      { jobId := "job", status := .completed, videoUrl := some url
        alreadyStored := some true }))] ++
    List.replicate 5 (okStep i)

/-! ## Observations -/

namespace World

def statusOf (w : World) (videoId : String) : Option VideoStatus :=
  (w.videos.find? videoId).map Video.status

theorem statusOf_eq_some_iff {w : World} {videoId : String} {status : VideoStatus} :
    w.statusOf videoId = some status ↔
      ∃ r, w.videos.find? videoId = some r ∧ r.status = status := by
  simp [statusOf]

end World

end VideoGen
