import VideoGen.WorkerPhases

/-!
# The stages of every task

Creation, retry, recording and removal are watched by automata of their
own.  Together with the phases of worker executions they form one protocol
for all threads of the system; the methods that are only called from
outside the modelled services are not restricted.
-/

namespace VideoGen

/-! ## Creating a video -/

/-- Where a call of `createAndQueue` stands. -/
inductive Creation where
  | inserting
  | adding (videoId : String)
  | linking (videoId : String) (jobId : ℕ)
  | announcing (videoId : String) (jobId : ℕ)
  | returned
  | thrown
  deriving DecidableEq

inductive CreationAllows (userId : String) (dto : CreateVideoDto) : Creation → Call → Prop where
  | insert : CreationAllows userId dto .inserting (.insertVideo none (dto.fields userId))
  | add (videoId : String) : CreationAllows userId dto (.adding videoId)
      (.queueAdd videoGenerationJob ⟨videoId⟩ (JobOptions.over {} videosModuleJobOptions))
  | link (videoId : String) (jobId : ℕ) : CreationAllows userId dto (.linking videoId jobId)
      (.updateVideo videoId none (queueJobIdFields jobId))
  | announce (videoId prompt : String) (jobId : ℕ) :
      CreationAllows userId dto (.announcing videoId jobId)
        (.emit (.created videoId userId prompt (toString jobId)))

def Creation.next : Creation → (c : Call) → Except Thrown c.Reply → Creation
  | .inserting, .insertVideo _ _, .ok (video : Video) => .adding video.id
  | .adding videoId, .queueAdd _ _ _, .ok (jobId : ℕ) => .linking videoId jobId
  | .linking videoId jobId, .updateVideo _ _ _, .ok _ => .announcing videoId jobId
  | .announcing _ _, .emit _, .ok _ => .returned
  | _, _, .error _ => .thrown
  | creation, _, _ => creation

def Creation.Ends {α : Type} : Creation → Except Thrown α → Prop
  | .returned, .ok _ => True
  | .thrown, .error _ => True
  | _, _ => False

def creationProtocol (userId : String) (dto : CreateVideoDto) :
    Protocol interface Creation where
  Allows := CreationAllows userId dto
  Possible := Call.Possible
  next := Creation.next

theorem keeps_createAndQueue (userId : String) (dto : CreateVideoDto) :
    (createAndQueue userId dto).Keeps (creationProtocol userId dto).spec Creation.Ends
      .inserting := by
  refine Program.keeps_bind.mpr (keeps_ask.mpr ⟨.insert, ?_⟩)
  rintro (e | saved) -
  · trivial
  refine Program.keeps_bind.mpr (keeps_ask.mpr ⟨.add saved.id, ?_⟩)
  rintro (e | jobId) -
  · trivial
  refine Program.keeps_bind.mpr (keeps_ask.mpr ⟨.link saved.id jobId, ?_⟩)
  rintro (e | affected) -
  · trivial
  refine Program.keeps_bind.mpr (keeps_ask.mpr ⟨.announce saved.id _ jobId, ?_⟩)
  rintro (e | x) -
  · trivial
  · trivial

/-! ## Retrying a record -/

/-- Where a call of `retryFailedJob` stands; `resetting` is reached with the
record that was read. -/
inductive Retry where
  | looking
  | resetting (record : FailedJob)
  | adding (record : FailedJob)
  | stamping (record : FailedJob) (jobId : ℕ)
  | linking (record : FailedJob) (jobId now : ℕ)
  | marking (record : FailedJob) (jobId now : ℕ)
  | returned
  | thrown
  deriving DecidableEq

inductive RetryAllows (id : String) : Retry → Call → Prop where
  | look : RetryAllows id .looking (.selectFailedJob id)
  | reset (record : FailedJob) : RetryAllows id (.resetting record)
      (.updateVideo record.videoId none resetFields)
  | add (record : FailedJob) : RetryAllows id (.adding record)
      (.queueAdd videoGenerationJob ⟨record.videoId⟩
        (retryJobOptions.over queueModuleJobOptions))
  | stamp (record : FailedJob) (jobId : ℕ) : RetryAllows id (.stamping record jobId) .dateNow
  | link (record : FailedJob) (jobId now : ℕ) : RetryAllows id (.linking record jobId now)
      (.updateVideo record.videoId none (queueJobIdFields jobId))
  | mark (record : FailedJob) (jobId now : ℕ) : RetryAllows id (.marking record jobId now)
      (.markRetried id now (toString jobId))

def Retry.next : Retry → (c : Call) → Except Thrown c.Reply → Retry
  | .looking, .selectFailedJob _, .ok (some (record : FailedJob)) =>
      if record.retried then .thrown else .resetting record
  | .looking, .selectFailedJob _, .ok none => .thrown
  | .resetting record, .updateVideo _ _ _, .ok _ => .adding record
  | .adding record, .queueAdd _ _ _, .ok (jobId : ℕ) => .stamping record jobId
  | .stamping record jobId, .dateNow, .ok (now : ℕ) => .linking record jobId now
  | .linking record jobId now, .updateVideo _ _ _, .ok _ => .marking record jobId now
  | .marking _ _ _, .markRetried _ _ _, .ok _ => .returned
  | _, _, .error _ => .thrown
  | retry, _, _ => retry

def Retry.Ends {α : Type} : Retry → Except Thrown α → Prop
  | .returned, .ok _ => True
  | .thrown, .error _ => True
  | _, _ => False

def retryProtocol (id : String) : Protocol interface Retry where
  Allows := RetryAllows id
  Possible := Call.Possible
  next := Retry.next

theorem keeps_retryFailedJob (id : String) :
    (retryFailedJob id).Keeps (retryProtocol id).spec Retry.Ends .looking := by
  refine Program.keeps_bind.mpr (keeps_ask.mpr ⟨.look, ?_⟩)
  rintro (e | record) -
  · trivial
  cases record with
  | none => trivial
  | some record =>
      change Program.Keeps _ _ (if record.retried = true then _ else _)
        (if record.retried = true then Retry.thrown else Retry.resetting record)
      split
      · trivial
      refine Program.keeps_bind.mpr (keeps_ask.mpr ⟨.reset record, ?_⟩)
      rintro (e | affected) -
      · trivial
      refine Program.keeps_bind.mpr (keeps_ask.mpr ⟨.add record, ?_⟩)
      rintro (e | jobId) -
      · trivial
      refine Program.keeps_bind.mpr (keeps_ask.mpr ⟨.stamp record jobId, ?_⟩)
      rintro (e | now) -
      · trivial
      refine Program.keeps_bind.mpr (keeps_ask.mpr ⟨.link record jobId now, ?_⟩)
      rintro (e | affected) -
      · trivial
      refine Program.keeps_bind.mpr (keeps_ask.mpr ⟨.mark record jobId now, ?_⟩)
      rintro (e | x) -
      · trivial
      · trivial

/-! ## Recording a failure -/

/-- Where the listener of a `video.failed` event stands. -/
inductive Recording where
  | reading
  | saving (video : Option Video)
  | saved
  | dropped
  deriving DecidableEq

inductive RecordingAllows (event : VideoFailedEvent) : Recording → Call → Prop where
  | read : RecordingAllows event .reading (.selectVideo event.videoId)
  | save (video : Option Video) : RecordingAllows event (.saving video)
      (.insertFailedJob (failedJobFields event video))

def Recording.next : Recording → (c : Call) → Except Thrown c.Reply → Recording
  | .reading, .selectVideo _, .ok (video : Option Video) => .saving video
  | .saving _, .insertFailedJob _, .ok _ => .saved
  | _, _, .error _ => .dropped
  | recording, _, _ => recording

/-- The listener returns, whatever happened. -/
def Recording.Ends {α : Type} : Recording → Except Thrown α → Prop
  | .saved, .ok _ => True
  | .dropped, .ok _ => True
  | _, _ => False

def recordingProtocol (event : VideoFailedEvent) : Protocol interface Recording where
  Allows := RecordingAllows event
  Possible := Call.Possible
  next := Recording.next

theorem keeps_onVideoFailed (event : VideoFailedEvent) :
    (onVideoFailed event).Keeps (recordingProtocol event).spec Recording.Ends .reading := by
  refine Program.keeps_catchWith.mpr (Program.keeps_bind.mpr (keeps_ask.mpr ⟨.read, ?_⟩))
  rintro (e | video) -
  · trivial
  refine Program.keeps_bind.mpr (keeps_ask.mpr ⟨.save video, ?_⟩)
  rintro (e | x) -
  · trivial
  · trivial

/-! ## Removing a video -/

/-- Where a call of `remove` stands. -/
inductive Removal where
  | reading
  | deleting (videoId : String)
  | returned
  | thrown
  deriving DecidableEq

inductive RemovalAllows (id : String) : Removal → Call → Prop where
  | read : RemovalAllows id .reading (.selectVideo id)
  | delete (videoId : String) : RemovalAllows id (.deleting videoId) (.deleteVideo videoId)

def Removal.next (userId : String) : Removal → (c : Call) → Except Thrown c.Reply → Removal
  | .reading, .selectVideo _, .ok (some (video : Video)) =>
      if video.userId = userId then .deleting video.id else .thrown
  | .reading, .selectVideo _, .ok none => .thrown
  | .deleting _, .deleteVideo _, .ok _ => .returned
  | _, _, .error _ => .thrown
  | removal, _, _ => removal

def Removal.Ends {α : Type} : Removal → Except Thrown α → Prop
  | .returned, .ok _ => True
  | .thrown, .error _ => True
  | _, _ => False

def removalProtocol (id userId : String) : Protocol interface Removal where
  Allows := RemovalAllows id
  Possible := Call.Possible
  next := Removal.next userId

theorem keeps_remove (id userId : String) :
    (remove id userId).Keeps (removalProtocol id userId).spec Removal.Ends .reading := by
  refine Program.keeps_bind.mpr (Program.keeps_bind.mpr (keeps_ask.mpr ⟨.read, ?_⟩))
  rintro (e | video) -
  · trivial
  cases video with
  | none => trivial
  | some video =>
      change Program.Keeps _ _ (if video.userId = userId then _ else _)
        (if video.userId = userId then Removal.deleting video.id else Removal.thrown)
      split
      · refine keeps_ask.mpr ⟨.delete video.id, ?_⟩
        rintro (e | x) -
        · trivial
        · trivial
      · trivial

/-! ## All tasks -/

inductive Stage where
  | worker (job : Job) (phase : Phase)
  | creating (userId : String) (dto : CreateVideoDto) (creation : Creation)
  | retrying (id : String) (retry : Retry)
  | listening (event : VideoFailedEvent) (recording : Recording)
  | removing (id userId : String) (removal : Removal)
  | service (call : ServiceCall)

inductive StageAllows : Stage → Call → Prop where
  | worker {job : Job} {phase : Phase} {c : Call} (h : WorkerAllows job phase c) :
      StageAllows (.worker job phase) c
  | creating {userId : String} {dto : CreateVideoDto} {creation : Creation} {c : Call}
      (h : CreationAllows userId dto creation c) :
      StageAllows (.creating userId dto creation) c
  | retrying {id : String} {retry : Retry} {c : Call} (h : RetryAllows id retry c) :
      StageAllows (.retrying id retry) c
  | listening {event : VideoFailedEvent} {recording : Recording} {c : Call}
      (h : RecordingAllows event recording c) : StageAllows (.listening event recording) c
  | removing {id userId : String} {removal : Removal} {c : Call}
      (h : RemovalAllows id removal c) : StageAllows (.removing id userId removal) c
  | service (call : ServiceCall) (c : Call) : StageAllows (.service call) c

namespace Stage

def init : Task → Stage
  | .process job => .worker job .fresh
  | .createAndQueue userId dto => .creating userId dto .inserting
  | .retryFailedJob id => .retrying id .looking
  | .onVideoFailed event => .listening event .reading
  | .remove id userId => .removing id userId .reading
  | .service call => .service call

def next : Stage → (c : Call) → Except Thrown c.Reply → Stage
  | .worker job phase, c, r => .worker job (phase.next c r)
  | .creating userId dto creation, c, r => .creating userId dto (creation.next c r)
  | .retrying id retry, c, r => .retrying id (retry.next c r)
  | .listening event recording, c, r => .listening event (recording.next c r)
  | .removing id userId removal, c, r => .removing id userId (removal.next userId c r)
  | .service call, _, _ => .service call

def Ends : Stage → Except Thrown Value → Prop
  | .worker job phase, r => phase.Ends job (r.map fun _ ↦ ())
  | .creating _ _ creation, r => creation.Ends r
  | .retrying _ retry, r => retry.Ends r
  | .listening _ recording, r => recording.Ends r
  | .removing _ _ removal, r => removal.Ends r
  | .service _, _ => True

def task : Stage → Task
  | .worker job _ => .process job
  | .creating userId dto _ => .createAndQueue userId dto
  | .retrying id _ => .retryFailedJob id
  | .listening event _ => .onVideoFailed event
  | .removing id userId _ => .remove id userId
  | .service call => .service call

@[simp] theorem task_init (t : Task) : (init t).task = t := by
  cases t <;> rfl

@[simp] theorem task_next (stage : Stage) (c : Call) (r : Except Thrown c.Reply) :
    (stage.next c r).task = stage.task := by
  cases stage <;> rfl

end Stage

def stageProtocol : Protocol interface Stage where
  Allows := StageAllows
  Possible := Call.Possible
  next := Stage.next

theorem Task.keeps_body (config : StorageConfig) (task : Task) :
    (task.body config).Keeps stageProtocol.spec Stage.Ends (Stage.init task) := by
  cases task with
  | process job =>
      refine Program.keeps_map.mpr (Program.Keeps.embed (Stage.worker job)
        (fun _ _ h ↦ StageAllows.worker h) (fun _ _ h ↦ h) (fun _ _ _ ↦ rfl) ?_ keeps_process)
      rintro phase (e | x) h <;> exact h
  | createAndQueue userId dto =>
      refine Program.keeps_map.mpr (Program.Keeps.embed (Stage.creating userId dto)
        (fun _ _ h ↦ StageAllows.creating h) (fun _ _ h ↦ h) (fun _ _ _ ↦ rfl) ?_
        (keeps_createAndQueue userId dto))
      rintro creation (e | x) h <;> cases creation <;> exact h
  | retryFailedJob id =>
      refine Program.keeps_map.mpr (Program.Keeps.embed (Stage.retrying id)
        (fun _ _ h ↦ StageAllows.retrying h) (fun _ _ h ↦ h) (fun _ _ _ ↦ rfl) ?_
        (keeps_retryFailedJob id))
      rintro retry (e | x) h <;> cases retry <;> exact h
  | onVideoFailed event =>
      refine Program.keeps_map.mpr (Program.Keeps.embed (Stage.listening event)
        (fun _ _ h ↦ StageAllows.listening h) (fun _ _ h ↦ h) (fun _ _ _ ↦ rfl) ?_
        (keeps_onVideoFailed event))
      rintro recording (e | x) h <;> cases recording <;> exact h
  | remove id userId =>
      refine Program.keeps_map.mpr (Program.Keeps.embed (Stage.removing id userId)
        (fun _ _ h ↦ StageAllows.removing h) (fun _ _ h ↦ h) (fun _ _ _ ↦ rfl) ?_
        (keeps_remove id userId))
      rintro removal (e | x) h <;> cases removal <;> exact h
  | service call =>
      exact Program.keeps_of_stable (StageAllows.service call) (fun _ _ ↦ rfl)
        (fun _ ↦ trivial) _

end VideoGen
