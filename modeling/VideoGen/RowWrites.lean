import VideoGen.Delivery

/-!
# The writes to a video's row

Which call writes which columns, stage by stage: executions write only the
columns that report on the generation, creations and retries write the job
id, and only a retry makes a row pending again.  What a step can do to a row
is said once, by `RowWrite`.
-/

namespace VideoGen

def VideoFields.Reports (fields : VideoFields) : Prop :=
  fields =
    { status := fields.status, videoUrl := fields.videoUrl, thumbnailUrl := fields.thumbnailUrl
      errorMessage := fields.errorMessage, metadata := fields.metadata }

def Video.request (row : Video) : Video :=
  { row with
    status := .pending, videoUrl := none, thumbnailUrl := none, errorMessage := none
    metadata := none, updatedAt := 0 }

theorem VideoFields.Reports.request_assign {fields : VideoFields} (h : fields.Reports)
    (row : Video) (now : ℕ) : (row.assign fields now).request = row.request := by
  rw [h]
  rfl

/-- The calls of an execution that write its row, with the statuses that they expect. -/
inductive Report : Option VideoStatus → VideoFields → Prop where
  | start (status : VideoStatus) (hallowed : Allowed status .processing) :
      Report (some status) (startExtra.fields .processing)
  | progress (u : ProgressUpdate) : Report (some .processing) u.fields
  | complete (url : String) (thumbnail : Option String) :
      Report (some .processing) ((completeExtra url thumbnail).fields .completed)
  | fail (message : String) : Report none (failedFields message)

theorem Report.reports {expected : Option VideoStatus} {fields : VideoFields}
    (h : Report expected fields) : fields.Reports := by
  cases h <;> rfl

inductive RowWrite : Stage → Call → Prop where
  | report (job : Job) (phase : Phase) {expected : Option VideoStatus} {fields : VideoFields}
      (h : Report expected fields) :
      RowWrite (.worker job phase) (.updateVideo job.data.videoId expected fields)
  | insert (userId : String) (dto : CreateVideoDto) :
      RowWrite (.creating userId dto .inserting) (.insertVideo none (dto.fields userId))
  | link (userId : String) (dto : CreateVideoDto) (videoId : String) (jobId : ℕ) :
      RowWrite (.creating userId dto (.linking videoId jobId))
        (.updateVideo videoId none (queueJobIdFields jobId))
  | reset (id : String) (record : FailedJob) : RowWrite (.retrying id (.resetting record))
      (.updateVideo record.videoId none resetFields)
  | relink (id : String) (record : FailedJob) (jobId now : ℕ) :
      RowWrite (.retrying id (.linking record jobId now))
        (.updateVideo record.videoId none (queueJobIdFields jobId))
  | delete (id userId videoId : String) :
      RowWrite (.removing id userId (.deleting videoId)) (.deleteVideo videoId)

theorem StageAllows.rowWrite {stage : Stage} {c : Call} (h : StageAllows stage c)
    (hmanaged : stage.task.Managed) (hc : c.WritesVideos = true) : RowWrite stage c := by
  cases h with
  | worker h =>
      cases h with
      | start status hallowed => exact .report _ _ (.start status hallowed)
      | quiet _ hquiet => cases c <;> simp_all [Call.Quiet, Call.WritesVideos]
      | progress u => exact .report _ _ (.progress u)
      | complete url thumbnail hurl => exact .report _ _ (.complete url thumbnail)
      | mark phase hphase hfinal message => exact .report _ _ (.fail message)
      | _ => cases hc
  | creating h =>
      cases h with
      | insert => exact .insert _ _
      | link videoId jobId => exact .link _ _ videoId jobId
      | _ => cases hc
  | retrying h =>
      cases h with
      | reset record => exact .reset _ record
      | link record jobId now => exact .relink _ record jobId now
      | _ => cases hc
  | listening h => cases h <;> cases hc
  | removing h =>
      cases h with
      | delete videoId => exact .delete _ _ videoId
      | read => cases hc
  | service call => exact hmanaged.elim

theorem RowWrite.writesVideos {stage : Stage} {c : Call} (h : RowWrite stage c) :
    c.WritesVideos = true := by
  cases h <;> rfl

section System

variable {config : StorageConfig} {s s' : State} {a : Step}

theorem rowWrite_of_step (hstep : (system config).step s a = some s') (hs : Conforming s)
    (hmanaged : ∀ t ∈ s.threads, t.task.Managed) : s'.state.videos = s.state.videos ∨
      ∃ i f t c b x, a = .call i f ∧ f.TakesEffect = true ∧ s.threads[i]? = some t ∧
        t.pending? = some c ∧ RowWrite (stageOf t) c ∧
        s.state.answer c b = some (s'.state, x) := by
  cases a with
  | invoke task =>
      obtain rfl := Option.some.inj hstep
      exact .inl rfl
  | crash i =>
      obtain ⟨t, -, rfl⟩ := (system config).step_crash_cases hstep
      exact .inl rfl
  | env l =>
      obtain ⟨w, tasks, henv, rfl⟩ := (system config).step_env_cases hstep
      exact .inl (envStep_frame henv).1
  | call i f =>
      obtain ⟨t, t', c, r, h⟩ := answered_of_step hstep hs
      by_cases hc : c.WritesVideos = true
      · rcases World.exec_effect h.exec with ⟨-, hw, -⟩ | ⟨hf, b, x, hx, -⟩
        · exact .inl (by rw [hw])
        · have htask := hmanaged t (List.mem_of_getElem? h.get)
          rw [← task_stageOf t] at htask
          exact .inr ⟨i, f, t, c, b, x, rfl, hf, h.get, h.pending,
            (allows_of_answered h).rowWrite htask hc, hx⟩
      · exact .inl (World.exec_videos h.exec (by simpa using hc))

theorem executes_of_pending {t : Transition State Step} {i : ℕ} {f : Fate} {u : Worker} {c : Call}
    (hact : t.act = .call i f) (hf : f.TakesEffect = true)
    (hget : t.before.threads[i]? = some u) (hpending : u.pending? = some c) :
    Executes t i (stageOf u).task c :=
  ⟨f, u, hact, hf, hget, (task_stageOf u).symm, hpending⟩

end System

end VideoGen
