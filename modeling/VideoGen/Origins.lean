import VideoGen.RowWrites
import VideoGen.StoredFiles

/-!
# Where failures come from

Videos are created, their jobs are delivered, also twice, and the records of
their failures are retried; nothing is removed.  Then everything that names a
video (a job, an execution, an event, a record, a retry) goes back to its
row, and everything that speaks of a failure goes back to an update that
made the row failed.
-/

namespace VideoGen

/-- The act creates a video, delivers a job, also once more, retries a record, answers a
call, or is a fault or a step of the environment. -/
def Circulates (s : State) : Step → Prop
  | .invoke (.createAndQueue _ _) => True
  | .invoke (.retryFailedJob _) => True
  | .invoke (.process job) =>
      ∃ id q, s.state.queue.find? id = some q ∧ q.job.data = job.data
  | .invoke _ => False
  | _ => True

def Task.Circulating : Task → Prop
  | .remove _ _ => False
  | .service _ => False
  | _ => True

theorem Task.Circulating.managed {task : Task} (h : task.Circulating) : task.Managed := by
  cases task <;> trivial

def Fails (videoId : String) (t : Transition State Step) : Prop :=
  t.before.state.HasRow videoId ∧ ∃ i task message,
    Executes t i task (.updateVideo videoId none (failedFields message))

def Resets (videoId : String) (t : Transition State Step) : Prop :=
  ∃ i task, Executes t i task (.updateVideo videoId none resetFields)

/-! ## What a stage names -/

def Creation.video? : Creation → Option String
  | .adding videoId => some videoId
  | .linking videoId _ => some videoId
  | .announcing videoId _ => some videoId
  | _ => none

def Retry.video? : Retry → Option String
  | .resetting record => some record.videoId
  | .adding record => some record.videoId
  | .stamping record _ => some record.videoId
  | .linking record _ _ => some record.videoId
  | .marking record _ _ => some record.videoId
  | _ => none

def Stage.video? : Stage → Option String
  | .worker job _ => some job.data.videoId
  | .creating _ _ creation => creation.video?
  | .retrying _ retry => retry.video?
  | .listening event _ => some event.videoId
  | _ => none

def Stage.failure? : Stage → Option String
  | .worker job (.marked _) => some job.data.videoId
  | .retrying _ retry => retry.video?
  | .listening event _ => some event.videoId
  | _ => none

section System

variable {config : StorageConfig} {s s' : State} {i : ℕ} {f : Fate} {t t' : Worker} {c : Call}
  {r : Except Thrown c.Reply} {videoId : String}

theorem Retry.video?_next {id : String} {retry : Retry} (hallows : RetryAllows id retry c)
    (hexec : s.state.exec c f = some (s'.state, r))
    (h : (retry.next c r).video? = some videoId) : retry.video? = some videoId ∨
      ∃ id record, s.state.failedJobs.find? id = some record ∧ record.videoId = videoId := by
  cases hallows with
  | look =>
      rcases r with e | _ | record
      · cases h
      · cases h
      · obtain ⟨-, b, hx⟩ := World.exec_ok hexec
        obtain ⟨-, hrecord⟩ := World.answer_selectFailedJob hx
        refine .inr ⟨_, record, hrecord.symm, ?_⟩
        change (if record.retried then Retry.thrown else Retry.resetting record).video? = _ at h
        split at h
        · cases h
        · exact Option.some.inj h
  | reset record => rcases r with e | n <;> first | exact .inl h | cases h
  | add record => rcases r with e | n <;> first | exact .inl h | cases h
  | stamp record jobId => rcases r with e | n <;> first | exact .inl h | cases h
  | link record jobId now => rcases r with e | n <;> first | exact .inl h | cases h
  | mark record jobId now => rcases r with e | n <;> cases h

theorem video?_answered (h : Answered config s s' i f t t' c r)
    (hvideo : (stageOf t').video? = some videoId) : (stageOf t).video? = some videoId ∨
      s'.state.HasRow videoId ∨
      ∃ id record, s.state.failedJobs.find? id = some record ∧ record.videoId = videoId := by
  have hallows := allows_of_answered h
  have hexec := h.exec
  rw [stageOf_of_answered h] at hvideo
  generalize stageOf t = stage at hallows hvideo
  cases hallows with
  | worker hallows => exact .inl hvideo
  | creating hallows =>
      cases hallows with
      | insert =>
          rcases r with e | video
          · cases hvideo
          · obtain ⟨-, b, hx⟩ := World.exec_ok hexec
            obtain ⟨id, hid, -, hrows⟩ := World.answer_insertVideo hx
            have hvideoId : video.id = videoId := Option.some.inj hvideo
            refine .inr (.inl ⟨video, ?_⟩)
            rw [hrows, if_pos (by rw [← hvideoId, hid]; rfl)]
      | add videoId => rcases r with e | n <;> first | exact .inl hvideo | cases hvideo
      | link videoId jobId => rcases r with e | n <;> first | exact .inl hvideo | cases hvideo
      | announce videoId prompt jobId => rcases r with e | n <;> cases hvideo
  | retrying hallows =>
      rcases Retry.video?_next hallows hexec hvideo with hold | hrecord
      · exact .inl hold
      · exact .inr (.inr hrecord)
  | listening hallows => exact .inl hvideo
  | removing hallows => cases hvideo
  | service call => cases hvideo

theorem failure?_answered (h : Answered config s s' i f t t' c r)
    (hvideo : (stageOf t').failure? = some videoId) : (stageOf t).failure? = some videoId ∨
      (∃ message, f.TakesEffect = true ∧ (stageOf t).video? = some videoId ∧
        c = .updateVideo videoId none (failedFields message)) ∨
      ∃ id record, s.state.failedJobs.find? id = some record ∧ record.videoId = videoId := by
  have hallows := allows_of_answered h
  have hexec := h.exec
  rw [stageOf_of_answered h] at hvideo
  generalize stageOf t = stage at hallows hvideo
  cases hallows with
  | @worker job phase c hallows =>
      cases hallows with
      | load => rcases r with e | _ | video <;> cases hvideo
      | start status hallowed =>
          rcases r with e | n
          · cases hvideo
          · by_cases hn : n = 0
            · subst hn
              cases hvideo
            · change (Stage.worker job (if n = 0 then _ else _)).failure? = _ at hvideo
              rw [if_neg hn] at hvideo
              cases hvideo
      | quiet c hquiet =>
          change (Stage.worker job (Phase.next .working c r)).failure? = _ at hvideo
          rw [Phase.next_quiet hquiet] at hvideo
          rcases r with e | x
          · by_cases hcaught : c.Caught = true <;> simp [hcaught, Stage.failure?] at hvideo
          · cases hvideo
      | progress u => rcases r with e | n <;> cases hvideo
      | complete url thumbnail hurl => rcases r with e | n <;> cases hvideo
      | stamp applied event => rcases r with e | n <;> cases hvideo
      | cache applied event key value => rcases r with e | n <;> cases hvideo
      | record applied event => rcases r with e | n <;> cases hvideo
      | announce applied event => rcases r with e | n <;> cases hvideo
      | mark _ hphase hfinal message =>
          change (Stage.worker job (Phase.next phase _ r)).failure? = _ at hvideo
          rw [next_mark hphase] at hvideo
          rcases r with e | n
          · cases hvideo
          · have hid : job.data.videoId = videoId := Option.some.inj hvideo
            exact .inr (.inl ⟨message, (World.exec_ok hexec).1, hvideo, by rw [hid]⟩)
      | evict message key => rcases r with e | n <;> exact .inl hvideo
      | report message => rcases r with e | n <;> cases hvideo
  | creating hallows => cases hvideo
  | retrying hallows =>
      rcases Retry.video?_next hallows hexec hvideo with hold | hrecord
      · exact .inl hold
      · exact .inr (.inr hrecord)
  | listening hallows => exact .inl hvideo
  | removing hallows => cases hvideo
  | service call => cases hvideo

theorem announces_failure {stage : Stage} {event : VideoFailedEvent}
    (h : StageAllows stage (.emit (.failed event))) (hmanaged : stage.task.Managed) :
    ∃ job message, stage = .worker job (.marked message) ∧
      event = ⟨job.data.videoId, message, job.attemptsMade + 1⟩ := by
  cases h with
  | worker h =>
      cases h with
      | quiet _ hquiet => cases hquiet
      | report message => exact ⟨_, message, rfl, rfl⟩
  | creating h => cases h
  | retrying h => cases h
  | listening h => cases h
  | removing h => cases h
  | service call => exact hmanaged.elim

theorem record_cases {a : Step} (hstep : (system config).step s a = some s') (hs : Conforming s)
    (hmanaged : ∀ t ∈ s.threads, t.task.Managed) {id : String} {record : FailedJob}
    (hrecord : s'.state.failedJobs.find? id = some record) :
    (∃ record₀, s.state.failedJobs.find? id = some record₀ ∧
      record.videoId = record₀.videoId) ∨
    ∃ t ∈ s.threads, ∃ event recording, stageOf t = .listening event recording ∧
      record.videoId = event.videoId := by
  have hsame (h : s'.state.failedJobs = s.state.failedJobs) :
      ∃ record₀, s.state.failedJobs.find? id = some record₀ ∧
        record.videoId = record₀.videoId := ⟨record, by rw [← h]; exact hrecord, rfl⟩
  cases a with
  | invoke task =>
      obtain rfl := Option.some.inj hstep
      exact .inl (hsame rfl)
  | crash i =>
      obtain ⟨t, -, rfl⟩ := (system config).step_crash_cases hstep
      exact .inl (hsame rfl)
  | env l =>
      obtain ⟨w, tasks, henv, rfl⟩ := (system config).step_env_cases hstep
      exact .inl (hsame (envStep_frame henv).2.1)
  | call i f =>
      obtain ⟨t, t', c, r, h⟩ := answered_of_step hstep hs
      rcases World.exec_effect h.exec with ⟨-, hw, -⟩ | ⟨-, b, x, hx, -⟩
      · exact .inl (hsame (by rw [hw]))
      cases c with
      | insertFailedJob fields =>
          obtain ⟨newId, rfl, hfresh, hinsert⟩ := World.answer_insertFailedJob hx
          rw [hinsert, Table.find?_insert] at hrecord
          split at hrecord
          · obtain rfl := Option.some.inj hrecord
            have hallows := allows_of_answered h
            have htask := hmanaged t (List.mem_of_getElem? h.get)
            rw [← task_stageOf t] at htask
            generalize hstage : stageOf t = stage at hallows htask
            cases hallows with
            | worker hallows =>
                cases hallows with
                | quiet _ hquiet => cases hquiet
            | creating hallows => cases hallows
            | retrying hallows => cases hallows
            | listening hallows =>
                cases hallows with
                | save video =>
                    exact .inr ⟨t, List.mem_of_getElem? h.get, _, _, hstage, rfl⟩
            | removing hallows => cases hallows
            | service call => exact htask.elim
          · exact .inl ⟨record, hrecord, rfl⟩
      | markRetried id' retriedAt retryJobId =>
          rw [World.answer_markRetried hx] at hrecord
          change (s.state.failedJobs.modify id' (fun r ↦ r.markRetried retriedAt retryJobId)
            fun r ↦ r.markRetried_id retriedAt retryJobId).find? id = some record at hrecord
          rw [Table.find?_modify] at hrecord
          split at hrecord
          · obtain ⟨record₀, hrecord₀, rfl⟩ := Option.map_eq_some_iff.mp hrecord
            exact .inl ⟨record₀, hrecord₀, rfl⟩
          · exact .inl ⟨record, hrecord, rfl⟩
      | _ => exact .inl (hsame ((World.answer_frame hx).2.1 rfl))

end System

/-! ## Every video has its row, every failure its update -/

/-- What is known in every configuration of a run with the given history. -/
structure Origins (past : List (Transition State Step)) (s : State) : Prop where
  conforming : Conforming s
  circulating : ∀ t ∈ s.threads, t.task.Circulating
  threads : ∀ t ∈ s.threads, ∀ v, (stageOf t).video? = some v → s.state.HasRow v
  jobs : ∀ id q, s.state.queue.find? id = some q → s.state.HasRow q.job.data.videoId
  records : ∀ id record, s.state.failedJobs.find? id = some record →
    s.state.HasRow record.videoId
  failures : ∀ t ∈ s.threads, ∀ v, (stageOf t).failure? = some v → ∃ u ∈ past, Fails v u
  failed : ∀ id record, s.state.failedJobs.find? id = some record →
    ∃ u ∈ past, Fails record.videoId u

namespace Origins

variable {config : StorageConfig} {s s' : State} {a : Step} {past : List (Transition State Step)}

theorem managed (h : Origins past s) : ∀ t ∈ s.threads, t.task.Managed :=
  fun t ht ↦ (h.circulating t ht).managed

theorem announces (h : Origins past s) {s' : State} {i : ℕ} {f : Fate} {t t' : Worker}
    {event : VideoFailedEvent} {r : Except Thrown Unit}
    (hcall : Answered config s s' i f t t' (.emit (.failed event)) r) :
    ∃ job message, stageOf t = .worker job (.marked message) ∧
      event = ⟨job.data.videoId, message, job.attemptsMade + 1⟩ := by
  apply announces_failure (allows_of_answered hcall)
  rw [task_stageOf]
  exact h.managed t (List.mem_of_getElem? hcall.get)

theorem hasRow (h : Origins past s) (hstep : (system config).step s a = some s') {v : String}
    (hrow : s.state.HasRow v) : s'.state.HasRow v := by
  apply hasRow_step hstep h.conforming _ hrow
  rintro ⟨i, task, hexec⟩
  obtain ⟨u, hget, -, hallows⟩ := hexec.allows h.conforming hstep
  have htask := h.circulating u (List.mem_of_getElem? hget)
  rw [← task_stageOf u] at htask
  generalize stageOf u = stage at hallows htask
  cases hallows with
  | worker hallows =>
      cases hallows with
      | quiet _ hquiet => cases hquiet
  | creating hallows => cases hallows
  | retrying hallows => cases hallows
  | listening hallows => cases hallows
  | removing hallows => exact htask.elim
  | service call => exact htask.elim

theorem start : Origins [] ⟨World.empty, []⟩ where
  conforming := by simp [Conforming]
  circulating := by simp
  threads := by simp
  jobs := by simp [World.empty, Queue.empty, Queue.find?]
  records := by simp [World.empty]
  failures := by simp
  failed := by simp [World.empty]

theorem threads_step (h : Origins past s) (hcirculates : Circulates s a)
    (hstep : (system config).step s a = some s') {u : Worker} (hu : u ∈ s'.threads) {v : String}
    (hvideo : (stageOf u).video? = some v) : s'.state.HasRow v := by
  obtain ⟨j, hj⟩ := List.getElem?_of_mem hu
  rcases thread_cases hstep h.conforming hj with ⟨t, ht, -, -, -, hstage, -⟩ | ⟨hle, -⟩ |
    ⟨f, t, c, r, rfl, hcall⟩
  · exact h.hasRow hstep (h.threads t (List.mem_of_getElem? ht) v (hstage ▸ hvideo))
  · obtain ⟨-, ⟨task, rfl, rfl⟩ | ⟨id, q, -, hq, -, rfl⟩ |
      ⟨i, f, t, t', event, r, rfl, hcall, rfl⟩⟩ := started_cases hstep h.conforming hj hle
    · cases task with
      | process job =>
          obtain ⟨id, q, hq, hdata⟩ := hcirculates
          have hid : job.data.videoId = v := Option.some.inj hvideo
          rw [← hid, ← hdata]
          exact h.hasRow hstep (h.jobs id q hq)
      | createAndQueue userId dto => cases hvideo
      | retryFailedJob id => cases hvideo
      | onVideoFailed event => exact hcirculates.elim
      | remove id userId => exact hcirculates.elim
      | service call => exact hcirculates.elim
    · have hid : q.job.data.videoId = v := Option.some.inj hvideo
      rw [← hid]
      exact h.hasRow hstep (h.jobs id q hq)
    · have hid : event.videoId = v := Option.some.inj hvideo
      obtain ⟨job, message, hstage, rfl⟩ := h.announces hcall
      apply h.hasRow hstep (h.threads t (List.mem_of_getElem? hcall.get) v _)
      rw [hstage]
      exact congrArg some hid
  · rcases video?_answered hcall hvideo with hold | hrow | ⟨id, record, hrecord, rfl⟩
    · exact h.hasRow hstep (h.threads t (List.mem_of_getElem? hcall.get) v hold)
    · exact hrow
    · exact h.hasRow hstep (h.records id record hrecord)

theorem failures_step (h : Origins past s) (hcirculates : Circulates s a)
    (hstep : (system config).step s a = some s') {u : Worker} (hu : u ∈ s'.threads) {v : String}
    (hfailure : (stageOf u).failure? = some v) : ∃ t ∈ past ++ [⟨s, a, s'⟩], Fails v t := by
  have hold (h : ∃ t ∈ past, Fails v t) : ∃ t ∈ past ++ [⟨s, a, s'⟩], Fails v t := by
    obtain ⟨t, ht, hfails⟩ := h
    exact ⟨t, List.mem_append_left _ ht, hfails⟩
  obtain ⟨j, hj⟩ := List.getElem?_of_mem hu
  rcases thread_cases hstep h.conforming hj with ⟨t, ht, -, -, -, hstage, -⟩ | ⟨hle, -⟩ |
    ⟨f, t, c, r, rfl, hcall⟩
  · exact hold (h.failures t (List.mem_of_getElem? ht) v (hstage ▸ hfailure))
  · obtain ⟨-, ⟨task, rfl, rfl⟩ | ⟨id, q, -, hq, -, rfl⟩ |
      ⟨i, f, t, t', event, r, rfl, hcall, rfl⟩⟩ := started_cases hstep h.conforming hj hle
    · cases task with
      | process job => cases hfailure
      | createAndQueue userId dto => cases hfailure
      | retryFailedJob id => cases hfailure
      | onVideoFailed event => exact hcirculates.elim
      | remove id userId => exact hcirculates.elim
      | service call => exact hcirculates.elim
    · cases hfailure
    · have hid : event.videoId = v := Option.some.inj hfailure
      obtain ⟨job, message, hstage, rfl⟩ := h.announces hcall
      apply hold (h.failures t (List.mem_of_getElem? hcall.get) v _)
      rw [hstage]
      exact congrArg some hid
  · rcases failure?_answered hcall hfailure with hbefore | ⟨message, hf, hvideo, rfl⟩ |
      ⟨id, record, hrecord, rfl⟩
    · exact hold (h.failures t (List.mem_of_getElem? hcall.get) v hbefore)
    · have hrow := h.threads t (List.mem_of_getElem? hcall.get) v hvideo
      refine ⟨⟨s, .call j f, s'⟩, by simp, hrow, j, t.task, message, ?_⟩
      exact ⟨f, t, rfl, hf, hcall.get, rfl, hcall.pending⟩
    · exact hold (h.failed id record hrecord)

theorem step (h : Origins past s) (hcirculates : Circulates s a)
    (hstep : (system config).step s a = some s') : Origins (past ++ [⟨s, a, s'⟩]) s' where
  conforming := step_conforming hstep h.conforming
  circulating := by
    apply step_tasks hstep _ (fun _ ↦ trivial) (fun _ ↦ trivial) h.circulating
    cases a with
    | invoke task =>
        cases task with
        | remove id userId => exact hcirculates.elim
        | service call => exact hcirculates.elim
        | _ => trivial
    | _ => trivial
  threads u hu v hvideo := h.threads_step hcirculates hstep hu hvideo
  jobs id q' hq' := by
    rcases job_cases hstep h.conforming hq' with ⟨q, hq⟩ |
      ⟨i, f, t, t', name, data, opts, r, -, -, hcall, -, rfl⟩
    · obtain ⟨q'', hq'', hkept | ⟨l, tasks, -, hmove, -⟩⟩ := job_step hstep hq
      · obtain rfl := Option.some.inj (hq'.symm.trans hq'')
        rw [hkept]
        exact h.hasRow hstep (h.jobs id q hq)
      · obtain rfl := Option.some.inj (hq'.symm.trans hq'')
        rw [hmove.job_eq.2.1]
        exact h.hasRow hstep (h.jobs id q hq)
    · have htask := h.managed t (List.mem_of_getElem? hcall.get)
      rw [← task_stageOf t] at htask
      apply h.hasRow hstep (h.threads t (List.mem_of_getElem? hcall.get) data.videoId _)
      obtain ⟨-, ⟨userId, dto, hstage⟩ | ⟨id, record, hstage, hid⟩⟩ :=
        (allows_of_answered hcall).queueAdd htask
      · rw [hstage]
        rfl
      · rw [hstage, hid]
        rfl
  records id record hrecord := by
    rcases record_cases hstep h.conforming h.managed hrecord with ⟨record₀, hrecord₀, hid⟩ |
      ⟨t, ht, event, recording, hstage, hid⟩
    · rw [hid]
      exact h.hasRow hstep (h.records id record₀ hrecord₀)
    · apply h.hasRow hstep (h.threads t ht record.videoId _)
      rw [hstage, hid]
      rfl
  failures u hu v hfailure := h.failures_step hcirculates hstep hu hfailure
  failed id record hrecord := by
    rcases record_cases hstep h.conforming h.managed hrecord with ⟨record₀, hrecord₀, hid⟩ |
      ⟨t, ht, event, recording, hstage, hid⟩
    · rw [hid]
      obtain ⟨u, hu, hfails⟩ := h.failed id record₀ hrecord₀
      exact ⟨u, List.mem_append_left _ hu, hfails⟩
    · obtain ⟨u, hu, hfails⟩ := h.failures t ht record.videoId (by rw [hstage, hid]; rfl)
      exact ⟨u, List.mem_append_left _ hu, hfails⟩

theorem run {ts : List (Transition State Step)}
    (hrun : Run (system config).step ⟨World.empty, []⟩ ts s)
    (hcirculates : ∀ t ∈ ts, Circulates t.before t.act) : Origins ts s := by
  induction hrun with
  | nil => exact start
  | @snoc ts s s' a head last ih =>
      exact (ih fun t ht ↦ hcirculates t (List.mem_append_left _ ht)).step
        (hcirculates ⟨s, a, s'⟩ (by simp)) last

end Origins

end VideoGen
