import VideoGen.Stages

/-!
# One step of the system

In every configuration that a run reaches, each thread conforms to its
stage.  A call step is then described by the stage of the acting thread,
the call it makes, the effect of the call and the stage reached; what a
call cannot write stays as it was.
-/

namespace VideoGen

/-! ## What a call can write -/

namespace Call

def WritesVideos : Call → Bool
  | .insertVideo _ _ => true
  | .updateVideo _ _ _ => true
  | .deleteVideo _ => true
  | _ => false

def WritesFailedJobs : Call → Bool
  | .insertFailedJob _ => true
  | .markRetried _ _ _ => true
  | _ => false

def WritesQueue : Call → Bool
  | .queueAdd _ _ _ => true
  | _ => false

def Emits : Call → Bool
  | .emit _ => true
  | _ => false

end Call

/-- The call takes effect, although its promise may be rejected. -/
def Fate.TakesEffect : Fate → Bool
  | .rejected _ => false
  | _ => true

namespace World

variable {w w' : World} {c : Call} {a : Answer} {f : Fate}

theorem updateVideo_eq (w : World) (id : String) (expected : Option VideoStatus)
    (fields : VideoFields) : (w.updateVideo id expected fields).1 =
      { w with videos := (w.updateVideo id expected fields).1.videos } := by
  unfold updateVideo
  split
  · rfl
  · split <;> rfl

/-- Each store changes only by the calls that write it. -/
theorem answer_frame {x : c.Reply} (h : w.answer c a = some (w', x)) :
    (c.WritesVideos = false → w'.videos = w.videos) ∧
    (c.WritesFailedJobs = false → w'.failedJobs = w.failedJobs) ∧
    (c.WritesQueue = false → w'.queue = w.queue) ∧
    (c.Emits = false → w'.events = w.events) := by
  cases c with
  | updateVideo id expected fields =>
      cases a <;> simp only [answer, reduceCtorEq, Option.some.injEq] at h
      have hw : w' = (w.updateVideo id expected fields).1 := (congrArg Prod.fst h).symm
      rw [hw, updateVideo_eq]
      simp [Call.WritesVideos]
  | insertVideo id fields =>
      cases id <;> cases a <;>
        simp only [answer, reduceCtorEq, Option.map_eq_some_iff, Prod.mk.injEq] at h
      all_goals
        obtain ⟨videos, -, rfl, -⟩ := h
        simp [Call.WritesVideos]
  | insertFailedJob fields =>
      cases a <;> simp only [answer, reduceCtorEq, Option.map_eq_some_iff, Prod.mk.injEq] at h
      obtain ⟨failedJobs, -, rfl, -⟩ := h
      simp [Call.WritesFailedJobs]
  | _ =>
      cases a <;> simp only [answer, reduceCtorEq, Option.some.injEq, Prod.mk.injEq] at h
      all_goals
        obtain ⟨rfl, -⟩ := h
        simp [Call.WritesVideos, Call.WritesFailedJobs, Call.WritesQueue, Call.Emits,
          markRetried, setRedis, setBucket]

/-- A call takes effect as answered, or it is rejected and nothing happens. -/
theorem exec_effect {r : Except Thrown c.Reply} (h : w.exec c f = some (w', r)) :
    (f.TakesEffect = false ∧ w' = w ∧ ∃ e, r = .error e) ∨
    (f.TakesEffect = true ∧ ∃ a x, w.answer c a = some (w', x) ∧
      (r = .ok x ∨ ∃ e, r = .error e)) := by
  rcases exec_cases h with ⟨a, x, rfl, hx, rfl⟩ | ⟨e, rfl, -, rfl, rfl⟩ |
    ⟨a, e, x, rfl, -, hx, rfl⟩
  · exact .inr ⟨rfl, a, x, hx, .inl rfl⟩
  · exact .inl ⟨rfl, rfl, e, rfl⟩
  · exact .inr ⟨rfl, a, x, hx, .inr ⟨e, rfl⟩⟩

theorem exec_ok {x : c.Reply} (h : w.exec c f = some (w', .ok x)) :
    f.TakesEffect = true ∧ ∃ a, w.answer c a = some (w', x) := by
  rcases exec_effect h with ⟨-, -, e, he⟩ | ⟨hf, a, y, hy, hr | ⟨e, he⟩⟩
  · cases he
  · obtain rfl := Except.ok.inj hr
    exact ⟨hf, a, hy⟩
  · cases he

theorem exec_frame {r : Except Thrown c.Reply} (h : w.exec c f = some (w', r)) :
    (c.WritesVideos = false → w'.videos = w.videos) ∧
    (c.WritesFailedJobs = false → w'.failedJobs = w.failedJobs) ∧
    (c.WritesQueue = false → w'.queue = w.queue) ∧
    (c.Emits = false → w'.events = w.events) := by
  rcases exec_effect h with ⟨-, rfl, -⟩ | ⟨-, a, x, hx, -⟩
  · exact ⟨fun _ ↦ rfl, fun _ ↦ rfl, fun _ ↦ rfl, fun _ ↦ rfl⟩
  · exact answer_frame hx

theorem exec_videos {r : Except Thrown c.Reply} (h : w.exec c f = some (w', r))
    (hc : c.WritesVideos = false) : w'.videos = w.videos := (exec_frame h).1 hc

theorem exec_failedJobs {r : Except Thrown c.Reply} (h : w.exec c f = some (w', r))
    (hc : c.WritesFailedJobs = false) : w'.failedJobs = w.failedJobs := (exec_frame h).2.1 hc

theorem exec_queue {r : Except Thrown c.Reply} (h : w.exec c f = some (w', r))
    (hc : c.WritesQueue = false) : w'.queue = w.queue := (exec_frame h).2.2.1 hc

theorem exec_events {r : Except Thrown c.Reply} (h : w.exec c f = some (w', r))
    (hc : c.Emits = false) : w'.events = w.events := (exec_frame h).2.2.2 hc

/-! ## The calls that write -/

theorem find?_updateVideo (w : World) (id : String) (expected : Option VideoStatus)
    (fields : VideoFields) (k : String) :
    (w.updateVideo id expected fields).1.videos.find? k =
      if k = id then (w.videos.find? id).map fun r ↦
        if expected.all (· = r.status) then r.assign fields w.now else r
      else w.videos.find? k := by
  unfold updateVideo
  cases hr : w.videos.find? id with
  | none =>
      by_cases hk : k = id
      · subst hk
        simp [hr]
      · simp [hk]
  | some r =>
      by_cases hexp : expected.all (· = r.status) = true
      · simp only [hexp, if_true]
        rw [Table.find?_modify]
        by_cases hk : k = id
        · subst hk
          simp [hr, hexp]
        · simp [hk]
      · by_cases hk : k = id
        · subst hk
          simp [hr, hexp]
        · simp [hk, hexp]

theorem statusOf_updateVideo (w : World) (id : String) (expected : Option VideoStatus)
    (fields : VideoFields) (k : String) :
    (w.updateVideo id expected fields).1.statusOf k =
      if k = id then (w.statusOf id).map fun status ↦
        if expected.all (· = status) then fields.status.getD status else status
      else w.statusOf k := by
  unfold statusOf
  rw [find?_updateVideo]
  by_cases hk : k = id
  · rw [if_pos hk, if_pos hk, Option.map_map, Option.map_map]
    congr 1
    funext r
    by_cases hguard : expected.all (· = r.status) = true <;> simp [hguard]
  · rw [if_neg hk, if_neg hk]

theorem status_of_guard {status : VideoStatus} {r : Video}
    (h : (some status).all (· = r.status) = true) : r.status = status := by
  have heq : status = r.status := by simpa using h
  exact heq.symm

theorem updateVideo_affected (w : World) (id : String) (expected : Option VideoStatus)
    (fields : VideoFields) : (w.updateVideo id expected fields).2 ≠ 0 ↔
      ∃ r, w.videos.find? id = some r ∧ expected.all (· = r.status) = true := by
  unfold updateVideo
  cases hr : w.videos.find? id with
  | none => simp
  | some r => by_cases hexp : expected.all (· = r.status) = true <;> simp [hexp]

theorem updateVideo_unaffected {w : World} {id : String} {expected : Option VideoStatus}
    {fields : VideoFields} (h : (w.updateVideo id expected fields).2 = 0) :
    (w.updateVideo id expected fields).1 = w := by
  unfold updateVideo at h ⊢
  cases hr : w.videos.find? id with
  | none => simp
  | some r =>
      by_cases hguard : expected.all (· = r.status) = true
      · simp [hr, hguard] at h
      · simp [hguard]

theorem answer_selectVideo {id : String} {x : Option Video}
    (h : w.answer (.selectVideo id) a = some (w', x)) : w' = w ∧ x = w.videos.find? id := by
  cases a with
  | unit =>
      cases h
      exact ⟨rfl, rfl⟩
  | _ => cases h

theorem answer_updateVideo {id : String} {expected : Option VideoStatus}
    {fields : VideoFields} {n : ℕ}
    (h : w.answer (.updateVideo id expected fields) a = some (w', n)) :
    w' = (w.updateVideo id expected fields).1 ∧ n = (w.updateVideo id expected fields).2 := by
  cases a with
  | unit =>
      have heq : w.updateVideo id expected fields = (w', n) := Option.some.inj h
      rw [heq]
      exact ⟨rfl, rfl⟩
  | _ => cases h

theorem answer_s3Put {key contentType : String} {body : Bytes} {x : Unit}
    (h : w.answer (.s3Put key body contentType) a = some (w', x)) :
    w' = w.setBucket key (some (body, contentType)) := by
  cases a <;> simp only [answer, reduceCtorEq, Option.some.injEq, Prod.mk.injEq] at h
  exact h.1.symm

theorem answer_bucket_cases {x : c.Reply} (h : w.answer c a = some (w', x)) :
    w'.bucket = w.bucket ∨
      (∃ key body contentType, c = .s3Put key body contentType ∧
        w' = w.setBucket key (some (body, contentType))) ∨
      ∃ key, c = .s3Delete key ∧ w' = w.setBucket key none := by
  cases c with
  | updateVideo id expected fields =>
      rw [(answer_updateVideo h).1, updateVideo_eq]
      exact .inl rfl
  | insertVideo id fields =>
      cases id <;> cases a <;>
        simp only [answer, reduceCtorEq, Option.map_eq_some_iff, Prod.mk.injEq] at h
      all_goals
        obtain ⟨videos, -, rfl, -⟩ := h
        exact .inl rfl
  | insertFailedJob fields =>
      cases a <;> simp only [answer, reduceCtorEq, Option.map_eq_some_iff, Prod.mk.injEq] at h
      obtain ⟨failedJobs, -, rfl, -⟩ := h
      exact .inl rfl
  | s3Put k body contentType => exact .inr (.inl ⟨k, body, contentType, rfl, answer_s3Put h⟩)
  | s3Delete k =>
      cases a <;> simp only [answer, reduceCtorEq, Option.some.injEq, Prod.mk.injEq] at h
      exact .inr (.inr ⟨k, rfl, h.1.symm⟩)
  | _ =>
      cases a <;> simp only [answer, reduceCtorEq, Option.some.injEq, Prod.mk.injEq] at h
      all_goals
        obtain ⟨rfl, -⟩ := h
        exact .inl rfl

theorem answer_insertVideo {fields : VideoFields} {x : Video}
    (h : w.answer (.insertVideo none fields) a = some (w', x)) :
    ∃ id, x = Video.create id fields w.now ∧ w.videos.find? id = none ∧
      ∀ k, w'.videos.find? k = if k = id then some x else w.videos.find? k := by
  cases a with
  | uuid id =>
      obtain ⟨videos, hinsert, heq⟩ := Option.map_eq_some_iff.mp h
      obtain ⟨rfl, rfl⟩ := Prod.mk.inj heq
      exact ⟨id, rfl, Table.find?_fresh_of_insert? hinsert, Table.find?_of_insert? hinsert⟩
  | _ => cases h

theorem answer_deleteVideo {id : String} {x : Unit}
    (h : w.answer (.deleteVideo id) a = some (w', x)) (k : String) :
    w'.videos.find? k = if k = id then none else w.videos.find? k := by
  cases a with
  | unit =>
      cases h
      exact Table.find?_erase _ _ _
  | _ => cases h

theorem answer_selectFailedJob {id : String} {x : Option FailedJob}
    (h : w.answer (.selectFailedJob id) a = some (w', x)) :
    w' = w ∧ x = w.failedJobs.find? id := by
  cases a with
  | unit =>
      cases h
      exact ⟨rfl, rfl⟩
  | _ => cases h

theorem answer_insertFailedJob {fields : FailedJobFields} {x : FailedJob}
    (h : w.answer (.insertFailedJob fields) a = some (w', x)) :
    ∃ id, x = FailedJob.create id fields w.now ∧
      ∃ hid, w'.failedJobs = w.failedJobs.insert x hid := by
  cases a with
  | uuid id =>
      obtain ⟨failedJobs, hinsert, heq⟩ := Option.map_eq_some_iff.mp h
      obtain ⟨rfl, rfl⟩ := Prod.mk.inj heq
      obtain ⟨hid, rfl⟩ := Table.insert?_eq_some_iff.mp hinsert
      exact ⟨id, rfl, hid, rfl⟩
  | _ => cases h

theorem answer_markRetried {id retryJobId : String} {retriedAt : ℕ} {x : Unit}
    (h : w.answer (.markRetried id retriedAt retryJobId) a = some (w', x)) :
    w' = w.markRetried id retriedAt retryJobId := by
  cases a with
  | unit =>
      cases h
      rfl
  | _ => cases h

theorem answer_queueAdd {name : String} {data : VideoGenerationJobData} {opts : JobOptions}
    {n : ℕ} (h : w.answer (.queueAdd name data opts) a = some (w', n)) :
    w'.queue = w.queue.add name data opts ∧ n = w.queue.lastId + 1 := by
  cases a with
  | unit =>
      cases h
      exact ⟨rfl, rfl⟩
  | _ => cases h

theorem answer_emit {event : DomainEvent} {x : Unit}
    (h : w.answer (.emit event) a = some (w', x)) : w'.events = w.events ++ [event] := by
  cases a with
  | unit =>
      cases h
      rfl
  | _ => cases h

end World

/-! ## Environment steps -/

theorem envStep_frame {w w' : World} {threads : List Worker} {l : EnvStep}
    {tasks : List Task} (h : envStep w threads l = some (w', tasks)) :
    w'.videos = w.videos ∧ w'.failedJobs = w.failedJobs ∧ w'.events = w.events := by
  cases l <;> simp only [envStep] at h <;> (repeat' split at h) <;>
    simp only [reduceCtorEq, Option.some.injEq, Prod.mk.injEq] at h <;>
    obtain ⟨rfl, -⟩ := h <;> simp [World.setJob, World.setRedis]

theorem envStep_tasks {w w' : World} {threads : List Worker} {l : EnvStep}
    {tasks : List Task} (h : envStep w threads l = some (w', tasks)) :
    ∀ task ∈ tasks, ∃ job, task = .process job := by
  cases l <;> simp only [envStep] at h <;> (repeat' split at h) <;>
    simp only [reduceCtorEq, Option.some.injEq, Prod.mk.injEq] at h <;>
    obtain ⟨-, rfl⟩ := h <;> simp

theorem envStep_no_tasks {w w' : World} {threads : List Worker} {l : EnvStep}
    {tasks : List Task} (h : envStep w threads l = some (w', tasks))
    (hl : ∀ jobId, l ≠ .take jobId) : tasks = [] := by
  cases l with
  | take jobId => exact absurd rfl (hl jobId)
  | _ =>
      simp only [envStep] at h
      repeat' split at h
      all_goals simp only [reduceCtorEq, Option.some.injEq, Prod.mk.injEq] at h
      all_goals exact h.2.symm

/-! ## Writing calls of an execution -/

theorem WorkerAllows.write {job : Job} {phase : Phase} {c : Call}
    (h : WorkerAllows job phase c) (hc : c.WritesVideos = true) : ∃ expected fields,
      c = .updateVideo job.data.videoId expected fields ∧ fields.status ≠ some .pending := by
  cases h with
  | start status hallowed => exact ⟨_, _, rfl, by simp [TransitionExtra.fields]⟩
  | quiet _ hquiet => cases c <;> simp_all [Call.Quiet, Call.WritesVideos]
  | progress u => exact ⟨_, _, rfl, by simp [ProgressUpdate.fields, progressFields]⟩
  | complete url thumbnail hurl => exact ⟨_, _, rfl, by simp [TransitionExtra.fields]⟩
  | mark => exact ⟨_, _, rfl, by simp [failedFields]⟩
  | _ => cases hc

/-! ## Threads and stages -/

def stageOf (t : Worker) : Stage := Machine.stage stageProtocol Stage.init t

theorem task_stageOf (t : Worker) : (stageOf t).task = t.task := by
  have hlog (log : List (Exchange interface)) (stage : Stage) :
      (stageProtocol.after stage log).task = stage.task := by
    induction log generalizing stage with
    | nil => rfl
    | cons x log ih => exact (ih _).trans (Stage.task_next stage x.1 x.2)
  rw [stageOf, Machine.stage, hlog, Stage.task_init]

theorem stageOf_process {t : Worker} {job : Job} (h : t.task = .process job) :
    ∃ phase, stageOf t = .worker job phase := by
  have htask := task_stageOf t
  rw [h] at htask
  generalize stageOf t = stage at htask
  cases stage with
  | worker job' phase =>
      obtain rfl := Task.process.inj htask
      exact ⟨phase, rfl⟩
  | creating userId dto creation => cases htask
  | retrying id retry => cases htask
  | listening event recording => cases htask
  | removing id userId removal => cases htask
  | service call => cases htask

def Conforming (s : State) : Prop :=
  ∀ t ∈ s.threads, Machine.Conforms stageProtocol Stage.init Stage.Ends t

section System

variable {config : StorageConfig} {s s' : State}

theorem step_conforming {a : Step} (hstep : (system config).step s a = some s')
    (hs : Conforming s) : Conforming s' :=
  Machine.step_conforms stageProtocol Stage.init Stage.Ends (Task.keeps_body config)
    (fun _ _ _ _ _ h ↦ World.possible_of_exec h) hstep hs

theorem run_conforming {w : World} {ts : List (Transition State Step)}
    (hrun : Run (system config).step ⟨w, []⟩ ts s) : Conforming s :=
  Machine.run_conforms stageProtocol Stage.init Stage.Ends (Task.keeps_body config)
    (fun _ _ _ _ _ h ↦ World.possible_of_exec h) hrun (by simp)

theorem listeners_tasks (c : Call) : ∀ task ∈ listeners c, ∃ event, task = .onVideoFailed event := by
  intro task htask
  unfold listeners at htask
  split at htask
  · exact ⟨_, List.mem_singleton.mp htask⟩
  · simp at htask

theorem step_tasks {p : Task → Prop} {a : Step} (hstep : (system config).step s a = some s')
    (hinvoke : a.InvokesOnly p) (hprocess : ∀ job, p (.process job))
    (hlisten : ∀ event, p (.onVideoFailed event)) (hs : ∀ t ∈ s.threads, p t.task) :
    ∀ t ∈ s'.threads, p t.task := by
  refine Machine.step_forall_tasks ?_ ?_ hstep hinvoke hs
  · intro c task htask
    obtain ⟨event, rfl⟩ := listeners_tasks c task htask
    exact hlisten event
  · intro w threads l w' tasks henv task htask
    obtain ⟨job, rfl⟩ := envStep_tasks henv task htask
    exact hprocess job

abbrev Answered (config : StorageConfig) (s s' : State) (i : ℕ) (f : Fate) (t t' : Worker)
    (c : Call) (r : Except Thrown c.Reply) : Prop :=
  Machine.Answered stageProtocol Stage.init (system config) s s' i f t t' c r

theorem answered_of_step {i : ℕ} {f : Fate}
    (hstep : (system config).step s (.call i f) = some s') (hs : Conforming s) :
    ∃ t t' c r, Answered config s s' i f t t' c r :=
  Machine.answered_of_step stageProtocol Stage.init Stage.Ends hstep hs

variable {i : ℕ} {f : Fate} {t t' : Worker} {c : Call} {r : Except Thrown c.Reply}

/-- A thread after a step: it has just been started, it received the answer to its
call, or its task, program, log and stage are as before. -/
theorem thread_cases {a : Step} {j : ℕ} {u : Worker}
    (hstep : (system config).step s a = some s') (hs : Conforming s)
    (hu : s'.threads[j]? = some u) :
    (∃ t, s.threads[j]? = some t ∧ u.task = t.task ∧ u.prog = t.prog ∧ u.log = t.log ∧
      stageOf u = stageOf t ∧ (t.Ended → u.Ended)) ∨
    (s.threads.length ≤ j ∧ ∃ task, u = (system config).start task) ∨
    ∃ f t c r, a = .call j f ∧ Answered config s s' j f t u c r := by
  rcases Machine.thread_cases stageProtocol Stage.init Stage.Ends hstep hs hu with
    ⟨t, ht, rfl | ⟨-, rfl⟩⟩ | hnew | hcall
  · exact .inl ⟨u, ht, rfl, rfl, rfl, rfl, id⟩
  · exact .inl ⟨t, ht, rfl, rfl, rfl, rfl, fun _ ↦ .inl rfl⟩
  · exact .inr (.inl hnew)
  · exact .inr (.inr hcall)

@[simp] theorem stageOf_start (task : Task) :
    stageOf ((system config).start task) = Stage.init task := rfl

theorem fresh_of_start {task : Task} {job : Job} {phase : Phase}
    (h : stageOf ((system config).start task) = .worker job phase) : phase = .fresh := by
  rw [stageOf_start] at h
  cases task <;> cases h
  rfl

theorem allows_of_answered (h : Answered config s s' i f t t' c r) :
    StageAllows (stageOf t) c := h.allows

theorem stageOf_of_answered (h : Answered config s s' i f t t' c r) :
    stageOf t' = (stageOf t).next c r := h.stage_eq

theorem not_ended_of_answered (h : Answered config s s' i f t t' c r) : ¬t.Ended := by
  obtain ⟨next, hprog⟩ := Thread.pending?_eq_some_iff.mp h.pending
  rintro (hcrashed | hfinished)
  · rw [h.alive] at hcrashed
    cases hcrashed
  · rw [hprog] at hfinished
    exact hfinished

theorem worker_of_answered (h : Answered config s s' i f t t' c r) {job : Job} {phase' : Phase}
    (hstage : stageOf t' = .worker job phase') :
    ∃ phase, stageOf t = .worker job phase ∧ WorkerAllows job phase c ∧
      phase' = phase.next c r := by
  have hallows := allows_of_answered h
  have hnext := stageOf_of_answered h
  rw [hstage] at hnext
  generalize stageOf t = stage at hallows hnext
  cases hallows with
  | worker hallows =>
      obtain ⟨rfl, rfl⟩ := Stage.worker.inj hnext
      exact ⟨_, rfl, hallows, rfl⟩
  | creating hallows => cases hnext
  | retrying hallows => cases hnext
  | listening hallows => cases hnext
  | removing hallows => cases hnext
  | service call => cases hnext

theorem exists_mem_log {w : World} {ts : List (Transition State Step)}
    (hrun : Run (system config).step ⟨w, []⟩ ts s) {t : Worker} (hget : s.threads[i]? = some t)
    {u : Transition State Step} (hu : u ∈ ts) {f : Fate} (hact : u.act = .call i f) :
    ∃ u₀ c r, u.before.threads[i]? = some u₀ ∧ u₀.pending? = some c ∧
      u.before.state.exec c f = some (u.after.state, r) ∧
      (⟨c, r⟩ : Exchange interface) ∈ t.log := by
  have hstep := hrun.step_of_mem hu
  rw [hact] at hstep
  obtain ⟨u₀, c, next, r, -, h⟩ := Machine.called_of_step hstep
  exact ⟨u₀, c, r, h.get, h.pending, h.exec,
    (Machine.mem_log_iff hrun rfl hget ⟨c, r⟩).mpr ⟨u, hu, f, u₀, hact, h.get, h.pending, h.exec⟩⟩

theorem follows_of_run {w : World} {ts : List (Transition State Step)}
    (hrun : Run (system config).step ⟨w, []⟩ ts s) :
    ∀ t ∈ s.threads, (t.task.body config).Follows t.log t.prog :=
  hrun.invariant (fun s ↦ ∀ t ∈ s.threads, (t.task.body config).Follows t.log t.prog)
    (by simp) fun _ _ hstep h ↦ Machine.step_follows (M := system config) hstep h

theorem possible_of_log {w : World} {ts : List (Transition State Step)}
    (hrun : Run (system config).step ⟨w, []⟩ ts s) {t : Worker} (ht : t ∈ s.threads) :
    ∀ x ∈ t.log, x.1.Possible x.2 := by
  obtain ⟨i, hget⟩ := List.getElem?_of_mem ht
  intro x hx
  obtain ⟨v, -, f, t₀, -, -, -, hexec⟩ := (Machine.mem_log_iff hrun rfl hget x).mp hx
  exact World.possible_of_exec hexec

/-! ## Calls of a task -/

/-- Thread `i`, which works on `task`, executes its pending call `c`; its promise may
be rejected all the same. -/
def Executes (t : Transition State Step) (i : ℕ) (task : Task) (c : Call) : Prop :=
  ∃ f u, t.act = .call i f ∧ f.TakesEffect = true ∧ t.before.threads[i]? = some u ∧
    u.task = task ∧ u.pending? = some c

/-- Thread `i`, which works on `task`, receives the answer to its pending call `c`. -/
def Receives (t : Transition State Step) (i : ℕ) (task : Task) (c : Call) : Prop :=
  ∃ a u, t.act = .call i (.ok a) ∧ t.before.threads[i]? = some u ∧
    u.task = task ∧ u.pending? = some c

theorem Receives.executes {t : Transition State Step} {task : Task} {c : Call}
    (h : Receives t i task c) : Executes t i task c := by
  obtain ⟨a, u, hact, hget, htask, hpending⟩ := h
  exact ⟨.ok a, u, hact, rfl, hget, htask, hpending⟩

namespace Executes

variable {t : Transition State Step} {i' : ℕ} {task task' : Task} {c c' : Call}

theorem unique (h : Executes t i task c) (h' : Executes t i' task' c') :
    i = i' ∧ task = task' ∧ c = c' := by
  obtain ⟨f, u, hact, -, hget, htask, hpending⟩ := h
  obtain ⟨f', u', hact', -, hget', htask', hpending'⟩ := h'
  rw [hact] at hact'
  obtain ⟨rfl, -⟩ := Act.call.inj hact'
  rw [hget] at hget'
  obtain rfl := Option.some.inj hget'
  rw [hpending] at hpending'
  exact ⟨rfl, htask.symm.trans htask', Option.some.inj hpending'⟩

theorem answer (h : Executes t i task c) (hs : Conforming t.before)
    (hstep : (system config).step t.before t.act = some t.after) :
    ∃ a x, t.before.state.answer c a = some (t.after.state, x) := by
  obtain ⟨f, u, hact, hf, hget, -, hpending⟩ := h
  rw [hact] at hstep
  obtain ⟨u', u'', c', r, h⟩ := answered_of_step hstep hs
  have hu : some u = some u' := hget.symm.trans h.get
  obtain rfl := Option.some.inj hu
  have hc : some c = some c' := hpending.symm.trans h.pending
  obtain rfl := Option.some.inj hc
  rcases World.exec_effect h.exec with ⟨hf', -⟩ | ⟨-, a, x, hx, -⟩
  · rw [hf] at hf'
    cases hf'
  · exact ⟨a, x, hx⟩

theorem allows (h : Executes t i task c) (hs : Conforming t.before)
    (hstep : (system config).step t.before t.act = some t.after) :
    ∃ u, t.before.threads[i]? = some u ∧ (stageOf u).task = task ∧
      StageAllows (stageOf u) c := by
  obtain ⟨f, u, hact, -, hget, htask, hpending⟩ := h
  rw [hact] at hstep
  obtain ⟨u', u'', c', r, h⟩ := answered_of_step hstep hs
  have hu : some u = some u' := hget.symm.trans h.get
  obtain rfl := Option.some.inj hu
  have hc : some c = some c' := hpending.symm.trans h.pending
  obtain rfl := Option.some.inj hc
  exact ⟨u, hget, (task_stageOf u).trans htask, allows_of_answered h⟩

end Executes

end System

def Transition.call? (t : Transition State Step) : Option Call :=
  match t.act with
  | .call i _ => t.before.threads[i]?.bind Thread.pending?
  | _ => none

theorem call?_of_executes {t : Transition State Step} {i : ℕ} {task : Task} {c : Call}
    (h : Executes t i task c) : t.call? = some c := by
  obtain ⟨f, u, hact, -, hget, -, hpending⟩ := h
  simp [Transition.call?, hact, hget, hpending]

def Transition.execution? (t : Transition State Step) : Option (ℕ × Task × Call) :=
  match t.act with
  | .call i f =>
      if f.TakesEffect then
        t.before.threads[i]?.bind fun u ↦ u.pending?.map fun c ↦ (i, u.task, c)
      else none
  | _ => none

theorem execution?_eq_some_iff {t : Transition State Step} {i : ℕ} {task : Task} {c : Call} :
    t.execution? = some (i, task, c) ↔ Executes t i task c := by
  constructor
  · intro h
    unfold Transition.execution? at h
    split at h
    · rename_i j f hact
      obtain ⟨hf, h⟩ := Option.ite_none_right_eq_some.mp h
      obtain ⟨u, hget, h⟩ := Option.bind_eq_some_iff.mp h
      obtain ⟨c', hpending, heq⟩ := Option.map_eq_some_iff.mp h
      simp only [Prod.mk.injEq] at heq
      obtain ⟨rfl, rfl, rfl⟩ := heq
      exact ⟨f, u, hact, hf, hget, rfl, hpending⟩
    · cases h
  · rintro ⟨f, u, hact, hf, hget, rfl, hpending⟩
    simp [Transition.execution?, hact, hf, hget, hpending]

end VideoGen
