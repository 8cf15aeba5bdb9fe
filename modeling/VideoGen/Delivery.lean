import VideoGen.RowConsistency

/-!
# Delivery of jobs

The queue moves a job through its states: a worker takes it, its execution
ends, its delay is over, or its worker is found dead.  As long as executions
are started by taking, a job has at most one execution that has not ended,
and that execution works on the job as the queue holds it.
-/

namespace VideoGen

/-! ## Moves of a job -/

inductive JobMove (threads : List Worker) (id : ℕ) (q : QueuedJob) :
    EnvStep → QueuedJob → List Task → Prop where
  | take (hstate : q.state = .waiting) :
      JobMove threads id q (.take id) (setState (.active threads.length) q) [.process q.job]
  | promote (hstate : q.state = .delayed) :
      JobMove threads id q (.promote id) (setState .waiting q) []
  | settle {i : ℕ} {t : Worker} {r : Except Thrown Value} (hstate : q.state = .active i)
      (hget : threads[i]? = some t) (halive : t.crashed = false) (hprog : t.prog = .done r) :
      JobMove threads id q (.settle id) (q.settle r) []
  | stall {i : ℕ} {t : Worker} (hstate : q.state = .active i) (hget : threads[i]? = some t)
      (hcrashed : t.crashed = true) : JobMove threads id q (.stall id) q.stall []

def EnvStep.Moves : EnvStep → Bool
  | .take _ => true
  | .promote _ => true
  | .settle _ => true
  | .stall _ => true
  | _ => false

section Environment

variable {w w' : World} {threads : List Worker} {l : EnvStep} {tasks : List Task} {id : ℕ}

theorem find?_setJob (w : World) (jobId : ℕ) (f : QueuedJob → QueuedJob)
    (hf : ∀ q, (f q).jobId = q.jobId) (id : ℕ) : (w.setJob jobId f hf).queue.find? id =
      if id = jobId then (w.queue.find? id).map f else w.queue.find? id :=
  Queue.find?_modify w.queue jobId f hf id

theorem find?_setJob_some {jobId : ℕ} {f : QueuedJob → QueuedJob}
    (hf : ∀ q, (f q).jobId = q.jobId) {q q₀ : QueuedJob}
    (hq : w.queue.find? id = some q) (hq₀ : w.queue.find? jobId = some q₀) :
    ∃ q', (w.setJob jobId f hf).queue.find? id = some q' ∧
      (q' = q ∨ (id = jobId ∧ q = q₀ ∧ q' = f q)) := by
  rw [find?_setJob]
  by_cases hid : id = jobId
  · subst hid
    have heq : q = q₀ := Option.some.inj (hq.symm.trans hq₀)
    rw [if_pos rfl, hq]
    exact ⟨f q, rfl, .inr ⟨rfl, heq, rfl⟩⟩
  · rw [if_neg hid]
    exact ⟨q, hq, .inl rfl⟩

theorem envStep_cases (h : envStep w threads l = some (w', tasks)) :
    (l.Moves = false ∧ w'.queue = w.queue ∧ tasks = []) ∨
    ∃ id q f, ∃ hf : ∀ q : QueuedJob, (f q).jobId = q.jobId, w.queue.find? id = some q ∧
      w' = w.setJob id f hf ∧ JobMove threads id q l (f q) tasks := by
  cases l with
  | take jobId =>
      simp only [envStep] at h
      split at h
      · rename_i q hq
        split at h
        · rename_i hstate
          obtain ⟨rfl, rfl⟩ := Prod.mk.inj (Option.some.inj h)
          exact .inr ⟨jobId, q, _, setState_jobId _, hq, rfl, .take hstate⟩
        · cases h
      · cases h
  | promote jobId =>
      simp only [envStep] at h
      split at h
      · rename_i q hq
        split at h
        · rename_i hstate
          obtain ⟨rfl, rfl⟩ := Prod.mk.inj (Option.some.inj h)
          exact .inr ⟨jobId, q, _, setState_jobId _, hq, rfl, .promote hstate⟩
        · cases h
      · cases h
  | settle jobId =>
      simp only [envStep] at h
      split at h
      · rename_i q hq
        split at h
        · rename_i i hstate
          split at h
          · rename_i t hget
            split at h
            · cases h
            · rename_i halive
              split at h
              · rename_i r hprog
                obtain ⟨rfl, rfl⟩ := Prod.mk.inj (Option.some.inj h)
                exact .inr ⟨jobId, q, _, fun q ↦ q.settle_jobId r, hq, rfl,
                  .settle hstate hget (by simpa using halive) hprog⟩
              · cases h
          · cases h
        · cases h
      · cases h
  | stall jobId =>
      simp only [envStep] at h
      split at h
      · rename_i q hq
        split at h
        · rename_i i hstate
          split at h
          · rename_i t hget
            split at h
            · rename_i hcrashed
              obtain ⟨rfl, rfl⟩ := Prod.mk.inj (Option.some.inj h)
              exact .inr ⟨jobId, q, _, QueuedJob.stall_jobId, hq, rfl,
                .stall hstate hget hcrashed⟩
            · cases h
          · cases h
        · cases h
      · cases h
  | tick ms =>
      obtain ⟨rfl, rfl⟩ := Prod.mk.inj (Option.some.inj h)
      exact .inl ⟨rfl, rfl, rfl⟩
  | deliver i =>
      simp only [envStep] at h
      split at h
      · obtain ⟨rfl, rfl⟩ := Prod.mk.inj (Option.some.inj h)
        exact .inl ⟨rfl, rfl, rfl⟩
      · cases h
  | drop i =>
      obtain ⟨rfl, rfl⟩ := Prod.mk.inj (Option.some.inj h)
      exact .inl ⟨rfl, rfl, rfl⟩
  | expire key =>
      obtain ⟨rfl, rfl⟩ := Prod.mk.inj (Option.some.inj h)
      exact .inl ⟨rfl, rfl, rfl⟩

theorem envStep_queue (h : envStep w threads l = some (w', tasks)) :
    (w'.queue = w.queue ∧ tasks = []) ∨
    ∃ id q f, ∃ hf : ∀ q : QueuedJob, (f q).jobId = q.jobId, w.queue.find? id = some q ∧
      w' = w.setJob id f hf ∧ JobMove threads id q l (f q) tasks :=
  (envStep_cases h).imp_left And.right

theorem envStep_job (h : envStep w threads l = some (w', tasks)) {q : QueuedJob}
    (hq : w.queue.find? id = some q) : ∃ q', w'.queue.find? id = some q' ∧
      (q' = q ∨ JobMove threads id q l q' tasks) := by
  rcases envStep_queue h with ⟨hqueue, -⟩ | ⟨jobId, q₀, f, hf, hq₀, rfl, hmove⟩
  · rw [hqueue]
    exact ⟨q, hq, .inl rfl⟩
  · obtain ⟨q', hq', heq | ⟨rfl, rfl, rfl⟩⟩ := find?_setJob_some hf hq hq₀
    · exact ⟨q', hq', .inl heq⟩
    · exact ⟨_, hq', .inr hmove⟩

theorem envStep_old_job (h : envStep w threads l = some (w', tasks)) :
    w'.queue.lastId = w.queue.lastId ∧
      ∀ q', w'.queue.find? id = some q' → ∃ q, w.queue.find? id = some q := by
  rcases envStep_queue h with ⟨hqueue, -⟩ | ⟨jobId, q, f, hf, -, rfl, -⟩
  · rw [hqueue]
    exact ⟨rfl, fun q' hq' ↦ ⟨q', hq'⟩⟩
  · refine ⟨rfl, ?_⟩
    intro q' hq'
    rw [find?_setJob] at hq'
    split at hq'
    · obtain ⟨q, hq, -⟩ := Option.map_eq_some_iff.mp hq'
      exact ⟨q, hq⟩
    · exact ⟨q', hq'⟩

theorem envStep_started (h : envStep w threads l = some (w', tasks)) {task : Task}
    (htask : task ∈ tasks) : ∃ id q, w.queue.find? id = some q ∧ l = .take id ∧
      tasks = [.process q.job] ∧
      w'.queue.find? id = some (setState (.active threads.length) q) := by
  rcases envStep_queue h with ⟨-, rfl⟩ | ⟨jobId, q, f, hf, hq, rfl, hmove⟩
  · cases htask
  · have hfind := find?_setJob w jobId f hf jobId
    rw [if_pos rfl, hq, Option.map_some] at hfind
    generalize f q = q' at hmove hfind
    cases hmove with
    | take hstate => exact ⟨jobId, q, hq, rfl, rfl, hfind⟩
    | _ => cases htask

end Environment

/-! ## Jobs and threads in a step -/

section System

variable {config : StorageConfig} {s s' : State} {a : Step} {id : ℕ}

theorem queue_of_call {i : ℕ} {f : Fate} {t t' : Worker} {c : Call} {r : Except Thrown c.Reply}
    (h : Machine.Called (system config) s s' i f t t' c r) :
    s'.state.queue = s.state.queue ∨ ∃ name data opts, c = .queueAdd name data opts ∧
      f.TakesEffect = true ∧ s'.state.queue = s.state.queue.add name data opts := by
  by_cases hc : c.WritesQueue = false
  · exact .inl (World.exec_queue h.exec hc)
  · cases c with
    | queueAdd name data opts =>
        rcases World.exec_effect h.exec with ⟨-, hw, -⟩ | ⟨hf, b, x, hx, -⟩
        · exact .inl (congrArg World.queue hw)
        · have hqueue := (World.answer_queueAdd hx).1
          exact .inr ⟨name, data, opts, rfl, hf, hqueue⟩
    | _ => exact absurd rfl hc

theorem find?_add_of_some {queue : Queue} {q : QueuedJob} (hq : queue.find? id = some q)
    (name : String) (data : VideoGenerationJobData) (opts : JobOptions) :
    (queue.add name data opts).find? id = some q := by
  have hle := Queue.le_lastId hq
  rw [Queue.find?_add, if_neg (by omega)]
  exact hq

theorem job_step (hstep : (system config).step s a = some s') {q : QueuedJob}
    (hq : s.state.queue.find? id = some q) : ∃ q', s'.state.queue.find? id = some q' ∧
      (q' = q ∨ ∃ l tasks, a = .env l ∧ JobMove s.threads id q l q' tasks ∧
        s'.threads = s.threads ++ tasks.map (system config).start) := by
  cases a with
  | invoke task =>
      obtain rfl := Option.some.inj hstep
      exact ⟨q, hq, .inl rfl⟩
  | crash i =>
      obtain ⟨t, -, rfl⟩ := (system config).step_crash_cases hstep
      exact ⟨q, hq, .inl rfl⟩
  | env l =>
      obtain ⟨w, tasks, henv, rfl⟩ := (system config).step_env_cases hstep
      obtain ⟨q', hq', heq | hmove⟩ := envStep_job henv hq
      · exact ⟨q', hq', .inl heq⟩
      · exact ⟨q', hq', .inr ⟨l, tasks, rfl, hmove, rfl⟩⟩
  | call i f =>
      obtain ⟨t, c, next, r, -, h⟩ := Machine.called_of_step hstep
      refine ⟨q, ?_, .inl rfl⟩
      rcases queue_of_call h with hqueue | ⟨name, data, opts, -, -, hqueue⟩
      · rw [hqueue]
        exact hq
      · rw [hqueue]
        exact find?_add_of_some hq name data opts

theorem job_cases (hstep : (system config).step s a = some s') (hs : Conforming s)
    {q' : QueuedJob} (hq' : s'.state.queue.find? id = some q') :
    (∃ q, s.state.queue.find? id = some q) ∨
    ∃ i f t t' name data opts r, a = .call i f ∧ f.TakesEffect = true ∧
      Answered config s s' i f t t' (.queueAdd name data opts) r ∧
      id = s.state.queue.lastId + 1 ∧ q' = s.state.queue.newJob name data opts := by
  cases a with
  | invoke task =>
      obtain rfl := Option.some.inj hstep
      exact .inl ⟨q', hq'⟩
  | crash i =>
      obtain ⟨t, -, rfl⟩ := (system config).step_crash_cases hstep
      exact .inl ⟨q', hq'⟩
  | env l =>
      obtain ⟨w, tasks, henv, rfl⟩ := (system config).step_env_cases hstep
      exact .inl ((envStep_old_job henv).2 q' hq')
  | call i f =>
      obtain ⟨t, t', c, r, h⟩ := answered_of_step hstep hs
      rcases queue_of_call h.toCalled with hqueue | ⟨name, data, opts, rfl, hf, hqueue⟩
      · rw [hqueue] at hq'
        exact .inl ⟨q', hq'⟩
      · rw [hqueue, Queue.find?_add] at hq'
        split at hq'
        · rename_i hid
          have heq := (Option.some.inj hq').symm
          exact .inr ⟨i, f, t, t', name, data, opts, r, rfl, hf, h, hid, heq⟩
        · exact .inl ⟨q', hq'⟩

theorem thread_step (hstep : (system config).step s a = some s') (hs : Conforming s)
    {i : ℕ} {t : Worker} (hget : s.threads[i]? = some t) :
    ∃ t', s'.threads[i]? = some t' ∧
      ((t' = t ∨ (a = .crash i ∧ t' = { t with crashed := true })) ∨
        ∃ f c r, a = .call i f ∧ Answered config s s' i f t t' c r) := by
  obtain ⟨t', ht', hkept | ⟨f, c, next, r, ha, hprog, rfl, h⟩⟩ :=
    Machine.called_or_kept hstep hget
  · exact ⟨t', ht', .inl hkept⟩
  · exact ⟨_, ht', .inr ⟨f, c, r, ha,
      h.answered stageProtocol Stage.init Stage.Ends hprog hs⟩⟩

/-! ## Delivery -/

def Task.Executes (id : ℕ) : Task → Prop
  | .process job => job.id = id
  | _ => False

instance (id : ℕ) : DecidablePred (Task.Executes id)
  | .process job => inferInstanceAs (Decidable (job.id = id))
  | .createAndQueue _ _ => isFalse fun h ↦ h
  | .retryFailedJob _ => isFalse fun h ↦ h
  | .onVideoFailed _ => isFalse fun h ↦ h
  | .remove _ _ => isFalse fun h ↦ h
  | .service _ => isFalse fun h ↦ h

/-- The job and its executions agree on who is working. -/
structure Delivered (id : ℕ) (s : State) : Prop where
  held : ∀ q i, s.state.queue.find? id = some q → q.state = .active i →
    ∃ t, s.threads[i]? = some t ∧ t.task = .process q.job
  running : ∀ i t, s.threads[i]? = some t → t.task.Executes id → ¬t.Ended →
    ∃ q, s.state.queue.find? id = some q ∧ q.state = .active i ∧ t.task = .process q.job

theorem delivered_start {w : World}
    (hidle : ∀ q i, w.queue.find? id = some q → q.state ≠ .active i) :
    Delivered id ⟨w, []⟩ := by
  constructor
  · intro q i hq hstate
    exact absurd hstate (hidle q i hq)
  · intro i t hget
    simp at hget

theorem JobMove.not_active {threads : List Worker} {q q' : QueuedJob} {l : EnvStep}
    {tasks : List Task} {i : ℕ} (h : JobMove threads id q l q' tasks)
    (hstate : q'.state = .active i) :
    i = threads.length ∧ q.state = .waiting ∧ q'.job = q.job ∧ tasks = [.process q.job] := by
  cases h with
  | take hwaiting =>
      have heq : threads.length = i := JobState.active.inj hstate
      exact ⟨heq.symm, hwaiting, rfl, rfl⟩
  | promote hdelayed => cases hstate
  | @settle j t r hactive hget halive hprog =>
      cases r with
      | ok x => cases hstate
      | error e =>
          simp only [QueuedJob.settle] at hstate
          split at hstate
          · split at hstate <;> cases hstate
          · cases hstate
  | stall hactive hget hcrashed =>
      simp only [QueuedJob.stall] at hstate
      split at hstate <;> cases hstate

/-- A new thread was invoked, is an execution of the job that was taken, or listens to
the event that was emitted. -/
theorem started_cases (hstep : (system config).step s a = some s') (hs : Conforming s)
    {j : ℕ} {u : Worker} (hu : s'.threads[j]? = some u) (hle : s.threads.length ≤ j) :
    j = s.threads.length ∧
    ((∃ task, a = .invoke task ∧ u = (system config).start task) ∨
    (∃ id q, a = .env (.take id) ∧ s.state.queue.find? id = some q ∧
      s'.state.queue.find? id = some (setState (.active j) q) ∧
      u = (system config).start (.process q.job)) ∨
    ∃ i f t t' event r, a = .call i f ∧
      Answered config s s' i f t t' (.emit (.failed event)) r ∧
      u = (system config).start (.onVideoFailed event)) := by
  have hnew {threads : List Worker} {task : Task} (hlength : threads.length = s.threads.length)
      (hu : (threads ++ [(system config).start task])[j]? = some u) :
      j = s.threads.length ∧ u = (system config).start task := by
    rw [List.getElem?_append_right (by omega)] at hu
    have hlt := (List.getElem?_eq_some_iff.mp hu).1
    have hmem := List.mem_of_getElem? hu
    rw [List.length_singleton] at hlt
    exact ⟨by omega, List.mem_singleton.mp hmem⟩
  cases a with
  | invoke task =>
      obtain rfl := Option.some.inj hstep
      obtain ⟨hj, hu⟩ := hnew rfl hu
      exact ⟨hj, .inl ⟨task, rfl, hu⟩⟩
  | crash i =>
      obtain ⟨t, -, rfl⟩ := (system config).step_crash_cases hstep
      have hlt := (List.getElem?_eq_some_iff.mp hu).1
      rw [List.length_set] at hlt
      omega
  | env l =>
      obtain ⟨w, tasks, henv, rfl⟩ := (system config).step_env_cases hstep
      have hne : tasks ≠ [] := by
        rintro rfl
        have hlt := (List.getElem?_eq_some_iff.mp hu).1
        simp only [List.map_nil, List.append_nil] at hlt
        omega
      obtain ⟨task, htask⟩ := List.exists_mem_of_ne_nil tasks hne
      obtain ⟨id, q, hq, rfl, rfl, hq'⟩ := envStep_started henv htask
      obtain ⟨rfl, hstart⟩ := hnew rfl hu
      exact ⟨rfl, .inr (.inl ⟨id, q, rfl, hq, hq', hstart⟩)⟩
  | call i f =>
      obtain ⟨t, t', c, r, h⟩ := answered_of_step hstep hs
      have hthreads : s'.threads = s.threads.set i t' ++
        (listeners c).map (system config).start := h.threads_eq
      rw [hthreads] at hu
      by_cases hc : ∃ event, c = .emit (.failed event)
      · obtain ⟨event, rfl⟩ := hc
        obtain ⟨hj, hu⟩ := hnew (by simp) hu
        exact ⟨hj, .inr (.inr ⟨i, f, t, t', event, r, rfl, h, hu⟩)⟩
      · have hnil : listeners c = [] := by
          unfold listeners
          split
          · exact absurd ⟨_, rfl⟩ hc
          · rfl
        rw [hnil] at hu
        have hlt := (List.getElem?_eq_some_iff.mp hu).1
        simp only [List.map_nil, List.append_nil, List.length_set] at hlt
        omega

theorem executes_of_find? {queue : Queue} {q : QueuedJob} (hq : queue.find? id = some q) :
    (Task.process q.job).Executes id := Queue.jobId_of_find? hq

theorem job_kept {q : QueuedJob} {i : ℕ} {t : Worker}
    (hstep : (system config).step s a = some s') (hq : s.state.queue.find? id = some q)
    (hstate : q.state = .active i) (hget : s.threads[i]? = some t) (hended : ¬t.Ended) :
    s'.state.queue.find? id = some q := by
  obtain ⟨q', hq', rfl | ⟨l, tasks, -, hmove, -⟩⟩ := job_step hstep hq
  · exact hq'
  · -- The queue lets go of an active job only when its execution has ended.
    exfalso
    have hsame {j : ℕ} {u : Worker} (hactive : q.state = .active j)
        (hu : s.threads[j]? = some u) : u = t := by
      obtain rfl := JobState.active.inj (hactive.symm.trans hstate)
      exact Option.some.inj (hu.symm.trans hget)
    cases hmove with
    | take hwaiting =>
        rw [hstate] at hwaiting
        cases hwaiting
    | promote hdelayed =>
        rw [hstate] at hdelayed
        cases hdelayed
    | settle hactive hu halive hprog =>
        obtain rfl := hsame hactive hu
        apply hended
        right
        rw [hprog]
        trivial
    | stall hactive hu hcrashed =>
        obtain rfl := hsame hactive hu
        exact hended (.inl hcrashed)

theorem step_delivered (hstep : (system config).step s a = some s') (hs : Conforming s)
    (hinvoke : a.InvokesOnly fun task ↦ ¬task.Executes id) (h : Delivered id s) :
    Delivered id s' := by
  constructor
  · intro q' i hq' hstate
    rcases job_cases hstep hs hq' with ⟨q, hq⟩ |
      ⟨j, f, t, t', name, data, opts, r, -, -, -, -, rfl⟩
    · obtain ⟨q'', hq'', hkept | ⟨l, tasks, -, hmove, hthreads⟩⟩ := job_step hstep hq
      · obtain rfl := Option.some.inj (hq'.symm.trans hq'')
        subst hkept
        obtain ⟨t, hget, htask⟩ := h.held q' i hq hstate
        obtain ⟨t', hget', (rfl | ⟨-, rfl⟩) | ⟨f, c, r, -, hcall⟩⟩ :=
          thread_step hstep hs hget
        · exact ⟨t', hget', htask⟩
        · exact ⟨_, hget', htask⟩
        · exact ⟨t', hget', hcall.task_eq.trans htask⟩
      · obtain rfl := Option.some.inj (hq'.symm.trans hq'')
        obtain ⟨rfl, -, hjob, rfl⟩ := hmove.not_active hstate
        refine ⟨(system config).start (.process q.job), ?_, by rw [hjob]; rfl⟩
        rw [hthreads]
        simp
    · cases hstate
  · intro i t hget hexec hended
    rcases thread_cases hstep hs hget with
      ⟨t₀, hget₀, htask, -, -, -, hended₀⟩ | ⟨hle, -⟩ | ⟨f, t₀, c, r, -, hcall⟩
    · have halive : ¬t₀.Ended := fun hend ↦ hended (hended₀ hend)
      rw [htask] at hexec ⊢
      obtain ⟨q, hq, hstate, hjob⟩ := h.running i t₀ hget₀ hexec halive
      exact ⟨q, job_kept hstep hq hstate hget₀ halive, hstate, hjob⟩
    · obtain ⟨-, ⟨task, rfl, rfl⟩ | ⟨id', q, rfl, hq, hq', rfl⟩ |
        ⟨j, f, t₀, t', event, r, rfl, -, rfl⟩⟩ := started_cases hstep hs hget hle
      · exact absurd hexec hinvoke
      · obtain rfl : id' = id := (executes_of_find? hq).symm.trans hexec
        exact ⟨_, hq', rfl, rfl⟩
      · exact hexec.elim
    · have htask : t.task = t₀.task := hcall.task_eq
      rw [htask] at hexec ⊢
      have halive := not_ended_of_answered hcall
      obtain ⟨q, hq, hstate, hjob⟩ := h.running i t₀ hcall.get hexec halive
      exact ⟨q, job_kept hstep hq hstate hcall.get halive, hstate, hjob⟩

/-! ## Orderly steps -/

/-- What users and administrators ask for. -/
def Task.Request : Task → Prop
  | .createAndQueue _ _ => True
  | .retryFailedJob _ => True
  | .remove _ _ => True
  | _ => False

instance : DecidablePred Task.Request
  | .process _ => isFalse fun h ↦ h
  | .createAndQueue _ _ => isTrue trivial
  | .retryFailedJob _ => isTrue trivial
  | .onVideoFailed _ => isFalse fun h ↦ h
  | .remove _ _ => isTrue trivial
  | .service _ => isFalse fun h ↦ h

/-- The infrastructure works: no worker crashes, calls to the database, to Redis and
to the queue are answered, and only requests that satisfy `p` are invoked. -/
structure Orderly (p : Task → Prop) (s : State) (a : Step) : Prop where
  invokes : a.InvokesOnly fun task ↦ task.Request ∧ p task
  no_crash : ∀ i, a ≠ .crash i
  answers : ∀ i f t c, a = .call i f → s.threads[i]? = some t → t.pending? = some c →
    c.Infrastructure = true → ∃ b, f = .ok b

theorem Orderly.reply {p : Task → Prop} {i : ℕ} {f : Fate} {t t' : Worker} {c : Call}
    {r : Except Thrown c.Reply} (ho : Orderly p s (.call i f))
    (h : Answered config s s' i f t t' c r) (hc : c.Infrastructure = true) :
    ∃ b x, s.state.answer c b = some (s'.state, x) ∧ r = .ok x := by
  obtain ⟨b, rfl⟩ := ho.answers i f t c rfl h.get h.pending hc
  have hexec : s.state.exec c (.ok b) = some (s'.state, r) := h.exec
  rcases World.exec_cases hexec with ⟨b', x, -, hx, hr⟩ | ⟨e, hf, -⟩ | ⟨b', e, x, hf, -⟩
  · exact ⟨b', x, hx, hr⟩
  · cases hf
  · cases hf

/-- The step is no fault, whatever the state. -/
def Smooth : Step → Bool
  | .invoke task => decide task.Request
  | .call _ (.ok _) => true
  | .env _ => true
  | _ => false

theorem orderly_of_smooth {p : Task → Prop} (hp : a.InvokesOnly p) (h : Smooth a = true) :
    Orderly p s a := by
  constructor
  · cases a with
    | invoke task => exact ⟨of_decide_eq_true h, hp⟩
    | call i f => trivial
    | crash i => trivial
    | env l => trivial
  · rintro i rfl
    cases h
  · rintro i f t c rfl - - -
    cases f with
    | ok b => exact ⟨b, rfl⟩
    | rejected e => cases h
    | lost b e => cases h

structure Calm (s : State) : Prop where
  conforming : Conforming s
  alive : ∀ t ∈ s.threads, t.crashed = false
  managed : ∀ t ∈ s.threads, t.task.Managed
  delivered : ∀ id, Delivered id s
  named : ∀ id q, s.state.queue.find? id = some q → q.job.name = videoGenerationJob

theorem calm_start : Calm ⟨World.empty, []⟩ where
  conforming := by simp [Conforming]
  alive := by simp
  managed := by simp
  delivered id := delivered_start (by simp [World.empty, Queue.empty, Queue.find?])
  named := by simp [World.empty, Queue.empty, Queue.find?]

theorem JobMove.job_eq {threads : List Worker} {q q' : QueuedJob} {l : EnvStep}
    {tasks : List Task} (h : JobMove threads id q l q' tasks) :
    q'.job.name = q.job.name ∧ q'.job.data = q.job.data ∧ q'.job.opts = q.job.opts := by
  cases h with
  | @settle i t r hactive hget halive hprog => cases r <;> exact ⟨rfl, rfl, rfl⟩
  | _ => exact ⟨rfl, rfl, rfl⟩

theorem StageAllows.queueAdd {stage : Stage} {name : String} {data : VideoGenerationJobData}
    {opts : JobOptions} (h : StageAllows stage (.queueAdd name data opts))
    (hmanaged : stage.task.Managed) : name = videoGenerationJob ∧
      ((∃ userId dto, stage = .creating userId dto (.adding data.videoId)) ∨
        ∃ id record, stage = .retrying id (.adding record) ∧
          data.videoId = record.videoId) := by
  cases h with
  | worker h =>
      cases h with
      | quiet _ hquiet => simp [Call.Quiet] at hquiet
  | creating h =>
      cases h with
      | add videoId => exact ⟨rfl, .inl ⟨_, _, rfl⟩⟩
  | retrying h =>
      cases h with
      | add record => exact ⟨rfl, .inr ⟨_, record, rfl, rfl⟩⟩
  | listening h => cases h
  | removing h => cases h
  | service call => exact hmanaged.elim

theorem Calm.stage_managed (h : Calm s) {i : ℕ} {t : Worker}
    (hget : s.threads[i]? = some t) : (stageOf t).task.Managed := by
  rw [task_stageOf]
  exact h.managed t (List.mem_of_getElem? hget)

theorem Calm.step {p : Task → Prop} (h : Calm s) (ho : Orderly p s a)
    (hstep : (system config).step s a = some s') : Calm s' := by
  have hmanaged : a.InvokesOnly Task.Managed := by
    have hinvokes := ho.invokes
    cases a with
    | invoke task => cases task <;> first | trivial | exact hinvokes.1.elim
    | call i f => trivial
    | crash i => trivial
    | env l => trivial
  constructor
  · exact step_conforming hstep h.conforming
  · intro t ht
    obtain ⟨i, hget⟩ := List.getElem?_of_mem ht
    rcases Machine.called_cases hstep hget with ⟨t₀, ht₀, rfl | ⟨ha, -⟩⟩ | ⟨-, task, rfl⟩ |
      ⟨f, t₀, c, next, r, -, -, -, hcall⟩
    · exact h.alive t (List.mem_of_getElem? ht₀)
    · exact absurd ha (ho.no_crash i)
    · rfl
    · exact hcall.still_alive
  · exact step_tasks hstep hmanaged (fun _ ↦ trivial) (fun _ ↦ trivial) h.managed
  · intro id
    apply step_delivered hstep h.conforming _ (h.delivered id)
    have hinvokes := ho.invokes
    cases a with
    | invoke task =>
        intro hexec
        cases task <;> first | exact hexec | exact hinvokes.1
    | call i f => trivial
    | crash i => trivial
    | env l => trivial
  · intro id q' hq'
    rcases job_cases hstep h.conforming hq' with ⟨q, hq⟩ |
      ⟨i, f, t, t', name, data, opts, r, -, -, hcall, -, rfl⟩
    · obtain ⟨q'', hq'', hkept | ⟨l, tasks, -, hmove, -⟩⟩ := job_step hstep hq
      · obtain rfl := Option.some.inj (hq'.symm.trans hq'')
        rw [hkept]
        exact h.named id q hq
      · obtain rfl := Option.some.inj (hq'.symm.trans hq'')
        rw [hmove.job_eq.1]
        exact h.named id q hq
    · exact ((allows_of_answered hcall).queueAdd (h.stage_managed hcall.get)).1

theorem pending_of_stage {t : Worker}
    (hconf : Machine.Conforms stageProtocol Stage.init Stage.Ends t)
    (hends : ∀ r, ¬Stage.Ends (stageOf t) r) :
    ∃ c, t.pending? = some c ∧ StageAllows (stageOf t) c := by
  cases hprog : t.prog with
  | done r => exact absurd (hconf.post stageProtocol Stage.init Stage.Ends hprog) (hends r)
  | call c next =>
      exact ⟨c, Thread.pending?_eq_some_iff.mpr ⟨next, hprog⟩,
        hconf.allows stageProtocol Stage.init Stage.Ends hprog⟩

end System

end VideoGen
