import VideoGen.Delivery
import VideoGen.Expenses

/-!
# Work pays for itself

Requests bring budgets; everything that happens afterwards is paid out of them.  The
reserves of the threads and the credit of the jobs form a potential: an answered
call and a move of a job decrease it by what they use, and nothing but a request
increases it.  So the work of a run is bounded by its requests, however workers
crash, executions fail and jobs stall.
-/

namespace VideoGen

open Machine (Within reserves)

/-! ## The credit of a job -/

def movesOf (n : ℕ) : Resource → ℕ
  | .move => n
  | _ => 0

namespace QueuedJob

/-- The executions that the queue can still start for the job, the current one included. -/
def turns (q : QueuedJob) : ℕ :=
  (max 1 q.job.maxAttempts - q.job.attemptsMade) + (maxStalledCount - q.stalledCounter)

/-- What is set aside for the executions that have not been started, and for the moves. -/
def credit (r : Resource) (q : QueuedJob) : ℕ :=
  match q.state with
  | .waiting => q.turns * turnCost r
  | .delayed => q.turns * turnCost r + movesOf 1 r
  | .active _ => (q.turns - 1) * turnCost r + movesOf 2 r
  | .completed => 0
  | .failed => 0

structure InTurn (q : QueuedJob) : Prop where
  attempts : q.state.Live → q.job.attemptsMade < max 1 q.job.maxAttempts
  stalls : q.state.Live → q.stalledCounter ≤ maxStalledCount

end QueuedJob

section Moves

variable {r : Resource} {threads : List Worker} {id : ℕ} {q q' : QueuedJob} {l : EnvStep}
  {tasks : List Task}

theorem turnCost_eq (r : Resource) : turnCost r = executionCost r + movesOf 3 r := by
  cases r <;> rfl

theorem movesOf_add (n m : ℕ) (r : Resource) : movesOf n r + movesOf m r = movesOf (n + m) r := by
  cases r <;> rfl

theorem JobMove.inTurn (hmove : JobMove threads id q l q' tasks) (h : q.InTurn) : q'.InTurn := by
  cases hmove with
  | take hstate =>
      have hlive : q.state.Live := hstate ▸ trivial
      exact ⟨fun _ ↦ h.attempts hlive, fun _ ↦ h.stalls hlive⟩
  | promote hstate =>
      have hlive : q.state.Live := hstate ▸ trivial
      exact ⟨fun _ ↦ h.attempts hlive, fun _ ↦ h.stalls hlive⟩
  | @settle i t result hstate hget halive hprog =>
      have hlive : q.state.Live := hstate ▸ trivial
      cases result with
      | ok x => exact ⟨fun h ↦ h.elim, fun h ↦ h.elim⟩
      | error e =>
          refine ⟨fun hlive' ↦ ?_, fun _ ↦ h.stalls hlive⟩
          simp only [QueuedJob.settle] at hlive' ⊢
          by_cases hmore : q.job.Retryable
          · exact Nat.lt_of_lt_of_le hmore (Nat.le_max_right 1 _)
          · rw [if_neg hmore] at hlive'
            exact hlive'.elim
  | stall hstate hget hcrashed =>
      have hlive : q.state.Live := hstate ▸ trivial
      refine ⟨fun _ ↦ h.attempts hlive, fun hlive' ↦ ?_⟩
      simp only [QueuedJob.stall] at hlive' ⊢
      by_cases hmany : q.stalledCounter + 1 > QueuedJob.maxStalledCount
      · rw [if_pos hmany] at hlive'
        exact hlive'.elim
      · omega

theorem JobMove.pays (hmove : JobMove threads id q l q' tasks) (h : q.InTurn) :
    q'.credit r + (tasks.map (Task.budget r)).sum + movesOf 1 r ≤ q.credit r := by
  have hone (n : ℕ) (hn : 1 ≤ n) :
      n * turnCost r = (n - 1) * turnCost r + executionCost r + movesOf 3 r := by
    obtain ⟨m, rfl⟩ := Nat.exists_eq_add_of_le' hn
    rw [Nat.add_one_sub_one, Nat.add_one_mul, turnCost_eq]
    omega
  have hthree : movesOf 1 r + movesOf 2 r = movesOf 3 r := movesOf_add 1 2 r
  have htwo : movesOf 1 r + movesOf 1 r = movesOf 2 r := movesOf_add 1 1 r
  cases hmove with
  | take hstate =>
      have hlive : q.state.Live := hstate ▸ trivial
      have hattempts := h.attempts hlive
      have hturns := hone q.turns (by unfold QueuedJob.turns; omega)
      have hbefore : q.credit r = q.turns * turnCost r := by rw [QueuedJob.credit, hstate]
      have hafter : (setState (.active threads.length) q).credit r =
          (q.turns - 1) * turnCost r + movesOf 2 r := rfl
      have hbudget : ([Task.process q.job].map (Task.budget r)).sum = executionCost r :=
        Nat.add_zero _
      rw [hbefore, hafter, hbudget]
      omega
  | promote hstate =>
      have hbefore : q.credit r = q.turns * turnCost r + movesOf 1 r := by
        rw [QueuedJob.credit, hstate]
      have hafter : (setState .waiting q).credit r = q.turns * turnCost r := rfl
      rw [hbefore, hafter]
      exact Nat.le_refl _
  | @settle i t result hstate hget halive hprog =>
      have hlive : q.state.Live := hstate ▸ trivial
      have hattempts := h.attempts hlive
      have hbefore : q.credit r = (q.turns - 1) * turnCost r + movesOf 2 r := by
        rw [QueuedJob.credit, hstate]
      rw [hbefore]
      cases result with
      | ok x =>
          have hafter : (q.settle (.ok x : Except Thrown Value)).credit r = 0 := rfl
          rw [hafter]
          simp only [List.map_nil, List.sum_nil]
          omega
      | error e =>
          have hturns : (q.settle (.error e : Except Thrown Value)).turns = q.turns - 1 := by
            simp only [QueuedJob.turns, QueuedJob.settle, Job.maxAttempts] at hattempts ⊢
            omega
          have hle : (q.settle (.error e : Except Thrown Value)).credit r ≤
              (q.turns - 1) * turnCost r + movesOf 1 r := by
            rw [← hturns]
            unfold QueuedJob.credit
            split
            · exact Nat.le_add_right _ _
            · exact Nat.le_refl _
            · rename_i j hactive
              simp only [QueuedJob.settle] at hactive
              split at hactive
              · split at hactive <;> cases hactive
              · cases hactive
            · exact Nat.zero_le _
            · exact Nat.zero_le _
          simp only [List.map_nil, List.sum_nil]
          omega
  | stall hstate hget hcrashed =>
      have hlive : q.state.Live := hstate ▸ trivial
      have hattempts := h.attempts hlive
      have hbefore : q.credit r = (q.turns - 1) * turnCost r + movesOf 2 r := by
        rw [QueuedJob.credit, hstate]
      rw [hbefore]
      have hle : q.stall.credit r ≤ (q.turns - 1) * turnCost r := by
        by_cases hmany : q.stalledCounter + 1 > QueuedJob.maxStalledCount
        · have hafter : q.stall.credit r = 0 := by
            simp only [QueuedJob.credit, QueuedJob.stall, if_pos hmany]
          rw [hafter]
          exact Nat.zero_le _
        · have hturns : q.stall.turns = q.turns - 1 := by
            simp only [QueuedJob.turns, QueuedJob.stall]
            omega
          have hafter : q.stall.credit r = q.stall.turns * turnCost r := by
            simp only [QueuedJob.credit, QueuedJob.stall, if_neg hmany]
          rw [hafter, hturns]
      simp only [List.map_nil, List.sum_nil]
      omega

end Moves

/-! ## The potential -/

def World.credits (r : Resource) (w : World) : ℕ :=
  (w.queue.jobs.rows.map (QueuedJob.credit r)).sum

/-- What the requests so far have paid for and has not been used. -/
def potential (r : Resource) (s : State) : ℕ :=
  reserves (Call.price r) (Task.budget r) s.threads + s.state.credits r

def Transition.expense (r : Resource) (t : Transition State Step) : ℕ :=
  match t.act with
  | .call _ _ => (t.call?.map fun c ↦ c.uses r).getD 0
  | .env l => if l.Moves then movesOf 1 r else 0
  | _ => 0

def Transition.grant (r : Resource) (t : Transition State Step) : ℕ :=
  match t.act with
  | .invoke task => task.budget r
  | _ => 0

/-- The threads keep to their budgets, and live jobs have turns left. -/
structure Solvent (s : State) : Prop where
  within : ∀ r, ∀ t ∈ s.threads, Within (Call.price r) (Task.budget r) t
  inTurn : ∀ id q, s.state.queue.find? id = some q → q.InTurn

section Step

variable {config : StorageConfig} {s s' : State} {a : Step} {r : Resource}

theorem Call.listeners_le_price (c : Call) (r : Resource) :
    ((listeners c).map (Task.budget r)).sum + c.uses r ≤ c.price r := by
  cases c with
  | emit event =>
      cases event with
      | failed event =>
          change callsOf 2 r + 0 + (Call.emit (.failed event)).uses r ≤
            (Call.emit (.failed event)).uses r + callsOf 2 r
          omega
      | _ => exact (Nat.zero_add _).le
  | queueAdd name data opts => exact (Nat.zero_add _).trans_le (Nat.le_add_right _ _)
  | _ => exact (Nat.zero_add _).le

theorem credits_add (w : World) (name : String) (data : VideoGenerationJobData)
    (opts : JobOptions) {w' : World} (hqueue : w'.queue = w.queue.add name data opts) :
    w'.credits r = w.credits r + opts.turns * turnCost r := by
  have hrows : w'.queue.jobs.rows = w.queue.jobs.rows ++ [w.queue.newJob name data opts] := by
    rw [hqueue]
    rfl
  have hnew : (w.queue.newJob name data opts).credit r = opts.turns * turnCost r := rfl
  simp [World.credits, hrows, hnew]

theorem credits_setJob {w : World} {id : ℕ} {q : QueuedJob} (hq : w.queue.find? id = some q)
    (f : QueuedJob → QueuedJob) (hf : ∀ q, (f q).jobId = q.jobId) :
    (w.setJob id f hf).credits r + q.credit r = w.credits r + (f q).credit r :=
  Table.sum_modify hq f hf (QueuedJob.credit r)

theorem Solvent.step (h : Solvent s) (hs : Conforming s)
    (hstep : (system config).step s a = some s') : Solvent s' := by
  constructor
  · intro r
    exact Machine.step_within (Task.costs config) hstep (h.within r)
  · intro id q' hq'
    rcases job_cases hstep hs hq' with ⟨q, hq⟩ | ⟨i, f, t, t', name, data, opts, x, -, -, -, -, rfl⟩
    · obtain ⟨q'', hq'', hkept⟩ := job_step hstep hq
      obtain rfl := Option.some.inj (hq'.symm.trans hq'')
      rcases hkept with rfl | ⟨l, tasks, -, hmove, -⟩
      · exact h.inTurn id q' hq
      · exact hmove.inTurn (h.inTurn id q hq)
    · exact ⟨fun _ ↦ Nat.le_max_left 1 _, fun _ ↦ Nat.zero_le _⟩

theorem Solvent.pays (h : Solvent s) (hstep : (system config).step s a = some s') :
    potential r s' + Transition.expense r ⟨s, a, s'⟩ ≤
      potential r s + Transition.grant r ⟨s, a, s'⟩ := by
  have hwithin := h.within r
  cases a with
  | invoke task =>
      obtain rfl := Option.some.inj hstep
      have hreserves : reserves (Call.price r) (Task.budget r)
          (s.threads ++ [(system config).start task]) = _ + _ := Machine.reserves_append _ _
      have hnew : reserves (Call.price r) (Task.budget r) [(system config).start task] =
          task.budget r := Nat.add_zero _
      simp only [potential, Transition.expense, Transition.grant]
      omega
  | crash i =>
      obtain ⟨t, hget, rfl⟩ := (system config).step_crash_cases hstep
      have hreserves : reserves (Call.price r) (Task.budget r)
          (s.threads.set i { t with crashed := true }) + _ = _ + _ :=
        Machine.reserves_set hget { t with crashed := true }
      have hsame : Machine.reserve (Call.price r) (Task.budget r) { t with crashed := true } =
          Machine.reserve (Call.price r) (Task.budget r) t := rfl
      simp only [potential, Transition.expense, Transition.grant]
      omega
  | env l =>
      obtain ⟨w, tasks, henv, rfl⟩ := (system config).step_env_cases hstep
      have hreserves : reserves (Call.price r) (Task.budget r)
          (s.threads ++ tasks.map (system config).start) = _ + _ := Machine.reserves_append _ _
      have hnew : reserves (Call.price r) (Task.budget r) (tasks.map (system config).start) =
          _ := Machine.reserves_start tasks
      simp only [potential, Transition.expense, Transition.grant]
      rcases envStep_cases henv with ⟨hmoves, hqueue, rfl⟩ | ⟨id, q, f, hf, hq, rfl, hmove⟩
      · have hcredits : w.credits r = s.state.credits r := by rw [World.credits, hqueue]; rfl
        have hnone : (([] : List Task).map (Task.budget r)).sum = 0 := rfl
        rw [hmoves, hcredits]
        simp only [Bool.false_eq_true, if_false]
        omega
      · have hcredits := credits_setJob (r := r) hq f hf
        have hpays := hmove.pays (r := r) (h.inTurn id q hq)
        have hcharge : (if l.Moves then movesOf 1 r else 0) ≤ movesOf 1 r := by
          split
          · exact Nat.le_refl _
          · exact Nat.zero_le _
        omega
  | call i f =>
      obtain ⟨t, c, x, ⟨u, hcalled⟩, hreserves⟩ := Machine.reserves_of_call hstep hwithin
      have hcall : Transition.call? ⟨s, .call i f, s'⟩ = some c := by
        simp [Transition.call?, hcalled.get, hcalled.pending]
      have hcovered := c.listeners_le_price r
      have hforks : (system config).forks c = listeners c := rfl
      rw [hforks] at hreserves
      simp only [potential, Transition.expense, Transition.grant, hcall, Option.map_some,
        Option.getD_some]
      rcases queue_of_call hcalled with hqueue | ⟨name, data, opts, rfl, -, hqueue⟩
      · have hcredits : s'.state.credits r = s.state.credits r := by
          rw [World.credits, hqueue]
          rfl
        omega
      · have hcredits := credits_add (r := r) s.state name data opts hqueue
        have hprice : (Call.queueAdd name data opts).price r =
            (Call.queueAdd name data opts).uses r + opts.turns * turnCost r := rfl
        have hnone : ((listeners (Call.queueAdd name data opts)).map (Task.budget r)).sum = 0 := rfl
        omega

end Step

/-! ## Runs -/

section Runs

variable {config : StorageConfig} {ts : List (Transition State Step)} {s : State}

theorem solvent_of_run (hrun : Run (system config).step ⟨World.empty, []⟩ ts s) : Solvent s := by
  induction hrun with
  | nil =>
      constructor
      · intro r t ht
        cases ht
      · intro id q hq
        cases hq
  | snoc a head last ih => exact ih.step (run_conforming head) last

/-- A run uses no more than its requests have brought. -/
theorem expenses_le_grants (hrun : Run (system config).step ⟨World.empty, []⟩ ts s)
    (r : Resource) :
    (ts.map (Transition.expense r)).sum + potential r s ≤ (ts.map (Transition.grant r)).sum := by
  have hpaid := hrun.paid (potential r) (Transition.expense r) (Transition.grant r) fun t ht ↦ by
    obtain ⟨pre, post, -, hpre, hstep⟩ := hrun.exists_prefix ht
    exact (solvent_of_run hpre).pays hstep
  have hstart : potential r ⟨World.empty, []⟩ = 0 := rfl
  omega

/-! ### Requests -/

def Transition.requests (p : Task → Bool) (t : Transition State Step) : Bool :=
  match t.act with
  | .invoke task => p task
  | _ => false

def requests (p : Task → Bool) (ts : List (Transition State Step)) : ℕ :=
  ts.countP (Transition.requests p)

def Task.creates : Task → Bool
  | .createAndQueue _ _ => true
  | _ => false

def Task.retries : Task → Bool
  | .retryFailedJob _ => true
  | _ => false

def Task.removes : Task → Bool
  | .remove _ _ => true
  | _ => false

def Task.serves : Task → Bool
  | .service _ => true
  | _ => false

/-- Executions are started by the queue, and listeners by an announcement. -/
def Task.Asked : Task → Prop
  | .process _ => False
  | .onVideoFailed _ => False
  | _ => True

instance : DecidablePred Task.Asked
  | .process _ => isFalse fun h ↦ h
  | .createAndQueue _ _ => isTrue trivial
  | .retryFailedJob _ => isTrue trivial
  | .onVideoFailed _ => isFalse fun h ↦ h
  | .remove _ _ => isTrue trivial
  | .service _ => isTrue trivial

def used (r : Resource) (ts : List (Transition State Step)) : ℕ :=
  (ts.map (Transition.expense r)).sum

theorem requests_cons (p : Task → Bool) (t : Transition State Step)
    (ts : List (Transition State Step)) :
    requests p (t :: ts) = requests p ts + if Transition.requests p t then 1 else 0 :=
  List.countP_cons

theorem calls_le (call : ServiceCall) (r : Resource) :
    callsOf call.calls r ≤ callsOf 4 r := by
  cases r with
  | call => cases call <;> simp [ServiceCall.calls, callsOf]
  | _ => exact Nat.le_refl 0

theorem grant_le {t : Transition State Step} (h : t.act.InvokesOnly Task.Asked) (r : Resource) :
    Transition.grant r t ≤
      (if Transition.requests Task.creates t then 1 else 0) * requestCost 4 2 r +
      (if Transition.requests Task.retries t then 1 else 0) * requestCost 6 4 r +
      (if Transition.requests Task.removes t then 1 else 0) * callsOf 2 r +
      (if Transition.requests Task.serves t then 1 else 0) * callsOf 4 r := by
  obtain ⟨s, a, s'⟩ := t
  cases a with
  | invoke task =>
      cases task with
      | createAndQueue _ _ | retryFailedJob _ | remove _ _ =>
          simp [Transition.grant, Transition.requests, Task.budget, Task.creates, Task.retries,
            Task.removes, Task.serves]
      | service call =>
          simpa [Transition.grant, Transition.requests, Task.budget, Task.creates, Task.retries,
            Task.removes, Task.serves] using calls_le call r
      | process _ | onVideoFailed _ => exact h.elim
  | _ => simp [Transition.grant]

theorem grants_le (hinvoke : ∀ t ∈ ts, t.act.InvokesOnly Task.Asked) (r : Resource) :
    (ts.map (Transition.grant r)).sum ≤ requests Task.creates ts * requestCost 4 2 r +
      requests Task.retries ts * requestCost 6 4 r + requests Task.removes ts * callsOf 2 r +
      requests Task.serves ts * callsOf 4 r := by
  induction ts with
  | nil => simp
  | cons t ts ih =>
      have hrest := ih fun u hu ↦ hinvoke u (List.mem_cons_of_mem t hu)
      have hfirst := grant_le (hinvoke t List.mem_cons_self) r
      simp only [List.map_cons, List.sum_cons, requests_cons, Nat.add_mul]
      omega

theorem used_le (hrun : Run (system config).step ⟨World.empty, []⟩ ts s)
    (hinvoke : ∀ t ∈ ts, t.act.InvokesOnly Task.Asked) (r : Resource) :
    used r ts ≤ requests Task.creates ts * requestCost 4 2 r +
      requests Task.retries ts * requestCost 6 4 r + requests Task.removes ts * callsOf 2 r +
      requests Task.serves ts * callsOf 4 r :=
  (Nat.le_add_right _ _).trans ((expenses_le_grants hrun r).trans (grants_le hinvoke r))

/-- In every run, whatever fails, is lost, crashes or stalls, and however requests and
executions interleave: the work that is done in all is bounded by what users have asked for,
with two submissions to the AI provider for every creation and four for every retry, and 30
polls and three uploads for every submission. -/
theorem work_bounded_by_requests (hrun : Run (system config).step ⟨World.empty, []⟩ ts s)
    (hinvoke : ∀ t ∈ ts, t.act.InvokesOnly Task.Asked) :
    used .submission ts ≤ 2 * requests Task.creates ts + 4 * requests Task.retries ts ∧
    used .enhancement ts ≤ 2 * requests Task.creates ts + 4 * requests Task.retries ts ∧
    used .poll ts ≤ 60 * requests Task.creates ts + 120 * requests Task.retries ts ∧
    used .download ts ≤ 2 * requests Task.creates ts + 4 * requests Task.retries ts ∧
    used .upload ts ≤ 6 * requests Task.creates ts + 12 * requests Task.retries ts ∧
    used .pause ts ≤ 601200 * requests Task.creates ts + 1202400 * requests Task.retries ts ∧
    used .move ts ≤ 6 * requests Task.creates ts + 12 * requests Task.retries ts ∧
    used .call ts ≤ 488 * requests Task.creates ts + 974 * requests Task.retries ts +
      2 * requests Task.removes ts + 4 * requests Task.serves ts := by
  have hused := used_le hrun hinvoke
  refine ⟨?_, ?_, ?_, ?_, ?_, ?_, ?_, ?_⟩
  · have h := hused .submission
    simp only [requestCost, callsOf, turnCost, executionCost] at h
    omega
  · have h := hused .enhancement
    simp only [requestCost, callsOf, turnCost, executionCost] at h
    omega
  · have h := hused .poll
    simp only [requestCost, callsOf, turnCost, executionCost] at h
    omega
  · have h := hused .download
    simp only [requestCost, callsOf, turnCost, executionCost] at h
    omega
  · have h := hused .upload
    simp only [requestCost, callsOf, turnCost, executionCost] at h
    omega
  · have h := hused .pause
    simp only [requestCost, callsOf, turnCost, executionCost] at h
    omega
  · have h := hused .move
    simp only [requestCost, callsOf, turnCost] at h
    omega
  · have h := hused .call
    simp only [requestCost, callsOf, turnCost, executionCost] at h
    omega

end Runs

def submittingActs (i : ℕ) : List Step :=
  .env (.take 1) :: List.replicate 6 (okStep i) ++ [.call i (.ok (.text none))] ++
    List.replicate 4 (okStep i) ++
    [.call i (.ok (.generation { jobId := "job", status := .processing }))]

/-- The worker dies after the submission, and the next execution submits again: the bound
on the submissions is exact. -/
theorem work_bounded_by_requests_resubmitted :
    ∃ (ts : List (Transition State Step)) (s : State),
      Run (system ⟨"bucket", none, "region"⟩).step ⟨World.empty, []⟩ ts s ∧
      requests Task.creates ts = 1 ∧ requests Task.retries ts = 0 ∧
      used .submission ts = 2 ∧
      used .submission ts ≤ 2 * requests Task.creates ts + 4 * requests Task.retries ts := by
  obtain ⟨ts, s, hrun, hacts, hobs⟩ := Run.exists_of_follow
    (system ⟨"bucket", none, "region"⟩).step ⟨World.empty, []⟩
    (createActs 0 "video" ++ submittingActs 1 ++ [.crash 1, .env (.stall 1)] ++ submittingActs 2)
    (fun p ↦ (requests Task.creates p.1, requests Task.retries p.1, used .submission p.1))
    (1, 0, 2) (by decide +kernel)
  have hinvoke : ∀ a ∈ createActs 0 "video" ++ submittingActs 1 ++ [.crash 1, .env (.stall 1)] ++
      submittingActs 2, a.InvokesOnly Task.Asked := by
    decide
  simp only [Prod.mk.injEq] at hobs
  obtain ⟨hcreates, hretries, hused⟩ := hobs
  have hall : ∀ t ∈ ts, t.act.InvokesOnly Task.Asked := fun t ht ↦
    hinvoke t.act (hacts ▸ List.mem_map_of_mem ht)
  exact ⟨ts, s, hrun, hcreates, hretries, hused, (work_bounded_by_requests hrun hall).1⟩

end VideoGen
