import VideoGen.Lib.Inevitable
import VideoGen.Responsibility
import VideoGen.Workload

/-!
# What becomes of every video

While the infrastructure works, the system never gets stuck: a pending call can be
answered, and a live job can be moved.  The work that is left is bounded by what
requests have paid for, so it ends.  The provider and the storage may fail as they
like; then every video is completed, or it is failed and a record waits for its retry.
-/

namespace VideoGen

namespace Machine

variable {I : Interface} {T α σ F L : Type} {M : Machine I T α σ F L} {s : Config I T α σ}

theorem exists_step_of_exec {i : ℕ} {f : F} {t : Thread I T α} {c : I.Call}
    {next : Except I.Error (I.Reply c) → Program I α} {p : σ × Except I.Error (I.Reply c)}
    (hget : s.threads[i]? = some t) (halive : t.crashed = false) (hprog : t.prog = .call c next)
    (hexec : M.exec s.state c f = some p) : ∃ s', M.step s (.call i f) = some s' :=
  ⟨⟨p.1, s.threads.set i (t.resume c next p.2) ++ (M.forks c).map M.start⟩,
    by simp [step, stepCall, hget, halive, hprog, hexec]⟩

theorem exists_step_of_env {l : L} {p : σ × List T} (henv : M.env s.state s.threads l = some p) :
    ∃ s', M.step s (.env l) = some s' :=
  ⟨⟨p.1, s.threads ++ p.2.map M.start⟩, by simp only [step, henv]⟩

end Machine

/-- A call is answered, or a job moves. -/
def IsWork {F : Type} : Act Task F EnvStep → Bool
  | .call _ _ => true
  | .env l => l.Moves
  | _ => false

structure Idle (s : State) : Prop where
  threads : ∀ t ∈ s.threads, t.Ended
  jobs : ∀ id q, s.state.queue.find? id = some q → ¬q.state.Live

/-! ## Nothing gets stuck -/

theorem Table.exists_fresh {ρ κ : Type} {key : ρ → κ} [DecidableEq κ] [Infinite κ]
    (t : Table key) : ∃ k, ∀ r, key r = k → ∃ t', t.insert? r = some t' := by
  obtain ⟨k, hk⟩ := Infinite.exists_notMem_finset (t.rows.map key).toFinset
  refine ⟨k, ?_⟩
  rintro r rfl
  have hfresh : key r ∉ t.rows.map key := fun hmem ↦ hk (List.mem_toFinset.mpr hmem)
  exact ⟨t.insert r hfresh, Table.insert?_eq_some_iff.mpr ⟨hfresh, rfl⟩⟩

theorem World.exists_answer (w : World) {c : Call}
    (hc : ∀ id fields, c ≠ .insertVideo (some id) fields) :
    ∃ a p, w.answer c a = some p := by
  cases c with
  | insertVideo id fields =>
      cases id with
      | none =>
          obtain ⟨k, hk⟩ := w.videos.exists_fresh
          obtain ⟨videos, hinsert⟩ := hk (Video.create k fields w.now) rfl
          exact ⟨.uuid k, _, by rw [World.answer, hinsert]; rfl⟩
      | some id => exact absurd rfl (hc id fields)
  | insertFailedJob fields =>
      obtain ⟨k, hk⟩ := w.failedJobs.exists_fresh
      obtain ⟨failedJobs, hinsert⟩ := hk (FailedJob.create k fields w.now) rfl
      exact ⟨.uuid k, _, by rw [World.answer, hinsert]; rfl⟩
  | chatCompletion prompt => exact ⟨.text none, _, rfl⟩
  | generateVideo _ _ | getGenerationStatus _ =>
      exact ⟨.generation { jobId := "", status := .processing }, _, rfl⟩
  | httpsGet url => exact ⟨.bytes [], _, rfl⟩
  | s3Sign key expires => exact ⟨.text none, _, rfl⟩
  | _ => exact ⟨.unit, _, rfl⟩

section Progress

variable {s : State} {t : Worker} {c : Call} {next : Except Thrown c.Reply → Prog Value}

theorem Calm.allows (h : Calm s) (ht : t ∈ s.threads) (hprog : t.prog = .call c next) :
    StageAllows (stageOf t) c :=
  Machine.Conforms.allows stageProtocol Stage.init Stage.Ends (h.conforming t ht) hprog

theorem Calm.not_insert (h : Calm s) (ht : t ∈ s.threads) (hprog : t.prog = .call c next)
    (id : String) (fields : VideoFields) : c ≠ .insertVideo (some id) fields := by
  rintro rfl
  cases ((h.allows ht hprog).insert (by rw [task_stageOf]; exact h.managed t ht)).1

theorem Calm.reads_own (h : Calm s) (ht : t ∈ s.threads) {id id' : String}
    {next : Except Thrown (Option FailedJob) → Prog Value}
    (hprog : t.prog = .call (.selectFailedJob id) next) (htask : t.task = .retryFailedJob id') :
    id = id' := by
  have hallows := h.allows ht hprog
  have hstage := task_stageOf t
  rw [htask] at hstage
  generalize stageOf t = stage at hallows hstage
  cases hallows with
  | worker h => cases hstage
  | creating h => cases hstage
  | retrying h =>
      cases hstage
      cases h with
      | look => rfl
  | listening h => cases hstage
  | removing h => cases hstage
  | service call c => cases hstage

theorem exists_pending (halive : ¬t.Ended) : ∃ c next, t.prog = .call c next := by
  cases hprog : t.prog with
  | done r => exact absurd (.inr (by rw [hprog]; trivial)) halive
  | call c next => exact ⟨c, next, rfl⟩

theorem Calm.returned (h : Calm s) (ht : t ∈ s.threads) (hended : t.Ended) :
    ∃ r, t.prog = .done r := by
  cases hprog : t.prog with
  | done r => exact ⟨r, rfl⟩
  | call c next =>
      rcases hended with hcrashed | hfinished
      · rw [h.alive t ht] at hcrashed
        cases hcrashed
      · rw [hprog] at hfinished
        exact hfinished.elim

theorem Calm.exists_move (h : Calm s) (hthreads : ∀ t ∈ s.threads, t.Ended) {id : ℕ}
    {q : QueuedJob} (hq : s.state.queue.find? id = some q) (hlive : q.state.Live) :
    ∃ l p, EnvStep.Moves l = true ∧ envStep s.state s.threads l = some p := by
  cases hstate : q.state with
  | waiting =>
      refine ⟨.take id, (s.state.setJob id (setState (.active s.threads.length)) (by simp),
        [.process q.job]), rfl, ?_⟩
      simp [envStep, hq, hstate]
  | delayed =>
      refine ⟨.promote id, (s.state.setJob id (setState .waiting) (by simp), []), rfl, ?_⟩
      simp [envStep, hq, hstate]
  | active i =>
      obtain ⟨t, hget, -⟩ := (h.delivered id).held q i hq hstate
      have ht := List.mem_of_getElem? hget
      obtain ⟨r, hprog⟩ := h.returned ht (hthreads t ht)
      refine ⟨.settle id, (s.state.setJob id (·.settle r) (by simp), []), rfl, ?_⟩
      simp [envStep, hq, hstate, hget, h.alive t ht, hprog]
  | completed =>
      rw [hstate] at hlive
      exact hlive.elim
  | failed =>
      rw [hstate] at hlive
      exact hlive.elim

end Progress

/-! ## When nothing is left to do -/

theorem Stage.Ends.not_pendingFor {stage : Stage} {r : Except Thrown Value} (h : stage.Ends r)
    {videoId : String} : stage.pendingFor videoId = false := by
  cases stage with
  | worker job phase => rfl
  | creating userId dto creation => cases creation <;> first | rfl | exact h.elim
  | retrying id retry => cases retry <;> first | rfl | exact h.elim
  | listening event recording => cases recording <;> first | rfl | exact h.elim
  | removing id userId removal => rfl
  | service call => rfl

section Idle

variable {s : State} (hidle : Idle s) (videoId : String)

include hidle

theorem Idle.atRest (hcalm : Calm s) : AtRest videoId s := by
  constructor
  · intro t ht
    obtain ⟨r, hprog⟩ := hcalm.returned ht (hidle.threads t ht)
    have hends : (stageOf t).Ends r :=
      Machine.Conforms.post stageProtocol Stage.init Stage.Ends (hcalm.conforming t ht) hprog
    exact hends.not_pendingFor
  · intro q hq _ i t phase hstate _ _
    have hfind : s.state.queue.find? q.jobId = some q := Table.find?_eq_some_iff.mpr ⟨hq, rfl⟩
    exact absurd (hstate ▸ trivial) (hidle.jobs q.jobId q hfind)

theorem Idle.no_live_jobs : s.state.liveJobsOf videoId = 0 := by
  apply List.countP_eq_zero.mpr
  intro q hq hjob
  have hfind : s.state.queue.find? q.jobId = some q := Table.find?_eq_some_iff.mpr ⟨hq, rfl⟩
  exact hidle.jobs q.jobId q hfind (of_decide_eq_true hjob).2

end Idle

/-! ## The work is finite -/

/-- What the requests so far have still to pay for. -/
def toil (s : State) : ℕ := potential .call s + potential .move s

def Transition.work (t : Transition State Step) : ℕ := if IsWork t.act then 1 else 0

section Toil

variable {config : StorageConfig} {s s' : State} {a : Step}
  {ts us : List (Transition State Step)}

theorem toil_step (hsolvent : Solvent s) (hstep : (system config).step s a = some s')
    (hunasked : a.InvokesOnly fun _ ↦ False) :
    toil s' + Transition.work ⟨s, a, s'⟩ ≤ toil s := by
  have hcalls := hsolvent.pays (r := .call) hstep
  have hmoves := hsolvent.pays (r := .move) hstep
  have hgrant (r : Resource) : Transition.grant r ⟨s, a, s'⟩ = 0 := by
    cases a with
    | invoke task => exact hunasked.elim
    | _ => rfl
  have hwork : Transition.work ⟨s, a, s'⟩ ≤
      Transition.expense .call ⟨s, a, s'⟩ + Transition.expense .move ⟨s, a, s'⟩ := by
    cases a with
    | invoke task => exact Nat.zero_le _
    | crash i => exact Nat.zero_le _
    | env l => cases hl : l.Moves <;> simp [Transition.work, IsWork, Transition.expense, hl, movesOf]
    | call i f =>
        obtain ⟨t, c, next, x, -, hcall⟩ := Machine.called_of_step hstep
        have huses : c.uses .call = 1 := by cases c <;> rfl
        simp [Transition.work, IsWork, Transition.expense, Transition.call?, hcall.get,
          hcall.pending, huses]
  rw [hgrant] at hcalls hmoves
  unfold toil
  omega

theorem toil_lt (hrun : Run (system config).step ⟨World.empty, []⟩ ts s)
    (hrest : Run (system config).step s us s')
    (hunasked : ∀ t ∈ us, t.act.InvokesOnly fun _ ↦ False)
    (hwork : ∃ t ∈ us, IsWork t.act = true) : toil s' < toil s := by
  have hpaid := hrest.paid toil Transition.work (fun _ ↦ 0) fun t ht ↦ by
    obtain ⟨pre, post, -, hpre, hstep⟩ := hrest.exists_prefix ht
    exact toil_step (solvent_of_run (hrun.append hpre)) hstep (hunasked t ht)
  obtain ⟨t, ht, hwork⟩ := hwork
  have hone : 1 ≤ (us.map Transition.work).sum :=
    List.single_le_sum (fun _ _ ↦ Nat.zero_le _) 1 (List.mem_map.mpr ⟨t, ht, if_pos hwork⟩)
  have hnothing : (us.map fun _ ↦ 0).sum = 0 := by simp
  omega

end Toil

/-! ## Every video is settled -/

/-- The infrastructure goes on working, retries of a video do not overlap, and nobody asks for
anything new. -/
structure Unhampered (ts us : List (Transition State Step)) : Prop where
  undivided : ∀ videoId, Undivided videoId (ts ++ us)
  unasked : ∀ t ∈ us, t.act.InvokesOnly fun _ ↦ False

/-- Nothing is left to do, and every video is completed, or failed with one record to retry. -/
structure AllSettled (s : State) : Prop extends Idle s where
  videos : ∀ videoId row, s.state.videos.find? videoId = some row →
    (row.status = .completed ∧ s.state.unretriedOf videoId = 0) ∨
      (row.status = .failed ∧ s.state.unretriedOf videoId = 1)

section Settled

variable {config : StorageConfig} {s s' : State} {a : Step} {ts : List (Transition State Step)}

theorem onward_of_step (h : ∀ videoId, Undivided videoId ts)
    (hstep : (system config).step s a = some s') (horderly : Orderly Task.Keeps s a)
    (hapart : ∀ videoId, RetriesApart videoId s a) (hunasked : a.InvokesOnly fun _ ↦ False)
    (hwork : IsWork a = true) : ∃ us s', Onward (system config).step Unhampered
      (IsWork · = true) ts us s s' := by
  refine ⟨[⟨s, a, s'⟩], s', .cons hstep .nil, ⟨?_, ?_⟩, ⟨s, a, s'⟩, by simp, hwork⟩
  · intro videoId t ht
    rcases List.mem_append.mp ht with ht | ht
    · exact h videoId t ht
    · obtain rfl := List.mem_singleton.mp ht
      exact ⟨horderly, hapart videoId⟩
  · simpa using hunasked

/-- The pending call of a thread can be answered, unless it is the first one of a retry that
has to wait for another. -/
theorem onward_of_pending (hcalm : Calm s) (h : ∀ videoId, Undivided videoId ts) {i : ℕ}
    {t : Worker} {c : Call} {next : Except Thrown c.Reply → Prog Value}
    (hget : s.threads[i]? = some t) (hprog : t.prog = .call c next)
    (hturn : (∃ id, c = .selectFailedJob id) → ∀ u ∈ s.threads, ∀ c' next',
      u.prog = .call c' next' → ∃ id, c' = .selectFailedJob id) :
    ∃ us s', Onward (system config).step Unhampered (IsWork · = true) ts us s s' := by
  have ht := List.mem_of_getElem? hget
  obtain ⟨b, p, hanswer⟩ := s.state.exists_answer (hcalm.not_insert ht hprog)
  have hexec : (system config).exec s.state c (.ok b) = some (p.1, .ok p.2) := by
    change s.state.exec c (.ok b) = _
    rw [World.exec, hanswer]
    rfl
  obtain ⟨s', hstep⟩ := Machine.exists_step_of_exec hget (hcalm.alive t ht) hprog hexec
  apply onward_of_step h hstep
  · refine ⟨trivial, fun _ ↦ nofun, ?_⟩
    intro i' f t' c' heq _ _ _
    obtain ⟨rfl, rfl⟩ := Act.call.inj heq
    exact ⟨b, rfl⟩
  · intro videoId i' f t' id record heq hget' htask hpending hrecord hvideo u hu id' record' hutask
      _ _
    obtain ⟨rfl, -⟩ := Act.call.inj heq
    obtain rfl := Option.some.inj (hget.symm.trans hget')
    by_cases hended : u.Ended
    · exact .inr hended
    · apply Or.inl
      obtain ⟨c', next', huprog⟩ := exists_pending hended
      have hc : c = .selectFailedJob id := Option.some.inj
        ((Thread.pending?_eq_some_iff.mpr ⟨next, hprog⟩).symm.trans hpending)
      obtain ⟨id'', rfl⟩ := hturn ⟨id, hc⟩ u hu c' next' huprog
      obtain rfl := hcalm.reads_own hu huprog hutask
      exact Thread.pending?_eq_some_iff.mpr ⟨next', huprog⟩
  · trivial
  · rfl

variable (hrun : Run (system config).step ⟨World.empty, []⟩ ts s)
  (h : ∀ videoId, Undivided videoId ts)

include hrun h

theorem exists_work (hidle : ¬Idle s) :
    ∃ us s', Onward (system config).step Unhampered (IsWork · = true) ts us s s' := by
  have hcalm : Calm s := (custody_of_run hrun (h "")).calm
  by_cases hthreads : ∀ t ∈ s.threads, t.Ended
  · have hjobs : ¬∀ id q, s.state.queue.find? id = some q → ¬q.state.Live :=
      fun hjobs ↦ hidle ⟨hthreads, hjobs⟩
    simp only [not_forall, not_not, exists_prop] at hjobs
    obtain ⟨id, q, hq, hlive⟩ := hjobs
    obtain ⟨l, p, hmoves, henv⟩ := hcalm.exists_move hthreads hq hlive
    have henv : (system config).env s.state s.threads l = some p := henv
    obtain ⟨s', hstep⟩ := Machine.exists_step_of_env henv
    exact onward_of_step h hstep ⟨trivial, fun _ ↦ nofun, fun _ _ _ _ ↦ nofun⟩
      (fun _ _ _ _ _ _ ↦ nofun) trivial hmoves
  -- Retries that have not read their record yet let the others go first.
  · by_cases hother : ∃ t ∈ s.threads, ∃ c next, t.prog = .call c next ∧
        ∀ id, c ≠ .selectFailedJob id
    · obtain ⟨t, ht, c, next, hprog, hc⟩ := hother
      obtain ⟨i, hget⟩ := List.getElem?_of_mem ht
      apply onward_of_pending hcalm h hget hprog
      rintro ⟨id, rfl⟩
      exact absurd rfl (hc id)
    · simp only [not_forall, exists_prop] at hthreads
      obtain ⟨t, ht, halive⟩ := hthreads
      obtain ⟨i, hget⟩ := List.getElem?_of_mem ht
      obtain ⟨c, next, hprog⟩ := exists_pending halive
      apply onward_of_pending hcalm h hget hprog
      intro _ u hu c' next' huprog
      by_contra hnone
      exact hother ⟨u, hu, c', next', huprog, fun id hc ↦ hnone ⟨id, hc⟩⟩

theorem allSettled_of_idle (hidle : Idle s) : AllSettled s := by
  refine ⟨hidle, ?_⟩
  intro videoId row hrow
  have hcustody := custody_of_run hrun (h videoId)
  have haccounted := hcustody.accounted (hidle.atRest videoId hcustody.calm)
  have hstatus : s.state.statusOf videoId = some row.status := by
    rw [World.statusOf, hrow]
    rfl
  rw [hstatus, hidle.no_live_jobs videoId] at haccounted
  cases hrowStatus : row.status with
  | pending | processing =>
      rw [hrowStatus] at haccounted
      cases haccounted.1
  | completed =>
      rw [hrowStatus] at haccounted
      exact .inl ⟨rfl, haccounted.2⟩
  | failed =>
      rw [hrowStatus] at haccounted
      exact .inr ⟨rfl, haccounted.2⟩
  | cancelled =>
      rw [hrowStatus] at haccounted
      exact haccounted.elim

/-- While the infrastructure works, whatever the provider and the storage do, once nobody asks
for anything new: as long as work is left, some of it can be done, and however requests,
executions, listeners and the queue go on with it, they end with every video completed, or
failed with exactly one record to retry. -/
theorem videos_inevitably_settle : Inevitable (system config).step Unhampered (IsWork · = true)
    AllSettled ts s := by
  apply Inevitable.of_measure (fun ts s ↦ Run (system config).step ⟨World.empty, []⟩ ts s ∧
    ∀ videoId, Undivided videoId ts) toil
  · rintro ts us s s' ⟨hrun, -⟩ honward
    exact ⟨⟨hrun.append honward.run, honward.continues.undivided⟩,
      toil_lt hrun honward.run honward.continues.unasked honward.works⟩
  · rintro ts s ⟨hrun, h⟩ hunsettled
    exact exists_work hrun h fun hidle ↦ hunsettled (allSettled_of_idle hrun h hidle)
  · exact ⟨hrun, h⟩

end Settled

/-- The provider has refused the video, and nothing is recorded yet. -/
theorem videos_inevitably_settle_refused : ∃ (ts : List (Transition State Step)) (s : State),
    Run (system ⟨"bucket", none, "region"⟩).step ⟨World.empty, []⟩ ts s ∧
      s.state.statusOf "video" = some .failed ∧ s.state.unretriedOf "video" = 0 ∧
      Inevitable (system ⟨"bucket", none, "region"⟩).step Unhampered (IsWork · = true)
        AllSettled ts s ∧
      ∃ us s', Run (system ⟨"bucket", none, "region"⟩).step s us s' ∧ AllSettled s' := by
  obtain ⟨ts, s, hrun, hacts, hobs⟩ := Run.exists_of_follow
    (system ⟨"bucket", none, "region"⟩).step ⟨World.empty, []⟩
    (createActs 0 "video" ++ refusedAttempt 1)
    (fun p ↦ (!p.1.any Transition.disturbed && p.1.all Transition.readsAlone,
      p.2.state.statusOf "video", p.2.state.unretriedOf "video"))
    (true, some .failed, 0) (by decide +kernel)
  have hinvoke : ∀ a ∈ createActs 0 "video" ++ refusedAttempt 1,
      a.InvokesOnly fun task ↦ task.Request ∧ task.Keeps := by
    decide
  simp only [Prod.mk.injEq] at hobs
  obtain ⟨hchecked, hstatus, hunretried⟩ := hobs
  obtain ⟨hcalm, halone⟩ := Bool.and_eq_true_iff.mp hchecked
  have hundivided : ∀ videoId, Undivided videoId ts := by
    intro videoId t ht
    constructor
    · apply orderly_of_undisturbed (hinvoke _ (hacts ▸ List.mem_map_of_mem ht))
      simp only [Bool.not_eq_true', List.any_eq_false, Bool.not_eq_true] at hcalm
      exact hcalm t ht
    · exact retriesApart_of_readsAlone (List.all_eq_true.mp halone t ht) videoId
  have hinevitable := videos_inevitably_settle hrun hundivided
  exact ⟨ts, s, hrun, hstatus, hunretried, hinevitable, hinevitable.exists_run⟩

end VideoGen
