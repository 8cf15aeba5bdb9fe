import VideoGen.FailureRecords
import VideoGen.Settlement

/-!
# Jobs that use up their attempts

The record of a job that finally failed comes about through a chain: the
last attempt throws, `markFailed` writes the row, the failure is published,
a listener reads the row and saves the record.  The queue fails a job also
without calling the processor, and every link of the chain can break.  When
none does, the row is failed and there is exactly one new record.
-/

namespace VideoGen

/-- No link of the chain breaks in the step: the update of `markFailed` is answered, no
execution crashes that has published its failure, the stalled limit is not exceeded, and
no listener of the video is lost. -/
structure Survives (job : Job) (s : State) (a : Step) : Prop
    extends Undisturbed job s a, KeepsListeners job.data.videoId s a where
  marks : ∀ (i : ℕ) (f : Fate) (t : Worker) (message : String), a = .call i f →
    s.threads[i]? = some t → t.task.Executes job.id →
    t.pending? = some (.updateVideo job.data.videoId none (failedFields message)) →
    ∃ b, f = .ok b
  outlives : ∀ (i : ℕ) (t : Worker) (job' : Job) (message : String), a = .crash i →
    s.threads[i]? = some t → job'.id = job.id → stageOf t ≠ .worker job' (.reported message)
  stalls : ∀ q, a = .env (.stall job.id) → s.state.queue.find? job.id = some q →
    q.stalledCounter < QueuedJob.maxStalledCount

/-! ## The published failures of the job -/

/-- The row and the number of published failures in each phase of an attempt. -/
def Phase.Publishes (job : Job) (row : Video) (failures : ℕ) : Phase → Prop
  | .marked _ => row.status = .failed ∧ IsFinalAttempt job ∧ failures = 0
  | .reported _ => row.status = .failed ∧ IsFinalAttempt job ∧ failures = 1
  | .broken => False
  | _ => failures = 0

def Exhausts (s : State) (q : QueuedJob) (row : Video) (failures : ℕ) : Prop :=
  match q.state with
  | .waiting => failures = 0
  | .delayed => failures = 0
  | .active i => ∃ t phase, s.threads[i]? = some t ∧ stageOf t = .worker q.job phase ∧
      phase.Publishes q.job row failures ∧
      (t.crashed = true → ∀ message, phase ≠ .reported message)
  | .completed => True
  | .failed => row.status = .failed ∧ failures = 1

/-- The job in a state of a run; `base` is the number of failures before the run. -/
structure Wears (job : Job) (base : ℕ) (s : State) (q : QueuedJob) (row : Video)
    (failures : ℕ) : Prop where
  found : s.state.queue.find? job.id = some q
  isOf : q.IsOf job
  stored : s.state.videos.find? job.data.videoId = some row
  published : s.state.failuresOf job.data.videoId = base + failures
  exhausts : Exhausts s q row failures

section System

variable {config : StorageConfig} {s s' : State} {a : Step} {job : Job}

theorem publishes_of_call {i : ℕ} {f : Fate} {t t' : Worker} {c : Call}
    {r : Except Thrown c.Reply} {n : ℕ} {phase : Phase} {row : Video} {base failures : ℕ}
    (hv : Survives job s (.call i f)) (h : Answered config s s' i f t t' c r)
    (htask : t.task = .process (job.attempt n))
    (hallows : WorkerAllows (job.attempt n) phase c)
    (hrow : s.state.videos.find? job.data.videoId = some row)
    (hpublished : s.state.failuresOf job.data.videoId = base + failures)
    (hphase : phase.Publishes (job.attempt n) row failures) :
    ∃ row' failures', s'.state.videos.find? job.data.videoId = some row' ∧
      s'.state.failuresOf job.data.videoId = base + failures' ∧
      (phase.next c r).Publishes (job.attempt n) row' failures' := by
  have hsilent (hc : c.failuresOf job.data.videoId = 0) :
      s'.state.failuresOf job.data.videoId = base + failures := by
    rcases World.exec_effect h.exec with ⟨-, hw, -⟩ | ⟨-, b, x, hx, -⟩
    · rw [hw]
      exact hpublished
    · rw [World.failuresOf_of_answer hx, hc]
      exact hpublished
  have hkept (hc : c.WritesVideos = false) :
      s'.state.videos.find? job.data.videoId = some row := by
    rw [World.exec_videos h.exec hc]
    exact hrow
  have hupdated {expected : Option VideoStatus} {fields : VideoFields}
      (hc : c = .updateVideo job.data.videoId expected fields) :
      ∃ row', s'.state.videos.find? job.data.videoId = some row' := by
    subst hc
    rcases World.exec_effect h.exec with ⟨-, hw, -⟩ | ⟨-, b, x, hx, -⟩
    · exact ⟨row, congrArg World.videos hw ▸ hrow⟩
    · rcases World.row_of_update hx hrow with ⟨-, -, hrow'⟩ | ⟨-, hrow'⟩
      · exact ⟨_, hrow'⟩
      · exact ⟨_, hrow'⟩
  cases hallows with
  | load =>
      refine ⟨row, failures, hkept rfl, hsilent rfl, ?_⟩
      rcases r with e | (_ | video) <;> exact hphase
  | start expected hallowed =>
      obtain ⟨row', hrow'⟩ := hupdated rfl
      refine ⟨row', failures, hrow', hsilent rfl, ?_⟩
      rcases r with e | k
      · exact hphase
      · change Phase.Publishes _ _ _ (if (k : ℕ) = 0 then Phase.skipped else Phase.working)
        split <;> exact hphase
  | quiet _ hquiet =>
      have hwrites : c.WritesVideos = false := by
        cases c <;> first | rfl | cases hquiet
      have hfailures : c.failuresOf job.data.videoId = 0 := by
        cases c with
        | emit event => cases event <;> first | rfl | cases hquiet
        | _ => rfl
      refine ⟨row, failures, hkept hwrites, hsilent hfailures, ?_⟩
      rw [Phase.next_quiet hquiet]
      rcases r with e | x
      · have hfailing : Phase.failing.Publishes (job.attempt n) row failures := hphase
        by_cases hcaught : c.Caught = true
        · simpa [hcaught] using hphase
        · simpa [hcaught] using hfailing
      · exact hphase
  | progress u =>
      obtain ⟨row', hrow'⟩ := hupdated rfl
      refine ⟨row', failures, hrow', hsilent rfl, ?_⟩
      rcases r with e | k <;> exact hphase
  | complete url thumbnail hurl =>
      obtain ⟨row', hrow'⟩ := hupdated rfl
      refine ⟨row', failures, hrow', hsilent rfl, ?_⟩
      rcases r with e | k <;> exact hphase
  | stamp applied event =>
      refine ⟨row, failures, hkept rfl, hsilent rfl, ?_⟩
      rcases r with e | x <;> exact hphase
  | cache applied event key value =>
      refine ⟨row, failures, hkept rfl, hsilent rfl, ?_⟩
      rcases r with e | x <;> exact hphase
  | record applied event =>
      refine ⟨row, failures, hkept rfl, hsilent rfl, ?_⟩
      rcases r with e | x <;> exact hphase
  | announce applied event => exact ⟨row, failures, hkept rfl, hsilent rfl, hphase⟩
  | mark _ hended hfinal message =>
      have hzero : failures = 0 := by
        rcases hended with rfl | rfl <;> exact hphase
      obtain ⟨b, rfl⟩ := hv.marks i f t message rfl h.get (by rw [htask]; rfl) h.pending
      have hexec : s.state.exec (.updateVideo job.data.videoId none (failedFields message))
        (.ok b) = some (s'.state, r) := h.exec
      rcases World.exec_cases hexec with ⟨b', x, -, hx, rfl⟩ | ⟨e, hf, -⟩ | ⟨b', e, x, hf, -⟩
      · rcases World.row_of_update hx hrow with ⟨-, -, hrow'⟩ | ⟨hguard, -⟩
        · refine ⟨_, failures, hrow', hsilent rfl, ?_⟩
          rw [next_mark hended]
          exact ⟨rfl, hfinal, hzero⟩
        · cases hguard
      · cases hf
      · cases hf
  | evict message key =>
      refine ⟨row, failures, hkept rfl, hsilent rfl, ?_⟩
      rcases r with e | x <;> exact hphase
  | report message =>
      obtain ⟨hfailed, hfinal, rfl⟩ := hphase
      refine ⟨row, 1, hkept rfl, ?_, hfailed, hfinal, rfl⟩
      rcases World.exec_effect h.exec with ⟨-, -, e, rfl⟩ | ⟨-, b, x, hx, -⟩
      · exact absurd (World.possible_of_exec h.exec) Bool.false_ne_true
      · rw [World.failuresOf_of_answer hx, hpublished]
        simp [Call.failuresOf, DomainEvent.isFailure]

theorem Unchanged.failures {videoId : String}
    (h : s'.state.finalEvents videoId = s.state.finalEvents videoId) :
    s'.state.failuresOf videoId = s.state.failuresOf videoId := by
  have hcount (w : World) : w.failuresOf videoId =
      (w.finalEvents videoId).countP (DomainEvent.isFailure videoId) := by
    unfold World.failuresOf World.finalEvents
    rw [List.countP_filter]
    apply List.countP_congr
    intro event _
    cases event <;> simp [DomainEvent.isFailure, DomainEvent.isFinal]
  rw [hcount, hcount, h]

theorem Exhausts.moved {q q' : QueuedJob} {l : EnvStep} {tasks : List Task} {row : Video}
    {failures : ℕ} (hs : Conforming s) (hv : Survives job s (.env l))
    (hq : s.state.queue.find? job.id = some q)
    (hmove : JobMove s.threads job.id q l q' tasks)
    (hthreads : s'.threads = s.threads ++ tasks.map (system config).start)
    (h : Exhausts s q row failures) : Exhausts s' q' row failures := by
  unfold Exhausts at h
  cases hmove with
  | take hwaiting =>
      simp only [hwaiting] at h
      refine ⟨(system config).start (.process q.job), .fresh, ?_, rfl, h, ?_⟩
      · rw [hthreads]
        simp
      · intro hcrashed
        cases hcrashed
  | promote hdelayed =>
      simp only [hdelayed] at h
      exact h
  | @settle i t value hactive hget halive hprog =>
      simp only [hactive] at h
      obtain ⟨t', phase, hget', hstage, hphase, -⟩ := h
      obtain rfl := Option.some.inj (hget.symm.trans hget')
      have hends : Stage.Ends (stageOf t) value :=
        (hs t (List.mem_of_getElem? hget)).post stageProtocol Stage.init Stage.Ends hprog
      rw [hstage] at hends
      unfold Exhausts
      cases value with
      | ok x => trivial
      | error e =>
          have hagain (hfinal : ¬IsFinalAttempt q.job) (hzero : failures = 0) :
              Exhausts s' (q.settle (.error e : Except Thrown Value)) row failures := by
            rw [isFinalAttempt_iff_not_retryable, not_not] at hfinal
            unfold Exhausts
            simp only [QueuedJob.settle, if_pos hfinal]
            split_ifs
            · exact hzero
            · exact hzero
          cases phase with
          | working => exact hagain hends hphase
          | failing => exact hagain hends hphase
          | reported message =>
              obtain ⟨hfailed, hfinal, hone⟩ := hphase
              rw [isFinalAttempt_iff_not_retryable] at hfinal
              simp only [QueuedJob.settle, if_neg hfinal]
              exact ⟨hfailed, hone⟩
          | broken => exact hphase.elim
          | _ => exact hends.elim
  | @stall i t hactive hget hcrashed =>
      simp only [hactive] at h
      obtain ⟨t', phase, hget', hstage, hphase, halive⟩ := h
      obtain rfl := Option.some.inj (hget.symm.trans hget')
      have hlimit := hv.stalls q rfl hq
      have hstate : q.stall.state = .waiting := by
        unfold QueuedJob.stall
        have hnot : ¬q.stalledCounter + 1 > QueuedJob.maxStalledCount := by omega
        simp [hnot]
      unfold Exhausts
      simp only [hstate]
      cases phase with
      | marked message => exact hphase.2.2
      | reported message => exact absurd rfl (halive hcrashed message)
      | broken => exact hphase.elim
      | _ => exact hphase

theorem wears_step {base failures : ℕ} {q : QueuedJob} {row : Video} (hs : Conforming s)
    (hd : Delivered job.id s) (hv : Survives job s a)
    (hstep : (system config).step s a = some s') (h : Wears job base s q row failures) :
    ∃ q' row' failures', Wears job base s' q' row' failures' := by
  rcases solo_cases hs hd hv.toUndisturbed hstep h.found with ⟨hq', hunchanged, hkept⟩ |
    ⟨l, tasks, q', rfl, hmove, hq', hunchanged, hthreads⟩ |
    ⟨i, f, t, t', c, r, phase, rfl, hcall, hactive, hq', hstage, hallows, hnext⟩
  · refine ⟨q, row, failures, hq', h.isOf, hunchanged.row row h.stored,
      (Unchanged.failures hunchanged.events).trans h.published, ?_⟩
    have hold := h.exhausts
    unfold Exhausts at hold ⊢
    cases hstate : q.state with
    | active i =>
        simp only [hstate] at hold ⊢
        obtain ⟨t, phase, hget, hstage, hphase, halive⟩ := hold
        have hexec : t.task.Executes job.id := by
          rw [← task_stageOf, hstage]
          exact executes_of_find? h.found
        rcases hkept i t hget hexec with hget' | ⟨ha, hget'⟩
        · exact ⟨t, phase, hget', hstage, hphase, halive⟩
        · refine ⟨_, phase, hget', hstage, hphase, ?_⟩
          rintro - message rfl
          exact hv.outlives i t q.job message ha hget (Queue.jobId_of_find? h.found) hstage
    | waiting => simpa only [hstate] using hold
    | delayed => simpa only [hstate] using hold
    | completed => trivial
    | failed => simpa only [hstate] using hold
  · exact ⟨q', row, failures, hq', hmove.isOf h.isOf, hunchanged.row row h.stored,
      (Unchanged.failures hunchanged.events).trans h.published,
      h.exhausts.moved hs hv h.found hmove hthreads⟩
  · have hold := h.exhausts
    unfold Exhausts at hold
    simp only [hactive] at hold
    obtain ⟨t₀, phase₀, hget₀, hstage₀, hphase, -⟩ := hold
    obtain rfl := Option.some.inj (hcall.get.symm.trans hget₀)
    obtain ⟨-, rfl⟩ := Stage.worker.inj (hstage.symm.trans hstage₀)
    have hisOf : q.job = job.attempt q.job.attemptsMade := h.isOf
    have htask : t.task = .process (job.attempt q.job.attemptsMade) := by
      rw [← task_stageOf, hstage]
      exact congrArg Task.process hisOf
    rw [hisOf] at hallows hphase
    obtain ⟨row', failures', hrow', hpublished', hphase'⟩ :=
      publishes_of_call hv hcall htask hallows h.stored h.published hphase
    refine ⟨q, row', failures', hq', h.isOf, hrow', hpublished', ?_⟩
    unfold Exhausts
    simp only [hactive]
    refine ⟨t', _, hcall.get_self, hnext, ?_, ?_⟩
    · rw [hisOf]
      exact hphase'
    · intro hcrashed
      rw [hcall.still_alive] at hcrashed
      cases hcrashed

/-! ## From the published failure to the record -/

/-- The job together with the listeners of its video; `w` is the world before the run. -/
structure Accounts (job : Job) (w : World) (s : State) : Prop where
  conforming : Conforming s
  delivered : Delivered job.id s
  wears : ∃ q row failures, Wears job (w.failuresOf job.data.videoId) s q row failures
  alive : ∀ t ∈ s.threads, unsaved job.data.videoId t = true → t.crashed = false
  balance : s.state.recordsOf job.data.videoId +
      s.threads.countP (unsaved job.data.videoId) + w.failuresOf job.data.videoId =
    w.recordsOf job.data.videoId + s.state.failuresOf job.data.videoId

theorem accounts_start {w : World} (hw : Awaits job w) :
    Accounts job w ⟨w, []⟩ := by
  obtain ⟨row, hrow, -⟩ := hw.row
  obtain ⟨q, hq, hjob, hwaiting⟩ := hw.queued
  have hisOf : q.IsOf job := by
    unfold QueuedJob.IsOf
    rw [hjob]
    exact job.attempt_self.symm
  have hexhausts : Exhausts ⟨w, []⟩ q row 0 := by
    unfold Exhausts
    simp only [hwaiting]
  constructor
  · simp [Conforming]
  · apply delivered_start
    intro q' i hq' hactive
    obtain rfl := Option.some.inj (hq.symm.trans hq')
    rw [hwaiting] at hactive
    cases hactive
  · exact ⟨q, row, 0, hq, hisOf, hrow, rfl, hexhausts⟩
  · simp
  · simp

theorem listeners_alive {videoId : String} (hs : Conforming s)
    (hk : KeepsListeners videoId s a) (hstep : (system config).step s a = some s')
    (h : ∀ t ∈ s.threads, unsaved videoId t = true → t.crashed = false) :
    ∀ t ∈ s'.threads, unsaved videoId t = true → t.crashed = false := by
  intro u hu hunsaved
  obtain ⟨j, hget⟩ := List.getElem?_of_mem hu
  by_cases hlt : j < s.threads.length
  · have hold := List.getElem?_eq_getElem hlt
    obtain ⟨u', hget', (rfl | ⟨ha, rfl⟩) | ⟨f, c, r, -, hcall⟩⟩ := thread_step hstep hs hold
    · obtain rfl := Option.some.inj (hget.symm.trans hget')
      exact h _ (List.getElem_mem hlt) hunsaved
    · obtain rfl := Option.some.inj (hget.symm.trans hget')
      have hbefore : unsaved videoId (s.threads[j]) = true := hunsaved
      have hlistens : s.threads[j].task.Listens videoId := by
        by_contra hnot
        rw [not_unsaved hnot] at hbefore
        cases hbefore
      have halive := h _ (List.getElem_mem hlt) hbefore
      exact absurd (hk.listens j _ ha hold hlistens)
        (unsaved_alive hs (List.getElem_mem hlt) halive hbefore)
    · obtain rfl := Option.some.inj (hget.symm.trans hget')
      exact hcall.still_alive
  · obtain ⟨-, ⟨task, -, rfl⟩ | ⟨id, q, -, -, -, rfl⟩ | ⟨i, f, t, t', event, r, -, -, rfl⟩⟩ :=
      started_cases hstep hs hget (by omega)
    · rfl
    · rfl
    · rfl

theorem accounts_step {w : World} (hv : Survives job s a)
    (hstep : (system config).step s a = some s') (h : Accounts job w s) :
    Accounts job w s' := by
  obtain ⟨q, row, failures, hwears⟩ := h.wears
  constructor
  · exact step_conforming hstep h.conforming
  · exact step_delivered hstep h.conforming hv.invokes h.delivered
  · exact wears_step h.conforming h.delivered hv hstep hwears
  · exact listeners_alive h.conforming hv.toKeepsListeners hstep h.alive
  · have hrecords := records_step h.conforming hv.toKeepsListeners hstep
    have hbalance := h.balance
    omega

/-- The queue has failed the job, and no listener of the video is at work. -/
structure FinallyFailed (job : Job) (s : State) : Prop where
  failed : (s.state.queue.find? job.id).map QueuedJob.state = some .failed
  listeners : ∀ t ∈ s.threads, t.task.Listens job.data.videoId → t.Ended

/-- The row is failed, and there is one more record of the video than in `w`. -/
def Recorded (job : Job) (w w' : World) : Prop :=
  w'.statusOf job.data.videoId = some .failed ∧
    w'.recordsOf job.data.videoId = w.recordsOf job.data.videoId + 1

instance (job : Job) (w w' : World) : Decidable (Recorded job w w') :=
  inferInstanceAs (Decidable (_ ∧ _))

/-- When no link of the chain breaks, every job that the queue finally fails is
recorded once. -/
theorem exhausted_recorded {w : World} {ts : List (Transition State Step)}
    (hw : Awaits job w) (hrun : Run (system config).step ⟨w, []⟩ ts s)
    (hsurvives : ∀ t ∈ ts, Survives job t.before t.act) (hfailed : FinallyFailed job s) :
    Recorded job w s.state := by
  have h : Accounts job w s := hrun.invariant (Accounts job w) (accounts_start hw)
    fun t ht hstep hbefore ↦ accounts_step (hsurvives t ht) hstep hbefore
  obtain ⟨q, row, failures, hwears⟩ := h.wears
  have hstate : q.state = .failed := by simpa [hwears.found] using hfailed.failed
  have hexhausts := hwears.exhausts
  unfold Exhausts at hexhausts
  simp only [hstate] at hexhausts
  obtain ⟨hstatus, rfl⟩ := hexhausts
  constructor
  · exact World.statusOf_eq_some_iff.mpr ⟨row, hwears.stored, hstatus⟩
  · have hnone : s.threads.countP (unsaved job.data.videoId) = 0 := by
      rw [List.countP_eq_zero]
      intro t ht hunsaved
      have hlistens : t.task.Listens job.data.videoId := by
        by_contra hnot
        rw [not_unsaved hnot] at hunsaved
        cases hunsaved
      exact unsaved_alive h.conforming ht (h.alive t ht hunsaved) hunsaved
        (hfailed.listeners t ht hlistens)
    have hbalance := h.balance
    have hpublished := hwears.published
    omega

end System

/-! ## A recorded failure and two lost ones -/

instance (videoId : String) : DecidablePred (Task.Listens videoId)
  | .process _ => isFalse id
  | .createAndQueue _ _ => isFalse id
  | .retryFailedJob _ => isFalse id
  | .onVideoFailed event => inferInstanceAs (Decidable (event.videoId = videoId))
  | .remove _ _ => isFalse id
  | .service _ => isFalse id

def survives (job : Job) (t : Transition State Step) : Bool :=
  regular job t && match t.act with
    | .env (.stall _) => false
    | .call i f => t.before.threads[i]?.all fun u ↦
        if u.task.Listens job.data.videoId then
          match f with
          | .ok _ => true
          | _ => false
        else u.pending?.all fun c ↦ !c.WritesFailedJobs
    | _ => true

theorem survives_of_survives {job : Job} {t : Transition State Step}
    (h : survives job t = true) : Survives job t.before t.act := by
  unfold survives at h
  obtain ⟨hregular, hsteps⟩ := Bool.and_eq_true_iff.mp h
  have hr := regular_of_regular hregular
  obtain ⟨s, a, s'⟩ := t
  have hcrash (i : ℕ) (ha : a = .crash i) : False := by
    subst ha
    cases hregular
  have hanswered {i : ℕ} {f : Fate} {t : Worker} (ha : a = .call i f)
      (hget : s.threads[i]? = some t) (hlistens : t.task.Listens job.data.videoId) :
      ∃ b, f = .ok b := by
    subst ha
    simp only [hget, Option.all_some, if_pos hlistens] at hsteps
    cases f with
    | ok b => exact ⟨b, rfl⟩
    | rejected e => cases hsteps
    | lost b e => cases hsteps
  refine ⟨hr.toUndisturbed, ⟨?_, ?_, ?_, ?_, ?_⟩, hr.marks, ?_, ?_⟩
  · cases a with
    | invoke task => cases hregular
    | _ => trivial
  · intro i f t id ha hget hlistens _
    exact hanswered ha hget hlistens
  · intro i f t fields ha hget hlistens _
    obtain ⟨b, rfl⟩ := hanswered ha hget hlistens
    rfl
  · rintro i f t fields rfl - hget hpending -
    by_contra hnot
    simp [hget, hnot, hpending, Call.WritesFailedJobs] at hsteps
  · intro i t ha
    exact (hcrash i ha).elim
  · intro i t job' message ha
    exact (hcrash i ha).elim
  · rintro q rfl
    cases hsteps

def recordedActs : List Step :=
  unreadableActs ++ [okStep 2, .call 2 (.ok (.uuid "record"))]

/-- Both attempts fail, and the listener's insert is rejected. -/
def unsavedActs : List Step :=
  unreadableActs ++ [okStep 2, .call 2 (.rejected (.instance .error "connection"))]

/-- The worker dies twice, and the queue fails the job. -/
def stalledActs : List Step :=
  [.env (.take 1), .crash 0, .env (.stall 1), .env (.take 1), .crash 1, .env (.stall 1)]

def finallyFailed (job : Job) (s : State) : Bool :=
  (s.state.queue.find? job.id).map QueuedJob.state = some .failed &&
    s.threads.all fun t ↦ !decide (t.task.Listens job.data.videoId) || decide t.Ended

theorem finallyFailed_of_finallyFailed {job : Job} {s : State}
    (h : finallyFailed job s = true) : FinallyFailed job s := by
  unfold finallyFailed at h
  obtain ⟨hfailed, hlisteners⟩ := Bool.and_eq_true_iff.mp h
  refine ⟨of_decide_eq_true hfailed, ?_⟩
  intro t ht hlistens
  simpa [hlistens] using List.all_eq_true.mp hlisteners t ht

theorem exhausted_recorded_saved : ∃ (ts : List (Transition State Step)) (s : State),
    Run (system ⟨"bucket", none, "region"⟩).step ⟨soloWorld, []⟩ ts s ∧
    FinallyFailed soloJob s ∧ Recorded soloJob soloWorld s.state := by
  obtain ⟨ts, s, hrun, -, hobs⟩ := Run.exists_of_follow
    (system ⟨"bucket", none, "region"⟩).step ⟨soloWorld, []⟩ recordedActs
    (fun p ↦ (p.1.all (survives soloJob), finallyFailed soloJob p.2))
    (true, true) (by decide +kernel)
  obtain ⟨hsurvives, hfailed⟩ := Prod.mk.inj hobs
  have hfinally := finallyFailed_of_finallyFailed hfailed
  refine ⟨ts, s, hrun, hfinally, exhausted_recorded soloWorld_awaits hrun ?_ hfinally⟩
  intro t ht
  exact survives_of_survives (List.all_eq_true.mp hsurvives t ht)

/-- A job that stalls too often leaves its row pending, and one whose record is not
saved leaves none. -/
theorem exhausted_lost :
    (∃ (ts : List (Transition State Step)) (s : State),
      Run (system ⟨"bucket", none, "region"⟩).step ⟨soloWorld, []⟩ ts s ∧
      ts.map Transition.act = stalledActs ∧ FinallyFailed soloJob s ∧
      s.state.statusOf "video" = some .pending ∧ ¬Recorded soloJob soloWorld s.state) ∧
    ∃ (ts : List (Transition State Step)) (s : State),
      Run (system ⟨"bucket", none, "region"⟩).step ⟨soloWorld, []⟩ ts s ∧
      ts.map Transition.act = unsavedActs ∧ FinallyFailed soloJob s ∧
      s.state.recordsOf "video" = 0 ∧ ¬Recorded soloJob soloWorld s.state := by
  constructor
  · obtain ⟨ts, s, hrun, hacts, hobs⟩ := Run.exists_of_follow
      (system ⟨"bucket", none, "region"⟩).step ⟨soloWorld, []⟩ stalledActs
      (fun p ↦ (finallyFailed soloJob p.2, p.2.state.statusOf "video",
        decide (Recorded soloJob soloWorld p.2.state)))
      (true, some .pending, false) (by decide +kernel)
    simp only [Prod.mk.injEq] at hobs
    obtain ⟨hfailed, hstatus, hnot⟩ := hobs
    exact ⟨ts, s, hrun, hacts, finallyFailed_of_finallyFailed hfailed, hstatus,
      of_decide_eq_false hnot⟩
  · obtain ⟨ts, s, hrun, hacts, hobs⟩ := Run.exists_of_follow
      (system ⟨"bucket", none, "region"⟩).step ⟨soloWorld, []⟩ unsavedActs
      (fun p ↦ (finallyFailed soloJob p.2, p.2.state.recordsOf "video",
        decide (Recorded soloJob soloWorld p.2.state)))
      (true, 0, false) (by decide +kernel)
    simp only [Prod.mk.injEq] at hobs
    obtain ⟨hfailed, hrecords, hnot⟩ := hobs
    exact ⟨ts, s, hrun, hacts, finallyFailed_of_finallyFailed hfailed, hrecords,
      of_decide_eq_false hnot⟩

end VideoGen
