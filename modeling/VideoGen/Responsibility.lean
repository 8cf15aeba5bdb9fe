import VideoGen.Custody
import VideoGen.FailureRecords
import VideoGen.RetryJobIds

/-!
# Somebody is responsible for every video

While the infrastructure works, nobody edits or removes a video and its
retries do not overlap, every step of the system is a transition of the life
cycle, and so the responsibility for the video never gets lost and is never
taken twice.  What this means is said of rows, jobs and records at rest.
-/

namespace VideoGen

open Ledger (on claims)

section System

variable {config : StorageConfig} {s s' : State} {videoId : String} {p : Task → Prop}
  {a : Step}

/-! ## The moves of the queue -/

theorem threadPlace_start_process (videoId : String) (job : Job) :
    threadPlace videoId ((system config).start (.process job)) = none := rfl

theorem census_started {w : World} {threads : List Worker} {l : EnvStep} {w' : World}
    {tasks : List Task} (h : envStep w threads l = some (w', tasks)) (videoId : String) :
    census (threadPlace videoId) (tasks.map (system config).start) = 0 := by
  apply census_eq_zero
  intro u hu
  obtain ⟨task, htask, rfl⟩ := List.mem_map.mp hu
  obtain ⟨job, rfl⟩ := envStep_tasks h task htask
  exact threadPlace_start_process videoId job

theorem jobPlace_append (hd : ∀ id, Delivered id s) {q : QueuedJob}
    (hq : q ∈ s.state.queue.jobs.rows) (threads : List Worker) :
    jobPlace videoId (s.threads ++ threads) q = jobPlace videoId s.threads q := by
  apply jobPlace_congr
  intro j hstate
  have hfind : s.state.queue.find? q.jobId = some q := Table.find?_eq_some_iff.mpr ⟨hq, rfl⟩
  obtain ⟨u, hget, -⟩ := (hd q.jobId).held q j hfind hstate
  exact List.getElem?_append_left (List.getElem?_eq_some_iff.mp hget).1

theorem handover_of_settle (hc : Custody videoId s) {id i : ℕ} {q : QueuedJob} {t : Worker}
    (hq : s.state.queue.find? id = some q) (hvideo : q.job.data.videoId = videoId)
    (hstate : q.state = .active i) (hget : s.threads[i]? = some t)
    {r : Except Thrown Value} (hprog : t.prog = .done r) (threads : List Worker) :
    Ledger.Handover (on (q.place s.threads)) (on ((q.settle r).place threads)) := by
  have hmem := List.mem_of_getElem? hget
  obtain ⟨u, hget', htask⟩ := (hc.calm.delivered id).held q i hq hstate
  obtain rfl := Option.some.inj (hget.symm.trans hget')
  obtain ⟨phase, hstage⟩ := stageOf_process htask
  have hends : Stage.Ends (stageOf t) r :=
    (hc.calm.conforming t hmem).post stageProtocol Stage.init Stage.Ends hprog
  have hwarranted := hc.warranted t hmem _ _ hstage
  have hplace := QueuedJob.place_active hstate hget hstage
  rw [hstage] at hends
  rw [hplace]
  have hagain (e : Thrown) (hfinal : ¬IsFinalAttempt q.job) :
      (q.settle (.error e : Except Thrown Value)).place threads = .waiting := by
    rw [isFinalAttempt_iff_not_retryable, not_not] at hfinal
    unfold QueuedJob.settle QueuedJob.place
    simp only [if_pos hfinal]
    by_cases hbackoff : q.job.opts.backoff.isSome = true <;> simp [hbackoff]
  have hfailed (e : Thrown) (hfinal : IsFinalAttempt q.job) :
      (q.settle (.error e : Except Thrown Value)).place threads = .failed := by
    rw [isFinalAttempt_iff_not_retryable] at hfinal
    unfold QueuedJob.settle QueuedJob.place
    simp only [if_neg hfinal]
  cases phase with
  | fresh =>
      rcases r with e | x
      · exact hends.elim
      · exact absurd (hc.calm.named id q hq) hends
  | loaded expected =>
      rcases r with e | x
      · exact hends.elim
      · have hpos : 0 < (ledgerOf videoId s).tokens .waiting := by
          rw [tokens_of_jobs rfl]
          apply census_pos (Table.find?_eq_some_iff.mp hq).1
          unfold jobPlace
          rw [if_pos hvideo, hplace]
          rfl
        have hstatus := hc.loaded id q i t expected hq hvideo hstate hget hstage
        have hopen : Open expected := by
          rcases hc.sound.open_of_waiting hpos with h | h
          · exact .inl (Option.some.inj (hstatus.symm.trans h))
          · exact .inr (Option.some.inj (hstatus.symm.trans h))
        exact absurd (allowed_of_open hopen) hends
  | working =>
      rcases r with e | x
      · rw [hagain e hends]
        exact .again
      · exact hends.elim
  | failing =>
      rcases r with e | x
      · rw [hagain e hends]
        exact .again
      · exact hends.elim
  | skipped =>
      rcases r with e | x
      · exact hends.elim
      · exact .settleCompleted
  | announced applied event =>
      rcases r with e | x
      · exact hends.elim
      · exact .settleCompleted
  | reported message =>
      rcases r with e | x
      · rw [hfailed e hwarranted]
        exact .settleFailed
      · exact hends.elim
  | completed applied event => rcases r with e | x <;> exact hends.elim
  | recorded applied event => rcases r with e | x <;> exact hends.elim
  | marked message => rcases r with e | x <;> exact hends.elim
  | broken => exact hwarranted.elim

theorem moved_cases (config : StorageConfig) (hc : Custody videoId s) {id : ℕ} {q q' : QueuedJob}
    {l : EnvStep} {tasks : List Task} (hq : s.state.queue.find? id = some q)
    (hvideo : q.job.data.videoId = videoId) (hmove : JobMove s.threads id q l q' tasks) :
    let threads := s.threads ++ tasks.map (system config).start
    q'.place threads = q.place s.threads ∨
      Ledger.Handover (on (q.place s.threads)) (on (q'.place threads)) := by
  intro threads
  cases hmove with
  | take hwaiting =>
      left
      have hget : threads[s.threads.length]? = some ((system config).start (.process q.job)) := by
        simp [threads]
      have hstage : stageOf ((system config).start (.process q.job)) = .worker q.job .fresh := rfl
      have hbefore : q.place s.threads = .waiting := by
        unfold QueuedJob.place
        rw [hwaiting]
      rw [hbefore]
      exact QueuedJob.place_active rfl hget hstage
  | promote hdelayed =>
      left
      unfold QueuedJob.place
      rw [hdelayed]
      rfl
  | settle hactive hget halive hprog =>
      exact .inr (handover_of_settle hc hq hvideo hactive hget hprog threads)
  | @stall i t hactive hget hcrashed =>
      have halive := hc.calm.alive t (List.mem_of_getElem? hget)
      rw [halive] at hcrashed
      cases hcrashed

theorem step_of_env (hc : Custody videoId s) {l : EnvStep} {w : World} {tasks : List Task}
    (henv : envStep s.state s.threads l = some (w, tasks)) :
    Ledger.Step (ledgerOf videoId s)
      (ledgerOf videoId ⟨w, s.threads ++ tasks.map (system config).start⟩) := by
  obtain ⟨hvideos, hrecords, -⟩ := envStep_frame henv
  have hstatus : w.statusOf videoId = s.state.statusOf videoId := by
    unfold World.statusOf
    rw [hvideos]
  have hthreads : census (threadPlace videoId) (s.threads ++ tasks.map (system config).start) =
      census (threadPlace videoId) s.threads := by
    rw [census_append, census_started henv, add_zero]
  have htokens {pre post : Marking Place}
      (hjobs : Fires pre post (census (jobPlace videoId s.threads) s.state.queue.jobs.rows)
        (census (jobPlace videoId (s.threads ++ tasks.map (system config).start))
          w.queue.jobs.rows)) :
      Fires pre post (ledgerOf videoId s).tokens
        (ledgerOf videoId ⟨w, s.threads ++ tasks.map (system config).start⟩).tokens := by
    funext x
    have hx := hjobs.apply x
    simp only [ledgerOf, hthreads, hrecords, Pi.add_apply] at hx ⊢
    omega
  rcases envStep_queue henv with ⟨hqueue, rfl⟩ | ⟨id, q, f, hf, hq, rfl, hmove⟩
  · have hsame : Fires 0 0 (census (jobPlace videoId s.threads) s.state.queue.jobs.rows)
        (census (jobPlace videoId (s.threads ++ [].map (system config).start))
          w.queue.jobs.rows) := by
      rw [hqueue, List.map_nil, List.append_nil]
      exact Fires.refl _
    exact .quiet hstatus (htokens hsame).eq_of_same
  · have hfires := htokens (fires_modify (jobPlace videoId s.threads)
      (jobPlace videoId (s.threads ++ tasks.map (system config).start)) hq f hf
      fun q' hq' _ ↦ jobPlace_append hc.calm.delivered hq' _)
    have hjob : (f q).job.data.videoId = q.job.data.videoId := congrArg _ hmove.job_eq.2.1
    unfold jobPlace at hfires
    rw [hjob] at hfires
    by_cases hvideo : q.job.data.videoId = videoId
    · rw [if_pos hvideo, if_pos hvideo] at hfires
      rcases moved_cases config hc hq hvideo hmove with hplace | hhandover
      · rw [hplace] at hfires
        exact .quiet hstatus hfires.eq_of_same
      · exact .handover hhandover hstatus hfires
    · rw [if_neg hvideo, if_neg hvideo] at hfires
      exact .quiet hstatus hfires.eq_of_same

/-! ## Every step -/

/-- While its retries do not overlap, every orderly step is a transition of the life cycle
of the video. -/
theorem step_ledger (hc : Custody videoId s) (ho : Orderly Task.Keeps s a)
    (hapart : RetriesApart videoId s a) (hstep : (system config).step s a = some s') :
    Ledger.Step (ledgerOf videoId s) (ledgerOf videoId s') := by
  cases a with
  | invoke task =>
      obtain rfl := Option.some.inj hstep
      have hnone : threadPlace videoId ((system config).start task) = none := by
        have hinvokes := ho.invokes
        cases task with
        | createAndQueue userId dto => rfl
        | retryFailedJob id => rfl
        | process job => exact hinvokes.1.elim
        | onVideoFailed event => exact hinvokes.1.elim
        | remove id userId => exact hinvokes.2.elim
        | service call => exact hinvokes.1.elim
      have hjobs : census (jobPlace videoId (s.threads ++ [(system config).start task]))
          s.state.queue.jobs.rows =
            census (jobPlace videoId s.threads) s.state.queue.jobs.rows :=
        census_congr fun q hq ↦ jobPlace_append hc.calm.delivered hq _
      refine .quiet rfl ?_
      simp only [ledgerOf, hjobs, census_append, census_singleton, hnone, token_none, add_zero]
  | crash i => exact absurd rfl (ho.no_crash i)
  | env l =>
      obtain ⟨w, tasks, henv, rfl⟩ := (system config).step_env_cases hstep
      exact step_of_env hc henv
  | call i f =>
      obtain ⟨t, t', c, r, h⟩ := answered_of_step hstep hc.calm.conforming
      have hallows := allows_of_answered h
      have hkept := hc.kept t (List.mem_of_getElem? h.get)
      have hmanaged := hc.calm.managed t (List.mem_of_getElem? h.get)
      rw [← task_stageOf] at hkept hmanaged
      cases hstage : stageOf t with
      | worker job phase =>
          rw [hstage] at hallows
          cases hallows with
          | worker hallows => exact step_of_worker hc ho h hstage hallows
      | creating userId dto creation =>
          rw [hstage] at hallows
          cases hallows with
          | creating hallows => exact step_of_creation hc ho h hstage hallows
      | retrying id retry =>
          rw [hstage] at hallows
          cases hallows with
          | retrying hallows => exact step_of_retry hc ho hapart h hstage hallows
      | listening event recording =>
          rw [hstage] at hallows
          cases hallows with
          | listening hallows => exact step_of_recording hc ho h hstage hallows
      | removing id userId removal =>
          rw [hstage] at hkept
          exact hkept.elim
      | service call =>
          rw [hstage] at hmanaged
          exact hmanaged.elim

/-! ## Custody is kept -/

theorem warranted_of_call {i : ℕ} {f : Fate} {t t' : Worker} {c : Call}
    {r : Except Thrown c.Reply} (ho : Orderly p s (.call i f))
    (h : Answered config s s' i f t t' c r) {job : Job} {phase : Phase}
    (hallows : WorkerAllows job phase c) (hwarranted : phase.Warranted job) :
    (phase.next c r).Warranted job := by
  cases hallows with
  | load =>
      obtain ⟨b, x, hx, rfl⟩ := ho.reply h rfl
      cases x <;> trivial
  | start expected hallowed =>
      obtain ⟨b, n, hx, rfl⟩ := ho.reply h rfl
      change (if n = 0 then Phase.skipped else Phase.working).Warranted job
      split <;> trivial
  | quiet _ hquiet =>
      rw [Phase.next_quiet hquiet]
      rcases r with e | x
      · by_cases hcaught : c.Caught = true <;> simp [hcaught, Phase.Warranted]
      · trivial
  | progress u =>
      obtain ⟨b, n, hx, rfl⟩ := ho.reply h rfl
      trivial
  | complete url thumbnail hurl =>
      obtain ⟨b, n, hx, rfl⟩ := ho.reply h rfl
      trivial
  | stamp applied event => rcases r with e | x <;> trivial
  | cache applied event key value => rcases r with e | x <;> trivial
  | record applied event => rcases r with e | x <;> trivial
  | announce applied event => rcases r with e | x <;> trivial
  | mark _ hphase hfinal message =>
      obtain ⟨b, n, hx, rfl⟩ := ho.reply h rfl
      rw [next_mark hphase]
      exact hfinal
  | evict message key => rcases r with e | x <;> exact hwarranted
  | report message => rcases r with e | x <;> exact hwarranted

theorem loaded_of_call {i : ℕ} {f : Fate} {t t' : Worker} {c : Call}
    {r : Except Thrown c.Reply} (ho : Orderly p s (.call i f))
    (h : Answered config s s' i f t t' c r) {job : Job} {phase : Phase}
    (hallows : WorkerAllows job phase c) {expected : VideoStatus}
    (hnext : phase.next c r = .loaded expected) :
    s'.state.statusOf job.data.videoId = some expected := by
  cases hallows with
  | load =>
      obtain ⟨b, x, hx, rfl⟩ := ho.reply h rfl
      obtain ⟨hw, rfl⟩ := World.answer_selectVideo hx
      cases hrow : s.state.videos.find? job.data.videoId with
      | none =>
          rw [hrow] at hnext
          cases hnext
      | some row =>
          rw [hrow] at hnext
          rw [hw]
          exact World.statusOf_eq_some_iff.mpr ⟨row, hrow, Phase.loaded.inj hnext⟩
  | start expected' hallowed =>
      obtain ⟨b, n, hx, rfl⟩ := ho.reply h rfl
      change (if n = 0 then Phase.skipped else Phase.working) = _ at hnext
      split at hnext <;> cases hnext
  | quiet _ hquiet =>
      rw [Phase.next_quiet hquiet] at hnext
      rcases r with e | x
      · by_cases hcaught : c.Caught = true <;> simp [hcaught] at hnext
      · cases hnext
  | progress u =>
      obtain ⟨b, n, hx, rfl⟩ := ho.reply h rfl
      cases hnext
  | complete url thumbnail hurl =>
      obtain ⟨b, n, hx, rfl⟩ := ho.reply h rfl
      cases hnext
  | stamp applied event => rcases r with e | x <;> cases hnext
  | cache applied event key value => rcases r with e | x <;> cases hnext
  | record applied event => rcases r with e | x <;> cases hnext
  | announce applied event => rcases r with e | x <;> cases hnext
  | mark _ hphase hfinal message =>
      obtain ⟨b, n, hx, rfl⟩ := ho.reply h rfl
      rw [next_mark hphase] at hnext
      cases hnext
  | evict message key => rcases r with e | x <;> cases hnext
  | report message => rcases r with e | x <;> cases hnext

theorem loaded_step (hc : Custody videoId s) (ho : Orderly p s a)
    (hstep : (system config).step s a = some s')
    (hledger : Ledger.Step (ledgerOf videoId s) (ledgerOf videoId s')) {id : ℕ} {q : QueuedJob}
    {i : ℕ} {t : Worker} {expected : VideoStatus} (hq : s'.state.queue.find? id = some q)
    (hvideo : q.job.data.videoId = videoId) (hstate : q.state = .active i)
    (hget : s'.threads[i]? = some t) (hstage : stageOf t = .worker q.job (.loaded expected)) :
    s'.state.statusOf videoId = some expected := by
  rcases thread_cases hstep hc.calm.conforming hget with
    ⟨u, hu, -, -, -, hsame, -⟩ | ⟨-, task, rfl⟩ | ⟨f, u, c, r, rfl, hcall⟩
  · have hold : s.state.queue.find? id = some q := by
      rcases job_cases hstep hc.calm.conforming hq with ⟨q₀, hq₀⟩ |
        ⟨_, _, _, _, name, data, opts, _, _, _, _, _, rfl⟩
      · obtain ⟨q', hq', rfl | ⟨l, tasks, -, hmove, -⟩⟩ := job_step hstep hq₀
        · obtain rfl := Option.some.inj (hq.symm.trans hq')
          exact hq₀
        · obtain rfl := Option.some.inj (hq.symm.trans hq')
          obtain ⟨hi, -⟩ := hmove.not_active hstate
          have hlt := (List.getElem?_eq_some_iff.mp hu).1
          omega
      · cases hstate
    have hbefore := hc.loaded id q i u expected hold hvideo hstate hu (hsame ▸ hstage)
    by_contra hchanged
    have hzero := Ledger.waiting_of_step hledger hc.sound (by
      change s'.state.statusOf videoId ≠ s.state.statusOf videoId
      rw [hbefore]
      exact hchanged)
    have hpos : 0 < (ledgerOf videoId s').tokens .waiting := by
      rw [tokens_of_jobs rfl]
      apply census_pos (Table.find?_eq_some_iff.mp hq).1
      unfold jobPlace
      rw [if_pos hvideo, QueuedJob.place_active hstate hget hstage]
      rfl
    omega
  · cases fresh_of_start hstage
  · obtain ⟨phase, -, hallows, hnext⟩ := worker_of_answered hcall hstage
    rw [← hvideo]
    exact loaded_of_call ho hcall hallows hnext.symm

theorem claims_le_of_le {m m' : Marking Place} (h : m ≤ m') : claims m ≤ claims m' := by
  have hresetting : m .resetting ≤ m' .resetting := h _
  have hreadding : m .readding ≤ m' .readding := h _
  have hpassed : m .passed ≤ m' .passed := h _
  unfold claims
  omega

theorem claim_unique (hc : Custody videoId s) {i j : ℕ} (hne : i ≠ j) {t u : Worker}
    (ht : s.threads[i]? = some t) (hu : s.threads[j]? = some u) {id id' : String}
    {retry retry' : Retry} {record record' : FailedJob}
    (hstage : stageOf t = .retrying id retry) (hrecord : retry.record? = some record)
    (hvideo : record.videoId = videoId) (hstage' : stageOf u = .retrying id' retry')
    (hrecord' : retry'.record? = some record') : record'.videoId ≠ videoId := by
  intro hvideo'
  have hle : token (threadPlace videoId t) + token (threadPlace videoId u) ≤
      census (threadPlace videoId) s.threads := tokens_le_census hne ht hu
  have htwo := claims_le_of_le hle
  rw [Ledger.claims_add, claim_of_stage hstage hrecord hvideo,
    claim_of_stage hstage' hrecord' hvideo'] at htwo
  have hone := hc.sound.claims_le_one
  unfold claims at htwo hone
  rw [tokens_of_calls rfl, tokens_of_calls rfl, tokens_of_calls rfl] at hone
  omega

/-- What a retry has read is still to be retried, as far as the video is concerned. -/
def HoldsRecord (videoId : String) (s : State) (u : Worker) : Prop :=
  ∀ id retry record, stageOf u = .retrying id retry → retry.record? = some record →
    ∃ stored, s.state.failedJobs.find? id = some stored ∧
      stored.videoId = record.videoId ∧ (stored.videoId = videoId → stored.retried = false)

theorem claimed_self {i : ℕ} {f : Fate} {t t' : Worker} {c : Call}
    {r : Except Thrown c.Reply} (ho : Orderly p s (.call i f))
    (h : Answered config s s' i f t t' c r) (ht : HoldsRecord videoId s t) :
    HoldsRecord videoId s' t' := by
  intro id retry' record hstage' hrecord
  have hallows := allows_of_answered h
  have hnext := stageOf_of_answered h
  rw [hstage'] at hnext
  cases hstage : stageOf t with
  | retrying id₀ retry =>
      rw [hstage] at hallows hnext
      obtain ⟨rfl, rfl⟩ := Stage.retrying.inj hnext
      have hkept (hquiet : c.WritesFailedJobs = false) (hsame : retry.record? = some record) :
          ∃ stored, s'.state.failedJobs.find? id = some stored ∧
            stored.videoId = record.videoId ∧
            (stored.videoId = videoId → stored.retried = false) := by
        rw [World.exec_failedJobs h.exec hquiet]
        exact ht id retry record hstage hsame
      cases hallows with
      | retrying hallows =>
          cases hallows with
          | look =>
              obtain ⟨b, x, hx, rfl⟩ := ho.reply h rfl
              obtain ⟨hw, hfound⟩ := World.answer_selectFailedJob hx
              cases x with
              | none => cases hrecord
              | some stored =>
                  change (if stored.retried = true then Retry.thrown
                    else .resetting stored).record? = some record at hrecord
                  by_cases hretried : stored.retried = true
                  · rw [if_pos hretried] at hrecord
                    cases hrecord
                  · rw [if_neg hretried] at hrecord
                    obtain rfl : stored = record := Option.some.inj hrecord
                    rw [hw]
                    exact ⟨stored, hfound.symm, rfl, fun _ ↦ by simpa using hretried⟩
          | reset record₀ =>
              obtain ⟨b, n, hx, rfl⟩ := ho.reply h rfl
              exact hkept rfl hrecord
          | add record₀ =>
              obtain ⟨b, n, hx, rfl⟩ := ho.reply h rfl
              exact hkept rfl hrecord
          | stamp record₀ jobId =>
              obtain ⟨b, n, hx, rfl⟩ := ho.reply h rfl
              exact hkept rfl hrecord
          | link record₀ jobId now =>
              obtain ⟨b, n, hx, rfl⟩ := ho.reply h rfl
              exact hkept rfl hrecord
          | mark record₀ jobId now =>
              obtain ⟨b, n, hx, rfl⟩ := ho.reply h rfl
              cases hrecord
  | worker job phase =>
      rw [hstage] at hnext
      cases hnext
  | creating userId dto creation =>
      rw [hstage] at hnext
      cases hnext
  | listening event recording =>
      rw [hstage] at hnext
      cases hnext
  | removing id₀ userId removal =>
      rw [hstage] at hnext
      cases hnext
  | service call =>
      rw [hstage] at hnext
      cases hnext

theorem claimed_other (hc : Custody videoId s) {i j : ℕ} (hne : i ≠ j) {f : Fate}
    {t t' u : Worker} {c : Call} {r : Except Thrown c.Reply}
    (h : Answered config s s' i f t t' c r) (hu : s.threads[j]? = some u) :
    HoldsRecord videoId s' u := by
  intro id retry record hstage hrecord
  obtain ⟨stored, hstored, hvideo, hretried⟩ :=
    hc.claimed u (List.mem_of_getElem? hu) id retry record hstage hrecord
  rcases World.record_of_exec h.exec hstored with hkept | ⟨now, jobId, rfl, hmarked⟩
  · exact ⟨stored, hkept, hvideo, hretried⟩
  · refine ⟨_, hmarked, hvideo, fun hsame ↦ ?_⟩
    have hallows := allows_of_answered h
    have hmanaged := hc.calm.managed t (List.mem_of_getElem? h.get)
    rw [← task_stageOf] at hmanaged
    generalize hstage₀ : stageOf t = stage at hallows hmanaged
    cases hallows with
    | retrying hallows =>
        cases hallows with
        | mark record₀ n =>
            obtain ⟨stored₀, hstored₀, hvideo₀, -⟩ :=
              hc.claimed t (List.mem_of_getElem? h.get) id _ record₀ hstage₀ rfl
            obtain rfl := Option.some.inj (hstored.symm.trans hstored₀)
            exact absurd (hvideo.symm.trans hsame)
              (claim_unique hc hne h.get hu hstage₀ rfl (hvideo₀.symm.trans hsame) hstage hrecord)
    | service call => exact hmanaged.elim
    | worker hallows =>
        cases hallows with
        | quiet _ hquiet => cases hquiet
    | creating hallows => cases hallows
    | listening hallows => cases hallows
    | removing hallows => cases hallows

theorem claimed_start (task : Task) : HoldsRecord videoId s ((system config).start task) := by
  intro id retry record hstage hrecord
  rw [stageOf_start] at hstage
  cases task with
  | retryFailedJob id' =>
      obtain ⟨rfl, rfl⟩ := Stage.retrying.inj hstage
      cases hrecord
  | _ => cases hstage

theorem HoldsRecord.congr {u : Worker} (h : HoldsRecord videoId s u)
    (hrecords : s'.state.failedJobs = s.state.failedJobs) : HoldsRecord videoId s' u := by
  intro id retry record hstage hrecord
  rw [hrecords]
  exact h id retry record hstage hrecord

theorem claimed_step (hc : Custody videoId s) (ho : Orderly p s a)
    (hstep : (system config).step s a = some s') : ∀ u ∈ s'.threads, HoldsRecord videoId s' u := by
  intro u hu
  cases a with
  | invoke task =>
      obtain rfl := Option.some.inj hstep
      rcases List.mem_append.mp hu with hu | hu
      · exact HoldsRecord.congr (hc.claimed u hu) rfl
      · obtain rfl := List.mem_singleton.mp hu
        exact claimed_start task
  | crash i => exact absurd rfl (ho.no_crash i)
  | env l =>
      obtain ⟨w, tasks, henv, rfl⟩ := (system config).step_env_cases hstep
      rcases List.mem_append.mp hu with hu | hu
      · exact HoldsRecord.congr (hc.claimed u hu) (envStep_frame henv).2.1
      · obtain ⟨task, -, rfl⟩ := List.mem_map.mp hu
        exact claimed_start task
  | call i f =>
      obtain ⟨t, t', c, r, h⟩ := answered_of_step hstep hc.calm.conforming
      obtain ⟨j, hget⟩ := List.getElem?_of_mem hu
      rw [h.threads_eq] at hget
      rcases Machine.get_append_cases hget with hget | ⟨-, hnew⟩
      · by_cases hij : i = j
        · subst hij
          rw [List.getElem?_set_self (List.getElem?_eq_some_iff.mp h.get).1] at hget
          obtain rfl := Option.some.inj hget
          exact claimed_self ho h (hc.claimed t (List.mem_of_getElem? h.get))
        · rw [List.getElem?_set_ne hij] at hget
          exact claimed_other hc hij h hget
      · obtain ⟨task, -, rfl⟩ := List.mem_map.mp hnew
        exact claimed_start task

theorem warranted_step (hc : Custody videoId s) (ho : Orderly p s a)
    (hstep : (system config).step s a = some s') : ∀ u ∈ s'.threads, ∀ job phase,
      stageOf u = .worker job phase → phase.Warranted job := by
  intro u hu job phase' hstage
  obtain ⟨j, hget⟩ := List.getElem?_of_mem hu
  rcases thread_cases hstep hc.calm.conforming hget with
    ⟨t, ht, -, -, -, hsame, -⟩ | ⟨-, task, rfl⟩ | ⟨f, t, c, r, rfl, hcall⟩
  · exact hc.warranted t (List.mem_of_getElem? ht) job phase' (hsame ▸ hstage)
  · obtain rfl := fresh_of_start hstage
    trivial
  · obtain ⟨phase, hphase, hallows, rfl⟩ := worker_of_answered hcall hstage
    exact warranted_of_call ho hcall hallows
      (hc.warranted t (List.mem_of_getElem? hcall.get) job phase hphase)

theorem custody_start : Custody videoId ⟨World.empty, []⟩ where
  calm := calm_start
  kept := by simp
  warranted := by simp
  loaded := by simp
  claimed := by simp
  sound := by
    rw [ledgerOf_empty]
    exact Ledger.sound_empty

theorem Custody.step (hc : Custody videoId s) (ho : Orderly Task.Keeps s a)
    (hapart : RetriesApart videoId s a) (hstep : (system config).step s a = some s') :
    Custody videoId s' := by
  have hledger := step_ledger hc ho hapart hstep
  constructor
  · exact hc.calm.step ho hstep
  · have hinvoke : a.InvokesOnly Task.Keeps := by
      have hinvokes := ho.invokes
      cases a with
      | invoke task => exact hinvokes.2
      | call i f => trivial
      | crash i => trivial
      | env l => trivial
    exact step_tasks hstep hinvoke (fun _ ↦ trivial) (fun _ ↦ trivial) hc.kept
  · exact warranted_step hc ho hstep
  · intro id q i t expected hq hvideo hstate hget hstage
    exact loaded_step hc ho hstep hledger hq hvideo hstate hget hstage
  · exact claimed_step hc ho hstep
  · exact Ledger.sound_step hledger hc.sound

/-! ## Runs -/

/-- The infrastructure works, nobody removes a video, and the retries of this video do
not overlap. -/
def Undivided (videoId : String) (ts : List (Transition State Step)) : Prop :=
  ∀ t ∈ ts, Orderly Task.Keeps t.before t.act ∧ RetriesApart videoId t.before t.act

theorem custody_of_run {ts : List (Transition State Step)}
    (hrun : Run (system config).step ⟨World.empty, []⟩ ts s) (hts : Undivided videoId ts) :
    Custody videoId s :=
  hrun.invariant (Custody videoId) custody_start fun t ht hstep hc ↦
    hc.step (hts t ht).1 (hts t ht).2 hstep

/-- Every step of such a run is a transition of the life cycle of the video. -/
theorem run_refines_lifeCycle {ts : List (Transition State Step)}
    (hrun : Run (system config).step ⟨World.empty, []⟩ ts s) (hts : Undivided videoId ts) :
    ∀ t ∈ ts, Ledger.Step (ledgerOf videoId t.before) (ledgerOf videoId t.after) := by
  intro t ht
  obtain ⟨pre, post, rfl⟩ := List.append_of_mem ht
  obtain ⟨hpre, hstep, -⟩ := hrun.at_append_cons
  have hc := custody_of_run hpre fun u hu ↦ hts u (List.mem_append_left _ hu)
  exact step_ledger hc (hts t ht).1 (hts t ht).2 hstep

end System

/-! ## A video at rest -/

def Stage.pendingFor (videoId : String) : Stage → Bool
  | .creating _ _ (.adding id) => id = videoId
  | .creating _ _ (.linking id _) => id = videoId
  | .creating _ _ (.announcing id _) => id = videoId
  | .retrying _ retry => retry.record?.any fun record ↦ record.videoId = videoId
  | .listening event .reading => event.videoId = videoId
  | .listening event (.saving _) => event.videoId = videoId
  | _ => false

def Phase.past : Phase → Bool
  | .fresh => false
  | .loaded _ => false
  | .working => false
  | .failing => false
  | _ => true

/-- No creation, retry or listener is at work for the video, and no execution that has
written the row for the last time is still to be settled. -/
structure AtRest (videoId : String) (s : State) : Prop where
  calls : ∀ t ∈ s.threads, (stageOf t).pendingFor videoId = false
  executions : ∀ q ∈ s.state.queue.jobs.rows, q.job.data.videoId = videoId →
    ∀ (i : ℕ) (t : Worker) (phase : Phase), q.state = .active i → s.threads[i]? = some t →
      stageOf t = .worker q.job phase → phase.past = false

namespace World

def liveJobsOf (w : World) (videoId : String) : ℕ :=
  w.queue.jobs.rows.countP fun q ↦ q.job.data.videoId = videoId ∧ q.state.Live

def failedJobsOf (w : World) (videoId : String) : ℕ :=
  w.queue.jobs.rows.countP fun q ↦ q.job.data.videoId = videoId ∧ q.state = .failed

def unretriedOf (w : World) (videoId : String) : ℕ :=
  w.failedJobs.rows.countP fun r ↦ r.videoId = videoId ∧ r.retried = false

def retryJobIdsOf (w : World) (videoId : String) : List String :=
  (w.failedJobs.rows.filter fun r ↦ r.videoId = videoId).filterMap FailedJob.retryJobId

end World

/-- How many live jobs and unretried records go with the status of a row. -/
def Accounted : Option VideoStatus → ℕ → ℕ → Prop
  | none, live, unretried => live = 0 ∧ unretried = 0
  | some .pending, live, unretried => live = 1 ∧ unretried = 0
  | some .processing, live, unretried => live = 1 ∧ unretried = 0
  | some .completed, live, unretried => live = 0 ∧ unretried = 0
  | some .failed, live, unretried => live = 0 ∧ unretried = 1
  | some .cancelled, _, _ => False

/-- The situations of a video at rest that has a row. -/
inductive Situation where
  | underway
  | finished
  | deadLettered

def Situation.Holds (w : World) (videoId : String) : Situation → Prop
  | .underway => (w.statusOf videoId = some .pending ∨ w.statusOf videoId = some .processing) ∧
      w.liveJobsOf videoId = 1 ∧ w.unretriedOf videoId = 0
  | .finished => w.statusOf videoId = some .completed ∧
      w.liveJobsOf videoId = 0 ∧ w.unretriedOf videoId = 0
  | .deadLettered => w.statusOf videoId = some .failed ∧
      w.liveJobsOf videoId = 0 ∧ w.unretriedOf videoId = 1

section System

variable {config : StorageConfig} {s : State} {videoId : String}

theorem Stage.pendingFor_of_place {stage : Stage} {p : Place}
    (h : stage.place videoId = some p) : stage.pendingFor videoId = true := by
  cases stage with
  | creating userId dto creation =>
      cases creation with
      | adding id => exact decide_eq_true (Option.ite_none_right_eq_some.mp h).1
      | _ => cases h
  | retrying id retry =>
      change (retry.record?.any fun record ↦ record.videoId = videoId) = true
      cases hrecord : retry.record? with
      | none => simp [place, Retry.place, hrecord] at h
      | some record =>
          simp only [place, Retry.place, hrecord] at h
          exact decide_eq_true (Option.ite_none_right_eq_some.mp h).1
  | listening event recording =>
      obtain ⟨hvideo, h⟩ := Option.ite_none_right_eq_some.mp h
      cases recording with
      | reading => exact decide_eq_true hvideo
      | saving video => exact decide_eq_true hvideo
      | saved => cases h
      | dropped => cases h
  | worker job phase => cases h
  | removing id userId removal => cases h
  | service call => cases h

theorem AtRest.no_calls (h : AtRest videoId s) {p : Place} (hp : p.store = .calls) :
    (ledgerOf videoId s).tokens p = 0 := by
  rw [tokens_of_calls hp]
  apply Nat.eq_zero_of_not_pos
  intro hpos
  obtain ⟨t, ht, hplace⟩ := exists_of_census_pos hpos
  have hcalls := h.calls t ht
  rw [Stage.pendingFor_of_place hplace] at hcalls
  cases hcalls

theorem AtRest.place_cases (h : AtRest videoId s) (hd : ∀ id, Delivered id s) {q : QueuedJob}
    (hq : q ∈ s.state.queue.jobs.rows) (hvideo : q.job.data.videoId = videoId) :
    (q.state.Live ∧ (q.place s.threads = .waiting ∨ q.place s.threads = .working)) ∨
      (q.state = .completed ∧ q.place s.threads = .completed) ∨
      (q.state = .failed ∧ q.place s.threads = .failed) := by
  cases hstate : q.state with
  | waiting => exact .inl ⟨trivial, .inl (by simp [QueuedJob.place, hstate])⟩
  | delayed => exact .inl ⟨trivial, .inl (by simp [QueuedJob.place, hstate])⟩
  | completed => exact .inr (.inl ⟨rfl, by simp [QueuedJob.place, hstate]⟩)
  | failed => exact .inr (.inr ⟨rfl, by simp [QueuedJob.place, hstate]⟩)
  | active i =>
      left
      have hfind : s.state.queue.find? q.jobId = some q :=
        Table.find?_eq_some_iff.mpr ⟨hq, rfl⟩
      obtain ⟨t, hget, htask⟩ := (hd q.jobId).held q i hfind hstate
      obtain ⟨phase, hstage⟩ := stageOf_process htask
      have hpast := h.executions q hq hvideo i t phase hstate hget hstage
      refine ⟨trivial, ?_⟩
      rw [QueuedJob.place_active hstate hget hstage]
      cases phase with
      | fresh => exact .inl rfl
      | loaded expected => exact .inl rfl
      | working => exact .inr rfl
      | failing => exact .inr rfl
      | _ => cases hpast

theorem AtRest.no_jobs (h : AtRest videoId s) (hd : ∀ id, Delivered id s) {p : Place}
    (hp : p = .finished ∨ p = .marked ∨ p = .reported) : (ledgerOf videoId s).tokens p = 0 := by
  rw [tokens_of_jobs (by rcases hp with rfl | rfl | rfl <;> rfl)]
  apply Nat.eq_zero_of_not_pos
  intro hpos
  obtain ⟨q, hq, hplace⟩ := exists_of_census_pos hpos
  obtain ⟨hvideo, heq⟩ := Option.ite_none_right_eq_some.mp hplace
  have hq' : q.place s.threads = p := Option.some.inj heq
  rcases h.place_cases hd hq hvideo with ⟨-, hw | hw⟩ | ⟨-, hw⟩ | ⟨-, hw⟩ <;>
    rcases hp with rfl | rfl | rfl <;> rw [hw] at hq' <;> cases hq'

theorem AtRest.countP_jobs (h : AtRest videoId s) (hd : ∀ id, Delivered id s) (ps : List Place)
    (hps : ps.Nodup) (state : JobState → Prop) [DecidablePred state]
    (hlive : ∀ x : JobState, x.Live →
      (state x ↔ Place.waiting ∈ ps) ∧ (state x ↔ Place.working ∈ ps))
    (hcompleted : state .completed ↔ Place.completed ∈ ps)
    (hfailed : state .failed ↔ Place.failed ∈ ps) :
    s.state.queue.jobs.rows.countP (fun q ↦ q.job.data.videoId = videoId ∧ state q.state) =
      (ps.map (census (jobPlace videoId s.threads) s.state.queue.jobs.rows)).sum := by
  apply countP_places _ ps hps
  intro q hq
  rw [decide_eq_true_iff]
  by_cases hvideo : q.job.data.videoId = videoId
  · have hplace : jobPlace videoId s.threads q = some (q.place s.threads) := if_pos hvideo
    have hmem : state q.state ↔ q.place s.threads ∈ ps := by
      rcases h.place_cases hd hq hvideo with ⟨hl, hw | hw⟩ | ⟨hstate, hw⟩ | ⟨hstate, hw⟩
      · rw [hw]
        exact (hlive _ hl).1
      · rw [hw]
        exact (hlive _ hl).2
      · rw [hstate, hw]
        exact hcompleted
      · rw [hstate, hw]
        exact hfailed
    rw [hplace, hmem]
    constructor
    · rintro ⟨-, hp⟩
      exact ⟨_, hp, rfl⟩
    · rintro ⟨p, hp, heq⟩
      obtain rfl := Option.some.inj heq
      exact ⟨hvideo, hp⟩
  · have hplace : jobPlace videoId s.threads q = none := if_neg hvideo
    rw [hplace]
    constructor
    · exact fun hq ↦ absurd hq.1 hvideo
    · rintro ⟨p, -, heq⟩
      cases heq

theorem AtRest.liveJobs (h : AtRest videoId s) (hd : ∀ id, Delivered id s) :
    s.state.liveJobsOf videoId =
      (ledgerOf videoId s).tokens .waiting + (ledgerOf videoId s).tokens .working := by
  have hcount := h.countP_jobs hd [.waiting, .working] (by decide) JobState.Live
    (fun x hx ↦ ⟨iff_of_true hx (by decide), iff_of_true hx (by decide)⟩)
    (iff_of_false id (by decide)) (iff_of_false id (by decide))
  rw [tokens_of_jobs rfl, tokens_of_jobs rfl]
  simpa [World.liveJobsOf] using hcount

theorem AtRest.failedJobs (h : AtRest videoId s) (hd : ∀ id, Delivered id s) :
    s.state.failedJobsOf videoId = (ledgerOf videoId s).tokens .failed := by
  have hcount := h.countP_jobs hd [.failed] (by decide) (· = .failed)
    (fun x hx ↦ ?_) (iff_of_false (by decide) (by decide)) (iff_of_true rfl (by decide))
  swap
  · have hne : x ≠ .failed := by
      rintro rfl
      exact hx
    exact ⟨iff_of_false hne (by decide), iff_of_false hne (by decide)⟩
  rw [tokens_of_jobs rfl]
  simpa [World.failedJobsOf] using hcount

theorem unretriedOf_eq (videoId : String) (s : State) :
    s.state.unretriedOf videoId = (ledgerOf videoId s).tokens .unretried := by
  rw [tokens_of_records rfl]
  apply List.countP_congr
  intro r hr
  by_cases hvideo : r.videoId = videoId <;> cases hretried : r.retried <;>
    simp [FailedJob.place, hvideo, hretried]

theorem recordsOf_eq (videoId : String) (s : State) : s.state.recordsOf videoId =
    (ledgerOf videoId s).tokens .unretried + (ledgerOf videoId s).tokens .retried := by
  have hcount : s.state.failedJobs.rows.countP (fun r ↦ decide (r.videoId = videoId)) = _ :=
    countP_places (FailedJob.place videoId) [.unretried, .retried] (by decide) ?_
  · rw [tokens_of_records rfl, tokens_of_records rfl]
    simpa [World.recordsOf, Table.count] using hcount
  intro r hr
  by_cases hvideo : r.videoId = videoId <;> cases hretried : r.retried <;>
    simp [FailedJob.place, hvideo, hretried]

/-- The status of a video at rest says how many live jobs and unretried records it has. -/
theorem Custody.accounted (hc : Custody videoId s) (hrest : AtRest videoId s) :
    Accounted (s.state.statusOf videoId) (s.state.liveJobsOf videoId)
      (s.state.unretriedOf videoId) := by
  have hd := hc.calm.delivered
  have hcreating := hrest.no_calls (p := .creating) rfl
  have hunsaved := hrest.no_calls (p := .unsaved) rfl
  have hresetting := hrest.no_calls (p := .resetting) rfl
  have hreadding := hrest.no_calls (p := .readding) rfl
  have hpassed := hrest.no_calls (p := .passed) rfl
  have hmarked := hrest.no_jobs hd (.inr (.inl rfl))
  have hreported := hrest.no_jobs hd (.inr (.inr rfl))
  rw [hrest.liveJobs hd, unretriedOf_eq]
  have hclaims : claims (ledgerOf videoId s).tokens = 0 := by
    unfold claims
    omega
  change Accounted (ledgerOf videoId s).status _ _
  cases hstatus : (ledgerOf videoId s).status with
  | none =>
      have hanswerable := hc.sound.answerable
      rw [hstatus] at hanswerable
      simp only [Ledger.Answerable] at hanswerable
      exact ⟨by omega, by omega⟩
  | some status =>
      have hsettled := hc.sound.settled (by omega) hmarked hclaims (by simp [hstatus])
      rw [hstatus] at hsettled
      rcases hsettled with ⟨hopen | hopen, hcounts⟩ | ⟨hclosed, hcounts⟩ | ⟨hclosed, hcounts⟩
      · obtain rfl := Option.some.inj hopen
        exact hcounts
      · obtain rfl := Option.some.inj hopen
        exact hcounts
      · obtain rfl := Option.some.inj hclosed
        exact hcounts
      · obtain rfl := Option.some.inj hclosed
        exact hcounts

theorem Custody.records_eq (hc : Custody videoId s) (hrest : AtRest videoId s) :
    s.state.recordsOf videoId = s.state.failedJobsOf videoId := by
  have hd := hc.calm.delivered
  have hunsaved := hrest.no_calls (p := .unsaved) rfl
  have hreported := hrest.no_jobs hd (.inr (.inr rfl))
  have hrecords := hc.sound.records
  rw [recordsOf_eq, hrest.failedJobs hd]
  omega

/-- In every run in which the infrastructure works, nobody edits or removes a video and the
retries of the video do not overlap, the row, the jobs and the records of the video at
rest agree: an open row has one live job and no unretried record, a completed row has
neither, a failed row has one unretried record and no live job; the records are as many
as the failed jobs, and the jobs that they note are all different. -/
theorem exactly_one_responsible {ts : List (Transition State Step)}
    (hrun : Run (system config).step ⟨World.empty, []⟩ ts s) (hts : Undivided videoId ts)
    (hrest : AtRest videoId s) :
    Accounted (s.state.statusOf videoId) (s.state.liveJobsOf videoId)
        (s.state.unretriedOf videoId) ∧
      s.state.recordsOf videoId = s.state.failedJobsOf videoId ∧
      (s.state.retryJobIdsOf videoId).Nodup := by
  have hc := custody_of_run hrun hts
  exact ⟨hc.accounted hrest, hc.records_eq hrest, (notedOnce_of_run hrun).nodup _⟩

theorem Situation.Holds.unique {w : World} {situation situation' : Situation}
    (h : situation.Holds w videoId) (h' : situation'.Holds w videoId) :
    situation = situation' := by
  cases situation <;> cases situation' <;> simp_all [Situation.Holds]

theorem exists_situation {w : World} {status : VideoStatus}
    (h : Accounted (some status) (w.liveJobsOf videoId) (w.unretriedOf videoId))
    (hstatus : w.statusOf videoId = some status) :
    ∃ situation : Situation, situation.Holds w videoId := by
  cases status with
  | pending => exact ⟨.underway, .inl hstatus, h⟩
  | processing => exact ⟨.underway, .inr hstatus, h⟩
  | completed => exact ⟨.finished, hstatus, h⟩
  | failed => exact ⟨.deadLettered, hstatus, h⟩
  | cancelled => exact h.elim

/-- While the infrastructure works, nobody edits or removes a video and the retries of the video
do not overlap, a video at rest is in exactly one of three situations.  It has as many records as
failed jobs, and a retried record notes a job that no other retried record of it notes. -/
theorem situation_at_rest {ts : List (Transition State Step)}
    (hrun : Run (system config).step ⟨World.empty, []⟩ ts s) (hts : Undivided videoId ts)
    (hrest : AtRest videoId s) :
    (s.state.statusOf videoId ≠ none →
      ∃! situation : Situation, situation.Holds s.state videoId) ∧
    s.state.recordsOf videoId = s.state.failedJobsOf videoId ∧
    ∀ record ∈ s.state.failedJobs.rows, record.videoId = videoId → record.retried = true →
      ∃ text, record.retryJobId = some text ∧
        ∀ record' ∈ s.state.failedJobs.rows, record'.videoId = videoId →
          record'.retried = true → record'.retryJobId = some text → record' = record := by
  have hc := custody_of_run hrun hts
  have hs := notedOnce_of_run hrun
  refine ⟨?_, hc.records_eq hrest, ?_⟩
  · intro hrow
    obtain ⟨status, hstatus⟩ := Option.ne_none_iff_exists'.mp hrow
    have haccounted := hc.accounted hrest
    rw [hstatus] at haccounted
    obtain ⟨situation, hsituation⟩ := exists_situation haccounted hstatus
    exact ⟨situation, hsituation, fun _ hother ↦ hother.unique hsituation⟩
  · intro record hrecord _ hretried
    obtain ⟨text, htext⟩ :=
      Option.ne_none_iff_exists'.mp (notesRetries_of_run hrun record hrecord hretried)
    refine ⟨text, htext, ?_⟩
    intro record' hrecord' _ _ htext'
    exact hs.eq_of_retryJobId hrecord' hrecord htext' htext

end System

/-! ## A retried failure -/

/-- Whether the thread is a retry that is neither about to read its record nor at its end. -/
def retriesNow (u : Worker) : Bool :=
  match u.task, u.pending? with
  | .retryFailedJob id, some (.selectFailedJob id') => id ≠ id'
  | .retryFailedJob _, _ => !decide u.Ended
  | _, _ => false

def Transition.readsAlone (t : Transition State Step) : Bool :=
  match t.call? with
  | some (.selectFailedJob _) => !t.before.threads.any retriesNow
  | _ => true

theorem retriesApart_of_readsAlone {t : Transition State Step} (h : t.readsAlone = true)
    (videoId : String) : RetriesApart videoId t.before t.act := by
  rintro i f u id record hact hget htask hpending - - v hv id' record' htask' - -
  have hcall : t.call? = some (.selectFailedJob id) := by
    rw [Transition.call?, hact]
    simp [hget, hpending]
  rw [Transition.readsAlone, hcall] at h
  have hidle : retriesNow v = false := by
    simp only [Bool.not_eq_true', List.any_eq_false, Bool.not_eq_true] at h
    exact h v hv
  unfold retriesNow at hidle
  rw [htask'] at hidle
  cases hp : v.pending? with
  | none => exact .inr (by simpa [hp] using hidle)
  | some c =>
      rw [hp] at hidle
      cases c with
      | selectFailedJob id'' =>
          obtain rfl : id' = id'' := by simpa using hidle
          exact .inl rfl
      | _ => exact .inr (by simpa using hidle)

def restsAt (videoId : String) (s : State) : Bool :=
  s.threads.all (fun t ↦ !(stageOf t).pendingFor videoId) &&
    s.state.queue.jobs.rows.all fun q ↦
      match q.state with
      | .active _ => false
      | _ => true

theorem atRest_of_restsAt {videoId : String} {s : State} (h : restsAt videoId s = true) :
    AtRest videoId s := by
  obtain ⟨hcalls, hjobs⟩ := Bool.and_eq_true_iff.mp h
  constructor
  · intro t ht
    simpa using List.all_eq_true.mp hcalls t ht
  · intro q hq _ i t phase hstate
    have hidle := List.all_eq_true.mp hjobs q hq
    rw [hstate] at hidle
    cases hidle

/-- The provider refuses the video, the failure is recorded and the record is retried. -/
def refusedAndRetried : List Step :=
  linkedActs ++ [.env (.settle 1), .invoke (.retryFailedJob "record")] ++
    List.replicate 6 (okStep 3)

theorem exists_retried_run : ∃ (ts : List (Transition State Step)) (s : State),
    Run (system ⟨"bucket", none, "region"⟩).step ⟨World.empty, []⟩ ts s ∧
      Undivided "video" ts ∧ AtRest "video" s ∧ s.state.statusOf "video" = some .pending ∧
      ts.length = refusedAndRetried.length := by
  obtain ⟨ts, s, hrun, hacts, hobs⟩ := Run.exists_of_follow
    (system ⟨"bucket", none, "region"⟩).step ⟨World.empty, []⟩ refusedAndRetried
    (fun p ↦ (p.1.any Transition.disturbed, p.1.all Transition.readsAlone,
      restsAt "video" p.2, p.2.state.statusOf "video"))
    (false, true, true, some .pending) (by decide +kernel)
  have hinvoke : ∀ a ∈ refusedAndRetried, a.InvokesOnly fun task ↦ task.Request ∧ task.Keeps := by
    decide
  simp only [Prod.mk.injEq] at hobs
  obtain ⟨hcalm, halone, hrests, hstatus⟩ := hobs
  refine ⟨ts, s, hrun, ?_, atRest_of_restsAt hrests, hstatus, by rw [← hacts, List.length_map]⟩
  intro t ht
  constructor
  · apply orderly_of_undisturbed (hinvoke _ (hacts ▸ List.mem_map_of_mem ht))
    simpa using List.any_eq_false.mp hcalm t ht
  · exact retriesApart_of_readsAlone (List.all_eq_true.mp halone t ht) "video"

theorem exactly_one_responsible_retried : ∃ (ts : List (Transition State Step)) (s : State),
    Run (system ⟨"bucket", none, "region"⟩).step ⟨World.empty, []⟩ ts s ∧
      Undivided "video" ts ∧ AtRest "video" s ∧ s.state.statusOf "video" = some .pending ∧
      Accounted (s.state.statusOf "video") (s.state.liveJobsOf "video")
        (s.state.unretriedOf "video") ∧
      s.state.recordsOf "video" = s.state.failedJobsOf "video" ∧
      (s.state.retryJobIdsOf "video").Nodup := by
  obtain ⟨ts, s, hrun, hundivided, hrest, hstatus, -⟩ := exists_retried_run
  exact ⟨ts, s, hrun, hundivided, hrest, hstatus, exactly_one_responsible hrun hundivided hrest⟩

theorem situation_at_rest_retried : ∃ (ts : List (Transition State Step)) (s : State),
    Run (system ⟨"bucket", none, "region"⟩).step ⟨World.empty, []⟩ ts s ∧
      Undivided "video" ts ∧ AtRest "video" s ∧ s.state.statusOf "video" = some .pending ∧
      (∃! situation : Situation, situation.Holds s.state "video") ∧
      s.state.recordsOf "video" = s.state.failedJobsOf "video" ∧
      ∀ record ∈ s.state.failedJobs.rows, record.videoId = "video" → record.retried = true →
        ∃ text, record.retryJobId = some text ∧
          ∀ record' ∈ s.state.failedJobs.rows, record'.videoId = "video" →
            record'.retried = true → record'.retryJobId = some text → record' = record := by
  obtain ⟨ts, s, hrun, hundivided, hrest, hstatus, -⟩ := exists_retried_run
  obtain ⟨hsituation, hrecords⟩ := situation_at_rest hrun hundivided hrest
  exact ⟨ts, s, hrun, hundivided, hrest, hstatus, hsituation (by simp [hstatus]), hrecords⟩

theorem run_refines_lifeCycle_retried : ∃ (ts : List (Transition State Step)) (s : State),
    Run (system ⟨"bucket", none, "region"⟩).step ⟨World.empty, []⟩ ts s ∧
      ts.length = refusedAndRetried.length ∧ Undivided "video" ts ∧
      ∀ t ∈ ts, Ledger.Step (ledgerOf "video" t.before) (ledgerOf "video" t.after) := by
  obtain ⟨ts, s, hrun, hundivided, -, -, hlength⟩ := exists_retried_run
  exact ⟨ts, s, hrun, hlength, hundivided, run_refines_lifeCycle hrun hundivided⟩

end VideoGen
