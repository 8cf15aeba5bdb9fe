import VideoGen.Settlement

/-!
# The final event of a settled job

A job that settles as failed announced the failure once.  A job that settles
as completed announced the completion once, unless its last attempt found
the row completed by an earlier one and returned: the earlier attempt had
completed the row and threw before it came to the announcement.
-/

namespace VideoGen

/-- The row and the final events since `w` tell the same end. -/
structure EndMatches (job : Job) (w : World) (s : State) (row : Video) : Prop where
  completed : row.status = .completed ↔ ∃ event : VideoCompletedEvent,
    row.videoUrl = some event.videoUrl ∧
    s.state.finalEvents job.data.videoId = w.finalEvents job.data.videoId ++ [.completed event]
  failed : row.status = .failed ↔ ∃ event : VideoFailedEvent,
    s.state.finalEvents job.data.videoId = w.finalEvents job.data.videoId ++ [.failed event]

/-- An attempt reads the row when it is already completed. -/
def ReadsCompleted (job : Job) (t : Transition State Step) : Prop :=
  t.before.state.statusOf job.data.videoId = some .completed ∧
    ∃ i n, Receives t i (.process (job.attempt n)) (.selectVideo job.data.videoId)

section System

variable {config : StorageConfig} {s s' : State} {job : Job}

/-! ## What an attempt has read -/

theorem loaded_of_next {phase : Phase} {c : Call} {r : Except Thrown c.Reply}
    (hallows : WorkerAllows job phase c) {status : VideoStatus}
    (h : phase.next c r = .loaded status) :
    phase = .fresh ∧ c = .selectVideo job.data.videoId := by
  cases hallows with
  | load => exact ⟨rfl, rfl⟩
  | start expected hallowed =>
      rcases r with e | n
      · cases h
      · change (if (n : ℕ) = 0 then Phase.skipped else Phase.working) = _ at h
        split at h <;> cases h
  | quiet _ hquiet =>
      rw [Phase.next_quiet hquiet] at h
      rcases r with e | x
      · by_cases hcaught : c.Caught = true <;> simp [hcaught] at h
      · cases h
  | progress u => rcases r with e | n <;> cases h
  | complete url thumbnail hurl => rcases r with e | n <;> cases h
  | stamp applied event => rcases r with e | n <;> cases h
  | cache applied event key value => rcases r with e | n <;> cases h
  | record applied event => rcases r with e | n <;> cases h
  | announce applied event => cases h
  | mark _ hphase hfinal message =>
      rw [next_mark hphase] at h
      rcases r with e | n <;> cases h
  | evict message key => rcases r with e | x <;> cases h
  | report message => rcases r with e | x <;> cases h

theorem receives_of_loaded {w : World} {ts : List (Transition State Step)}
    (hrun : Run (system config).step ⟨w, []⟩ ts s) {i : ℕ} {t : Worker} {status : VideoStatus}
    (hget : s.threads[i]? = some t) (hstage : stageOf t = .worker job (.loaded status)) :
    ∃ u ∈ ts, u.before.state.statusOf job.data.videoId = some status ∧
      Receives u i (.process job) (.selectVideo job.data.videoId) := by
  induction hrun generalizing i t with
  | nil => simp at hget
  | @snoc ts s s' a head last ih =>
      rcases thread_cases last (run_conforming head) hget with
        ⟨t₀, ht₀, -, -, -, hstage₀, -⟩ | ⟨-, task, rfl⟩ | ⟨f, t₀, c, r, rfl, h⟩
      · obtain ⟨u, hu, hreads⟩ := ih ht₀ (hstage₀ ▸ hstage)
        exact ⟨u, List.mem_append_left _ hu, hreads⟩
      · cases fresh_of_start hstage
      · obtain ⟨phase, hphase, hallows, hnext⟩ := worker_of_answered h hstage
        obtain ⟨rfl, rfl⟩ := loaded_of_next hallows hnext.symm
        refine ⟨⟨s, .call i f, s'⟩, by simp, ?_⟩
        have htask : t₀.task = .process job := by
          rw [← task_stageOf, hphase]
          rfl
        have hexec : s.state.exec (.selectVideo job.data.videoId) f = some (s'.state, r) :=
          h.exec
        rcases World.exec_cases hexec with ⟨a, x, rfl, hx, rfl⟩ | ⟨e, -, -, -, rfl⟩ |
          ⟨a, e, x, -, -, -, rfl⟩
        · obtain ⟨-, rfl⟩ := World.answer_selectVideo hx
          refine ⟨?_, a, t₀, rfl, h.get, htask, h.pending⟩
          cases hrow : s.state.videos.find? job.data.videoId with
          | none =>
              rw [hrow] at hnext
              cases hnext
          | some row =>
              rw [hrow] at hnext
              have hstatus : status = row.status := Phase.loaded.inj hnext
              rw [hstatus]
              exact World.statusOf_eq_some_iff.mpr ⟨row, hrow, rfl⟩
        · cases hnext
        · cases hnext

theorem loaded_of_receives {w : World} {ts : List (Transition State Step)}
    (hrun : Run (system config).step ⟨w, []⟩ ts s) {u : Transition State Step} (hu : u ∈ ts)
    {i : ℕ} (hreads : Receives u i (.process job) (.selectVideo job.data.videoId))
    (hcompleted : u.before.state.statusOf job.data.videoId = some .completed) :
    ∃ t, s.threads[i]? = some t ∧ stageOf t = .worker job (.loaded .completed) := by
  induction hrun with
  | nil => simp at hu
  | @snoc ts s s' a head last ih =>
      rcases List.mem_append.mp hu with hu | hu
      · obtain ⟨t, hget, hstage⟩ := ih hu
        obtain ⟨t', hget', (rfl | ⟨-, rfl⟩) | ⟨f, c, r, -, hcall⟩⟩ :=
          thread_step last (run_conforming head) hget
        · exact ⟨t', hget', hstage⟩
        · exact ⟨_, hget', hstage⟩
        · exfalso
          have hallows := allows_of_answered hcall
          rw [hstage] at hallows
          cases hallows with
          | worker hallows =>
              cases hallows with
              | start _ hallowed => exact absurd hallowed (by decide)
              | mark _ hphase => rcases hphase with h | h <;> cases h
      · obtain rfl := List.mem_singleton.mp hu
        obtain ⟨b, t, rfl, hget, htask, hpending⟩ := hreads
        obtain ⟨t₀, t', c, r, h⟩ := answered_of_step last (run_conforming head)
        obtain rfl : t = t₀ := Option.some.inj (hget.symm.trans h.get)
        obtain rfl : .selectVideo job.data.videoId = c :=
          Option.some.inj (hpending.symm.trans h.pending)
        refine ⟨t', h.get_self, ?_⟩
        obtain ⟨phase, hphase⟩ := stageOf_process htask
        have hallows := allows_of_answered h
        have hnext := stageOf_of_answered h
        rw [hphase] at hallows hnext
        rw [hnext]
        obtain ⟨row, hrow, hstatus⟩ := World.statusOf_eq_some_iff.mp hcompleted
        have hexec : s.state.exec (.selectVideo job.data.videoId) (.ok b) = some (s'.state, r) :=
          h.exec
        rcases World.exec_cases hexec with ⟨b', x, -, hx, rfl⟩ | ⟨e, hf, -⟩ | ⟨b', e, x, hf, -⟩
        · obtain ⟨-, rfl⟩ := World.answer_selectVideo hx
          cases hallows with
          | worker hallows =>
              cases hallows with
              | load =>
                  change Stage.worker job (Phase.next .fresh (.selectVideo _)
                    (.ok (s.state.videos.find? job.data.videoId))) = _
                  have hbefore : s.state.videos.find? job.data.videoId = some row := hrow
                  rw [hbefore, ← hstatus]
                  rfl
              | quiet _ hquiet => cases hquiet
        · cases hf
        · cases hf

/-! ## Settled jobs -/

/-- Once the queue has settled the job, row and final events match exactly if no
attempt read a completed row. -/
theorem end_matches_iff {w : World} {ts : List (Transition State Step)} (hw : Awaits job w)
    (hrun : Run (system config).step ⟨w, []⟩ ts s)
    (hregular : ∀ t ∈ ts, Regular job t.before t.act) {q : QueuedJob} {row : Video}
    (hq : s.state.queue.find? job.id = some q)
    (hrow : s.state.videos.find? job.data.videoId = some row)
    (hsettled : q.state = .completed ∨ q.state = .failed) :
    EndMatches job w s row ↔ ∀ t ∈ ts, ¬ReadsCompleted job t := by
  obtain ⟨q', row', news, h⟩ := run_progresses hw hrun hregular
  obtain rfl := Option.some.inj (hq.symm.trans h.found)
  obtain rfl := Option.some.inj (hrow.symm.trans h.stored)
  have hisOf : q.job = job.attempt q.job.attemptsMade := h.attempts.isOf
  have hagrees := h.agrees
  unfold Agrees at hagrees
  -- An attempt that read a completed row is the one with which the job completed.
  have hread {t : Transition State Step} (ht : t ∈ ts) (hreads : ReadsCompleted job t) :
      ∃ (i : ℕ) (u : Worker), s.threads[i]? = some u ∧
        stageOf u = .worker q.job (.loaded .completed) ∧ q.state = .completed := by
    obtain ⟨hcompleted, i, n, hreceives⟩ := hreads
    have hsame : (job.attempt n).data.videoId = job.data.videoId := rfl
    rw [← hsame] at hcompleted hreceives
    obtain ⟨u, hget, hstage⟩ := loaded_of_receives hrun ht hreceives hcompleted
    have htask : u.task = .process (job.attempt n) := by
      rw [← task_stageOf, hstage]
      rfl
    obtain ⟨m, hm, ⟨-, e, hprog⟩ | ⟨hcurrent, hstate⟩⟩ :=
      h.attempts.number i u hget (by rw [htask]; rfl)
    · exfalso
      have hends : Stage.Ends (stageOf u) (.error e) :=
        (run_conforming hrun u (List.mem_of_getElem? hget)).post stageProtocol Stage.init
          Stage.Ends hprog
      rw [hstage] at hends
      exact hends
    · obtain rfl := Job.attempt_inj (htask.symm.trans hm)
      rw [hcurrent, ← hisOf] at hstage
      refine ⟨i, u, hget, hstage, ?_⟩
      rcases hsettled with hcompletedState | hfailedState
      · exact hcompletedState
      · rcases hstate with hactive | hcompletedState
        · rw [hfailedState] at hactive
          cases hactive
        · exact hcompletedState
  rcases hsettled with hstate | hstate
  · simp only [hstate] at hagrees
    obtain ⟨t, ht, phase, hstage, hfits, rfl | ⟨applied, event, rfl⟩⟩ := hagrees
    · obtain ⟨hstatus, -, rfl⟩ := hfits
      have hevents : s.state.finalEvents job.data.videoId =
          w.finalEvents job.data.videoId := by
        rw [h.events]
        simp
      constructor
      · intro hmatches
        obtain ⟨event, -, heq⟩ := hmatches.completed.mp hstatus
        rw [hevents] at heq
        simp at heq
      · intro hnone
        obtain ⟨i, hget⟩ := List.getElem?_of_mem ht
        obtain ⟨u, hu, hcompleted, hreceives⟩ := receives_of_loaded hrun hget hstage
        have hvideo : q.job.data.videoId = job.data.videoId := by
          rw [hisOf]
          rfl
        rw [hvideo] at hcompleted hreceives
        rw [hisOf] at hreceives
        exact absurd ⟨hcompleted, i, _, hreceives⟩ (hnone u hu)
    · obtain ⟨hstatus, hurl, -, rfl⟩ := hfits
      constructor
      · intro _ u hu hreads
        obtain ⟨i, t', hget', hstage', -⟩ := hread hu hreads
        obtain ⟨j, hget⟩ := List.getElem?_of_mem ht
        have htask {v : Worker} {p : Phase} (hv : stageOf v = .worker q.job p) :
            v.task = .process (job.attempt q.job.attemptsMade) := by
          rw [← task_stageOf, hv]
          exact congrArg Task.process hisOf
        obtain rfl := h.attempts.distinct i j t' t _ hget' hget (htask hstage') (htask hstage)
        obtain rfl := Option.some.inj (hget.symm.trans hget')
        rw [hstage] at hstage'
        cases hstage'
      · intro _
        constructor
        · constructor
          · intro _
            exact ⟨event, hurl, h.events⟩
          · intro _
            exact hstatus
        · constructor
          · intro hfailed
            rw [hstatus] at hfailed
            cases hfailed
          · rintro ⟨event', heq⟩
            rw [h.events, List.append_cancel_left_eq] at heq
            cases heq
  · simp only [hstate] at hagrees
    obtain ⟨t, ht, n, e, -, -, -, -, hstatus, -, rfl⟩ := hagrees
    constructor
    · intro _ u hu hreads
      obtain ⟨i, t', -, -, hcompleted⟩ := hread hu hreads
      rw [hstate] at hcompleted
      cases hcompleted
    · intro _
      constructor
      · constructor
        · intro hcompleted
          rw [hstatus] at hcompleted
          cases hcompleted
        · rintro ⟨event', -, heq⟩
          rw [h.events, List.append_cancel_left_eq] at heq
          cases heq
      · constructor
        · intro _
          exact ⟨_, h.events⟩
        · intro _
          exact hstatus

end System

/-! ## An announcement that is made and one that is lost -/

def completingActs (i : ℕ) : List Step :=
  [.env (.take 1), okStep i, okStep i] ++ renderActs i "url" ++ List.replicate 3 (okStep i)

/-- The first attempt cannot read the row, the second one succeeds. -/
def secondAttemptActs : List Step :=
  [.env (.take 1), .call 0 (.rejected (.instance .error "connection")), .env (.settle 1)] ++
    completingActs 1 ++ List.replicate 2 (okStep 1) ++ [.env (.settle 1)]

/-- The first attempt completes the row and its `job.updateProgress(100)` is rejected;
the second attempt finds the row completed and returns. -/
def lostAnnouncementActs : List Step :=
  completingActs 0 ++ [.call 0 (.rejected (.instance .error "connection")), .env (.settle 1),
    .env (.take 1), okStep 1, .env (.settle 1)]

def readsCompleted (t : Transition State Step) : Bool :=
  match t.call? with
  | some (.selectVideo videoId) => t.before.state.statusOf videoId = some .completed
  | _ => false

theorem readsCompleted_of_reads {job : Job} {t : Transition State Step}
    (h : ReadsCompleted job t) : readsCompleted t = true := by
  obtain ⟨hcompleted, i, n, hreceives⟩ := h
  simp [readsCompleted, call?_of_executes hreceives.executes, hcompleted]

theorem end_matches_second_attempt :
    ∃ (ts : List (Transition State Step)) (s : State) (q : QueuedJob) (row : Video),
      Run (system ⟨"bucket", none, "region"⟩).step ⟨soloWorld, []⟩ ts s ∧
      s.state.queue.find? soloJob.id = some q ∧ q.state = .completed ∧
      s.state.videos.find? "video" = some row ∧ EndMatches soloJob soloWorld s row := by
  obtain ⟨ts, s, hrun, -, hobs⟩ := Run.exists_of_follow
    (system ⟨"bucket", none, "region"⟩).step ⟨soloWorld, []⟩ secondAttemptActs
    (fun p ↦ (p.1.all (regular soloJob), p.1.any readsCompleted,
      (p.2.state.queue.find? 1).map QueuedJob.state, p.2.state.statusOf "video"))
    (true, false, some .completed, some .completed) (by decide +kernel)
  simp only [Prod.mk.injEq] at hobs
  obtain ⟨hregular, hreads, hstate, hstatus⟩ := hobs
  obtain ⟨q, hq, hcompleted⟩ := Option.map_eq_some_iff.mp hstate
  obtain ⟨row, hrow, -⟩ := World.statusOf_eq_some_iff.mp hstatus
  refine ⟨ts, s, q, row, hrun, hq, hcompleted, hrow, (end_matches_iff soloWorld_awaits hrun ?_ hq
    hrow (.inl hcompleted)).mpr ?_⟩
  · intro t ht
    exact regular_of_regular (List.all_eq_true.mp hregular t ht)
  · intro t ht h
    have hany : ts.any readsCompleted = true :=
      List.any_eq_true.mpr ⟨t, ht, readsCompleted_of_reads h⟩
    rw [hreads] at hany
    cases hany

theorem lost_announcement :
    ∃ (ts : List (Transition State Step)) (s : State) (q : QueuedJob) (row : Video),
      Run (system ⟨"bucket", none, "region"⟩).step ⟨soloWorld, []⟩ ts s ∧
      Awaits soloJob soloWorld ∧ (∀ t ∈ ts, Regular soloJob t.before t.act) ∧
      s.state.queue.find? soloJob.id = some q ∧ q.state = .completed ∧
      s.state.videos.find? "video" = some row ∧ ¬EndMatches soloJob soloWorld s row := by
  obtain ⟨ts, s, hrun, -, hobs⟩ := Run.exists_of_follow
    (system ⟨"bucket", none, "region"⟩).step ⟨soloWorld, []⟩ lostAnnouncementActs
    (fun p ↦ (p.1.all (regular soloJob), (p.2.state.queue.find? 1).map QueuedJob.state,
      p.2.state.statusOf "video", p.2.state.finalEvents "video"))
    (true, some .completed, some .completed, []) (by decide +kernel)
  simp only [Prod.mk.injEq] at hobs
  obtain ⟨hregular, hstate, hstatus, hevents⟩ := hobs
  obtain ⟨q, hq, hcompleted⟩ := Option.map_eq_some_iff.mp hstate
  obtain ⟨row, hrow, hrowStatus⟩ := World.statusOf_eq_some_iff.mp hstatus
  refine ⟨ts, s, q, row, hrun, soloWorld_awaits, ?_, hq, hcompleted, hrow, ?_⟩
  · intro t ht
    exact regular_of_regular (List.all_eq_true.mp hregular t ht)
  · intro hmatches
    obtain ⟨event, -, heq⟩ := hmatches.completed.mp hrowStatus
    have hvideo : soloJob.data.videoId = "video" := rfl
    rw [hvideo, hevents] at heq
    simp at heq

end VideoGen
