import VideoGen.Changes
import VideoGen.JobNames
import VideoGen.Lib.Net

/-!
# Every retry notes its own job

A retry holds the id of the job that it has added until it notes it in its
record.  Job ids are handed out once, so no id is held by two retries, held
and noted, or noted in two records, whatever fails and however often a record
is retried.
-/

namespace VideoGen

def Retry.added? : Retry → Option ℕ
  | .stamping _ jobId => some jobId
  | .linking _ jobId _ => some jobId
  | .marking _ jobId _ => some jobId
  | _ => none

def Stage.added? : Stage → Option String
  | .retrying _ retry => retry.added?.map toString
  | _ => none

def holds (t : Worker) : Option String := (stageOf t).added?

/-- How often each text is held as a job id by a retry or noted by a record. -/
def notes (s : State) : Marking String :=
  census holds s.threads + census FailedJob.retryJobId s.state.failedJobs.rows

/-- The call is the caller's own business as far as records and jobs are concerned. -/
def Task.Minds : Task → Call → Prop
  | .service _, c => c.RowsOnly
  | _, _ => True

theorem Task.minds_body (config : StorageConfig) (task : Task) :
    (task.body config).Calls task.Minds := by
  cases task with
  | service call => exact call.calls_body
  | _ => exact Program.calls_of_forall (fun _ ↦ trivial) _

/-- Each job id is held or noted at most once, and it has been handed out. -/
structure NotedOnce (s : State) : Prop where
  conforming : Conforming s
  minds : ∀ t ∈ s.threads, t.prog.Calls t.task.Minds
  once : ∀ x, notes s x ≤ 1
  handed : ∀ x, 0 < notes s x → ∃ n, 1 ≤ n ∧ n ≤ s.state.queue.lastId ∧ x = toString n

section System

variable {config : StorageConfig} {s s' : State} {i : ℕ} {f : Fate} {t t' : Worker} {c : Call}
  {r : Except Thrown c.Reply}

/-! ## What a call does to the notes -/

theorem minds_of_answered (hs : NotedOnce s) (h : Answered config s s' i f t t' c r) :
    (stageOf t).task.Minds c := by
  obtain ⟨next, hprog⟩ := Thread.pending?_eq_some_iff.mp h.pending
  have hcalls := hs.minds t (List.mem_of_getElem? h.get)
  rw [hprog] at hcalls
  rw [task_stageOf]
  exact hcalls.1

theorem holds_of_stage {u : Worker} {stage : Stage} (hstage : stageOf u = stage) :
    holds u = stage.added? := congrArg _ hstage

theorem census_holds_listeners (c : Call) :
    census holds ((listeners c).map (system config).start) = 0 := by
  apply census_eq_zero
  intro u hu
  obtain ⟨task, htask, rfl⟩ := List.mem_map.mp hu
  obtain ⟨event, rfl⟩ := listeners_tasks c task htask
  rfl

theorem fires_holds (h : Answered config s s' i f t t' c r) : Fires (token (holds t))
    (token (holds t')) (census holds s.threads) (census holds s'.threads) := by
  have hthreads : s'.threads = s.threads.set i t' ++
    (listeners c).map (system config).start := h.threads_eq
  rw [hthreads, census_append, census_holds_listeners, add_zero]
  exact fires_set holds h.get t'

theorem notes_of_thread (h : Answered config s s' i f t t' c r)
    (hrecords : s'.state.failedJobs = s.state.failedJobs)
    (hholds : holds t' = holds t ∨ holds t' = none) (x : String) : notes s' x ≤ notes s x := by
  have hx := (fires_holds h).apply x
  simp only [notes, hrecords, Pi.add_apply]
  rcases hholds with heq | heq
  · rw [heq] at hx
    omega
  · rw [heq, token_none, Pi.zero_apply] at hx
    omega

theorem notes_of_mark {id : String} {record : FailedJob} {jobId now : ℕ}
    {r : Except Thrown (Call.markRetried id now (toString jobId)).Reply}
    (h : Answered config s s' i f t t' (.markRetried id now (toString jobId)) r)
    (hstage : stageOf t = .retrying id (.marking record jobId now)) (x : String) :
    notes s' x ≤ notes s x := by
  have hstage' : stageOf t' = .retrying id
      ((Retry.marking record jobId now).next (.markRetried id now (toString jobId)) r) := by
    rw [stageOf_of_answered h, hstage]
    rfl
  have hholds : holds t = some (toString jobId) := holds_of_stage hstage
  have hdone : holds t' = none := by
    rw [holds_of_stage hstage']
    rcases r with e | y <;> rfl
  have hx := (fires_holds h).apply x
  rw [hholds, hdone, token_none, Pi.zero_apply] at hx
  rcases World.exec_effect h.exec with ⟨-, hw, -⟩ | ⟨-, b, y, hy, -⟩
  · simp only [notes, hw, Pi.add_apply]
    omega
  cases hstored : s.state.failedJobs.find? id with
  | none =>
      have hkept : s'.state.failedJobs.rows = s.state.failedJobs.rows := by
        rw [World.answer_markRetried hy]
        have hmissing := Table.find?_eq_none_iff.mp hstored
        have hmap : s.state.failedJobs.rows.map (fun q ↦ if q.id = id then
            q.markRetried now (toString jobId) else q) = s.state.failedJobs.rows.map fun q ↦ q := by
          apply List.map_congr_left
          intro q hq
          apply if_neg
          rintro rfl
          exact hmissing (List.mem_map_of_mem hq)
        exact hmap.trans (List.map_id' _)
      simp only [notes, hkept, Pi.add_apply]
      omega
  | some stored =>
      have hrecords := (fires_modify FailedJob.retryJobId FailedJob.retryJobId hstored
        (fun q ↦ q.markRetried now (toString jobId))
        (fun q ↦ q.markRetried_id now (toString jobId)) fun _ _ _ ↦ rfl).apply x
      have hmarked : (stored.markRetried now (toString jobId)).retryJobId =
          some (toString jobId) := rfl
      rw [hmarked] at hrecords
      simp only [notes, World.answer_markRetried hy, Pi.add_apply]
      change _ + census FailedJob.retryJobId (s.state.failedJobs.modify id
        (fun q ↦ q.markRetried now (toString jobId))
        fun q ↦ q.markRetried_id now (toString jobId)).rows x ≤ _
      omega

theorem notes_of_save {event : VideoFailedEvent} {video : Option Video}
    {r : Except Thrown (Call.insertFailedJob (failedJobFields event video)).Reply}
    (h : Answered config s s' i f t t' (.insertFailedJob (failedJobFields event video)) r)
    (hstage : stageOf t = .listening event (.saving video)) (x : String) :
    notes s' x ≤ notes s x := by
  have hstage' : stageOf t' = .listening event ((Recording.saving video).next
      (.insertFailedJob (failedJobFields event video)) r) := by
    rw [stageOf_of_answered h, hstage]
    rfl
  have hx := (fires_holds h).apply x
  rw [holds_of_stage hstage, holds_of_stage hstage'] at hx
  simp only [Stage.added?, token_none, Pi.zero_apply, Nat.add_zero] at hx
  rcases World.exec_effect h.exec with ⟨-, hw, -⟩ | ⟨-, b, y, hy, -⟩
  · simp only [notes, hw, Pi.add_apply]
    omega
  · obtain ⟨id, rfl, hid, hinsert⟩ := World.answer_insertFailedJob hy
    have hrecords : census FailedJob.retryJobId s'.state.failedJobs.rows =
        census FailedJob.retryJobId s.state.failedJobs.rows := by
      have hnone : (FailedJob.create id (failedJobFields event video) s.state.now).retryJobId =
          none := rfl
      have hrows : s'.state.failedJobs.rows = s.state.failedJobs.rows ++
        [FailedJob.create id (failedJobFields event video) s.state.now] := by rw [hinsert]; rfl
      rw [hrows, census_append, census_singleton, hnone, token_none, add_zero]
    simp only [notes, hrecords, Pi.add_apply]
    omega

theorem notes_of_call (hs : NotedOnce s) (h : Answered config s s' i f t t' c r) :
    (∀ x, notes s' x ≤ notes s x) ∨
      s'.state.queue.lastId = s.state.queue.lastId + 1 ∧
        ∀ x, notes s' x ≤ notes s x + token (some (toString (s.state.queue.lastId + 1))) x := by
  have hallows := allows_of_answered h
  have hnext := stageOf_of_answered h
  have hminds := minds_of_answered hs h
  have hkept (hwrites : c.WritesFailedJobs = false) :
      s'.state.failedJobs = s.state.failedJobs := World.exec_failedJobs h.exec hwrites
  generalize hstage : stageOf t = stage at hallows hnext hminds
  have hnone : holds t' = none → c.WritesFailedJobs = false →
      ∀ x, notes s' x ≤ notes s x := fun hholds hwrites ↦
    notes_of_thread h (hkept hwrites) (.inr hholds)
  cases hallows with
  | worker hallows =>
      left
      apply hnone (holds_of_stage hnext)
      cases hallows with
      | quiet _ hquiet => cases c <;> first | rfl | cases hquiet
      | _ => rfl
  | creating hallows =>
      left
      apply hnone (holds_of_stage hnext)
      cases hallows <;> rfl
  | removing hallows =>
      left
      apply hnone (holds_of_stage hnext)
      cases hallows <;> rfl
  | service call => exact .inl (hnone (holds_of_stage hnext) hminds.1)
  | listening hallows =>
      left
      cases hallows with
      | read => exact hnone (holds_of_stage hnext) rfl
      | save video => exact notes_of_save h hstage
  | @retrying id retry _ hallows =>
      cases hallows with
      | look =>
          left
          apply hnone _ rfl
          rw [holds_of_stage hnext]
          rcases r with e | _ | record
          · rfl
          · rfl
          · change (Stage.retrying id (if record.retried = true then Retry.thrown
              else .resetting record)).added? = none
            split <;> rfl
      | reset record =>
          left
          apply hnone _ rfl
          rw [holds_of_stage hnext]
          rcases r with e | n <;> rfl
      | add record =>
          rcases r with e | n
          · exact .inl (hnone (holds_of_stage hnext) rfl)
          · right
            obtain ⟨-, b, hb⟩ := World.exec_ok h.exec
            obtain ⟨hqueue, rfl⟩ := World.answer_queueAdd hb
            refine ⟨congrArg Queue.lastId hqueue, fun x ↦ ?_⟩
            have hx := (fires_holds h).apply x
            rw [holds_of_stage hnext] at hx
            change _ = _ + token (some (toString (s.state.queue.lastId + 1))) x at hx
            simp only [notes, hkept rfl, Pi.add_apply]
            omega
      | stamp record jobId =>
          left
          apply notes_of_thread h (hkept rfl)
          rw [holds_of_stage hstage, holds_of_stage hnext]
          rcases r with e | n
          · exact .inr rfl
          · exact .inl rfl
      | link record jobId now =>
          left
          apply notes_of_thread h (hkept rfl)
          rw [holds_of_stage hstage, holds_of_stage hnext]
          rcases r with e | n
          · exact .inr rfl
          · exact .inl rfl
      | mark record jobId now => exact .inl (notes_of_mark h hstage)

/-! ## Runs -/

theorem census_holds_started (config : StorageConfig) (tasks : List Task) :
    census holds (tasks.map (system config).start) = 0 := by
  apply census_eq_zero
  intro u hu
  obtain ⟨task, -, rfl⟩ := List.mem_map.mp hu
  cases task <;> rfl

theorem NotedOnce.step {a : Step} (hs : NotedOnce s)
    (hstep : (system config).step s a = some s') : NotedOnce s' := by
  have hkept (hle : ∀ x, notes s' x ≤ notes s x)
      (hlast : s.state.queue.lastId ≤ s'.state.queue.lastId) :
      (∀ x, notes s' x ≤ 1) ∧
        ∀ x, 0 < notes s' x → ∃ n, 1 ≤ n ∧ n ≤ s'.state.queue.lastId ∧ x = toString n := by
    constructor
    · intro x
      exact (hle x).trans (hs.once x)
    · intro x hx
      obtain ⟨n, hpos, hn, rfl⟩ := hs.handed x (hx.trans_le (hle x))
      exact ⟨n, hpos, hn.trans hlast, rfl⟩
  have hcounts : (∀ x, notes s' x ≤ 1) ∧
      ∀ x, 0 < notes s' x → ∃ n, 1 ≤ n ∧ n ≤ s'.state.queue.lastId ∧ x = toString n := by
    cases a with
    | invoke task =>
        obtain rfl := Option.some.inj hstep
        refine hkept (fun x ↦ ?_) (Nat.le_refl _)
        have hstarted := census_holds_started config [task]
        rw [List.map_singleton] at hstarted
        simp only [notes, census_append, hstarted, Pi.add_apply, Pi.zero_apply]
        omega
    | crash j =>
        obtain ⟨u, hu, rfl⟩ := (system config).step_crash_cases hstep
        refine hkept (fun x ↦ ?_) (Nat.le_refl _)
        have hfires := (fires_set holds hu { u with crashed := true }).apply x
        have hsame : holds { u with crashed := true } = holds u := rfl
        rw [hsame] at hfires
        simp only [notes, Pi.add_apply]
        omega
    | env l =>
        obtain ⟨w, tasks, henv, rfl⟩ := (system config).step_env_cases hstep
        have hlast : w.queue.lastId = s.state.queue.lastId := by
          rcases envStep_queue henv with ⟨hqueue, -⟩ | ⟨id, q, g, hg, -, rfl, -⟩
          · rw [hqueue]
          · rfl
        refine hkept (fun x ↦ ?_) (Nat.le_of_eq hlast.symm)
        have hstarted := census_holds_started config tasks
        simp only [notes, (envStep_frame henv).2.1, census_append, hstarted, Pi.add_apply,
          Pi.zero_apply]
        omega
    | call i f =>
        obtain ⟨t, t', c, r, h⟩ := answered_of_step hstep hs.conforming
        rcases notes_of_call hs h with hle | ⟨hlast, hle⟩
        · apply hkept hle
          rcases World.queue_cases h.exec with hqueue | ⟨name, data, opts, -, hqueue⟩
          · rw [hqueue]
          · rw [hqueue, Queue.lastId_add]
            omega
        · have hfresh : notes s (toString (s.state.queue.lastId + 1)) = 0 := by
            apply Nat.eq_zero_of_not_pos
            intro hpos
            obtain ⟨n, -, hn, heq⟩ := hs.handed _ hpos
            have hsame := toString_jobId_inj heq
            omega
          constructor
          · intro x
            have hx := hle x
            by_cases hnew : x = toString (s.state.queue.lastId + 1)
            · subst hnew
              rw [hfresh, token_some_self] at hx
              exact hx
            · have hold := hs.once x
              rw [token, if_neg fun heq ↦ hnew (Option.some.inj heq).symm] at hx
              omega
          · intro x hx
            have hx' := hle x
            rw [hlast]
            by_cases hnew : x = toString (s.state.queue.lastId + 1)
            · exact ⟨_, Nat.le_add_left _ _, Nat.le_refl _, hnew⟩
            · rw [token, if_neg fun heq ↦ hnew (Option.some.inj heq).symm] at hx'
              obtain ⟨n, hpos, hn, heq⟩ := hs.handed x (by omega)
              exact ⟨n, hpos, by omega, heq⟩
  constructor
  · exact step_conforming hstep hs.conforming
  · exact Machine.step_calls (Task.minds_body config) hstep hs.minds
  · exact hcounts.1
  · exact hcounts.2

theorem notedOnce_start : NotedOnce ⟨World.empty, []⟩ where
  conforming := by simp [Conforming]
  minds := by simp
  once := by simp [notes, World.empty, Table.empty]
  handed := by simp [notes, World.empty, Table.empty]

theorem notedOnce_of_run {ts : List (Transition State Step)}
    (hrun : Run (system config).step ⟨World.empty, []⟩ ts s) : NotedOnce s :=
  hrun.invariant NotedOnce notedOnce_start fun _ _ hstep hs ↦ hs.step hstep

theorem NotedOnce.nodup (hs : NotedOnce s) (p : FailedJob → Bool) :
    ((s.state.failedJobs.rows.filter p).filterMap FailedJob.retryJobId).Nodup := by
  have hall : (s.state.failedJobs.rows.filterMap FailedJob.retryJobId).Nodup := by
    apply nodup_of_census_le_one
    intro x
    have hx := hs.once x
    simp only [notes, Pi.add_apply] at hx
    omega
  exact hall.sublist (List.filter_sublist.filterMap _)

theorem NotedOnce.eq_of_retryJobId (hs : NotedOnce s) {record record' : FailedJob} {text : String}
    (hrecord : record ∈ s.state.failedJobs.rows) (hrecord' : record' ∈ s.state.failedJobs.rows)
    (htext : record.retryJobId = some text) (htext' : record'.retryJobId = some text) :
    record = record' := by
  obtain ⟨i, hi⟩ := List.getElem?_of_mem hrecord
  obtain ⟨j, hj⟩ := List.getElem?_of_mem hrecord'
  by_cases hij : i = j
  · subst hij
    exact Option.some.inj (hi.symm.trans hj)
  · have htwo : (token record.retryJobId + token record'.retryJobId) text ≤
        census FailedJob.retryJobId s.state.failedJobs.rows text := tokens_le_census hij hi hj text
    have honce := hs.once text
    simp only [Pi.add_apply, htext, htext', token_some_self] at htwo
    simp only [notes, Pi.add_apply] at honce
    omega

/-- A retried record notes the job of its retry. -/
def World.NotesRetries (w : World) : Prop :=
  ∀ record ∈ w.failedJobs.rows, record.retried = true → record.retryJobId ≠ none

theorem notesRetries_step {a : Step} (hstep : (system config).step s a = some s')
    (hs : NotedOnce s) (h : s.state.NotesRetries) : s'.state.NotesRetries := by
  have hkept (hsame : s'.state.failedJobs = s.state.failedJobs) : s'.state.NotesRetries := by
    unfold World.NotesRetries
    rw [hsame]
    exact h
  cases a with
  | invoke task =>
      obtain rfl := Option.some.inj hstep
      exact hkept rfl
  | crash i =>
      obtain ⟨t, -, rfl⟩ := (system config).step_crash_cases hstep
      exact hkept rfl
  | env l =>
      obtain ⟨w, tasks, henv, rfl⟩ := (system config).step_env_cases hstep
      exact hkept (envStep_frame henv).2.1
  | call i f =>
      obtain ⟨t, t', c, r, ha⟩ := answered_of_step hstep hs.conforming
      intro record hrecord hretried
      have hfind := Table.find?_eq_some_iff.mpr ⟨hrecord, rfl⟩
      rcases World.failedJob_cases ha.exec hfind with
        ⟨record₀, hrecord₀, rfl | ⟨now, jobId, -, rfl⟩⟩ | ⟨fields, rfl, hcreated⟩
      · exact h _ (Table.find?_eq_some_iff.mp hrecord₀).1 hretried
      · exact Option.some_ne_none jobId
      · rw [hcreated] at hretried
        have hallows := allows_of_answered ha
        have hminds := minds_of_answered hs ha
        generalize stageOf t = stage at hallows hminds
        cases hallows with
        | worker hallows =>
            cases hallows with
            | quiet _ hquiet => cases hquiet
        | creating hallows => cases hallows
        | retrying hallows => cases hallows
        | listening hallows =>
            cases hallows with
            | save video => cases hretried
        | removing hallows => cases hallows
        | service call => cases hminds.1

theorem notesRetries_of_run {ts : List (Transition State Step)}
    (hrun : Run (system config).step ⟨World.empty, []⟩ ts s) : s.state.NotesRetries := by
  have hboth := hrun.invariant (fun s ↦ NotedOnce s ∧ s.state.NotesRetries)
    ⟨notedOnce_start, by simp [World.NotesRetries, World.empty, Table.empty]⟩
    fun _ _ hstep hs ↦ ⟨hs.1.step hstep, notesRetries_step hstep hs.1 hs.2⟩
  exact hboth.2

/-- In every run, whatever is called, fails or crashes, no job is noted by two records, and
every noted job has been added to the queue. -/
theorem retryJobIds_distinct {ts : List (Transition State Step)}
    (hrun : Run (system config).step ⟨World.empty, []⟩ ts s) :
    (s.state.failedJobs.rows.filterMap FailedJob.retryJobId).Nodup ∧
      ∀ record ∈ s.state.failedJobs.rows, ∀ text, record.retryJobId = some text →
        ∃ n, 1 ≤ n ∧ n ≤ s.state.queue.lastId ∧ text = toString n := by
  have hs := notedOnce_of_run hrun
  constructor
  · have hnodup := hs.nodup fun _ ↦ true
    rwa [List.filter_true] at hnodup
  · intro record hrecord text htext
    apply hs.handed
    have hpos := census_pos hrecord htext
    simp only [notes, Pi.add_apply]
    omega

end System

theorem retryJobIds_distinct_retried : ∃ (ts : List (Transition State Step)) (s : State),
    Run (system ⟨"bucket", none, "region"⟩).step ⟨World.empty, []⟩ ts s ∧
      (s.state.failedJobs.find? "record").bind FailedJob.retryJobId = some "2" ∧
      (s.state.failedJobs.rows.filterMap FailedJob.retryJobId).Nodup ∧
      ∀ record ∈ s.state.failedJobs.rows, ∀ text, record.retryJobId = some text →
        ∃ n, 1 ≤ n ∧ n ≤ s.state.queue.lastId ∧ text = toString n := by
  obtain ⟨ts, s, hrun, -, hobs⟩ := Run.exists_of_follow
    (system ⟨"bucket", none, "region"⟩).step ⟨World.empty, []⟩ retriedActs
    (fun p ↦ (p.2.state.failedJobs.find? "record").bind FailedJob.retryJobId) (some "2")
    (by decide +kernel)
  exact ⟨ts, s, hrun, hobs, retryJobIds_distinct hrun⟩

end VideoGen
