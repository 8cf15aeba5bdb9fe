import VideoGen.RowConsistency

/-!
# Completed rows

A row leaves `completed` by a retry, by a removal or by the update of
`markFailed`, which has no guard.  All other updates compare the status
first.  So a completed video stays completed exactly in the runs in which
that update never meets a completed row.
-/

namespace VideoGen

/-- The step is the reset of a retry or the deletion of a removal. -/
def RequestedFor (videoId : String) (t : Transition State Step) : Prop :=
  (∃ i id, Executes t i (.retryFailedJob id) (.updateVideo videoId none resetFields)) ∨
    ∃ i id userId, Executes t i (.remove id userId) (.deleteVideo videoId)

/-- No step of the run takes the row out of `completed`, other than a retry's or a
removal's. -/
def CompletedStays (videoId : String) (ts : List (Transition State Step)) : Prop :=
  ∀ t ∈ ts, t.before.state.statusOf videoId = some .completed →
    t.after.state.statusOf videoId = some .completed ∨ RequestedFor videoId t

/-- An execution on its last attempt writes `failed` over a completed row. -/
def FailsCompleted (videoId : String) (t : Transition State Step) : Prop :=
  t.before.state.statusOf videoId = some .completed ∧ ∃ i job message,
    IsFinalAttempt job ∧
      Executes t i (.process job) (.updateVideo videoId none (failedFields message))

section System

variable {config : StorageConfig} {s s' : State} {videoId : String}

theorem StageAllows.update_completed {stage : Stage} {expected : Option VideoStatus}
    {fields : VideoFields} (h : StageAllows stage (.updateVideo videoId expected fields))
    (hmanaged : stage.task.Managed) (hguard : expected.all (· = .completed) = true)
    (hchange : fields.status.getD .completed ≠ .completed) :
    ((∃ id, stage.task = .retryFailedJob id) ∧ expected = none ∧ fields = resetFields) ∨
    ((∃ job, stage.task = .process job ∧ IsFinalAttempt job) ∧ expected = none ∧
      ∃ message, fields = failedFields message) := by
  cases h with
  | @worker job _ _ h =>
      cases h with
      | start status hallowed =>
          obtain rfl : status = .completed := by simpa using hguard
          exact absurd hallowed (by decide)
      | quiet _ hquiet => simp [Call.Quiet] at hquiet
      | progress u => simp at hguard
      | complete url thumbnail hurl => simp at hguard
      | mark _ hphase hfinal => exact .inr ⟨⟨job, rfl, hfinal⟩, rfl, _, rfl⟩
  | creating h =>
      cases h
      exact absurd rfl hchange
  | retrying h =>
      cases h with
      | reset record => exact .inl ⟨⟨_, rfl⟩, rfl, rfl⟩
      | link record jobId now => exact absurd rfl hchange
  | listening h => cases h
  | removing h => cases h
  | service call => exact hmanaged.elim

/-- A step that takes a row out of `completed` is a retry's reset, a removal's
deletion or the update of `markFailed`. -/
theorem step_completed {a : Step} (hstep : (system config).step s a = some s')
    (hs : Conforming s) (htasks : ∀ t ∈ s.threads, t.task.Managed)
    (hbefore : s.state.statusOf videoId = some .completed) :
    s'.state.statusOf videoId = some .completed ∨ RequestedFor videoId ⟨s, a, s'⟩ ∨
      FailsCompleted videoId ⟨s, a, s'⟩ := by
  have hsame (hvideos : s'.state.videos = s.state.videos) :
      s'.state.statusOf videoId = some .completed := by
    rw [World.statusOf, hvideos]
    exact hbefore
  cases a with
  | invoke task =>
      obtain rfl := Option.some.inj hstep
      exact .inl hbefore
  | crash i =>
      obtain ⟨t, -, rfl⟩ := (system config).step_crash_cases hstep
      exact .inl hbefore
  | env l =>
      obtain ⟨w, tasks, henv, rfl⟩ := (system config).step_env_cases hstep
      exact .inl (hsame (envStep_frame henv).1)
  | call i f =>
      obtain ⟨t, t', c, reply, h⟩ := answered_of_step hstep hs
      have hmanaged : (stageOf t).task.Managed := by
        rw [task_stageOf]
        exact htasks t (List.mem_of_getElem? h.get)
      rcases World.exec_effect h.exec with ⟨-, hw, -⟩ | ⟨hf, a, x, hx, -⟩
      · exact .inl (hsame (congrArg World.videos hw))
      have hexecutes {task : Task} (htask : t.task = task) :
          Executes ⟨s, .call i f, s'⟩ i task c :=
        ⟨f, t, rfl, hf, h.get, htask, h.pending⟩
      by_cases hc : c.WritesVideos = false
      · exact .inl (hsame ((World.answer_frame hx).1 hc))
      cases c with
      | insertVideo id fields =>
          obtain ⟨rfl, -⟩ := (allows_of_answered h).insert hmanaged
          obtain ⟨id, -, hfresh, hfind⟩ := World.answer_insertVideo hx
          have hne : videoId ≠ id := by
            rintro rfl
            simp [World.statusOf, hfresh] at hbefore
          left
          rw [World.statusOf, hfind, if_neg hne]
          exact hbefore
      | updateVideo id expected fields =>
          obtain ⟨hw, -⟩ := World.answer_updateVideo hx
          rw [hw, World.statusOf_updateVideo]
          by_cases hid : videoId = id
          · subst hid
            rw [if_pos rfl, hbefore, Option.map_some]
            by_cases hguard : expected.all (· = .completed) = true
            · rw [if_pos hguard]
              by_cases hchange : fields.status.getD .completed = .completed
              · rw [hchange]
                exact .inl rfl
              · rcases (allows_of_answered h).update_completed hmanaged hguard hchange with
                  ⟨⟨id, htask⟩, rfl, rfl⟩ | ⟨⟨job, htask, hfinal⟩, rfl, message, rfl⟩
                · rw [task_stageOf] at htask
                  exact .inr (.inl (.inl ⟨i, id, hexecutes htask⟩))
                · rw [task_stageOf] at htask
                  exact .inr (.inr ⟨hbefore, i, job, message, hfinal, hexecutes htask⟩)
            · rw [if_neg hguard]
              exact .inl rfl
          · rw [if_neg hid]
            exact .inl hbefore
      | deleteVideo id =>
          by_cases hid : videoId = id
          · subst hid
            have hallows := allows_of_answered h
            have htask := task_stageOf t
            generalize stageOf t = stage at hallows htask hmanaged
            cases hallows with
            | worker hallows => cases hallows with | quiet _ hquiet => simp [Call.Quiet] at hquiet
            | creating hallows => cases hallows
            | retrying hallows => cases hallows
            | listening hallows => cases hallows
            | removing hallows => exact .inr (.inl (.inr ⟨i, _, _, hexecutes htask.symm⟩))
            | service call => exact hmanaged.elim
          · left
            rw [World.statusOf, World.answer_deleteVideo hx, if_neg hid]
            exact hbefore
      | _ => exact absurd rfl hc

theorem not_completed_of_fails {t : Transition State Step} (hs : Conforming t.before)
    (hstep : (system config).step t.before t.act = some t.after)
    (hfails : FailsCompleted videoId t) :
    t.after.state.statusOf videoId = some .failed ∧ ¬RequestedFor videoId t := by
  obtain ⟨hbefore, i, job, message, -, hexec⟩ := hfails
  constructor
  · obtain ⟨a, x, hx⟩ := hexec.answer hs hstep
    obtain ⟨hw, -⟩ := World.answer_updateVideo hx
    rw [hw, World.statusOf_updateVideo, if_pos rfl, hbefore]
    rfl
  · rintro (⟨j, id, hretry⟩ | ⟨j, id, userId, hremove⟩)
    · cases (hexec.unique hretry).2.1
    · cases (hexec.unique hremove).2.1

section Runs

variable {w : World} {ts : List (Transition State Step)}
  (hrun : Run (system config).step ⟨w, []⟩ ts s)
  (hinvoke : ∀ t ∈ ts, t.act.InvokesOnly Task.Managed)

include hrun hinvoke

theorem managed_before {t : Transition State Step} (ht : t ∈ ts) :
    Conforming t.before ∧ ∀ u ∈ t.before.threads, u.task.Managed := by
  refine hrun.invariant_before
    (fun s ↦ Conforming s ∧ ∀ u ∈ s.threads, u.task.Managed) ?_ ?_ ht
  · exact ⟨by simp [Conforming], by simp⟩
  · rintro t ht hstep ⟨hconf, htasks⟩
    exact ⟨step_conforming hstep hconf,
      step_tasks hstep (hinvoke t ht) (fun _ ↦ trivial) (fun _ ↦ trivial) htasks⟩

/-- In every run, a completed row stays completed except by a retry, a removal or
the forced `failed` of a last attempt. -/
theorem completed_row_leaves {t : Transition State Step} (ht : t ∈ ts)
    (hbefore : t.before.state.statusOf videoId = some .completed) :
    t.after.state.statusOf videoId = some .completed ∨ RequestedFor videoId t ∨
      (FailsCompleted videoId t ∧ t.after.state.statusOf videoId = some .failed) := by
  obtain ⟨hconf, htasks⟩ := managed_before hrun hinvoke ht
  have hstep := hrun.step_of_mem ht
  rcases step_completed hstep hconf htasks hbefore with hafter | hrequested | hfails
  · exact .inl hafter
  · exact .inr (.inl hrequested)
  · exact .inr (.inr ⟨hfails, (not_completed_of_fails hconf hstep hfails).1⟩)

/-- A completed video stays completed exactly in the runs in which no last
attempt executes `markFailed`'s update while the row is completed. -/
theorem completedStays_iff :
    CompletedStays videoId ts ↔ ∀ t ∈ ts, ¬FailsCompleted videoId t := by
  constructor
  · intro hstays t ht hfails
    obtain ⟨hafter, hnot⟩ := not_completed_of_fails (managed_before hrun hinvoke ht).1
      (hrun.step_of_mem ht) hfails
    rcases hstays t ht hfails.1 with hcompleted | hrequested
    · rw [hafter] at hcompleted
      cases hcompleted
    · exact hnot hrequested
  · intro hnever t ht hbefore
    obtain ⟨hconf, htasks⟩ := managed_before hrun hinvoke ht
    rcases step_completed (hrun.step_of_mem ht) hconf htasks hbefore with
      hafter | hrequested | hfails
    · exact .inl hafter
    · exact .inr hrequested
    · exact absurd hfails (hnever t ht)

end Runs

end System

/-! ## A completed row that fails -/

/-- One execution of one job: Redis rejects `job.updateProgress(100)` after the
row was completed, and the only attempt writes `failed` over it. -/
def overwritingActs : List Step :=
  createActs 0 "video" ++ [.env (.take 1), okStep 1, okStep 1] ++ renderActs 1 "url" ++
    [okStep 1, okStep 1, okStep 1,
      .call 1 (.rejected (.instance .error "connection lost")), okStep 1]

theorem overwritingActs_managed : ∀ a ∈ overwritingActs, a.InvokesOnly Task.Managed := by
  decide

def overwrites (t : Transition State Step) : Bool :=
  t.before.state.statusOf "video" = some .completed &&
  t.after.state.statusOf "video" = some .failed &&
  (match t.act, t.before.threads[1]?.map Thread.task with
    | .call 1 _, some (Task.process _) => true
    | _, _ => false)

theorem exists_overwriting_run : ∃ (ts : List (Transition State Step)) (s : State),
    Run (system ⟨"bucket", none, "region"⟩).step ⟨World.empty, []⟩ ts s ∧
      (∀ t ∈ ts, t.act.InvokesOnly Task.Managed) ∧ ∃ t ∈ ts, overwrites t = true := by
  obtain ⟨ts, s, hrun, hacts, hobs⟩ := Run.exists_of_follow
    (system ⟨"bucket", none, "region"⟩).step ⟨World.empty, []⟩ overwritingActs
    (fun p ↦ p.1.any overwrites)
    true (by decide +kernel)
  exact ⟨ts, s, hrun,
    fun t ht ↦ overwritingActs_managed _ (hacts ▸ List.mem_map_of_mem ht),
    List.any_eq_true.mp hobs⟩

theorem completed_row_leaves_failed : ∃ (ts : List (Transition State Step)) (s : State),
    Run (system ⟨"bucket", none, "region"⟩).step ⟨World.empty, []⟩ ts s ∧
      ∃ t ∈ ts, t.before.state.statusOf "video" = some .completed ∧
        (t.after.state.statusOf "video" = some .completed ∨ RequestedFor "video" t ∨
          (FailsCompleted "video" t ∧ t.after.state.statusOf "video" = some .failed)) := by
  obtain ⟨ts, s, hrun, hinvoke, t, ht, hover⟩ := exists_overwriting_run
  simp only [overwrites, Bool.and_eq_true, decide_eq_true_eq] at hover
  exact ⟨ts, s, hrun, t, ht, hover.1.1,
    completed_row_leaves hrun hinvoke ht hover.1.1⟩

theorem not_requested_of_process {videoId : String} {t : Transition State Step} {i : ℕ}
    {f : Fate} {u : Worker} {job : Job} (hact : t.act = .call i f)
    (hget : t.before.threads[i]? = some u) (htask : u.task = .process job) :
    ¬RequestedFor videoId t := by
  have hother {j : ℕ} {task : Task} {c : Call} (h : Executes t j task c) :
      task = .process job := by
    obtain ⟨f', u', hact', -, hget', htask', -⟩ := h
    rw [hact] at hact'
    obtain ⟨rfl, -⟩ := Act.call.inj hact'
    rw [hget] at hget'
    obtain rfl := Option.some.inj hget'
    exact htask'.symm.trans htask
  rintro (⟨j, id, h⟩ | ⟨j, id, userId, h⟩)
  · cases hother h
  · cases hother h

theorem completed_row_not_stable : ∃ (ts : List (Transition State Step)) (s : State),
    Run (system ⟨"bucket", none, "region"⟩).step ⟨World.empty, []⟩ ts s ∧
      (∀ t ∈ ts, t.act.InvokesOnly Task.Managed) ∧ ¬CompletedStays "video" ts := by
  obtain ⟨ts, s, hrun, hinvoke, t, ht, hover⟩ := exists_overwriting_run
  refine ⟨ts, s, hrun, hinvoke, fun hstays ↦ ?_⟩
  simp only [overwrites, Bool.and_eq_true, decide_eq_true_eq] at hover
  obtain ⟨⟨hbefore, hafter⟩, hact⟩ := hover
  rcases hstays t ht hbefore with hcompleted | hrequested
  · rw [hafter] at hcompleted
    cases hcompleted
  · split at hact
    · rename_i f job hcall htask
      obtain ⟨u, hget, hu⟩ := Option.map_eq_some_iff.mp htask
      exact not_requested_of_process hcall hget hu hrequested
    · cases hact

end VideoGen
