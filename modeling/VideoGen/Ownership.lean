import VideoGen.CompletedRows

/-!
# Ownership of a video

An execution owns its video from the start transition that was answered
with an affected row to its end.  The transition table admits `processing`
again for retries, so a second execution that read the row after the first
one had started is admitted too; with that re-entry kept away from owned
rows, ownership is exclusive.
-/

namespace VideoGen

/-! ## Owners -/

/-- A start transition that was answered with an affected row. -/
def IsStart : Exchange interface → Prop
  | ⟨.updateVideo _ (some _) fields, .ok (n : ℕ)⟩ =>
      fields = startExtra.fields .processing ∧ n ≠ 0
  | _ => False

def Started (t : Worker) : Prop := ∃ x ∈ t.log, IsStart x

def ExecutionOf (videoId : String) (t : Worker) : Prop :=
  ∃ job, t.task = .process job ∧ job.data.videoId = videoId

/-- Execution `i` is between its successful start transition and its end. -/
def Owns (videoId : String) (s : State) (i : ℕ) : Prop :=
  ∃ t, s.threads[i]? = some t ∧ ExecutionOf videoId t ∧ Started t ∧ ¬t.Ended

/-- The start transition with which execution `j` enters a row that is already
`processing`. -/
def Reenters (videoId : String) (t : Transition State Step) (j : ℕ) : Prop :=
  t.before.state.statusOf videoId = some .processing ∧ ∃ job, Receives t j (.process job)
    (.updateVideo videoId (some .processing) (startExtra.fields .processing))

def Call.AsksProvider : Call → Bool
  | .chatCompletion _ => true
  | .generateVideo _ _ => true
  | .getGenerationStatus _ => true
  | _ => false

def Harmless : Exchange interface → Prop
  | ⟨.updateVideo _ _ _, .ok (n : ℕ)⟩ => n = 0
  | ⟨.updateVideo _ _ _, .error _⟩ => False
  | ⟨c, _⟩ => c.AsksProvider = false ∧ c.WritesVideos = false

/-- The exchange made the execution throw: a rejected call, or `findById` without a
row. -/
def Throws : Exchange interface → Prop
  | ⟨.selectVideo _, .ok (none : Option Video)⟩ => True
  | ⟨_, .error _⟩ => True
  | _ => False

/-- The exchange made `transitionStatus` answer `false`: the status that was read
admits no start, or the update affected no row. -/
def Refuses : Exchange interface → Prop
  | ⟨.selectVideo _, .ok (some (row : Video))⟩ => ¬Allowed row.status .processing
  | ⟨.updateVideo _ _ _, .ok (n : ℕ)⟩ => n = 0
  | _ => False

/-- The execution neither asked the provider nor wrote the row, and when its start
was refused it has returned. -/
def StandsBack (t : Worker) : Prop :=
  (∀ x ∈ t.log, Harmless x) ∧
    ((∃ x ∈ t.log, Refuses x) → ∃ value, t.prog = .done (.ok value))

/-- At most one execution owns the video; every other execution none of whose calls
threw stands back. -/
def Exclusive (videoId : String) (s : State) : Prop :=
  (∀ i j, Owns videoId s i → Owns videoId s j → i = j) ∧
    ∀ t ∈ s.threads, ExecutionOf videoId t → ¬Started t → (∀ x ∈ t.log, ¬Throws x) →
      StandsBack t

def Task.WorkerSide : Task → Prop
  | .process _ => True
  | .onVideoFailed _ => True
  | _ => False

instance : DecidablePred Task.WorkerSide
  | .process _ => isTrue trivial
  | .createAndQueue _ _ => isFalse id
  | .retryFailedJob _ => isFalse id
  | .onVideoFailed _ => isTrue trivial
  | .remove _ _ => isFalse id
  | .service _ => isFalse id

/-! ## Executions that have not started -/

def WaitsIn (job : Job) (log : List (Exchange interface)) : Phase → Prop
  | .fresh => log = []
  | .loaded status => ∃ row : Video, row.status = status ∧
      log = [⟨.selectVideo job.data.videoId, .ok (some row)⟩]
  | .skipped => ∃ row : Video, Allowed row.status .processing ∧
      log = [⟨.selectVideo job.data.videoId, .ok (some row)⟩,
        ⟨.updateVideo job.data.videoId (some row.status) (startExtra.fields .processing),
          .ok (0 : ℕ)⟩]
  | _ => False

def LogFits (t : Worker) : Prop :=
  ∀ job phase, stageOf t = .worker job phase →
    Started t ∨ (∃ x ∈ t.log, Throws x) ∨ WaitsIn job t.log phase

section System

variable {config : StorageConfig} {s s' : State} {videoId : String}

theorem logFits_answered {i : ℕ} {f : Fate} {t t' : Worker} {c : Call}
    {r : Except Thrown c.Reply} (h : Answered config s s' i f t t' c r) (hfits : LogFits t) :
    LogFits t' := by
  intro job phase' hstage
  obtain ⟨phase, hstage₀, hallows, rfl⟩ := worker_of_answered h hstage
  have hlog : t'.log = t.log ++ [⟨c, r⟩] := h.log_eq
  have hlast : (⟨c, r⟩ : Exchange interface) ∈ t'.log := by simp [hlog]
  rcases hfits job phase hstage₀ with ⟨x, hx, hstart⟩ | ⟨x, hx, hthrows⟩ | hwaits
  · exact .inl ⟨x, by simp [hlog, hx], hstart⟩
  · exact .inr (.inl ⟨x, by simp [hlog, hx], hthrows⟩)
  · cases hallows with
    | load =>
        have hnil : t.log = [] := hwaits
        rcases r with e | (_ | row)
        · exact .inr (.inl ⟨_, hlast, trivial⟩)
        · exact .inr (.inl ⟨_, hlast, trivial⟩)
        · exact .inr (.inr ⟨row, rfl, by simp [hlog, hnil]⟩)
    | start status hallowed =>
        obtain ⟨row, rfl, hrow⟩ := hwaits
        rcases r with e | n
        · exact .inr (.inl ⟨_, hlast, trivial⟩)
        · by_cases hn : (n : ℕ) = 0
          · subst hn
            refine .inr (.inr ⟨row, hallowed, ?_⟩)
            simp [hlog, hrow]
          · exact .inl ⟨_, hlast, rfl, hn⟩
    | quiet _ hquiet => exact hwaits.elim
    | progress u => exact hwaits.elim
    | complete url thumbnail hurl => exact hwaits.elim
    | stamp applied event => exact hwaits.elim
    | cache applied event key value => exact hwaits.elim
    | record applied event => exact hwaits.elim
    | announce applied event => exact hwaits.elim
    | mark _ hphase hfinal message => rcases hphase with rfl | rfl <;> exact hwaits.elim
    | evict message key => exact hwaits.elim
    | report message => exact hwaits.elim

theorem run_logFits {w : World} {ts : List (Transition State Step)}
    (hrun : Run (system config).step ⟨w, []⟩ ts s) {i : ℕ} {t : Worker}
    (hget : s.threads[i]? = some t) : LogFits t := by
  induction hrun generalizing i t with
  | nil => simp at hget
  | @snoc ts s s' a head last ih =>
      rcases thread_cases last (run_conforming head) hget with
        ⟨t₀, ht₀, -, -, hlog, hstage, -⟩ | ⟨-, task, rfl⟩ | ⟨f, t₀, c, r, rfl, h⟩
      · intro job phase hphase
        rw [hstage] at hphase
        unfold Started
        rw [hlog]
        exact ih ht₀ job phase hphase
      · intro job phase hphase
        obtain rfl := fresh_of_start hphase
        exact .inr (.inr rfl)
      · exact logFits_answered h (ih h.get)

theorem standsBack_of_logFits {t : Worker} (hfits : LogFits t)
    (hconf : Machine.Conforms stageProtocol Stage.init Stage.Ends t)
    (hexec : ExecutionOf videoId t) (hstart : ¬Started t) (hthrow : ∀ x ∈ t.log, ¬Throws x) :
    StandsBack t := by
  obtain ⟨job, htask, -⟩ := hexec
  obtain ⟨phase, hphase⟩ := stageOf_process htask
  have hwaits : WaitsIn job t.log phase := by
    rcases hfits job phase hphase with h | ⟨x, hx, h⟩ | h
    · exact absurd h hstart
    · exact absurd h (hthrow x hx)
    · exact h
  change t.prog.Keeps stageProtocol.spec Stage.Ends (stageOf t) at hconf
  rw [hphase] at hconf
  have hdone (hallows : ∀ c, ¬WorkerAllows job phase c)
      (hends : ∀ e, ¬Phase.Ends job phase (.error e)) :
      ∃ value, t.prog = .done (.ok value) := by
    cases hprog : t.prog with
    | call c next =>
        rw [hprog] at hconf
        cases hconf.1 with
        | worker h => exact absurd h (hallows c)
    | done r =>
        rw [hprog] at hconf
        rcases r with e | value
        · exact absurd hconf (hends e)
        · exact ⟨value, rfl⟩
  cases phase with
  | fresh =>
      have hnil : t.log = [] := hwaits
      exact ⟨by simp [hnil], by simp [hnil]⟩
  | loaded status =>
      obtain ⟨row, rfl, hlog⟩ := hwaits
      refine ⟨by simp [hlog, Harmless, Call.AsksProvider, Call.WritesVideos], ?_⟩
      rintro ⟨x, hx, hrefuses⟩
      rw [hlog] at hx
      obtain rfl := List.mem_singleton.mp hx
      refine hdone ?_ fun e h ↦ h
      rintro c h
      cases h with
      | start _ hallowed => exact hrefuses hallowed
      | mark _ hphase => rcases hphase with h | h <;> cases h
  | skipped =>
      obtain ⟨row, -, hlog⟩ := hwaits
      refine ⟨by simp [hlog, Harmless, Call.AsksProvider, Call.WritesVideos], fun _ ↦ ?_⟩
      refine hdone ?_ fun e h ↦ h
      rintro c h
      cases h with
      | mark _ hphase => rcases hphase with h | h <;> cases h
  | working => exact hwaits.elim
  | completed applied event => exact hwaits.elim
  | recorded applied event => exact hwaits.elim
  | announced applied event => exact hwaits.elim
  | failing => exact hwaits.elim
  | marked message => exact hwaits.elim
  | reported message => exact hwaits.elim
  | broken => exact hwaits.elim

/-! ## Exclusive owners -/

theorem start_of_allows {job : Job} {phase : Phase} {c : Call} {r : Except Thrown c.Reply}
    (hallows : WorkerAllows job phase c) (hstart : IsStart ⟨c, r⟩) :
    ∃ status, ∃ n : ℕ, Allowed status .processing ∧ n ≠ 0 ∧
      (⟨c, r⟩ : Exchange interface) = ⟨.updateVideo job.data.videoId (some status)
        (startExtra.fields .processing), .ok n⟩ := by
  have hstatus {fields : VideoFields} (h : fields = startExtra.fields .processing) :
      fields.status = some .processing := h ▸ rfl
  cases hallows with
  | load => rcases r with e | x <;> exact hstart.elim
  | start status hallowed =>
      rcases r with e | n
      · exact hstart.elim
      · exact ⟨status, n, hallowed, hstart.2, rfl⟩
  | quiet _ hquiet => cases c <;> first | exact hstart.elim | simp [Call.Quiet] at hquiet
  | progress u =>
      rcases r with e | n
      · exact hstart.elim
      · cases hstatus hstart.1
  | complete url thumbnail hurl =>
      rcases r with e | n
      · exact hstart.elim
      · cases hstatus hstart.1
  | stamp applied event => exact hstart.elim
  | cache applied event key value => exact hstart.elim
  | record applied event => exact hstart.elim
  | announce applied event => exact hstart.elim
  | mark _ hphase hfinal message => exact hstart.elim
  | evict message key => exact hstart.elim
  | report message => exact hstart.elim

theorem owns_before {a : Step} (hstep : (system config).step s a = some s')
    (hs : Conforming s) {i : ℕ} (hown : Owns videoId s' i) :
    Owns videoId s i ∨ ∃ job status, Allowed status .processing ∧
      s.state.statusOf videoId = some status ∧
      s'.state.statusOf videoId = some .processing ∧
      Receives ⟨s, a, s'⟩ i (.process job)
        (.updateVideo videoId (some status) (startExtra.fields .processing)) := by
  obtain ⟨u, hget, ⟨job, htask, hvideo⟩, ⟨x, hx, hstart⟩, hended⟩ := hown
  rcases thread_cases hstep hs hget with
    ⟨t, ht, htask', -, hlog, -, hended'⟩ | ⟨-, task, rfl⟩ | ⟨f, t, c, r, rfl, h⟩
  · exact .inl ⟨t, ht, ⟨job, htask' ▸ htask, hvideo⟩, ⟨x, hlog ▸ hx, hstart⟩,
      fun hend ↦ hended (hended' hend)⟩
  · simp at hx
  · have htask₀ : t.task = .process job := h.task_eq.symm.trans htask
    rw [h.log_eq] at hx
    rcases List.mem_append.mp hx with hx | hx
    · exact .inl ⟨t, h.get, ⟨job, htask₀, hvideo⟩, ⟨x, hx, hstart⟩, not_ended_of_answered h⟩
    · right
      obtain rfl := List.mem_singleton.mp hx
      obtain ⟨phase, hphase⟩ := stageOf_process htask₀
      have hallows := allows_of_answered h
      rw [hphase] at hallows
      cases hallows with
      | worker hallows =>
          obtain ⟨status, n, hallowed, hn, heq⟩ := start_of_allows hallows hstart
          cases heq
          obtain ⟨hf, a, hanswer⟩ := World.exec_ok h.exec
          obtain ⟨hw, hcount⟩ := World.answer_updateVideo hanswer
          rw [hcount] at hn
          obtain ⟨row, hrow, hguard⟩ := (World.updateVideo_affected _ _ _ _).mp hn
          have hbefore : s.state.statusOf videoId = some status :=
            World.statusOf_eq_some_iff.mpr
              ⟨row, hvideo ▸ hrow, World.status_of_guard hguard⟩
          subst hvideo
          refine ⟨job, status, hallowed, hbefore, ?_, ?_⟩
          · rw [hw, World.statusOf_updateVideo, if_pos rfl, hbefore]
            simp [TransitionExtra.fields]
          · rcases World.exec_cases h.exec with ⟨a, y, rfl, -, -⟩ | ⟨e, -, -, -, he⟩ |
              ⟨a, e, y, -, -, -, he⟩
            · exact ⟨a, t, rfl, h.get, htask₀, h.pending⟩
            · cases he
            · cases he

theorem not_pending_of_step {a : Step} (hstep : (system config).step s a = some s')
    (hs : Conforming s)
    (htasks : ∀ t ∈ s.threads, t.task.WorkerSide)
    (hbefore : s.state.statusOf videoId ≠ some .pending) :
    s'.state.statusOf videoId ≠ some .pending := by
  have hsame (hvideos : s'.state.videos = s.state.videos) :
      s'.state.statusOf videoId ≠ some .pending := by
    rw [World.statusOf, hvideos]
    exact hbefore
  cases a with
  | invoke task =>
      obtain rfl := Option.some.inj hstep
      exact hbefore
  | crash i =>
      obtain ⟨t, -, rfl⟩ := (system config).step_crash_cases hstep
      exact hbefore
  | env l =>
      obtain ⟨w, tasks, henv, rfl⟩ := (system config).step_env_cases hstep
      exact hsame (envStep_frame henv).1
  | call i f =>
      obtain ⟨t, t', c, r, h⟩ := answered_of_step hstep hs
      by_cases hc : c.WritesVideos = true
      · have hupdate : ∃ id expected fields,
            c = .updateVideo id expected fields ∧ fields.status ≠ some .pending := by
          have htask := htasks t (List.mem_of_getElem? h.get)
          have hallows := allows_of_answered h
          rw [← task_stageOf] at htask
          generalize stageOf t = stage at hallows htask
          cases hallows with
          | worker hallows =>
              obtain ⟨expected, fields, hc, hstatus⟩ := hallows.write hc
              exact ⟨_, expected, fields, hc, hstatus⟩
          | listening hallows => cases hallows <;> cases hc
          | creating hallows => exact htask.elim
          | retrying hallows => exact htask.elim
          | removing hallows => exact htask.elim
          | service call => exact htask.elim
        obtain ⟨id, expected, fields, rfl, hstatus⟩ := hupdate
        rcases World.exec_effect h.exec with ⟨-, hw, -⟩ | ⟨-, a, x, hx, -⟩
        · exact hsame (congrArg World.videos hw)
        obtain ⟨hw, -⟩ := World.answer_updateVideo hx
        rw [hw, World.statusOf_updateVideo]
        by_cases hid : videoId = id
        · subst hid
          rw [if_pos rfl]
          intro hpending
          obtain ⟨status, hrow, heq⟩ := Option.map_eq_some_iff.mp hpending
          split at heq
          · cases hfields : fields.status with
            | none =>
                rw [hfields] at heq
                exact hbefore (heq ▸ hrow)
            | some new =>
                rw [hfields] at heq hstatus
                exact hstatus (heq ▸ rfl)
          · exact hbefore (heq ▸ hrow)
        · rw [if_neg hid]
          exact hbefore
      · exact hsame (World.exec_videos h.exec (by simpa using hc))

theorem pending_or_processing {status : VideoStatus} (h : Allowed status .processing) :
    status = .pending ∨ status = .processing := by
  cases status with
  | pending => exact .inl rfl
  | processing => exact .inr rfl
  | completed => exact absurd h (by decide)
  | failed => exact absurd h (by decide)
  | cancelled => exact absurd h (by decide)

/-- A step keeps owners unique and their rows not pending, unless it is a re-entry
into an owned row. -/
theorem unique_of_step {t : Transition State Step} (hs : Conforming t.before)
    (htasks : ∀ u ∈ t.before.threads, u.task.WorkerSide)
    (hstep : (system config).step t.before t.act = some t.after)
    (hreentry : ∀ j, Reenters videoId t j → ∀ i, ¬Owns videoId t.before i)
    (hunique : ∀ i j, Owns videoId t.before i → Owns videoId t.before j → i = j)
    (hpending : ∀ i, Owns videoId t.before i →
      t.before.state.statusOf videoId ≠ some .pending) :
    (∀ i j, Owns videoId t.after i → Owns videoId t.after j → i = j) ∧
      ∀ i, Owns videoId t.after i → t.after.state.statusOf videoId ≠ some .pending := by
  have hnone {i j : ℕ} (hi : Owns videoId t.before i) {job : Job} {status : VideoStatus}
      (hallowed : Allowed status .processing)
      (hstatus : t.before.state.statusOf videoId = some status)
      (hreceives : Receives t j (.process job)
        (.updateVideo videoId (some status) (startExtra.fields .processing))) : False := by
    rcases pending_or_processing hallowed with rfl | rfl
    · exact hpending i hi hstatus
    · exact hreentry j ⟨hstatus, job, hreceives⟩ i hi
  constructor
  · intro i j hi hj
    rcases owns_before hstep hs hi with hi | ⟨job, status, hallowed, hstatus, -, hreceives⟩
    · rcases owns_before hstep hs hj with hj | ⟨job, status, hallowed, hstatus, -, hreceives⟩
      · exact hunique i j hi hj
      · exact (hnone hi hallowed hstatus hreceives).elim
    · rcases owns_before hstep hs hj with hj | ⟨job', status', -, -, -, hreceives'⟩
      · exact (hnone hj hallowed hstatus hreceives).elim
      · exact (hreceives.executes.unique hreceives'.executes).1
  · intro i hi
    rcases owns_before hstep hs hi with hi | ⟨job, status, -, -, hprocessing, -⟩
    · exact not_pending_of_step hstep hs htasks (hpending i hi)
    · rw [hprocessing]
      simp

/-- In a run of executions in which no execution re-enters an owned row, ownership
is exclusive at every moment. -/
theorem exclusive_of_reentry {w : World} {ts : List (Transition State Step)}
    (hrun : Run (system config).step ⟨w, []⟩ ts s)
    (hinvoke : ∀ t ∈ ts, t.act.InvokesOnly Task.WorkerSide)
    (hreentry : ∀ t ∈ ts, ∀ j, Reenters videoId t j → ∀ i, ¬Owns videoId t.before i) :
    Exclusive videoId s := by
  refine ⟨?_, ?_⟩
  · refine (hrun.invariant (fun s ↦ Conforming s ∧ (∀ u ∈ s.threads, u.task.WorkerSide) ∧
      (∀ i j, Owns videoId s i → Owns videoId s j → i = j) ∧
      ∀ i, Owns videoId s i → s.state.statusOf videoId ≠ some .pending) ?_ ?_).2.2.1
    · refine ⟨by simp [Conforming], by simp, ?_, ?_⟩
      · rintro i j ⟨t, ht, -⟩
        simp at ht
      · rintro i ⟨t, ht, -⟩
        simp at ht
    · rintro t ht hstep ⟨hconf, htasks, hunique, hpending⟩
      exact ⟨step_conforming hstep hconf, step_tasks hstep (hinvoke t ht) (fun _ ↦ trivial)
        (fun _ ↦ trivial) htasks,
        unique_of_step hconf htasks hstep (hreentry t ht) hunique hpending⟩
  · intro t ht hexec hstart hthrow
    obtain ⟨i, hget⟩ := List.getElem?_of_mem ht
    exact standsBack_of_logFits (run_logFits hrun hget) (run_conforming hrun t ht) hexec
      hstart hthrow

end System

/-! ## A duplicate delivery -/

def pendingWorld : World :=
  { World.empty with videos := Table.single (Video.create "video" {} 0) }

def generateJob : Job := ⟨1, videoGenerationJob, ⟨"video"⟩, {}, 0⟩

/-- The second delivery reads the row before the first one has started it: its start
transition affects no row. -/
def refusedActs : List Step :=
  [.invoke (.process generateJob), okStep 0, .invoke (.process generateJob), okStep 1,
    okStep 0, okStep 1]

/-- The second delivery reads the row after the first one has started it. -/
def reenteredActs : List Step :=
  [.invoke (.process generateJob), okStep 0, okStep 0, .invoke (.process generateJob),
    okStep 1, okStep 1]

def isStart : Exchange interface → Bool
  | ⟨.updateVideo _ (some _) fields, .ok (n : ℕ)⟩ =>
      fields = startExtra.fields .processing && n ≠ 0
  | _ => false

def owns (videoId : String) (s : State) (i : ℕ) : Bool :=
  match s.threads[i]? with
  | some t =>
      match t.task with
      | .process job => job.data.videoId = videoId && t.log.any isStart && !decide t.Ended
      | _ => false
  | none => false

theorem isStart_iff (x : Exchange interface) : isStart x = true ↔ IsStart x := by
  rcases x with ⟨c, r⟩
  cases c with
  | updateVideo id expected fields =>
      cases expected <;> rcases r with e | n <;> simp [isStart, IsStart]
  | _ => simp [isStart, IsStart]

theorem owns_iff {videoId : String} {s : State} {i : ℕ} :
    owns videoId s i = true ↔ Owns videoId s i := by
  unfold owns Owns ExecutionOf Started
  cases s.threads[i]? with
  | none => simp
  | some t =>
      cases htask : t.task <;> simp [htask, isStart_iff, and_assoc]

def expectsProcessing (t : Transition State Step) : Bool :=
  match t.call? with
  | some (.updateVideo _ (some .processing) fields) => fields.status = some .processing
  | _ => false

theorem exclusive_of_reentry_refused : ∃ (ts : List (Transition State Step)) (s : State),
    Run (system ⟨"bucket", none, "region"⟩).step ⟨pendingWorld, []⟩ ts s ∧
      Owns "video" s 0 ∧ s.threads.length = 2 ∧ Exclusive "video" s := by
  obtain ⟨ts, s, hrun, hacts, hobs⟩ := Run.exists_of_follow
    (system ⟨"bucket", none, "region"⟩).step ⟨pendingWorld, []⟩ refusedActs
    (fun p ↦ (owns "video" p.2 0, p.2.threads.length, p.1.any expectsProcessing))
    (true, 2, false) (by decide +kernel)
  have hinvoke : ∀ a ∈ refusedActs, a.InvokesOnly Task.WorkerSide := by decide
  obtain ⟨howns, hlength, hnever⟩ := by simpa using hobs
  refine ⟨ts, s, hrun, owns_iff.mp howns, hlength, exclusive_of_reentry hrun
    (fun t ht ↦ hinvoke _ (hacts ▸ List.mem_map_of_mem ht)) ?_⟩
  rintro t ht j ⟨-, job, hreceives⟩
  have hnot := hnever t ht
  simp [expectsProcessing, call?_of_executes hreceives.executes, TransitionExtra.fields] at hnot

theorem two_owners : ∃ (ts : List (Transition State Step)) (s : State),
    Run (system ⟨"bucket", none, "region"⟩).step ⟨pendingWorld, []⟩ ts s ∧
      (∀ t ∈ ts, t.act.InvokesOnly Task.WorkerSide) ∧ ¬Exclusive "video" s := by
  obtain ⟨ts, s, hrun, hacts, hobs⟩ := Run.exists_of_follow
    (system ⟨"bucket", none, "region"⟩).step ⟨pendingWorld, []⟩ reenteredActs
    (fun p ↦ (owns "video" p.2 0, owns "video" p.2 1))
    (true, true) (by decide +kernel)
  have hinvoke : ∀ a ∈ reenteredActs, a.InvokesOnly Task.WorkerSide := by decide
  obtain ⟨hfirst, hsecond⟩ := Prod.mk.inj hobs
  refine ⟨ts, s, hrun, fun t ht ↦ hinvoke _ (hacts ▸ List.mem_map_of_mem ht), fun h ↦ ?_⟩
  have heq := h.1 0 1 (owns_iff.mp hfirst) (owns_iff.mp hsecond)
  omega

end VideoGen
