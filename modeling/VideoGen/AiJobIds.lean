import VideoGen.MethodCalls
import VideoGen.Settlement

/-!
# The provider's job id in the metadata

`updateProgress` writes the metadata column as a whole.  The update after the
submission carries the provider's job id; the updates of the polling loop do
not, so the first of them that meets the row takes the id away.
-/

namespace VideoGen

/-! ## What the progress updates of an execution carry -/

/-- What an execution knows of its submission. -/
structure Submission where
  answer : Option GenerateVideoResult := none
  /-- The update with the job id went through. -/
  recorded : Bool := false
  /-- A status query was answered. -/
  polled : Bool := false
  /-- An update of the row was rejected. -/
  closed : Bool := false

namespace Submission

def next (x : Submission) : (c : Call) → Except Thrown c.Reply → Submission
  | .generateVideo _ _, .ok (result : GenerateVideoResult) => { x with answer := some result }
  | .updateVideo _ _ _, .ok _ => { x with recorded := x.recorded || x.answer.isSome }
  | .updateVideo _ _ _, .error _ => { x with closed := true }
  | .getGenerationStatus _, .ok _ => { x with polled := true }
  | _, _ => x

def Writes (x : Submission) (fields : VideoFields) : Prop :=
  if x.polled then
    ∃ polls, fields = progressFields (pollPercent polls) (pollMessage polls) (pollMeta polls)
  else
    match x.answer with
    | none => fields =
        progressFields 20 "Prompt enhanced, submitting to AI provider..." JsObject.empty
    | some result => x.recorded = false ∧ fields =
        progressFields 40 "Job submitted, waiting for AI provider..." (submittedMeta result)

def Admits (x : Submission) : Call → Prop
  | .updateVideo _ _ fields => fields.status = none → x.closed = false ∧ x.Writes fields
  | .generateVideo _ _ => x.answer = none
  | .getGenerationStatus _ => x.recorded = true
  | _ => True

end Submission

def submissionProtocol : Protocol interface Submission where
  Allows := Submission.Admits
  Possible := Call.Possible
  next := Submission.next

/-- Calls that the automaton does not look at. -/
def Call.Foreign : Call → Prop
  | .updateVideo _ _ _ => False
  | .generateVideo _ _ => False
  | .getGenerationStatus _ => False
  | _ => True

def Call.Concluding : Call → Prop
  | .updateVideo _ _ fields => fields.status ≠ none
  | .generateVideo _ _ => False
  | .getGenerationStatus _ => False
  | _ => True

section Conformance

variable {config : StorageConfig} {job : Job} {x : Submission} {α β : Type}

theorem Submission.admits_foreign {c : Call} (hc : c.Foreign) : x.Admits c := by
  cases c <;> trivial

theorem Submission.next_foreign {c : Call} (hc : c.Foreign) (r : Except Thrown c.Reply) :
    x.next c r = x := by
  cases c <;> first | rfl | exact hc.elim

theorem Submission.admits_concluding {c : Call} (hc : c.Concluding) : x.Admits c := by
  cases c with
  | updateVideo videoId expected fields => exact fun h ↦ absurd h hc
  | generateVideo params videoId => exact hc.elim
  | getGenerationStatus jobId => exact hc.elim
  | _ => trivial

abbrev Submits (p : Prog α) (x : Submission) : Prop :=
  p.Keeps submissionProtocol.spec (fun _ _ ↦ True) x

theorem submits_after {p : Prog α} {f : α → Prog β} (hp : p.Calls Call.Foreign)
    (hf : ∀ a, Submits (f a) x) : Submits (p >>= f) x :=
  hp.keeps_bind (fun _ hc ↦ Submission.admits_foreign hc)
    (fun _ r hc ↦ Submission.next_foreign hc r) hf fun _ ↦ trivial

theorem submits_concluding {p : Prog α} (hp : p.Calls Call.Concluding) : Submits p x :=
  hp.keeps_anywhere (fun _ _ hc ↦ Submission.admits_concluding hc) x

theorem submits_updateProgress {percent : ℤ} {message : String} {additionalMeta : JsObject}
    {videoId : String} {f : Prog Unit} (hopen : x.closed = false)
    (hwrites : x.Writes (progressFields percent message additionalMeta))
    (hf : Submits f { x with recorded := x.recorded || x.answer.isSome }) :
    Submits (do updateProgress videoId percent message additionalMeta
                f) x := by
  refine Program.keeps_bind.mpr (Program.keeps_bind.mpr (keeps_ask.mpr ⟨fun _ ↦ ⟨hopen, hwrites⟩, ?_⟩))
  rintro (e | affected) -
  · trivial
  have hcache : (writeCache videoId .processing (.number percent) (.string message)).Calls
      Call.Foreign := calls_writeCache trivial (fun _ _ ↦ trivial) _ _ _ _
  refine Program.Keeps.mono ?_ (hcache.keeps (P := submissionProtocol)
    (fun _ hc ↦ Submission.admits_foreign hc) fun _ r hc ↦ Submission.next_foreign hc r)
  rintro x' (e | a) rfl
  · trivial
  · exact hf

theorem concluding_finishGeneration (result : GenerateVideoResult) (videoUrl : String) :
    (finishGeneration config job result videoUrl).Calls Call.Concluding := by
  have hstore : (storeVideo config job result videoUrl).Calls Call.Concluding := by
    unfold storeVideo
    split
    · trivial
    · exact calls_uploadFromUrl trivial (fun _ _ ↦ trivial) fun _ ↦ trivial
  refine hstore.bind fun storedUrl ↦ ?_
  refine (calls_transitionStatus trivial (fun _ _ ↦ trivial) fun _ ↦ ?_).bind fun _ ↦ ?_
  · simp [Call.Concluding, TransitionExtra.fields]
  · exact (calls_ask trivial).bind fun _ ↦ calls_ask trivial

theorem submits_pollLoop (generationJobId : String) (remaining : ℕ) (status : GenerationStatus)
    (pollAttempts : ℕ) (hopen : x.closed = false) (hrecorded : x.recorded = true) :
    Submits (pollLoop config job generationJobId status pollAttempts remaining) x := by
  induction remaining generalizing status pollAttempts x with
  | zero => trivial
  | succ remaining ih =>
      unfold pollLoop
      split
      · refine submits_after (calls_ask trivial) fun _ ↦ ?_
        refine Program.keeps_bind.mpr (keeps_ask.mpr ⟨hrecorded, ?_⟩)
        rintro (e | result) -
        · trivial
        rw [Program.then_ok]
        refine submits_updateProgress hopen ?_ ?_
        · exact ⟨pollAttempts + 1, rfl⟩
        refine submits_after (calls_ask trivial) fun _ ↦ ?_
        refine submits_after (calls_ask trivial) fun _ ↦ ?_
        split
        · exact submits_concluding (concluding_finishGeneration _ _)
        · refine ih _ _ hopen ?_
          exact Bool.or_eq_true_iff.mpr (.inl hrecorded)
      · trivial

theorem submits_generate (video : Video) : Submits (generate config job video) {} := by
  refine submits_after (calls_ask trivial) fun _ ↦ ?_
  refine submits_after (calls_ask trivial) fun _ ↦ ?_
  refine submits_after (calls_enhancePrompt video.prompt trivial) fun _ ↦ ?_
  refine submits_updateProgress rfl rfl ?_
  refine submits_after (calls_ask trivial) fun _ ↦ ?_
  refine Program.keeps_bind.mpr (keeps_ask.mpr ⟨rfl, ?_⟩)
  rintro (e | result) -
  · trivial
  rw [Program.then_ok]
  refine submits_updateProgress rfl ⟨rfl, rfl⟩ ?_
  refine submits_after (calls_ask trivial) fun _ ↦ ?_
  exact submits_pollLoop _ _ _ _ rfl rfl

theorem submits_process : Submits (process config job) {} := by
  unfold process
  split
  · refine Program.keeps_catchWith.mpr (Program.Keeps.mono (fun x' r _ ↦ ?_)
      (?_ : Submits (attemptGeneration config job) {}))
    · cases r with
      | ok a => trivial
      | error e =>
          refine submits_concluding (?_ : (onGenerationError job e).Calls Call.Concluding)
          change Program.Calls _ (if IsFinalAttempt job then _ else _)
          split
          · refine (calls_markFailed ?_ trivial).bind fun _ ↦ ?_
            · simp [Call.Concluding, failedFields]
            · exact (calls_ask trivial).bind fun _ ↦ trivial
          · trivial
    · have hload : (findById job.data.videoId).Calls Call.Foreign := by
        refine (calls_ask trivial).bind fun video ↦ ?_
        cases video <;> trivial
      refine submits_after hload fun video ↦ ?_
      refine Program.keeps_bind.mpr ?_
      unfold transitionStatus
      split
      · refine Program.keeps_bind.mpr (keeps_ask.mpr ⟨(fun h ↦ by cases h), ?_⟩)
        rintro (e | affected) -
        · trivial
        change Program.Keeps _ _ (if affected = 0 then _ else _) _
        split
        · trivial
        · have hcache (progress message : JsValue) : (do
              writeCache job.data.videoId .processing progress message
              pure true : Prog Bool).Calls Call.Foreign :=
            (calls_writeCache trivial (fun _ _ ↦ trivial) _ _ _ _).bind fun _ ↦ trivial
          refine Program.Keeps.mono ?_ ((hcache _ _).keeps (P := submissionProtocol)
            (fun _ hc ↦ Submission.admits_foreign hc) fun _ r hc ↦ Submission.next_foreign hc r)
          rintro x' (e | started) rfl
          · trivial
          · change Submits (if started = true then _ else _) {}
            split
            · exact submits_generate video
            · trivial
      · trivial
  · trivial

end Conformance

/-! ## The id in the row -/

/-- Thread `i` executes an update of `updateProgress`, and the row is there and is being
processed. -/
def WritesProgress (i : ℕ) (job : Job) (t : Transition State Step) : Prop :=
  ∃ percent message additionalMeta,
    Executes t i (.process job) (.updateVideo job.data.videoId (some .processing)
      (progressFields percent message additionalMeta)) ∧
    t.before.state.statusOf job.data.videoId = some .processing

def World.CarriesAiJobId (w : World) (videoId aiJobId : String) : Prop :=
  ∃ row, w.videos.find? videoId = some row ∧ row.metadataAt "aiJobId" = .string aiJobId

/-- From the step with which thread `i` writes the id until the row is no longer processed,
every row that its `updateProgress` writes carries the id. -/
def KeepsAiJobId (i : ℕ) (job : Job) (ts : List (Transition State Step)) : Prop :=
  ∀ pre t mid u post aiJobId, ts = pre ++ t :: (mid ++ u :: post) →
    WritesProgress i job t → t.after.state.CarriesAiJobId job.data.videoId aiJobId →
    (∀ x ∈ mid, x.after.state.statusOf job.data.videoId = some .processing) →
    WritesProgress i job u → u.after.state.CarriesAiJobId job.data.videoId aiJobId

/-- While thread `i` is there, nobody else writes the row. -/
def OnlyWriter (i : ℕ) (videoId : String) (t : Transition State Step) : Prop :=
  i < t.before.threads.length →
    ∀ j task c, Executes t j task c → c.Disturbs videoId → j = i

def Polled (t : Worker) : Prop :=
  ∃ jobId result, (⟨.getGenerationStatus jobId, .ok result⟩ : Exchange interface) ∈ t.log

def ChangesOnlyGiven (given : JsObject) (before after : Video) : Prop :=
  ∀ key, given.has key = false → after.metadataAt key = before.metadataAt key

theorem get_of_not_has {o : JsObject} {key : String} (h : o.has key = false) :
    o.stored.get key = .undefined := by
  have hnone : o.stored.lookup key = none := by
    rw [List.lookup_eq_none_iff]
    intro p hp
    have hmem : p ∈ o := List.mem_of_mem_filter hp
    have hne := List.any_eq_false.mp h p hmem
    have hkey : p.1 ≠ key := by simpa using hne
    simpa using fun heq ↦ hkey heq.symm
  rw [JsObject.get, hnone]
  rfl

theorem metadataAt_progress (row : Video) (percent : ℤ) (message : String)
    (additionalMeta : JsObject) (now : ℕ) (key : String) :
    (row.assign (progressFields percent message additionalMeta) now).metadataAt key =
      (progressMetadata percent message additionalMeta).stored.get key := rfl

theorem changesOnlyGiven_iff (row : Video) (percent : ℤ) (message : String)
    (additionalMeta : JsObject) (now : ℕ) :
    ChangesOnlyGiven (progressMetadata percent message additionalMeta) row
        (row.assign (progressFields percent message additionalMeta) now) ↔
      ∀ key, (progressMetadata percent message additionalMeta).has key = false →
        row.metadataAt key = .undefined := by
  refine forall_congr' fun key ↦ imp_congr_right fun hkey ↦ ?_
  rw [metadataAt_progress, get_of_not_has hkey]
  exact eq_comm

theorem poll_carries_none (row : Video) (polls : ℕ) (now : ℕ) :
    (row.assign (progressFields (pollPercent polls) (pollMessage polls) (pollMeta polls))
      now).metadataAt "aiJobId" = .undefined := by
  rw [metadataAt_progress]
  exact get_of_not_has (by simp [progressMetadata, JsObject.spread, JsObject.has, pollMeta])

theorem enhanced_carries_none (row : Video) (now : ℕ) :
    (row.assign (progressFields 20 "Prompt enhanced, submitting to AI provider..."
      JsObject.empty) now).metadataAt "aiJobId" = .undefined := by
  rw [metadataAt_progress]
  exact get_of_not_has rfl

theorem submitted_carries (row : Video) (result : GenerateVideoResult) (now : ℕ) :
    (row.assign (progressFields 40 "Job submitted, waiting for AI provider..."
      (submittedMeta result)) now).metadataAt "aiJobId" = .string result.jobId := by
  rw [metadataAt_progress]
  simp [progressMetadata, submittedMeta, JsObject.spread, JsObject.has, JsObject.stored,
    JsObject.get, List.lookup_cons]

/-! ## An attempt in a run -/

def submissionOf (t : Worker) : Submission := t.log.foldl (fun x e ↦ x.next e.1 e.2) {}

section System

variable {config : StorageConfig} {s s' : State} {ts : List (Transition State Step)} {i : ℕ}
  {job : Job}

theorem submits_of_run {w : World} (hrun : Run (system config).step ⟨w, []⟩ ts s) {t : Worker}
    (ht : t ∈ s.threads) (htask : t.task = .process job) : Submits t.prog (submissionOf t) := by
  have hfollows := follows_of_run hrun t ht
  rw [htask] at hfollows
  change Program.Follows ((fun _ ↦ Value.unit) <$> process config job) _ _ at hfollows
  exact hfollows.keeps (P := submissionProtocol) (s := {})
    (Program.keeps_map.mpr submits_process) (possible_of_log hrun ht)

theorem polled_iff (t : Worker) : (submissionOf t).polled = true ↔ Polled t := by
  have hfold (log : List (Exchange interface)) (x : Submission) :
      (log.foldl (fun x e ↦ x.next e.1 e.2) x).polled = true ↔
        x.polled = true ∨ ∃ jobId result,
          (⟨.getGenerationStatus jobId, .ok result⟩ : Exchange interface) ∈ log := by
    induction log generalizing x with
    | nil => simp
    | cons e log ih =>
        obtain ⟨c, r⟩ := e
        rw [List.foldl_cons, ih]
        cases c with
        | getGenerationStatus jobId =>
            cases r with
            | ok result =>
                exact iff_of_true (.inl rfl) (.inr ⟨jobId, result, List.mem_cons_self⟩)
            | error e => simp [Submission.next]
        | updateVideo id expected fields => cases r <;> simp [Submission.next]
        | generateVideo params videoId => cases r <;> simp [Submission.next]
        | _ => simp [Submission.next]
  unfold submissionOf Polled
  rw [hfold]
  simp

theorem admits_of_run {w : World} (hrun : Run (system config).step ⟨w, []⟩ ts s) {t : Worker}
    (hget : s.threads[i]? = some t) (htask : t.task = .process job) {c : Call}
    (hpending : t.pending? = some c) : (submissionOf t).Admits c := by
  obtain ⟨next, hprog⟩ := Thread.pending?_eq_some_iff.mp hpending
  have hsubmits := submits_of_run hrun (List.mem_of_getElem? hget) htask
  rw [hprog] at hsubmits
  exact hsubmits.1

theorem acts_or_not {a : Step} (hstep : (system config).step s a = some s') (hs : Conforming s)
    {u : Worker} (hu : s'.threads[i]? = some u) :
    (∃ f t c r, a = .call i f ∧ Answered config s s' i f t u c r) ∨
    ((∀ f, a ≠ .call i f) ∧
      ((∃ t, s.threads[i]? = some t ∧ u.task = t.task ∧ u.log = t.log ∧ stageOf u = stageOf t) ∨
        (s.threads.length ≤ i ∧ ∃ task, u = (system config).start task))) := by
  by_cases hacts : ∃ f, a = .call i f
  · obtain ⟨f, rfl⟩ := hacts
    obtain ⟨t, t', c, r, h⟩ := answered_of_step hstep hs
    obtain rfl := Option.some.inj (hu.symm.trans h.get_self)
    exact .inl ⟨f, t, c, r, rfl, h⟩
  · refine .inr ⟨fun f hf ↦ hacts ⟨f, hf⟩, ?_⟩
    rcases thread_cases hstep hs hu with ⟨t, ht, htask, -, hlog, hstage, -⟩ | hnew |
      ⟨f, t, c, r, ha, -⟩
    · exact .inl ⟨t, ht, htask, hlog, hstage⟩
    · exact .inr hnew
    · exact absurd ⟨f, ha⟩ hacts

theorem status_kept {a : Step} (hstep : (system config).step s a = some s') (hs : Conforming s)
    {videoId : String} (hnone : ∀ j task c, Executes ⟨s, a, s'⟩ j task c → ¬c.Disturbs videoId)
    {status : VideoStatus} (h : s.state.statusOf videoId = some status) :
    s'.state.statusOf videoId = some status := by
  obtain ⟨row, hrow, hstatus⟩ := World.statusOf_eq_some_iff.mp h
  apply World.statusOf_eq_some_iff.mpr
  cases a with
  | invoke task =>
      obtain rfl := Option.some.inj hstep
      exact ⟨row, hrow, hstatus⟩
  | crash j =>
      obtain ⟨t, -, rfl⟩ := (system config).step_crash_cases hstep
      exact ⟨row, hrow, hstatus⟩
  | env l =>
      obtain ⟨w, tasks, henv, rfl⟩ := (system config).step_env_cases hstep
      exact ⟨row, (envStep_frame henv).1 ▸ hrow, hstatus⟩
  | call j f =>
      obtain ⟨t, t', c, r, h⟩ := answered_of_step hstep hs
      rcases World.exec_effect h.exec with ⟨-, hw, -⟩ | ⟨hf, b, x, hx, -⟩
      · exact ⟨row, hw.symm ▸ hrow, hstatus⟩
      · have hquiet := hnone j t.task c ⟨f, t, rfl, hf, h.get, rfl, h.pending⟩
        exact ⟨row, World.row_of_answer hx hquiet hrow, hstatus⟩

/-! ## The phases of an attempt -/

theorem Phase.unread_of_next {phase : Phase} {c : Call} {r : Except Thrown c.Reply}
    (h : WorkerAllows job phase c)
    (hnext : phase.next c r = .fresh ∨ ∃ status, phase.next c r = .loaded status) :
    phase = .fresh ∧ c = .selectVideo job.data.videoId := by
  cases h with
  | load => exact ⟨rfl, rfl⟩
  | start status hallowed =>
      cases r with
      | error e => rcases hnext with hnext | ⟨status, hnext⟩ <;> cases hnext
      | ok n => by_cases hn : n = 0 <;> simp [Phase.next, hn] at hnext
  | quiet _ hquiet =>
      rw [Phase.next_quiet hquiet] at hnext
      cases r with
      | ok x => rcases hnext with hnext | ⟨status, hnext⟩ <;> cases hnext
      | error e =>
          by_cases hcaught : c.Caught = true <;> simp [hcaught] at hnext
  | progress u => cases r <;> rcases hnext with hnext | ⟨status, hnext⟩ <;> cases hnext
  | complete url thumbnail hurl =>
      cases r <;> rcases hnext with hnext | ⟨status, hnext⟩ <;> cases hnext
  | mark phase hphase hfinal message =>
      rcases hphase with rfl | rfl <;> cases r <;>
        rcases hnext with hnext | ⟨status, hnext⟩ <;> cases hnext
  | _ => cases r <;> rcases hnext with hnext | ⟨status, hnext⟩ <;> cases hnext

theorem Phase.working_of_next {phase : Phase} {c : Call} {r : Except Thrown c.Reply}
    (h : WorkerAllows job phase c) (hnext : phase.next c r = .working) :
    (∃ status n, n ≠ 0 ∧ phase = .loaded status ∧ (⟨c, r⟩ : Exchange interface) =
      ⟨.updateVideo job.data.videoId (some status) (startExtra.fields .processing), .ok n⟩) ∨
    (phase = .working ∧ (c.Quiet = true ∨ ∃ (u : ProgressUpdate) (n : ℕ),
      (⟨c, r⟩ : Exchange interface) =
        ⟨.updateVideo job.data.videoId (some .processing) u.fields, .ok n⟩)) := by
  cases h with
  | start status hallowed =>
      cases r with
      | error e => cases hnext
      | ok n =>
          by_cases hn : n = 0
          · simp [Phase.next, hn] at hnext
          · exact .inl ⟨status, n, hn, rfl, rfl⟩
  | quiet _ hquiet => exact .inr ⟨rfl, .inl hquiet⟩
  | progress u =>
      cases r with
      | error e => cases hnext
      | ok n => exact .inr ⟨rfl, .inr ⟨u, n, rfl⟩⟩
  | load => rcases r with e | _ | video <;> cases hnext
  | complete url thumbnail hurl => cases r <;> cases hnext
  | mark phase hphase hfinal message =>
      rcases hphase with rfl | rfl <;> cases r <;> cases hnext
  | _ => cases r <;> cases hnext

/-! ## What is known along a run -/

def RecordedBy (i : ℕ) (job : Job) (ts : List (Transition State Step)) (aiJobId : String) : Prop :=
  ∃ pre t mid, ts = pre ++ t :: mid ∧ WritesProgress i job t ∧
    t.after.state.CarriesAiJobId job.data.videoId aiJobId ∧
    ∀ x ∈ mid, x.after.state.statusOf job.data.videoId = some .processing

/-- What is known of the execution in a thread, from its stage and its submission. -/
structure Known (i : ℕ) (job : Job) (ts : List (Transition State Step)) (w : World)
    (stage : Stage) (x : Submission) : Prop where
  unread : (stage = .worker job .fresh ∨ ∃ status, stage = .worker job (.loaded status)) →
    x.answer = none ∧ x.recorded = false
  polled : x.polled = true → x.recorded = true
  processing : stage = .worker job .working → w.statusOf job.data.videoId = some .processing
  recorded : stage = .worker job .working → x.recorded = true →
    ∃ result, x.answer = some result ∧ RecordedBy i job ts result.jobId
  noted : (∃ t ∈ ts, WritesProgress i job t ∧
      ∃ aiJobId, t.after.state.CarriesAiJobId job.data.videoId aiJobId) →
    x.closed = true ∨ x.recorded = true ∧ x.answer.isSome = true

theorem RecordedBy.snoc {aiJobId : String} (h : RecordedBy i job ts aiJobId)
    {t : Transition State Step} (ht : t.after.state.statusOf job.data.videoId = some .processing) :
    RecordedBy i job (ts ++ [t]) aiJobId := by
  obtain ⟨pre, u, mid, rfl, hwrites, hcarries, hmid⟩ := h
  refine ⟨pre, u, mid ++ [t], by simp, hwrites, hcarries, ?_⟩
  exact List.forall_mem_append.mpr ⟨hmid, List.forall_mem_singleton.mpr ht⟩

theorem Submission.next_grows (x : Submission) (c : Call) (r : Except Thrown c.Reply) :
    (x.closed = true → (x.next c r).closed = true) ∧
      (x.recorded = true → (x.next c r).recorded = true) ∧
      (x.answer.isSome = true → (x.next c r).answer.isSome = true) := by
  cases c with
  | updateVideo id expected fields => cases r <;> simp +contextual [Submission.next]
  | generateVideo params videoId => cases r <;> simp +contextual [Submission.next]
  | getGenerationStatus jobId => cases r <;> simp +contextual [Submission.next]
  | _ => exact ⟨id, id, id⟩

theorem Known.beside {w w' : World} {stage : Stage} {x : Submission} {t : Transition State Step}
    (h : Known i job ts w stage x) (hact : ∀ f, t.act ≠ .call i f)
    (hafter : t.after.state = w') (hstatus : w.statusOf job.data.videoId = some .processing →
      w'.statusOf job.data.videoId = some .processing) :
    Known i job (ts ++ [t]) w' stage x where
  unread := h.unread
  polled := h.polled
  processing hstage := hstatus (h.processing hstage)
  recorded hstage hrecorded := by
    obtain ⟨result, hanswer, hby⟩ := h.recorded hstage hrecorded
    refine ⟨result, hanswer, hby.snoc ?_⟩
    rw [hafter]
    exact hstatus (h.processing hstage)
  noted := by
    rintro ⟨u, hu, hwrites, hcarries⟩
    rcases List.mem_append.mp hu with hu | hu
    · exact h.noted ⟨u, hu, hwrites, hcarries⟩
    · obtain rfl := List.mem_singleton.mp hu
      obtain ⟨percent, message, additionalMeta, ⟨f, v, hcall, -⟩, -⟩ := hwrites
      exact absurd hcall (hact f)

theorem Submission.Writes.carries {x : Submission} {fields : VideoFields} (h : x.Writes fields)
    {row : Video} {now : ℕ} {aiJobId : String}
    (hid : (row.assign fields now).metadataAt "aiJobId" = .string aiJobId) :
    x.polled = false ∧ x.recorded = false ∧ x.answer.isSome = true := by
  unfold Submission.Writes at h
  split at h
  · obtain ⟨polls, rfl⟩ := h
    rw [poll_carries_none] at hid
    cases hid
  · rename_i hpolled
    cases hanswer : x.answer with
    | none =>
        rw [hanswer] at h
        obtain rfl := h
        rw [enhanced_carries_none] at hid
        cases hid
    | some result =>
        rw [hanswer] at h
        exact ⟨by simpa using hpolled, h.1, rfl⟩

theorem WritesProgress.rows {t : Transition State Step} (h : WritesProgress i job t)
    (hs : Conforming t.before)
    (hstep : (system config).step t.before t.act = some t.after) :
    ∃ f u fields row, t.act = .call i f ∧ t.before.threads[i]? = some u ∧
      u.task = .process job ∧
      u.pending? = some (.updateVideo job.data.videoId (some .processing) fields) ∧
      fields.status = none ∧ t.before.state.videos.find? job.data.videoId = some row ∧
      t.after.state.videos.find? job.data.videoId =
        some (row.assign fields t.before.state.now) := by
  obtain ⟨percent, message, additionalMeta, hexecutes, hprocessing⟩ := h
  obtain ⟨row, hrow, hstatus⟩ := World.statusOf_eq_some_iff.mp hprocessing
  obtain ⟨b, n, hx⟩ := hexecutes.answer hs hstep
  obtain ⟨f, u, hact, -, hget, htask, hpending⟩ := hexecutes
  refine ⟨f, u, _, row, hact, hget, htask, hpending, rfl, hrow, ?_⟩
  rcases World.row_of_update hx hrow with ⟨-, -, hafter⟩ | ⟨hguard, -⟩
  · exact hafter
  · simp [hstatus] at hguard

section Acting

variable {w : World} {f : Fate} {t u : Worker} {c : Call} {r : Except Thrown c.Reply}
  (hrun : Run (system config).step ⟨w, []⟩ ts s)
  (hstep : (system config).step s (.call i f) = some s')
  (h : Answered config s s' i f t u c r) (htask : t.task = .process job)
  (hknown : Known i job ts s.state (stageOf t) (submissionOf t))

include hrun hstep h hknown

theorem processing_acts (hstage : stageOf u = .worker job .working) :
    s'.state.statusOf job.data.videoId = some .processing := by
  obtain ⟨phase, hphase, hallows, hnext⟩ := worker_of_answered h hstage
  rcases Phase.working_of_next hallows hnext.symm with ⟨status, n, hn, rfl, heq⟩ |
    ⟨rfl, hquiet | ⟨v, n, heq⟩⟩
  · cases heq
    obtain ⟨-, b, hx⟩ := World.exec_ok h.exec
    obtain ⟨hw, haffected⟩ := World.answer_updateVideo hx
    obtain ⟨row, hrow, hguard⟩ := (World.updateVideo_affected _ _ _ _).mp (haffected ▸ hn)
    rw [hw, World.statusOf_updateVideo, if_pos rfl, World.statusOf, hrow, Option.map_some,
      Option.map_some, if_pos hguard]
    rfl
  · refine status_kept hstep (run_conforming hrun) ?_ (hknown.processing hphase)
    rintro j task c' ⟨f', u', hact, -, hget, -, hpending⟩
    obtain ⟨rfl, -⟩ := Act.call.inj hact
    obtain rfl := Option.some.inj (h.get.symm.trans hget)
    obtain rfl := Option.some.inj (h.pending.symm.trans hpending)
    exact Call.not_disturbs_of_quiet hquiet _
  · cases heq
    obtain ⟨-, b, hx⟩ := World.exec_ok h.exec
    rw [(World.answer_updateVideo hx).1, World.statusOf_updateVideo, if_pos rfl,
      hknown.processing hphase]
    rfl

include htask

theorem recorded_acts (hstage : stageOf u = .worker job .working)
    (hrecorded : ((submissionOf t).next c r).recorded = true) :
    ∃ result, ((submissionOf t).next c r).answer = some result ∧
      RecordedBy i job (ts ++ [⟨s, .call i f, s'⟩]) result.jobId := by
  have hadmits := admits_of_run hrun h.get htask h.pending
  have hafter := processing_acts hrun hstep h hknown hstage
  obtain ⟨phase, hphase, hallows, hnext⟩ := worker_of_answered h hstage
  rcases Phase.working_of_next hallows hnext.symm with ⟨status, n, hn, rfl, heq⟩ |
    ⟨rfl, hquiet | ⟨v, n, heq⟩⟩
  · cases heq
    obtain ⟨hanswer, hfalse⟩ := hknown.unread (.inr ⟨status, hphase⟩)
    simp [Submission.next, hanswer, hfalse] at hrecorded
  · have hsame : ((submissionOf t).next c r).recorded = (submissionOf t).recorded := by
      cases c <;> first | (cases r <;> rfl) | cases hquiet
    obtain ⟨result, hanswer, hby⟩ := hknown.recorded hphase (hsame ▸ hrecorded)
    refine ⟨result, ?_, hby.snoc hafter⟩
    cases c with
    | generateVideo params videoId =>
        have hnone : (submissionOf t).answer = none := hadmits
        rw [hanswer] at hnone
        cases hnone
    | updateVideo id expected fields => cases hquiet
    | getGenerationStatus jobId => cases r <;> exact hanswer
    | _ => exact hanswer
  · cases heq
    by_cases hbefore : (submissionOf t).recorded = true
    · obtain ⟨result, hanswer, hby⟩ := hknown.recorded hphase hbefore
      exact ⟨result, hanswer, hby.snoc hafter⟩
    · obtain ⟨-, hwrites⟩ := hadmits rfl
      have hpolled : (submissionOf t).polled ≠ true := fun hp ↦ hbefore (hknown.polled hp)
      rw [Submission.Writes, if_neg hpolled] at hwrites
      cases hanswer : (submissionOf t).answer with
      | none => simp [Submission.next, hanswer, hbefore] at hrecorded
      | some result =>
          rw [hanswer] at hwrites
          obtain ⟨-, hfields⟩ := hwrites
          obtain ⟨hf, -⟩ := World.exec_ok h.exec
          have hprogress : WritesProgress i job ⟨s, .call i f, s'⟩ :=
            ⟨v.percent, v.message, v.additionalMeta, ⟨f, t, rfl, hf, h.get, htask, h.pending⟩,
              hknown.processing hphase⟩
          obtain ⟨f', u', fields, row, hact, hget, -, hpending, -, -, hrow⟩ :=
            hprogress.rows (run_conforming hrun) hstep
          obtain rfl := Option.some.inj (h.get.symm.trans hget)
          have hcall := Option.some.inj (h.pending.symm.trans hpending)
          obtain ⟨-, -, rfl⟩ := Call.updateVideo.inj hcall
          refine ⟨result, hanswer, ts, _, [], rfl, hprogress, ⟨_, hrow, ?_⟩, by simp⟩
          rw [hfields]
          exact submitted_carries _ _ _

theorem noted_acts {v : Transition State Step} (hv : v ∈ ts ++ [⟨s, .call i f, s'⟩])
    (hwrites : WritesProgress i job v) {aiJobId : String}
    (hcarries : v.after.state.CarriesAiJobId job.data.videoId aiJobId) :
    ((submissionOf t).next c r).closed = true ∨
      ((submissionOf t).next c r).recorded = true ∧
        ((submissionOf t).next c r).answer.isSome = true := by
  obtain ⟨hclosed, hrecorded, hanswer⟩ := (submissionOf t).next_grows c r
  rcases List.mem_append.mp hv with hv | hv
  · rcases hknown.noted ⟨v, hv, hwrites, aiJobId, hcarries⟩ with hold | ⟨hold, hsome⟩
    · exact .inl (hclosed hold)
    · exact .inr ⟨hrecorded hold, hanswer hsome⟩
  · obtain rfl := List.mem_singleton.mp hv
    obtain ⟨f', u', fields, row, hact, hget, -, hpending, hstatus, -, hrow⟩ :=
      hwrites.rows (run_conforming hrun) hstep
    obtain rfl := Option.some.inj (h.get.symm.trans hget)
    obtain rfl := Option.some.inj (h.pending.symm.trans hpending)
    obtain ⟨-, hfields⟩ := admits_of_run hrun h.get htask h.pending hstatus
    obtain ⟨row', hrow', hid⟩ := hcarries
    obtain rfl := Option.some.inj (hrow.symm.trans hrow')
    obtain ⟨-, -, hsome⟩ := hfields.carries hid
    cases r with
    | error e => exact .inl rfl
    | ok n => exact .inr ⟨Bool.or_eq_true_iff.mpr (.inr hsome), hsome⟩

theorem Known.acts :
    Known i job (ts ++ [⟨s, .call i f, s'⟩]) s'.state (stageOf u)
      ((submissionOf t).next c r) where
  unread := by
    intro hstage
    obtain ⟨phase', hphase', hunread⟩ : ∃ phase', stageOf u = .worker job phase' ∧
        (phase' = .fresh ∨ ∃ status, phase' = .loaded status) := by
      rcases hstage with hstage | ⟨status, hstage⟩
      · exact ⟨_, hstage, .inl rfl⟩
      · exact ⟨_, hstage, .inr ⟨status, rfl⟩⟩
    obtain ⟨phase, hphase, hallows, rfl⟩ := worker_of_answered h hphase'
    obtain ⟨rfl, rfl⟩ := Phase.unread_of_next hallows hunread
    exact hknown.unread (.inl hphase)
  polled := by
    intro hpolled
    have hadmits := admits_of_run hrun h.get htask h.pending
    have hgrows := ((submissionOf t).next_grows c r).2.1
    cases c with
    | getGenerationStatus jobId => exact hgrows hadmits
    | updateVideo id expected fields =>
        cases r <;> exact hgrows (hknown.polled hpolled)
    | generateVideo params videoId => cases r <;> exact hgrows (hknown.polled hpolled)
    | _ => exact hgrows (hknown.polled hpolled)
  processing hstage := processing_acts hrun hstep h hknown hstage
  recorded hstage hrecorded := recorded_acts hrun hstep h htask hknown hstage hrecorded
  noted := by
    rintro ⟨v, hv, hwrites, aiJobId, hcarries⟩
    exact noted_acts hrun hstep h htask hknown hv hwrites hcarries

end Acting

theorem Known.fresh {task : Task} (w : World)
    (hnone : ∀ t ∈ ts, ¬WritesProgress i job t) :
    Known i job ts w (stageOf ((system config).start task))
      (submissionOf ((system config).start task)) where
  unread _ := ⟨rfl, rfl⟩
  polled h := by cases h
  processing h := by cases fresh_of_start h
  recorded h := by cases fresh_of_start h
  noted := by
    rintro ⟨t, ht, hwrites, -⟩
    exact absurd hwrites (hnone t ht)

theorem known_run {w : World} (hrun : Run (system config).step ⟨w, []⟩ ts s)
    (honly : ∀ t ∈ ts, OnlyWriter i job.data.videoId t) {t : Worker}
    (hget : s.threads[i]? = some t) (htask : t.task = .process job) :
    Known i job ts s.state (stageOf t) (submissionOf t) := by
  induction hrun generalizing t with
  | nil => simp at hget
  | @snoc ts s s' a head last ih =>
      obtain ⟨hbefore, hlast⟩ := List.forall_mem_append.mp honly
      have hconf := run_conforming head
      rcases acts_or_not last hconf hget with ⟨f, t₀, c, r, rfl, h⟩ | ⟨hact, hrest⟩
      · have htask₀ : t₀.task = .process job := h.task_eq.symm.trans htask
        have hnext : submissionOf t = (submissionOf t₀).next c r := by
          simp [submissionOf, h.log_eq]
        rw [hnext]
        exact (ih hbefore h.get htask₀).acts head last h htask₀
      · rcases hrest with ⟨t₀, hget₀, htask₀, hlog, hstage⟩ | ⟨hle, task, rfl⟩
        · have hsame : submissionOf t = submissionOf t₀ := by rw [submissionOf, hlog, submissionOf]
          rw [hsame, hstage]
          refine (ih hbefore hget₀ (htask₀.symm.trans htask)).beside hact rfl ?_
          apply status_kept last hconf
          intro j task c hexecutes hdisturbs
          have hi : i < s.threads.length := (List.getElem?_eq_some_iff.mp hget₀).1
          obtain rfl := List.forall_mem_singleton.mp hlast hi j task c hexecutes hdisturbs
          obtain ⟨f, u, hcall, -⟩ := hexecutes
          exact hact f hcall
        · apply Known.fresh
          rintro v hv ⟨percent, message, additionalMeta, ⟨f, u, hcall, -, hu, -⟩, -⟩
          have hlt := (List.getElem?_eq_some_iff.mp hu).1
          have hbound : v.before.threads.length ≤ s.threads.length := by
            rcases List.mem_append.mp hv with hv | hv
            · exact Machine.length_le_of_mem head hv
            · obtain rfl := List.mem_singleton.mp hv
              exact Nat.le_refl _
          omega

theorem working_of_progress {f : Fate} {t u : Worker} {expected : Option VideoStatus}
    {fields : VideoFields} {r : Except Thrown ℕ} {id : String}
    (h : Answered config s s' i f t u (.updateVideo id expected fields) r)
    (htask : t.task = .process job) (hstatus : fields.status = none) :
    stageOf t = .worker job .working := by
  obtain ⟨phase, hphase⟩ := stageOf_process htask
  have hallows := allows_of_answered h
  rw [hphase] at hallows
  obtain hallows | - := hallows
  cases hallows with
  | start status hallowed => simp [TransitionExtra.fields] at hstatus
  | quiet _ hquiet => cases hquiet
  | progress u => exact hphase
  | complete url thumbnail hurl => simp [TransitionExtra.fields] at hstatus
  | mark phase hmark hfinal message => simp [failedFields] at hstatus

/-- While nobody else writes the row, the job id is kept exactly if no update of the polling
loop meets the row.  An update changes only the keys it is given exactly if it misses the row
or the row's metadata has no others. -/
theorem keepsAiJobId_iff {w : World} (hrun : Run (system config).step ⟨w, []⟩ ts s) :
    (∀ i job, (∀ t ∈ ts, OnlyWriter i job.data.videoId t) →
      (KeepsAiJobId i job ts ↔ ∀ t ∈ ts, WritesProgress i job t →
        ∀ u, t.before.threads[i]? = some u → ¬Polled u)) ∧
    ∀ t ∈ ts, ∀ i task videoId percent message additionalMeta row row',
      Executes t i task (.updateVideo videoId (some .processing)
        (progressFields percent message additionalMeta)) →
      t.before.state.videos.find? videoId = some row →
      t.after.state.videos.find? videoId = some row' →
      (ChangesOnlyGiven (progressMetadata percent message additionalMeta) row row' ↔
        (row.status = .processing →
          ∀ key, (progressMetadata percent message additionalMeta).has key = false →
            row.metadataAt key = .undefined)) := by
  constructor
  · intro i job honly
    constructor
    · intro hkeeps u hu hwrites t hget hpolled
      obtain ⟨pre, post, rfl, hpre, hstep⟩ := hrun.exists_prefix hu
      obtain ⟨f, t', fields, row, hact, hget', htask, hpending, hnone, -, hrow⟩ :=
        hwrites.rows (run_conforming hpre) hstep
      obtain rfl := Option.some.inj (hget.symm.trans hget')
      have hknown := known_run hpre
        (fun x hx ↦ honly x (List.mem_append_left _ hx)) hget htask
      have hp := (polled_iff t).mpr hpolled
      obtain ⟨-, hfields⟩ := admits_of_run hpre hget htask hpending hnone
      rw [Submission.Writes, if_pos hp] at hfields
      obtain ⟨polls, rfl⟩ := hfields
      rw [hact] at hstep
      obtain ⟨t₁, t₂, c, r, h⟩ := answered_of_step hstep (run_conforming hpre)
      obtain rfl := Option.some.inj (hget.symm.trans h.get)
      obtain rfl := Option.some.inj (hpending.symm.trans h.pending)
      have hstage := working_of_progress h htask hnone
      obtain ⟨result, -, pre', v, mid, rfl, hv, hcarries, hmid⟩ :=
        hknown.recorded hstage (hknown.polled hp)
      obtain ⟨row', hrow', hid⟩ := hkeeps pre' v mid u post result.jobId (by simp) hv hcarries
        hmid hwrites
      obtain rfl := Option.some.inj (hrow.symm.trans hrow')
      rw [poll_carries_none] at hid
      cases hid
    · intro hunpolled pre v mid u post aiJobId hts hv hcarries hmid hwrites
      have hu : u ∈ ts := by
        rw [hts]
        simp
      have hsplit : ts = (pre ++ v :: mid) ++ u :: post := by
        rw [hts]
        simp
      obtain ⟨hpre, hstep, -⟩ := (hsplit ▸ hrun).at_append_cons
      obtain ⟨f, t, fields, row, hact, hget, htask, hpending, hnone, -⟩ :=
        hwrites.rows (run_conforming hpre) hstep
      have hknown := known_run hpre
        (fun x hx ↦ honly x (hsplit ▸ List.mem_append_left _ hx)) hget htask
      obtain ⟨hopen, hfields⟩ := admits_of_run hpre hget htask hpending hnone
      have hnoted := hknown.noted ⟨v, by simp, hv, aiJobId, hcarries⟩
      obtain ⟨hrecorded, hsome⟩ := hnoted.resolve_left (by simp [hopen])
      have hp : (submissionOf t).polled ≠ true := fun h ↦
        hunpolled u hu hwrites t hget ((polled_iff t).mp h)
      obtain ⟨result, hresult⟩ := Option.isSome_iff_exists.mp hsome
      rw [Submission.Writes, if_neg hp, hresult] at hfields
      simp [hrecorded] at hfields
  · intro t ht i task videoId percent message additionalMeta row row' hexecutes hrow hrow'
    obtain ⟨pre, post, rfl, hpre, hstep⟩ := hrun.exists_prefix ht
    obtain ⟨b, n, hx⟩ := hexecutes.answer (run_conforming hpre) hstep
    rcases World.row_of_update hx hrow with ⟨hguard, -, hafter⟩ | ⟨hguard, hafter⟩
    · obtain rfl := Option.some.inj (hafter.symm.trans hrow')
      have hstatus : row.status = .processing := by simpa [eq_comm] using hguard
      rw [changesOnlyGiven_iff]
      exact ⟨fun h _ ↦ h, fun h ↦ h hstatus⟩
    · obtain rfl := Option.some.inj (hafter.symm.trans hrow')
      have hstatus : row.status ≠ .processing := by simpa [eq_comm] using hguard
      exact iff_of_true (fun key _ ↦ rfl) fun h ↦ absurd h hstatus

end System

/-! ## Two runs -/

/-- The job is taken, the video submitted and the provider asked once; the last step is the
update that follows the answer. -/
def polledActs : List Step :=
  [.env (.take 1), okStep 0, okStep 0] ++ (renderActs 0 "url").take 17

def answersOnly (i : ℕ) : Step → Bool
  | .call j _ => j = i
  | _ => true

theorem onlyWriter_of_answersOnly {i : ℕ} {t : Transition State Step}
    (h : answersOnly i t.act = true) (videoId : String) : OnlyWriter i videoId t := by
  rintro - j task c ⟨f, u, hact, -⟩ -
  rw [hact] at h
  exact of_decide_eq_true h

def updatesWith (i : ℕ) (job : Job) (fields : VideoFields) (t : Transition State Step) :
    Option Video :=
  match t.act, t.before.threads[i]? with
  | .call j (.ok _), some u =>
      match u.task, u.pending? with
      | .process job', some (.updateVideo id expected fields') =>
          if j = i ∧ job' = job ∧ id = job.data.videoId ∧ expected = some .processing ∧
            fields' = fields then t.before.state.videos.find? id else none
      | _, _ => none
  | _, _ => none

theorem executes_of_updatesWith {i : ℕ} {job : Job} {fields : VideoFields}
    {t : Transition State Step} {row : Video} (h : updatesWith i job fields t = some row) :
    Executes t i (.process job) (.updateVideo job.data.videoId (some .processing) fields) ∧
      t.before.state.videos.find? job.data.videoId = some row := by
  unfold updatesWith at h
  split at h
  · rename_i j a u hact hget
    split at h
    · rename_i job' id expected fields' htask hpending
      split at h
      · rename_i hsame
        obtain ⟨rfl, rfl, rfl, rfl, rfl⟩ := hsame
        exact ⟨⟨.ok a, u, hact, rfl, hget, htask, hpending⟩, h⟩
      · cases h
    · cases h
  · cases h

theorem writesProgress_of_updatesWith {i : ℕ} {job : Job} {percent : ℤ} {message : String}
    {additionalMeta : JsObject} {t : Transition State Step} {row : Video}
    (h : updatesWith i job (progressFields percent message additionalMeta) t = some row)
    (hstatus : row.status = .processing) : WritesProgress i job t := by
  obtain ⟨hexecutes, hrow⟩ := executes_of_updatesWith h
  exact ⟨percent, message, additionalMeta, hexecutes,
    World.statusOf_eq_some_iff.mpr ⟨row, hrow, hstatus⟩⟩

def submittedFields : VideoFields :=
  progressFields 40 "Job submitted, waiting for AI provider..."
    (submittedMeta { jobId := "job", status := .processing })

def carriesJob (w : World) : Bool :=
  (w.videos.find? "video").any fun row ↦ row.metadataAt "aiJobId" = .string "job"

theorem carriesAiJobId_iff (w : World) :
    w.CarriesAiJobId "video" "job" ↔ carriesJob w = true := by
  simp [World.CarriesAiJobId, carriesJob, Option.any_eq_true]

def recordsJob (t : Transition State Step) : Bool :=
  carriesJob t.after.state && (updatesWith 0 soloJob submittedFields t).any fun row ↦
    row.status = .processing ∧
      row.metadata = some (progressMetadata 20 "Prompt enhanced, submitting to AI provider..."
        JsObject.empty)

/-- Before the first status query is answered the row keeps the id. -/
theorem keepsAiJobId_submitted : ∃ (ts : List (Transition State Step)) (s : State),
    Run (system ⟨"bucket", none, "region"⟩).step ⟨soloWorld, []⟩ ts s ∧
      KeepsAiJobId 0 soloJob ts ∧
      ∃ t ∈ ts, WritesProgress 0 soloJob t ∧ t.after.state.CarriesAiJobId "video" "job" ∧
        ∃ row row', t.before.state.videos.find? "video" = some row ∧
          t.after.state.videos.find? "video" = some row' ∧
          ChangesOnlyGiven (progressMetadata 40 "Job submitted, waiting for AI provider..."
            (submittedMeta { jobId := "job", status := .processing })) row row' := by
  obtain ⟨ts, s, hrun, hacts, hobs⟩ := Run.exists_of_follow
    (system ⟨"bucket", none, "region"⟩).step ⟨soloWorld, []⟩ (polledActs.take 19)
    (fun p ↦ (p.1.any recordsJob,
      p.1.all fun t ↦ t.before.threads[0]?.all fun u ↦ (submissionOf u).polled = false))
    (true, true) (by decide +kernel)
  obtain ⟨hany, hall⟩ := Prod.mk.inj hobs
  have honly : ∀ a ∈ polledActs.take 19, answersOnly 0 a = true := by decide
  obtain ⟨hkeeps, hchanges⟩ := keepsAiJobId_iff hrun
  refine ⟨ts, s, hrun, (hkeeps 0 soloJob fun t ht ↦ ?_).mpr fun t ht _ u hu hpolled ↦ ?_, ?_⟩
  · exact onlyWriter_of_answersOnly (honly _ (hacts ▸ List.mem_map_of_mem ht)) _
  · have hunpolled := List.all_eq_true.mp hall t ht
    rw [hu, Option.all_some, decide_eq_true_eq, (polled_iff u).mpr hpolled] at hunpolled
    cases hunpolled
  · obtain ⟨t, ht, hrecords⟩ := List.any_eq_true.mp hany
    obtain ⟨hcarries, hupdates⟩ := (Bool.and_eq_true _ _).mp hrecords
    obtain ⟨row, hrow, hmeets⟩ := (Option.any_eq_true _ _).mp hupdates
    obtain ⟨hstatus, hmetadata⟩ := of_decide_eq_true hmeets
    have hcarries := (carriesAiJobId_iff _).mpr hcarries
    refine ⟨t, ht, writesProgress_of_updatesWith hrow hstatus, hcarries, ?_⟩
    obtain ⟨hexecutes, hbefore⟩ := executes_of_updatesWith hrow
    obtain ⟨row', hafter, -⟩ := hcarries
    refine ⟨row, row', hbefore, hafter,
      (hchanges t ht 0 _ _ _ _ _ row row' hexecutes hbefore hafter).mpr ?_⟩
    intro _ key hkey
    rw [Video.metadataAt, hmetadata]
    refine get_of_not_has (o := progressMetadata 20 _ JsObject.empty) ?_
    simp [progressMetadata, submittedMeta, JsObject.spread, JsObject.has] at hkey ⊢
    tauto

def losesJob : List (Transition State Step) → Bool
  | [t, v, w, x, y, z, u] =>
      recordsJob t &&
      [v, w, x, y, z].all (fun x ↦ x.after.state.statusOf "video" = some .processing) &&
      (updatesWith 0 soloJob
        (progressFields (pollPercent 1) (pollMessage 1) (pollMeta 1)) u).any (fun row ↦
          row.status = .processing) &&
      !carriesJob u.after.state
  | _ => false

/-- The first update of the polling loop takes the id out of the row. -/
theorem poll_loses_id : ∃ (ts : List (Transition State Step)) (s : State),
    Run (system ⟨"bucket", none, "region"⟩).step ⟨soloWorld, []⟩ ts s ∧
      (∀ t ∈ ts, OnlyWriter 0 soloJob.data.videoId t) ∧ ¬KeepsAiJobId 0 soloJob ts := by
  obtain ⟨ts, s, hrun, hacts, hobs⟩ := Run.exists_of_follow
    (system ⟨"bucket", none, "region"⟩).step ⟨soloWorld, []⟩ polledActs
    (fun p ↦ losesJob (p.1.drop 13)) true (by decide +kernel)
  have honly : ∀ a ∈ polledActs, answersOnly 0 a = true := by decide
  refine ⟨ts, s, hrun, fun t ht ↦ ?_, fun hkeeps ↦ ?_⟩
  · exact onlyWriter_of_answersOnly (honly _ (hacts ▸ List.mem_map_of_mem ht)) _
  · unfold losesJob at hobs
    split at hobs
    · rename_i t v w x y z u hdrop
      simp only [Bool.and_eq_true, Bool.not_eq_true'] at hobs
      obtain ⟨⟨⟨hrecords, hmid⟩, hpolls⟩, hlost⟩ := hobs
      obtain ⟨hcarries, hupdates⟩ := (Bool.and_eq_true _ _).mp hrecords
      obtain ⟨row, hrow, hmeets⟩ := (Option.any_eq_true _ _).mp hupdates
      obtain ⟨row', hrow', hmeets'⟩ := (Option.any_eq_true _ _).mp hpolls
      have hts : ts = ts.take 13 ++ t :: ([v, w, x, y, z] ++ u :: []) := by
        have hsplit := List.take_append_drop 13 ts
        rw [hdrop] at hsplit
        exact hsplit.symm
      have hkept := hkeeps _ t _ u _ "job" hts
        (writesProgress_of_updatesWith hrow (of_decide_eq_true hmeets).1)
        ((carriesAiJobId_iff _).mpr hcarries)
        (fun x hx ↦ of_decide_eq_true (List.all_eq_true.mp hmid x hx))
        (writesProgress_of_updatesWith hrow' (of_decide_eq_true hmeets'))
      rw [(carriesAiJobId_iff _).mp hkept] at hlost
      cases hlost
    · cases hobs

end VideoGen
