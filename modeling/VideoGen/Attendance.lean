import VideoGen.Delivery

/-!
# Nobody waits in vain

While a row is pending or processing, somebody will come back to it: a call
that is about to enqueue a job for the video, a job that a worker will take,
or an execution that has not lost the row to another writer.  An execution
that gives up silently has lost it to a writer that takes over.
-/

namespace VideoGen

/-! ## Who attends a row -/

/-- The thread has made the row pending and enqueues a job for it next. -/
inductive Stage.AddsFor (videoId : String) : Stage → Prop where
  | creating (userId : String) (dto : CreateVideoDto) :
      AddsFor videoId (.creating userId dto (.adding videoId))
  | retrying (id : String) {record : FailedJob} (hvideo : record.videoId = videoId) :
      AddsFor videoId (.retrying id (.adding record))

/-- An execution in this phase has not lost a row of the given status. -/
def Phase.Attends (status : VideoStatus) : Phase → Prop
  | .fresh => True
  | .loaded expected => expected = status
  | .working => status = .processing
  | .failing => status = .processing
  | _ => False

def JobAttends (s : State) (status : VideoStatus) (q : QueuedJob) : Prop :=
  match q.state with
  | .waiting => True
  | .delayed => True
  | .active i => ∃ t phase, s.threads[i]? = some t ∧ stageOf t = .worker q.job phase ∧
      phase.Attends status
  | _ => False

def Open (status : VideoStatus) : Prop := status = .pending ∨ status = .processing

instance : DecidablePred Open := fun _ ↦ inferInstanceAs (Decidable (_ ∨ _))

def Attended (videoId : String) (s : State) : Prop :=
  ∀ status, s.state.statusOf videoId = some status → Open status →
    (∃ (i : ℕ) (t : Worker), s.threads[i]? = some t ∧ (stageOf t).AddsFor videoId) ∨
    ∃ id q, s.state.queue.find? id = some q ∧ q.job.data.videoId = videoId ∧
      JobAttends s status q

section System

variable {config : StorageConfig} {s s' : State} {videoId : String}

/-! ## How a call changes the status of a row -/

theorem status_of_videos (h : s'.state.videos = s.state.videos) :
    s'.state.statusOf videoId = s.state.statusOf videoId := by
  unfold World.statusOf
  rw [h]

theorem World.statusOf_of_update {w w' : World} {a : Answer} {id : String}
    {expected : Option VideoStatus} {fields : VideoFields} {n : ℕ}
    (h : w.answer (.updateVideo id expected fields) a = some (w', n)) (videoId : String) :
    w'.statusOf videoId = w.statusOf videoId ∨
      ∃ status, videoId = id ∧ w.statusOf videoId = some status ∧
        expected.all (· = status) = true ∧ n ≠ 0 ∧
        w'.statusOf videoId = some (fields.status.getD status) := by
  obtain ⟨hw, hn⟩ := answer_updateVideo h
  rw [hw, statusOf_updateVideo]
  by_cases hid : videoId = id
  · subst hid
    rw [if_pos rfl]
    cases hstatus : w.statusOf videoId with
    | none => exact .inl rfl
    | some status =>
        by_cases hguard : expected.all (· = status) = true
        · right
          obtain ⟨row, hrow, rfl⟩ := statusOf_eq_some_iff.mp hstatus
          have haffected := (updateVideo_affected w videoId expected fields).mpr
            ⟨row, hrow, hguard⟩
          exact ⟨row.status, rfl, rfl, hguard, hn ▸ haffected, by simp [hguard]⟩
        · left
          simp [hguard]
  · rw [if_neg hid]
    exact .inl rfl

theorem World.statusOf_of_guarded_update {w w' : World} {a : Answer} {id : String}
    {expected : Option VideoStatus} {fields : VideoFields} {n : ℕ}
    (h : w.answer (.updateVideo id expected fields) a = some (w', n)) {status : VideoStatus}
    (hstatus : w.statusOf id = some status) (hguard : expected.all (· = status) = true) :
    n ≠ 0 ∧ w'.statusOf id = some (fields.status.getD status) := by
  obtain ⟨hw, hn⟩ := answer_updateVideo h
  obtain ⟨row, hrow, rfl⟩ := statusOf_eq_some_iff.mp hstatus
  have haffected := (updateVideo_affected w id expected fields).mpr ⟨row, hrow, hguard⟩
  rw [hw, statusOf_updateVideo, if_pos rfl, hstatus, Option.map_some, if_pos hguard]
  exact ⟨hn ▸ haffected, rfl⟩

theorem World.statusOf_of_quiet_update {w w' : World} {a : Answer} {id : String}
    {expected : Option VideoStatus} {fields : VideoFields} {n : ℕ}
    (h : w.answer (.updateVideo id expected fields) a = some (w', n))
    (hfields : fields.status = none) (videoId : String) :
    w'.statusOf videoId = w.statusOf videoId := by
  rcases statusOf_of_update h videoId with hsame | ⟨status, -, hstatus, -, -, hnew⟩
  · exact hsame
  · rw [hnew, hstatus, hfields]
    rfl

variable {i : ℕ} {f : Fate} {t t' : Worker} {c : Call} {r : Except Thrown c.Reply}

theorem status_of_call (videoId : String) {p : Task → Prop} (hs : Calm s) (ho : Orderly p s (.call i f))
    (h : Answered config s s' i f t t' c r) :
    s'.state.statusOf videoId = s.state.statusOf videoId ∨
    (∀ status, s'.state.statusOf videoId = some status → ¬Open status) ∨
    (stageOf t').AddsFor videoId ∨
    ∃ job, job.data.videoId = videoId ∧ stageOf t' = .worker job .working ∧
      s'.state.statusOf videoId = some .processing := by
  by_cases hc : c.WritesVideos = false
  · exact .inl (status_of_videos (World.exec_videos h.exec hc))
  have hnot {status : VideoStatus} (hnew : s'.state.statusOf videoId = some status)
      (hclosed : ¬Open status) :
      ∀ status, s'.state.statusOf videoId = some status → ¬Open status := by
    intro status' hstatus'
    obtain rfl := Option.some.inj (hnew.symm.trans hstatus')
    exact hclosed
  have hallows := allows_of_answered h
  have hnext := stageOf_of_answered h
  have hmanaged := hs.stage_managed h.get
  generalize stageOf t = stage at hallows hnext hmanaged
  cases hallows with
  | @worker job phase _ hallows =>
      obtain ⟨expected, fields, rfl, -⟩ := hallows.write (by simpa using hc)
      obtain ⟨b, n, hx, rfl⟩ := ho.reply h rfl
      rcases World.statusOf_of_update hx videoId with hsame | ⟨status, rfl, -, -, hn, hnew⟩
      · exact .inl hsame
      cases hallows with
      | start expected hallowed =>
          right; right; right
          refine ⟨job, rfl, ?_, hnew⟩
          rw [hnext]
          exact congrArg (Stage.worker job) (if_neg hn)
      | quiet _ hquiet => simp [Call.Quiet] at hquiet
      | progress u => exact .inl (World.statusOf_of_quiet_update hx rfl _)
      | complete url thumbnail hurl =>
          have hcompleted : s'.state.statusOf job.data.videoId = some .completed := hnew
          exact .inr (.inl (hnot hcompleted (by decide)))
      | mark _ hphase hfinal message =>
          have hfailed : s'.state.statusOf job.data.videoId = some .failed := hnew
          exact .inr (.inl (hnot hfailed (by decide)))
  | creating hallows =>
      cases hallows with
      | insert =>
          obtain ⟨b, video, hx, rfl⟩ := ho.reply h rfl
          obtain ⟨id, rfl, -, hfind⟩ := World.answer_insertVideo hx
          by_cases hid : videoId = id
          · subst hid
            right; right; left
            rw [hnext]
            exact .creating _ _
          · left
            unfold World.statusOf
            rw [hfind, if_neg hid]
      | add id => exact absurd rfl hc
      | link id jobId =>
          obtain ⟨b, n, hx, rfl⟩ := ho.reply h rfl
          exact .inl (World.statusOf_of_quiet_update hx rfl _)
      | announce id prompt jobId => exact absurd rfl hc
  | @retrying id _ _ hallows =>
      cases hallows with
      | look => exact absurd rfl hc
      | reset record =>
          obtain ⟨b, n, hx, rfl⟩ := ho.reply h rfl
          rcases World.statusOf_of_update hx videoId with hsame | ⟨status, rfl, -, -, hn, hnew⟩
          · exact .inl hsame
          · right; right; left
            rw [hnext]
            exact .retrying id rfl
      | add record => exact absurd rfl hc
      | stamp record jobId => exact absurd rfl hc
      | link record jobId now =>
          obtain ⟨b, n, hx, rfl⟩ := ho.reply h rfl
          exact .inl (World.statusOf_of_quiet_update hx rfl _)
      | mark record jobId now => exact absurd rfl hc
  | listening hallows => cases hallows <;> exact absurd rfl hc
  | removing hallows =>
      cases hallows with
      | read => exact absurd rfl hc
      | delete id =>
          obtain ⟨b, x, hx, rfl⟩ := ho.reply h rfl
          have hfind := World.answer_deleteVideo hx videoId
          by_cases hid : videoId = id
          · right; left
            intro status hstatus
            rw [World.statusOf, hfind, if_pos hid] at hstatus
            cases hstatus
          · left
            unfold World.statusOf
            rw [hfind, if_neg hid]
  | service call => exact hmanaged.elim

/-! ## An attending execution -/

theorem allowed_of_open {status : VideoStatus} (h : Open status) :
    Allowed status .processing := by
  rcases h with rfl | rfl <;> decide

theorem attends_of_call {p : Task → Prop} (ho : Orderly p s (.call i f))
    (h : Answered config s s' i f t t' c r) {job : Job} {phase : Phase}
    (hstage : stageOf t = .worker job phase) {status status' : VideoStatus}
    (hattends : phase.Attends status)
    (hstatus : s.state.statusOf job.data.videoId = some status) (hopen : Open status)
    (hstatus' : s'.state.statusOf job.data.videoId = some status') (hopen' : Open status') :
    ∃ phase', stageOf t' = .worker job phase' ∧ phase'.Attends status' := by
  have hallows := allows_of_answered h
  have hnext := stageOf_of_answered h
  rw [hstage] at hallows hnext
  have hquiet (hvideos : s'.state.videos = s.state.videos) : status' = status := by
    rw [status_of_videos hvideos, hstatus] at hstatus'
    exact (Option.some.inj hstatus').symm
  refine ⟨phase.next c r, hnext, ?_⟩
  obtain ⟨row, hrow, rfl⟩ := World.statusOf_eq_some_iff.mp hstatus
  have hguarded {fields : VideoFields} {n : ℕ} {b : Answer}
      (hx : s.state.answer (.updateVideo job.data.videoId (some row.status) fields) b =
        some (s'.state, n)) : n ≠ 0 ∧ status' = fields.status.getD row.status := by
    obtain ⟨hn, hnew⟩ := World.statusOf_of_guarded_update hx hstatus (by simp)
    exact ⟨hn, Option.some.inj (hstatus'.symm.trans hnew)⟩
  cases hallows with
  | worker hallows =>
      cases hallows with
      | load =>
          obtain ⟨b, x, hx, rfl⟩ := ho.reply h rfl
          obtain ⟨hw, rfl⟩ := World.answer_selectVideo hx
          rw [hrow]
          exact (hquiet (congrArg World.videos hw)).symm
      | start expected hallowed =>
          obtain ⟨b, n, hx, rfl⟩ := ho.reply h rfl
          have hexpected : expected = row.status := hattends
          rw [hexpected] at hx
          obtain ⟨hn, hnew⟩ := hguarded hx
          have hphase : Phase.next (.loaded expected) (.updateVideo job.data.videoId
              (some expected) (startExtra.fields .processing)) (.ok n) = .working := if_neg hn
          rw [hphase]
          exact hnew
      | quiet _ hquietCall =>
          have hvideos : s'.state.videos = s.state.videos := by
            apply World.exec_videos h.exec
            cases c <;> first | rfl | cases hquietCall
          have hprocessing : status' = .processing := (hquiet hvideos).trans hattends
          rw [Phase.next_quiet hquietCall]
          rcases r with e | x
          · by_cases hcaught : c.Caught = true <;> simp [hcaught, Phase.Attends, hprocessing]
          · exact hprocessing
      | progress u =>
          obtain ⟨b, n, hx, rfl⟩ := ho.reply h rfl
          have hprocessing : row.status = .processing := hattends
          rw [← hprocessing] at hx
          exact (hguarded hx).2.trans hprocessing
      | complete url thumbnail hurl =>
          obtain ⟨b, n, hx, rfl⟩ := ho.reply h rfl
          have hprocessing : row.status = .processing := hattends
          rw [← hprocessing] at hx
          have hcompleted : status' = .completed := (hguarded hx).2
          rw [hcompleted] at hopen'
          exact absurd hopen' (by decide)
      | mark _ hphase hfinal message =>
          obtain ⟨b, n, hx, rfl⟩ := ho.reply h rfl
          obtain ⟨hw, -⟩ := World.answer_updateVideo hx
          rw [hw, World.statusOf_updateVideo, if_pos rfl, hstatus] at hstatus'
          have hfailed : status' = .failed := by simpa [failedFields] using hstatus'.symm
          rw [hfailed] at hopen'
          exact absurd hopen' (by decide)
      | stamp applied event => exact hattends.elim
      | cache applied event key value => exact hattends.elim
      | record applied event => exact hattends.elim
      | announce applied event => exact hattends.elim
      | evict message key => exact hattends.elim
      | report message => exact hattends.elim

theorem attends_of_settle (hs : Calm s) {id : ℕ} {q : QueuedJob}
    (hq : s.state.queue.find? id = some q) (hget : s.threads[i]? = some t)
    {value : Except Thrown Value} (hprog : t.prog = .done value) {phase : Phase}
    (hstage : stageOf t = .worker q.job phase) {status : VideoStatus}
    (hattends : phase.Attends status) (hopen : Open status) :
    (q.settle value).state = .waiting ∨ (q.settle value).state = .delayed := by
  have hends : Stage.Ends (stageOf t) value :=
    (hs.conforming t (List.mem_of_getElem? hget)).post stageProtocol Stage.init Stage.Ends hprog
  rw [hstage] at hends
  have hagain (e : Thrown) (hfinal : ¬IsFinalAttempt q.job) :
      (q.settle (.error e : Except Thrown Value)).state = .waiting ∨
        (q.settle (.error e : Except Thrown Value)).state = .delayed := by
    rw [isFinalAttempt_iff_not_retryable, not_not] at hfinal
    simp only [QueuedJob.settle, if_pos hfinal]
    split
    · exact .inr rfl
    · exact .inl rfl
  cases phase with
  | fresh =>
      rcases value with e | x
      · exact hends.elim
      · exact absurd (hs.named id q hq) hends
  | loaded expected =>
      obtain rfl : expected = status := hattends
      rcases value with e | x
      · exact hends.elim
      · exact absurd (allowed_of_open hopen) hends
  | working =>
      rcases value with e | x
      · exact hagain e hends
      · exact hends.elim
  | failing =>
      rcases value with e | x
      · exact hagain e hends
      · exact hends.elim
  | skipped => exact hattends.elim
  | completed applied event => exact hattends.elim
  | recorded applied event => exact hattends.elim
  | announced applied event => exact hattends.elim
  | marked message => exact hattends.elim
  | reported message => exact hattends.elim
  | broken => exact hattends.elim

/-! ## The invariant -/

theorem thread_step_of_orderly {p : Task → Prop} {a : Step} (hs : Calm s) (ho : Orderly p s a)
    (hstep : (system config).step s a = some s') {j : ℕ} {u : Worker}
    (hget : s.threads[j]? = some u) :
    s'.threads[j]? = some u ∨ ∃ f u' c r, a = .call j f ∧ s'.threads[j]? = some u' ∧
      Answered config s s' j f u u' c r := by
  obtain ⟨u', hget', (rfl | ⟨ha, -⟩) | ⟨f, c, r, ha, hcall⟩⟩ :=
    thread_step hstep hs.conforming hget
  · exact .inl hget'
  · exact absurd ha (ho.no_crash j)
  · exact .inr ⟨f, u', c, r, ha, hget', hcall⟩

theorem adding_step {p : Task → Prop} {a : Step} (hs : Calm s) (ho : Orderly p s a)
    (hstep : (system config).step s a = some s') {j : ℕ} {u : Worker}
    (hget : s.threads[j]? = some u) (hadds : (stageOf u).AddsFor videoId) :
    s'.threads[j]? = some u ∨ ∃ id q, s'.state.queue.find? id = some q ∧
      q.job.data.videoId = videoId ∧ q.state = .waiting := by
  rcases thread_step_of_orderly hs ho hstep hget with hkept | ⟨f, u', c, r, rfl, -, hcall⟩
  · exact .inl hkept
  · right
    have hadd : ∃ name opts, c = .queueAdd name ⟨videoId⟩ opts := by
      have hallows := allows_of_answered hcall
      generalize stageOf u = stage at hallows hadds
      cases hadds with
      | creating userId dto =>
          cases hallows with
          | creating hallows =>
              cases hallows with
              | add => exact ⟨_, _, rfl⟩
      | retrying id hvideo =>
          subst hvideo
          cases hallows with
          | retrying hallows =>
              cases hallows with
              | add => exact ⟨_, _, rfl⟩
    obtain ⟨name, opts, rfl⟩ := hadd
    obtain ⟨b, x, hx, -⟩ := ho.reply hcall rfl
    obtain ⟨hqueue, -⟩ := World.answer_queueAdd hx
    refine ⟨s.state.queue.lastId + 1, s.state.queue.newJob name ⟨videoId⟩ opts, ?_, rfl, rfl⟩
    rw [hqueue, Queue.find?_add, if_pos rfl]

theorem jobAttends_step {p : Task → Prop} {a : Step} (hs : Calm s) (ho : Orderly p s a)
    (hstep : (system config).step s a = some s') {id : ℕ} {q : QueuedJob}
    (hq : s.state.queue.find? id = some q) {status : VideoStatus}
    (hattends : JobAttends s status q) (hopen : Open status)
    (hstatus : s.state.statusOf q.job.data.videoId = some status)
    (hstatus' : s'.state.statusOf q.job.data.videoId = some status) :
    ∃ q', s'.state.queue.find? id = some q' ∧
      q'.job.data.videoId = q.job.data.videoId ∧ JobAttends s' status q' := by
  have hidle {q' : QueuedJob} (h : q'.state = .waiting ∨ q'.state = .delayed) :
      JobAttends s' status q' := by
    unfold JobAttends
    rcases h with h | h <;> rw [h] <;> trivial
  obtain ⟨q', hq', rfl | ⟨l, tasks, -, hmove, hthreads⟩⟩ := job_step hstep hq
  · refine ⟨q', hq', rfl, ?_⟩
    unfold JobAttends at hattends ⊢
    cases hstate : q'.state with
    | waiting => trivial
    | delayed => trivial
    | completed => simp only [hstate] at hattends
    | failed => simp only [hstate] at hattends
    | active i =>
        simp only [hstate] at hattends
        obtain ⟨u, phase, hget, hstage, hphase⟩ := hattends
        rcases thread_step_of_orderly hs ho hstep hget with hkept |
          ⟨f, u', c, r, rfl, hget', hcall⟩
        · exact ⟨u, phase, hkept, hstage, hphase⟩
        · obtain ⟨phase', hstage', hphase'⟩ :=
            attends_of_call ho hcall hstage hphase hstatus hopen hstatus' hopen
          exact ⟨u', phase', hget', hstage', hphase'⟩
  · refine ⟨q', hq', congrArg _ hmove.job_eq.2.1, ?_⟩
    cases hmove with
    | take hwaiting =>
        refine ⟨(system config).start (.process q.job), .fresh, ?_, rfl, trivial⟩
        rw [hthreads]
        simp
    | promote hdelayed => exact hidle (.inl rfl)
    | @settle i u value hactive hget halive hprog =>
        unfold JobAttends at hattends
        simp only [hactive] at hattends
        obtain ⟨u', phase, hget', hstage, hphase⟩ := hattends
        obtain rfl := Option.some.inj (hget.symm.trans hget')
        exact hidle (attends_of_settle hs hq hget hprog hstage hphase hopen)
    | @stall i u hactive hget hcrashed =>
        have halive := hs.alive u (List.mem_of_getElem? hget)
        rw [halive] at hcrashed
        cases hcrashed

theorem step_attended {p : Task → Prop} {a : Step} (hs : Calm s) (ho : Orderly p s a)
    (hstep : (system config).step s a = some s') (h : Attended videoId s) :
    Attended videoId s' := by
  intro status hstatus hopen
  -- Whoever attended a row that keeps its status goes on, also by handing over to the job
  -- that it enqueues.
  have hgoes (hsame : s'.state.statusOf videoId = s.state.statusOf videoId) :
      (∃ (i : ℕ) (t : Worker), s'.threads[i]? = some t ∧ (stageOf t).AddsFor videoId) ∨
      ∃ id q, s'.state.queue.find? id = some q ∧ q.job.data.videoId = videoId ∧
        JobAttends s' status q := by
    have hbefore : s.state.statusOf videoId = some status := hsame ▸ hstatus
    rcases h status hbefore hopen with ⟨j, u, hget, hadds⟩ | ⟨id, q, hq, rfl, hattends⟩
    · rcases adding_step hs ho hstep hget hadds with hkept | ⟨id, q, hq, hvideo, hwaiting⟩
      · exact .inl ⟨j, u, hkept, hadds⟩
      · refine .inr ⟨id, q, hq, hvideo, ?_⟩
        unfold JobAttends
        rw [hwaiting]
        trivial
    · exact .inr ⟨id, jobAttends_step hs ho hstep hq hattends hopen hbefore hstatus⟩
  cases a with
  | invoke task =>
      apply hgoes
      obtain rfl := Option.some.inj hstep
      rfl
  | crash i => exact absurd rfl (ho.no_crash i)
  | env l =>
      apply hgoes
      obtain ⟨w, tasks, henv, rfl⟩ := (system config).step_env_cases hstep
      exact status_of_videos (envStep_frame henv).1
  | call i f =>
      obtain ⟨t, t', c, r, hcall⟩ := answered_of_step hstep hs.conforming
      have hget' : s'.threads[i]? = some t' := hcall.get_self
      rcases status_of_call videoId hs ho hcall with hsame | hclosed | hadds |
        ⟨job, rfl, hstage, hprocessing⟩
      · exact hgoes hsame
      · exact absurd hopen (hclosed status hstatus)
      · exact .inl ⟨i, t', hget', hadds⟩
      · right
        have htask : t.task = .process job := by
          rw [← hcall.task_eq, ← task_stageOf t', hstage]
          rfl
        have halive := not_ended_of_answered hcall
        obtain ⟨q, hq, hactive, hjob⟩ := (hs.delivered job.id).running i t hcall.get
          (by rw [htask]; rfl) halive
        obtain rfl : job = q.job := Task.process.inj (htask.symm.trans hjob)
        refine ⟨_, q, job_kept hstep hq hactive hcall.get halive, rfl, ?_⟩
        unfold JobAttends
        simp only [hactive]
        refine ⟨t', .working, hget', hstage, ?_⟩
        exact Option.some.inj (hstatus.symm.trans hprocessing)

/-- Every row that is pending or processing has a job that is still to be done, or
the call that enqueues it has not been answered yet. -/
theorem never_stranded {ts : List (Transition State Step)}
    (hrun : Run (system config).step ⟨World.empty, []⟩ ts s)
    (horderly : ∀ t ∈ ts, Orderly (fun _ ↦ True) t.before t.act) {videoId : String}
    {status : VideoStatus} (hstatus : s.state.statusOf videoId = some status)
    (hopen : status = .pending ∨ status = .processing) :
    (∃ id q, s.state.queue.find? id = some q ∧ q.job.name = videoGenerationJob ∧
      q.job.data.videoId = videoId ∧ q.state.Live) ∨
    ∃ t ∈ s.threads, ¬t.Ended ∧
      ∃ opts, t.pending? = some (.queueAdd videoGenerationJob ⟨videoId⟩ opts) := by
  obtain ⟨hcalm, hattended⟩ := hrun.invariant (fun s ↦ Calm s ∧ Attended videoId s)
    ⟨calm_start, fun status hstatus ↦ by simp [World.statusOf, World.empty] at hstatus⟩
    fun t ht hstep h ↦ ⟨h.1.step (horderly t ht) hstep,
      step_attended h.1 (horderly t ht) hstep h.2⟩
  rcases hattended status hstatus hopen with ⟨i, t, hget, hadds⟩ | ⟨id, q, hq, hvideo, hattends⟩
  · right
    have hmem := List.mem_of_getElem? hget
    have hends (r : Except Thrown Value) : ¬Stage.Ends (stageOf t) r := by
      generalize stageOf t = stage at hadds
      cases hadds <;> exact id
    obtain ⟨c, hpending, hallows⟩ := pending_of_stage (hcalm.conforming t hmem) hends
    refine ⟨t, hmem, ?_, ?_⟩
    · obtain ⟨next, hprog⟩ := Thread.pending?_eq_some_iff.mp hpending
      rintro (hcrashed | hfinished)
      · rw [hcalm.alive t hmem] at hcrashed
        cases hcrashed
      · rw [hprog] at hfinished
        exact hfinished
    · generalize stageOf t = stage at hallows hadds
      cases hadds with
      | creating userId dto =>
          cases hallows with
          | creating hallows =>
              cases hallows with
              | add => exact ⟨_, hpending⟩
      | retrying id hvideo =>
          subst hvideo
          cases hallows with
          | retrying hallows =>
              cases hallows with
              | add => exact ⟨_, hpending⟩
  · left
    refine ⟨id, q, hq, hcalm.named id q hq, hvideo, ?_⟩
    unfold JobAttends at hattends
    cases hstate : q.state <;> simp only [hstate] at hattends <;> trivial

end System

/-- A worker takes the job of a new video and starts it; then an owner asks for its
removal. -/
def startedActs : List Step :=
  createActs 0 "video" ++ [.env (.take 1), okStep 1, okStep 1] ++
    [.invoke (.remove "video" "user"), okStep 2]

theorem never_stranded_started : ∃ (ts : List (Transition State Step)) (s : State),
    Run (system ⟨"bucket", none, "region"⟩).step ⟨World.empty, []⟩ ts s ∧
    s.state.statusOf "video" = some .processing ∧
    ((∃ id q, s.state.queue.find? id = some q ∧ q.job.name = videoGenerationJob ∧
      q.job.data.videoId = "video" ∧ q.state.Live) ∨
    ∃ t ∈ s.threads, ¬t.Ended ∧
      ∃ opts, t.pending? = some (.queueAdd videoGenerationJob ⟨"video"⟩ opts)) := by
  obtain ⟨ts, s, hrun, hacts, hobs⟩ := Run.exists_of_follow
    (system ⟨"bucket", none, "region"⟩).step ⟨World.empty, []⟩ startedActs
    (fun p ↦ p.2.state.statusOf "video") (some .processing) (by decide +kernel)
  have hsmooth : ∀ a ∈ startedActs, Smooth a = true := by decide
  have horderly : ∀ t ∈ ts, Orderly (fun _ ↦ True) t.before t.act := by
    intro t ht
    have hact : t.act ∈ startedActs := hacts ▸ List.mem_map_of_mem ht
    apply orderly_of_smooth _ (hsmooth t.act hact)
    cases t.act <;> trivial
  exact ⟨ts, s, hrun, hobs, never_stranded hrun horderly hobs (.inr rfl)⟩

end VideoGen
