import VideoGen.Changes
import VideoGen.Lib.Contract
import VideoGen.Resurrections

/-!
# What rows and records refer to

A row names the job that was enqueued for it; a record names the job that was
linked to its row and, once retried, the job of the retry.  The names are
copied from place to place while other calls go on.  They always name a job of
the queue that works for the same video.
-/

namespace VideoGen

def Queue.Names (queue : Queue) (videoId text : String) : Prop :=
  ∃ id q, queue.find? id = some q ∧ q.job.data.videoId = videoId ∧ text = toString id

def Queue.NamesIn (queue : Queue) (videoId : String) (link : Option String) : Prop :=
  ∀ text, link = some text → queue.Names videoId text

namespace World

structure Referring (w : World) : Prop where
  rows : ∀ id row, w.videos.find? id = some row → w.queue.NamesIn id row.queueJobId
  records : ∀ id record, w.failedJobs.find? id = some record →
    w.queue.NamesIn record.videoId record.queueJobId ∧
      w.queue.NamesIn record.videoId record.retryJobId

/-- Jobs and records stay and keep their videos. -/
structure Outlived (w w' : World) : Prop where
  jobs : ∀ id q, w.queue.find? id = some q →
    ∃ q', w'.queue.find? id = some q' ∧ q'.job.data = q.job.data
  records : ∀ id record, w.failedJobs.find? id = some record →
    ∃ record', w'.failedJobs.find? id = some record' ∧ record'.videoId = record.videoId

/-- The call writes names of jobs for the video of the row or record only. -/
def WritesNames (w : World) : Call → Prop
  | .insertVideo none fields => fields.queueJobId = none
  | .insertVideo (some id) fields => ∀ link, fields.queueJobId = some link → w.queue.NamesIn id link
  | .updateVideo id _ fields => ∀ link, fields.queueJobId = some link → w.queue.NamesIn id link
  | .insertFailedJob fields =>
      w.queue.NamesIn fields.videoId fields.queueJobId ∧ fields.retryJobId = none
  | .markRetried id _ retryJobId => ∀ record, w.failedJobs.find? id = some record →
      w.queue.Names record.videoId retryJobId
  | _ => True

variable {w w' w'' : World} {videoId text : String} {link : Option String}

theorem Outlived.refl (w : World) : w.Outlived w where
  jobs _ q hq := ⟨q, hq, rfl⟩
  records _ record hrecord := ⟨record, hrecord, rfl⟩

theorem Outlived.trans (h : w.Outlived w') (h' : w'.Outlived w'') : w.Outlived w'' := by
  constructor
  · intro id q hq
    obtain ⟨q', hq', hdata⟩ := h.jobs id q hq
    obtain ⟨q'', hq'', hdata'⟩ := h'.jobs id q' hq'
    exact ⟨q'', hq'', hdata'.trans hdata⟩
  · intro id record hrecord
    obtain ⟨record', hrecord', hvideo⟩ := h.records id record hrecord
    obtain ⟨record'', hrecord'', hvideo'⟩ := h'.records id record' hrecord'
    exact ⟨record'', hrecord'', hvideo'.trans hvideo⟩

theorem Outlived.names (h : w.Outlived w') (hnames : w.queue.Names videoId text) :
    w'.queue.Names videoId text := by
  obtain ⟨id, q, hq, hvideo, rfl⟩ := hnames
  obtain ⟨q', hq', hdata⟩ := h.jobs id q hq
  exact ⟨id, q', hq', by rw [hdata, hvideo], rfl⟩

theorem Outlived.namesIn (h : w.Outlived w') (hnames : w.queue.NamesIn videoId link) :
    w'.queue.NamesIn videoId link := fun text htext ↦ h.names (hnames text htext)

theorem namesIn_none (queue : Queue) (videoId : String) : queue.NamesIn videoId none := by
  intro text htext
  cases htext

def RecordsFor (w : World) (id videoId : String) : Prop :=
  ∃ record, w.failedJobs.find? id = some record ∧ record.videoId = videoId

theorem Outlived.recordsFor {id : String} (h : w.Outlived w') (hrecord : w.RecordsFor id videoId) :
    w'.RecordsFor id videoId := by
  obtain ⟨record, hfind, hvideo⟩ := hrecord
  obtain ⟨record', hfind', hvideo'⟩ := h.records id record hfind
  exact ⟨record', hfind', hvideo'.trans hvideo⟩

theorem outlived_of_exec {c : Call} {f : Fate} {r : Except Thrown c.Reply}
    (h : w.exec c f = some (w', r)) : w.Outlived w' := by
  constructor
  · intro id q hq
    rcases queue_cases h with hqueue | ⟨name, data, opts, -, hqueue⟩
    · exact ⟨q, by rw [hqueue, hq], rfl⟩
    · exact ⟨q, by rw [hqueue, find?_add_of_some hq], rfl⟩
  · intro id record hrecord
    rcases record_of_exec h hrecord with hkept | ⟨now, jobId, -, hmarked⟩
    · exact ⟨record, hkept, rfl⟩
    · exact ⟨_, hmarked, rfl⟩

theorem Referring.exec {c : Call} {f : Fate} {r : Except Thrown c.Reply} (hw : w.Referring)
    (hc : w.WritesNames c) (h : w.exec c f = some (w', r)) : w'.Referring := by
  have hlater := outlived_of_exec h
  constructor
  · intro id row' hrow'
    apply hlater.namesIn
    rcases row_cases h hrow' with hrow | ⟨expected, fields, row, rfl, hrow, -, rfl⟩ |
      ⟨newId, fields, rfl, hid, -, rfl⟩
    · exact hw.rows id row' hrow
    · cases hlink : fields.queueJobId with
      | none =>
          have hsame : (row.assign fields w.now).queueJobId = row.queueJobId := by
            simp [Video.assign, hlink]
          rw [hsame]
          exact hw.rows id row hrow
      | some link =>
          have hnew : (row.assign fields w.now).queueJobId = link := by
            simp [Video.assign, hlink]
          rw [hnew]
          exact hc link hlink
    · cases hlink : fields.queueJobId with
      | none =>
          have hnone : (Video.create id fields w.now).queueJobId = none := by
            simp [Video.create, hlink]
          rw [hnone]
          exact namesIn_none _ _
      | some link =>
          have hnew : (Video.create id fields w.now).queueJobId = link := by
            simp [Video.create, hlink]
          rw [hnew]
          rcases hid with rfl | rfl
          · have hnone : fields.queueJobId = none := hc
            rw [hlink] at hnone
            cases hnone
          · exact hc link hlink
  · intro id record' hrecord'
    rcases failedJob_cases h hrecord' with ⟨record, hrecord, rfl | ⟨now, jobId, rfl, rfl⟩⟩ |
      ⟨fields, rfl, rfl⟩
    · obtain ⟨hqueueJob, hretryJob⟩ := hw.records id record' hrecord
      exact ⟨hlater.namesIn hqueueJob, hlater.namesIn hretryJob⟩
    · refine ⟨hlater.namesIn (hw.records id record hrecord).1, ?_⟩
      intro text htext
      obtain rfl : jobId = text := Option.some.inj htext
      exact hlater.names (hc record hrecord)
    · obtain ⟨hqueueJob, hretryJob⟩ := hc
      refine ⟨hlater.namesIn hqueueJob, ?_⟩
      intro text htext
      have hnone : fields.retryJobId = some text := htext
      rw [hretryJob] at hnone
      cases hnone

/-- Rows and records name jobs for their videos, and calls write such names only. -/
def references : Contract (I := interface) World.exec where
  Inv := Referring
  Later := Outlived
  Allows := WritesNames
  refl := Outlived.refl
  trans _ _ _ h h' := h.trans h'
  step _ _ _ _ _ hw hc h := ⟨hw.exec hc h, outlived_of_exec h⟩

end World

/-! ## The programs -/

open World (references)

section Programs

variable {config : StorageConfig} {w : World}

abbrev KeepsReferences {α : Type} (p : Prog α) (w : World) : Prop := references.Keeps p w

theorem harmless_of_no_link {id : String} {expected : Option VideoStatus} {fields : VideoFields}
    (h : fields.queueJobId = none) :
    references.Harmless (.updateVideo id expected fields) := by
  rintro w - link hlink
  rw [h] at hlink
  cases hlink

theorem harmless_of_worker {job : Job} {phase : Phase} {c : Call}
    (h : WorkerAllows job phase c) : references.Harmless c := by
  cases h with
  | start status hallowed => exact harmless_of_no_link rfl
  | quiet _ hquiet =>
      cases c <;> first | exact fun _ _ ↦ trivial | cases hquiet
  | progress u => exact harmless_of_no_link rfl
  | complete url thumbnail hurl => exact harmless_of_no_link rfl
  | mark _ hphase hfinal message => exact harmless_of_no_link rfl
  | _ => exact fun _ _ ↦ trivial

theorem keepsReferences_process (job : Job) (w : World) :
    KeepsReferences (process config job) w :=
  Contract.keeps_of_protocol (fun _ _ _ _ _ h ↦ World.possible_of_exec h)
    (fun _ _ h ↦ harmless_of_worker h) keeps_process w

theorem names_of_queueAdd {w w' : World} {f : Fate} {name : String}
    {data : VideoGenerationJobData} {opts : JobOptions} {n : ℕ}
    (h : w.exec (.queueAdd name data opts) f = some (w', .ok n)) :
    w'.queue.Names data.videoId (toString n) := by
  obtain ⟨-, b, hb⟩ := World.exec_ok h
  obtain ⟨hqueue, rfl⟩ := World.answer_queueAdd hb
  refine ⟨w.queue.lastId + 1, w.queue.newJob name data opts, ?_, rfl, rfl⟩
  rw [hqueue, Queue.find?_add, if_pos rfl]

theorem namesIn_some {queue : Queue} {videoId text : String} (h : queue.Names videoId text) :
    queue.NamesIn videoId (some text) := by
  intro text' htext
  obtain rfl := Option.some.inj htext
  exact h

theorem allows_link {videoId : String} {n : ℕ} (h : w.queue.Names videoId (toString n)) :
    w.WritesNames (.updateVideo videoId none (queueJobIdFields n)) := by
  intro link hlink
  obtain rfl := Option.some.inj hlink
  exact namesIn_some h

theorem keepsReferences_createAndQueue (userId : String) (dto : CreateVideoDto) (w : World) :
    KeepsReferences (createAndQueue userId dto) w := by
  refine Contract.keeps_bind (Contract.keeps_perform fun w₁ _ _ ↦ ⟨rfl, ?_⟩)
  rintro f w₂ r - saved rfl
  refine Contract.keeps_bind (Contract.keeps_perform fun w₃ _ _ ↦ ⟨trivial, ?_⟩)
  rintro f w₄ r hadd n rfl
  have hnames := names_of_queueAdd hadd
  refine Contract.keeps_bind (Contract.keeps_perform fun w₅ hlater _ ↦
    ⟨allows_link (hlater.names hnames), ?_⟩)
  rintro f w₆ r - affected rfl
  refine Contract.keeps_bind (Contract.keeps_perform fun w₇ _ _ ↦ ⟨trivial, ?_⟩)
  rintro f w₈ r - x rfl
  trivial

theorem keepsReferences_retryFailedJob (id : String) (w : World) :
    KeepsReferences (retryFailedJob id) w := by
  refine Contract.keeps_bind (Contract.keeps_perform fun w₁ _ _ ↦ ⟨trivial, ?_⟩)
  rintro f w₂ r hselect record rfl
  cases record with
  | none => trivial
  | some record =>
      obtain ⟨-, b, hb⟩ := World.exec_ok hselect
      obtain ⟨rfl, hrecord⟩ := World.answer_selectFailedJob hb
      change KeepsReferences (if record.retried = true then _ else _) w₂
      split
      · trivial
      refine Contract.keeps_bind (Contract.keeps_perform fun w₃ hlater₃ _ ↦ ⟨?_, ?_⟩)
      · intro link hlink
        obtain rfl := Option.some.inj hlink
        exact World.namesIn_none _ _
      rintro f w₄ r hreset affected rfl
      have hrecord₄ : w₄.RecordsFor id record.videoId :=
        (hlater₃.trans (World.outlived_of_exec hreset)).recordsFor ⟨record, hrecord.symm, rfl⟩
      refine Contract.keeps_bind (Contract.keeps_perform fun w₅ hlater₅ _ ↦ ⟨trivial, ?_⟩)
      rintro f w₆ r hadd n rfl
      have hnames₆ := names_of_queueAdd hadd
      have hrecord₆ := (hlater₅.trans (World.outlived_of_exec hadd)).recordsFor hrecord₄
      refine Contract.keeps_bind (Contract.keeps_perform fun w₇ hlater₇ _ ↦ ⟨trivial, ?_⟩)
      rintro f w₈ r hnow now rfl
      have hlater₈ := hlater₇.trans (World.outlived_of_exec hnow)
      refine Contract.keeps_bind (Contract.keeps_perform fun w₉ hlater₉ _ ↦
        ⟨allows_link ((hlater₈.trans hlater₉).names hnames₆), ?_⟩)
      rintro f w₁₀ r hlink affected rfl
      have hlater₁₀ := (hlater₈.trans hlater₉).trans (World.outlived_of_exec hlink)
      refine Contract.keeps_bind (Contract.keeps_perform fun w₁₁ hlater₁₁ _ ↦ ⟨?_, ?_⟩)
      · intro record' hrecord'
        have hlater := hlater₁₀.trans hlater₁₁
        obtain ⟨record'', hrecord'', hvideo⟩ := hlater.recordsFor hrecord₆
        obtain rfl := Option.some.inj (hrecord'.symm.trans hrecord'')
        rw [hvideo]
        exact hlater.names hnames₆
      rintro f w₁₂ r - x rfl
      trivial

theorem keepsReferences_onVideoFailed (event : VideoFailedEvent) (w : World) :
    KeepsReferences (onVideoFailed event) w := by
  refine Contract.Keeps.catchWith ?_ fun _ _ ↦ trivial
  refine Contract.keeps_bind (Contract.keeps_perform fun w₁ _ hw₁ ↦ ⟨trivial, ?_⟩)
  rintro f w₂ r hselect video rfl
  obtain ⟨-, b, hb⟩ := World.exec_ok hselect
  obtain ⟨rfl, rfl⟩ := World.answer_selectVideo hb
  have hlink : w₂.queue.NamesIn event.videoId
      ((w₂.videos.find? event.videoId).bind Video.queueJobId) := by
    cases hrow : w₂.videos.find? event.videoId with
    | none => exact World.namesIn_none _ _
    | some row => exact hw₁.rows _ row hrow
  refine Contract.keeps_bind (Contract.keeps_perform fun w₃ hlater _ ↦
    ⟨⟨hlater.namesIn hlink, rfl⟩, ?_⟩)
  rintro f w₄ r - x rfl
  trivial

theorem keepsReferences_remove (id userId : String) (w : World) :
    KeepsReferences (remove id userId) w := by
  apply Contract.keeps_of_calls
  exact (calls_findOneForUser fun _ _ ↦ trivial).bind fun video ↦ calls_ask fun _ _ ↦ trivial

theorem keepsReferences_saveVideo (entity : Video)
    (h : w.queue.NamesIn entity.id entity.queueJobId) : KeepsReferences (saveVideo entity) w := by
  refine Contract.keeps_bind (Contract.keeps_perform fun w₁ hlater₁ _ ↦ ⟨trivial, ?_⟩)
  rintro f w₂ r hselect row rfl
  have h₂ := (hlater₁.trans (World.outlived_of_exec hselect)).namesIn h
  cases row with
  | none =>
      refine Contract.keeps_perform fun w₃ hlater₃ _ ↦ ⟨?_, fun _ _ _ _ ↦ trivial⟩
      intro link hlink
      obtain rfl := Option.some.inj hlink
      exact hlater₃.namesIn h₂
  | some row =>
      change KeepsReferences (if entity.changes row = {} then _ else _) w₂
      split
      · trivial
      refine Contract.keeps_bind (Contract.keeps_perform fun w₃ hlater₃ _ ↦ ⟨?_, ?_⟩)
      · intro link hlink
        change (if entity.queueJobId = row.queueJobId then none else some entity.queueJobId) =
          some link at hlink
        split at hlink
        · cases hlink
        · obtain rfl := Option.some.inj hlink
          exact hlater₃.namesIn h₂
      rintro f w₄ r - affected rfl
      trivial

theorem keepsReferences_update (id userId : String) (dto : UpdateVideoDto) (w : World) :
    KeepsReferences (update id userId dto) w := by
  refine Program.keeps_bind.mpr (Program.keeps_bind.mpr
    (Contract.keeps_perform fun w₁ _ hw₁ ↦ ⟨trivial, ?_⟩))
  rintro f w₂ (e | row) hselect
  · trivial
  obtain ⟨-, b, hb⟩ := World.exec_ok hselect
  obtain ⟨rfl, rfl⟩ := World.answer_selectVideo hb
  cases hrow : w₂.videos.find? id with
  | none => trivial
  | some row =>
      have hlink := hw₁.rows id row hrow
      obtain rfl := Table.key_of_find? hrow
      change Program.Keeps references.spec _ (if row.userId = userId then _ else _) w₂
      split
      · exact keepsReferences_saveVideo { row with title := dto.title.getD row.title } hlink
      · trivial

theorem keepsReferences_service (call : ServiceCall) (w : World) :
    KeepsReferences call.body w := by
  cases call with
  | update id userId dto => exact Contract.keeps_map (keepsReferences_update id userId dto w)
  | transitionStatus videoId expectedStatus newStatus extra =>
      exact Contract.keeps_map (Contract.keeps_of_calls (calls_transitionStatus
        (fun _ _ ↦ trivial) (fun _ _ _ _ ↦ trivial) fun _ ↦ harmless_of_no_link rfl) w)
  | updateProgress videoId percent message additionalMeta =>
      exact Contract.keeps_map (Contract.keeps_of_calls (calls_updateProgress
        (fun _ _ ↦ trivial) (fun _ _ _ _ ↦ trivial) (harmless_of_no_link rfl)) w)
  | markFailed videoId errorMessage =>
      exact Contract.keeps_map (Contract.keeps_of_calls (calls_markFailed
        (harmless_of_no_link rfl) fun _ _ ↦ trivial) w)
  | evictCache videoId =>
      exact Contract.keeps_map (Contract.keeps_of_calls (calls_evictCache fun _ _ ↦ trivial) w)
  | getCachedStatus videoId =>
      exact Contract.keeps_map (Contract.keeps_of_calls (calls_getCachedStatus
        (fun _ _ ↦ trivial) (calls_loadFromDb (fun _ _ ↦ trivial) (fun _ _ ↦ trivial)
          fun _ _ _ ↦ trivial)) w)

theorem keepsReferences_body (task : Task) (w : World) :
    references.Keeps (task.body config) w := by
  cases task with
  | process job => exact Contract.keeps_map (keepsReferences_process job w)
  | createAndQueue userId dto =>
      exact Contract.keeps_map (keepsReferences_createAndQueue userId dto w)
  | retryFailedJob id => exact Contract.keeps_map (keepsReferences_retryFailedJob id w)
  | onVideoFailed event => exact Contract.keeps_map (keepsReferences_onVideoFailed event w)
  | remove id userId => exact Contract.keeps_map (keepsReferences_remove id userId w)
  | service call => exact keepsReferences_service call w

end Programs

/-! ## Runs -/

section System

variable {config : StorageConfig} {s : State}

theorem outlived_of_env {w w' : World} {threads : List Worker} {l : EnvStep} {tasks : List Task}
    (h : envStep w threads l = some (w', tasks)) : w.Outlived w' := by
  constructor
  · intro id q hq
    obtain ⟨q', hq', rfl | hmove⟩ := envStep_job h hq
    · exact ⟨q', hq', rfl⟩
    · exact ⟨q', hq', hmove.job_eq.2.1⟩
  · intro id record hrecord
    exact ⟨record, by rw [(envStep_frame h).2.1, hrecord], rfl⟩

theorem referring_of_env {w w' : World} {threads : List Worker} {l : EnvStep}
    {tasks : List Task} (hw : w.Referring) (h : envStep w threads l = some (w', tasks)) :
    w'.Referring := by
  have hlater := outlived_of_env h
  obtain ⟨hvideos, hrecords, -⟩ := envStep_frame h
  constructor
  · intro id row hrow
    rw [hvideos] at hrow
    exact hlater.namesIn (hw.rows id row hrow)
  · intro id record hrecord
    rw [hrecords] at hrecord
    obtain ⟨hqueueJob, hretryJob⟩ := hw.records id record hrecord
    exact ⟨hlater.namesIn hqueueJob, hlater.namesIn hretryJob⟩

theorem fulfils_references (config : StorageConfig) :
    (system config).Fulfils references fun _ ↦ True where
  invoked task _ w _ := keepsReferences_body task w
  forked _ _ _ w' _ _ _ _ task _ := keepsReferences_body task w'
  env _ _ _ w' _ hw h :=
    ⟨referring_of_env hw h, outlived_of_env h, fun task _ ↦ keepsReferences_body task w'⟩

theorem referring_empty : World.empty.Referring where
  rows id row hrow := by simp [World.empty] at hrow
  records id record hrecord := by simp [World.empty] at hrecord

/-- In every run, whatever is called, edited, removed, retried, fails or crashes: a row names
a job for that video, and a record names jobs for its video. -/
theorem names_belong {ts : List (Transition State Step)}
    (hrun : Run (system config).step ⟨World.empty, []⟩ ts s) :
    (∀ id row text, s.state.videos.find? id = some row → row.queueJobId = some text →
      s.state.queue.Names id text) ∧
    ∀ id record text, s.state.failedJobs.find? id = some record →
      record.queueJobId = some text ∨ record.retryJobId = some text →
      s.state.queue.Names record.videoId text := by
  have hinvoke : ∀ t ∈ ts, t.act.InvokesOnly fun _ ↦ True := by
    intro t _
    cases t.act <;> trivial
  have hkept := ((fulfils_references config).run hrun (Machine.Kept.start referring_empty)
    hinvoke).1.inv
  constructor
  · intro id row text hrow hlink
    exact hkept.rows id row hrow text hlink
  · rintro id record text hrecord (hlink | hlink)
    · exact (hkept.records id record hrecord).1 text hlink
    · exact (hkept.records id record hrecord).2 text hlink

end System

theorem names_belong_retried : ∃ (ts : List (Transition State Step)) (s : State),
    Run (system ⟨"bucket", none, "region"⟩).step ⟨World.empty, []⟩ ts s ∧
      ((s.state.videos.find? "video").bind Video.queueJobId = some "2" ∧
        (s.state.failedJobs.find? "record").bind FailedJob.retryJobId = some "2") ∧
      (∀ id row text, s.state.videos.find? id = some row → row.queueJobId = some text →
        s.state.queue.Names id text) ∧
      ∀ id record text, s.state.failedJobs.find? id = some record →
        record.queueJobId = some text ∨ record.retryJobId = some text →
        s.state.queue.Names record.videoId text := by
  obtain ⟨ts, s, hrun, -, hobs⟩ := Run.exists_of_follow
    (system ⟨"bucket", none, "region"⟩).step ⟨World.empty, []⟩ retriedActs
    (fun p ↦ ((p.2.state.videos.find? "video").bind Video.queueJobId,
      (p.2.state.failedJobs.find? "record").bind FailedJob.retryJobId)) (some "2", some "2")
    (by decide +kernel)
  exact ⟨ts, s, hrun, Prod.mk.inj hobs, names_belong hrun⟩

end VideoGen
