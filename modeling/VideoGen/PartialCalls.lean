import VideoGen.CacheCoherence
import VideoGen.RetryCalls

/-!
# What a failing call leaves behind

`retryFailedJob` and `createAndQueue` write two tables and the queue one
after the other, without a transaction.  When one of their calls fails, the
writes of the calls before it stay: the world is the one after a prefix of
the writes, and nothing else has changed.
-/

namespace VideoGen

/-! ## Calls one after the other -/

def Fate.Answers : Fate → Prop
  | .ok _ => True
  | _ => False

@[simp] theorem Fate.answers_ok (a : Answer) : (Fate.ok a).Answers := trivial

@[simp] theorem Fate.takesEffect_ok (a : Answer) : (Fate.ok a).TakesEffect = true := rfl

variable {α : Type} {w w' : World} {p : Prog α} {ws : List World} {a : α}
  {ts : List (Transition World Fate)} {r : Except Thrown α}

/-- With every call answered the program goes through the worlds of the list and returns. -/
inductive Straight : Prog α → World → List World → α → Prop where
  | done (a : α) (w : World) : Straight (.done (.ok a)) w [] a
  | call {c : Call} {next : Except Thrown c.Reply → Prog α} {w w₁ : World} {y : c.Reply}
      {ws : List World} {a : α}
      (hanswer : ∀ b w₂ x, w.answer c b = some (w₂, x) → w₂ = w₁ ∧ x = y)
      (hthrow : ∀ e, next (.error e) = .done (.error e))
      (hrest : Straight (next (.ok y)) w₁ ws a) : Straight (.call c next) w (w₁ :: ws) a

/-- However its calls go, such a program ends in the world that its effective calls lead
to, and it returns if every call was answered. -/
theorem Straight.evaluates (h : Straight p w ws a) (heval : p.Evaluates World.exec w ts r w') :
    (w :: ws)[ts.countP fun t ↦ t.act.TakesEffect]? = some w' ∧
      ((r = .ok a ∧ ts.length = ws.length ∧ ∀ t ∈ ts, t.act.Answers) ∨
        (∃ e, r = .error e) ∧ ∃ t ∈ ts, ¬t.act.Answers) := by
  induction h generalizing ts with
  | done a w =>
      obtain ⟨rfl, rfl, rfl⟩ := Program.evaluates_done_iff.mp heval
      exact ⟨rfl, .inl ⟨rfl, rfl, by simp⟩⟩
  | @call c next w w₁ y ws a hanswer hthrow hrest ih =>
      obtain ⟨f, w₂, x, rest, hexec, heval, rfl⟩ := Program.evaluates_call_iff.mp heval
      rcases World.exec_cases hexec with ⟨b, z, rfl, hz, rfl⟩ | ⟨e, rfl, -, rfl, rfl⟩ |
        ⟨b, e, z, rfl, -, hz, rfl⟩
      · obtain ⟨rfl, rfl⟩ := hanswer b w₂ z hz
        obtain ⟨hworld, hend⟩ := ih heval
        refine ⟨by simpa [List.countP_cons] using hworld, ?_⟩
        rcases hend with ⟨hr, hlength, hok⟩ | ⟨hr, t, ht, hfail⟩
        · exact .inl ⟨hr, by simp [hlength], by simpa using hok⟩
        · exact .inr ⟨hr, t, by simp [ht], hfail⟩
      · rw [hthrow e] at heval
        obtain ⟨rfl, rfl, rfl⟩ := Program.evaluates_done_iff.mp heval
        exact ⟨rfl, .inr ⟨⟨e, rfl⟩, _, List.mem_singleton_self _, id⟩⟩
      · obtain ⟨rfl, -⟩ := hanswer b w₂ z hz
        rw [hthrow e] at heval
        obtain ⟨rfl, rfl, rfl⟩ := Program.evaluates_done_iff.mp heval
        exact ⟨rfl, .inr ⟨⟨e, rfl⟩, _, List.mem_singleton_self _, id⟩⟩

theorem World.answer_of_unit {w w₁ : World} {c : Call} {y : c.Reply}
    (h : w.answer c .unit = some (w₁, y)) (b : Answer) (w₂ : World) (x : c.Reply)
    (hx : w.answer c b = some (w₂, x)) : w₂ = w₁ ∧ x = y := by
  have hb : b = .unit := by
    cases c with
    | insertVideo id fields => cases id <;> cases b <;> simp [answer] at h hx ⊢
    | _ => cases b <;> simp [answer] at h hx ⊢
  subst hb
  obtain ⟨rfl, rfl⟩ := Prod.mk.inj (Option.some.inj (hx.symm.trans h))
  exact ⟨rfl, rfl⟩

/-! ## Retrying a record -/

def World.beside (w : World) : ℕ × (ℕ → Option ℤ) × (String → Option CachedText) ×
    List (String × StatusSnapshot) × (String → Option (Bytes × String)) × List DomainEvent :=
  (w.now, w.jobProgress, w.redis, w.redisWrites, w.bucket, w.events)

theorem World.now_of_beside {w w' : World} (h : w'.beside = w.beside) : w'.now = w.now :=
  congrArg Prod.fst h

theorem World.updateVideo_beside (w : World) (id : String) (expected : Option VideoStatus)
    (fields : VideoFields) : (w.updateVideo id expected fields).1.beside = w.beside ∧
      (w.updateVideo id expected fields).1.queue = w.queue ∧
      (w.updateVideo id expected fields).1.failedJobs = w.failedJobs := by
  rw [updateVideo_eq]
  exact ⟨rfl, rfl, rfl⟩

/-- The worlds after the six calls of a retry: it reads the record, resets the row, adds the
job, reads the clock, stores the job id in the row and marks the record. -/
def retryWorlds (w : World) (record : FailedJob) : List World :=
  let reset := (w.updateVideo record.videoId none resetFields).1
  let jobId := reset.queue.lastId + 1
  let added := { reset with
    queue := reset.queue.add videoGenerationJob ⟨record.videoId⟩
      (retryJobOptions.over queueModuleJobOptions) }
  let linked := (added.updateVideo record.videoId none (queueJobIdFields jobId)).1
  [w, reset, added, added, linked, linked.markRetried record.id added.now (toString jobId)]

theorem straight_retryFailedJob {id : String} {record : FailedJob}
    (hrecord : w.failedJobs.find? id = some record) (hretried : record.retried = false) :
    Straight (retryFailedJob id) w (retryWorlds w record)
      ⟨record.id, toString (w.queue.lastId + 1), record.videoId⟩ := by
  obtain rfl : record.id = id := Table.key_of_find? hrecord
  have hlook : w.answer (.selectFailedJob record.id) .unit = some (w, some record) :=
    congrArg (fun x ↦ some (w, x)) hrecord
  rw [← (w.updateVideo_beside record.videoId none resetFields).2.1]
  refine .call (World.answer_of_unit hlook) (fun _ ↦ rfl) ?_
  change Straight (if record.retried = true then _ else _) _ _ _
  rw [if_neg (by simp [hretried])]
  refine .call (World.answer_of_unit rfl) (fun _ ↦ rfl) ?_
  refine .call (World.answer_of_unit rfl) (fun _ ↦ rfl) ?_
  refine .call (World.answer_of_unit rfl) (fun _ ↦ rfl) ?_
  refine .call (World.answer_of_unit rfl) (fun _ ↦ rfl) ?_
  refine .call (World.answer_of_unit rfl) (fun _ ↦ rfl) ?_
  exact .done _ _

def Video.afterRetry (row : Video) (calls jobId now : ℕ) : Video :=
  if calls < 2 then row
  else
    { row with
      status := .pending
      errorMessage := none
      metadata := some JsObject.empty
      queueJobId := if calls < 5 then none else some (toString jobId)
      updatedAt := now }

/-- What is left when the first `calls` of the six calls of a retry took effect: the reset of
the row, one new job, the job id in the row and the mark of the record, as far as they got. -/
structure AfterRetry (w w' : World) (record : FailedJob) (calls : ℕ) : Prop where
  rows : ∀ k, w'.videos.find? k =
    if k = record.videoId then
      (w.videos.find? k).map fun row ↦ row.afterRetry calls (w.queue.lastId + 1) w.now
    else w.videos.find? k
  queue : w'.queue =
    if calls < 3 then w.queue
    else w.queue.add videoGenerationJob ⟨record.videoId⟩
      (retryJobOptions.over queueModuleJobOptions)
  records : ∀ k, w'.failedJobs.find? k =
    if calls = 6 ∧ k = record.id then
      some (record.markRetried w.now (toString (w.queue.lastId + 1)))
    else w.failedJobs.find? k
  beside : w'.beside = w.beside
  untouched : calls < 2 → w' = w

namespace AfterRetry

variable {w₁ : World} {record : FailedJob}

theorem none_yet (w : World) (record : FailedJob) {calls : ℕ} (hcalls : calls < 2) :
    AfterRetry w w record calls where
  rows k := by
    by_cases hk : k = record.videoId
    · rw [if_pos hk]
      simp [Video.afterRetry, hcalls]
    · rw [if_neg hk]
  queue := by rw [if_pos (by omega)]
  records k := by rw [if_neg (by omega)]
  beside := rfl
  untouched _ := rfl

theorem reset (w : World) (record : FailedJob) :
    AfterRetry w (w.updateVideo record.videoId none resetFields).1 record 2 := by
  obtain ⟨hbeside, hqueue, hrecords⟩ := w.updateVideo_beside record.videoId none resetFields
  refine ⟨fun k ↦ ?_, hqueue, fun k ↦ ?_, hbeside, fun h ↦ absurd h (by omega)⟩
  · rw [World.find?_updateVideo]
    by_cases hk : k = record.videoId
    · rw [if_pos hk, if_pos hk, hk]
      rfl
    · rw [if_neg hk, if_neg hk]
  · rw [hrecords, if_neg (by omega)]

theorem add (h : AfterRetry w w₁ record 2) :
    AfterRetry w { w₁ with
      queue := w₁.queue.add videoGenerationJob ⟨record.videoId⟩
        (retryJobOptions.over queueModuleJobOptions) } record 3 where
  rows := h.rows
  queue := congrArg (fun q : Queue ↦ q.add videoGenerationJob ⟨record.videoId⟩
    (retryJobOptions.over queueModuleJobOptions)) h.queue
  records := h.records
  beside := h.beside
  untouched h := absurd h (by omega)

theorem stamp (h : AfterRetry w w₁ record 3) : AfterRetry w w₁ record 4 :=
  ⟨h.rows, h.queue, h.records, h.beside, fun h ↦ absurd h (by omega)⟩

theorem link (h : AfterRetry w w₁ record 4) {jobId : ℕ} (hjob : jobId = w.queue.lastId + 1) :
    AfterRetry w (w₁.updateVideo record.videoId none (queueJobIdFields jobId)).1 record 5 := by
  subst hjob
  obtain ⟨hbeside, hqueue, hrecords⟩ := w₁.updateVideo_beside record.videoId none
    (queueJobIdFields (w.queue.lastId + 1))
  refine ⟨fun k ↦ ?_, hqueue.trans h.queue, fun k ↦ ?_, hbeside.trans h.beside,
    fun h ↦ absurd h (by omega)⟩
  · rw [World.find?_updateVideo]
    by_cases hk : k = record.videoId
    · rw [if_pos hk, if_pos hk, h.rows, if_pos rfl, hk, Option.map_map, World.now_of_beside h.beside]
      rfl
    · rw [if_neg hk, if_neg hk, h.rows, if_neg hk]
  · rw [hrecords]
    exact h.records k

theorem mark (h : AfterRetry w w₁ record 5) (hrecord : w.failedJobs.find? record.id = some record)
    {jobId now : ℕ} (hjob : jobId = w.queue.lastId + 1) (hnow : now = w.now) :
    AfterRetry w (w₁.markRetried record.id now (toString jobId)) record 6 := by
  subst hjob hnow
  refine ⟨h.rows, h.queue, fun k ↦ ?_, h.beside, fun h ↦ absurd h (by omega)⟩
  change (w₁.failedJobs.modify record.id
    (fun r ↦ r.markRetried w.now (toString (w.queue.lastId + 1)))
    fun r ↦ r.markRetried_id w.now (toString (w.queue.lastId + 1))).find? k = _
  rw [Table.find?_modify]
  by_cases hk : k = record.id
  · rw [if_pos hk, if_pos ⟨rfl, hk⟩, h.records, if_neg (by simp), hk, hrecord]
    rfl
  · rw [if_neg hk, if_neg (by simp [hk]), h.records, if_neg (by simp)]

theorem of_worlds {calls : ℕ} (hrecord : w.failedJobs.find? record.id = some record)
    (h : (w :: retryWorlds w record)[calls]? = some w') : AfterRetry w w' record calls := by
  have hreset := reset w record
  have hadded := hreset.add.stamp
  have hjob := congrArg (fun q : Queue ↦ q.lastId + 1) hreset.queue
  have hlinked := hadded.link hjob
  have hmarked := hlinked.mark hrecord hjob (World.now_of_beside hreset.beside)
  match calls with
  | 0 =>
      obtain rfl := Option.some.inj h
      exact none_yet w record (by omega)
  | 1 =>
      obtain rfl := Option.some.inj h
      exact none_yet w record (by omega)
  | 2 =>
      obtain rfl := Option.some.inj h
      exact hreset
  | 3 =>
      obtain rfl := Option.some.inj h
      exact hreset.add
  | 4 =>
      obtain rfl := Option.some.inj h
      exact hadded
  | 5 =>
      obtain rfl := Option.some.inj h
      exact hlinked
  | 6 =>
      obtain rfl := Option.some.inj h
      exact hmarked
  | calls + 7 => simp [retryWorlds] at h

end AfterRetry

/-- What `retryFailedJob` does, however its calls go. -/
structure RetryContract (w w' : World) (id : String) (fates : List Fate)
    (r : Except Thrown RetryFailedJobDto) : Prop where
  /-- Without an unretried record it throws, and nothing happens. -/
  refuses : (∀ record, w.failedJobs.find? id = some record → record.retried = true) →
    w' = w ∧ ∃ e, r = .error e
  /-- With one, what is left are the effects of its calls up to the failing one. -/
  leaves : ∀ record, w.failedJobs.find? id = some record → record.retried = false →
    AfterRetry w w' record (fates.countP Fate.TakesEffect)
  /-- It returns the new job's id when all six calls are answered, and throws otherwise. -/
  ends : ∀ record, w.failedJobs.find? id = some record → record.retried = false →
    (r = .ok ⟨record.id, toString (w.queue.lastId + 1), record.videoId⟩ ∧
        fates.countP Fate.TakesEffect = 6) ∨
      (∃ e, r = .error e) ∧ ∃ f ∈ fates, ¬f.Answers

theorem retry_refuses {id : String} {r : Except Thrown RetryFailedJobDto}
    (h : (retryFailedJob id).Evaluates World.exec w ts r w')
    (hrecord : ∀ record, w.failedJobs.find? id = some record → record.retried = true) :
    w' = w ∧ ∃ e, r = .error e := by
  obtain ⟨f, w₁, x, rest, hexec, rfl, hrest⟩ := Program.evaluates_perform_bind_iff.mp h
  rcases World.exec_cases hexec with ⟨b, y, rfl, hy, rfl⟩ | ⟨e, rfl, -, rfl, rfl⟩ |
    ⟨b, e, y, rfl, -, hy, rfl⟩
  · obtain ⟨rfl, rfl⟩ := World.answer_selectFailedJob hy
    cases hfind : w₁.failedJobs.find? id with
    | none =>
        rw [hfind] at hrest
        obtain ⟨-, rfl, rfl⟩ := Program.evaluates_done_iff.mp hrest
        exact ⟨rfl, _, rfl⟩
    | some record =>
        simp only [hfind, hrecord record hfind] at hrest
        obtain ⟨-, rfl, rfl⟩ := Program.evaluates_done_iff.mp hrest
        exact ⟨rfl, _, rfl⟩
  · obtain ⟨-, rfl, rfl⟩ := hrest
    exact ⟨rfl, e, rfl⟩
  · obtain ⟨-, rfl, rfl⟩ := hrest
    exact ⟨(World.answer_selectFailedJob hy).1, e, rfl⟩

theorem countP_effects (ts : List (Transition World Fate)) :
    (ts.map Transition.act).countP Fate.TakesEffect =
      ts.countP fun t ↦ t.act.TakesEffect := by
  rw [List.countP_map]
  rfl

theorem countP_answered (h : ∀ t ∈ ts, t.act.Answers) :
    ts.countP (fun t ↦ t.act.TakesEffect) = ts.length := by
  apply List.countP_eq_length.mpr
  intro t ht
  have hanswers := h t ht
  cases hact : t.act with
  | ok b => rfl
  | rejected e => rw [hact] at hanswers; exact hanswers.elim
  | lost b e => rfl

/-- A retry that throws leaves what its earlier calls wrote; one that returns has done all. -/
theorem retry_leaves_prefix {id : String} {r : Except Thrown RetryFailedJobDto}
    (h : (retryFailedJob id).Evaluates World.exec w ts r w') :
    RetryContract w w' id (ts.map Transition.act) r := by
  refine ⟨retry_refuses h, fun record hrecord hretried ↦ ?_, fun record hrecord hretried ↦ ?_⟩
  · obtain rfl := Table.key_of_find? hrecord
    rw [countP_effects]
    exact .of_worlds hrecord ((straight_retryFailedJob hrecord hretried).evaluates h).1
  · rcases ((straight_retryFailedJob hrecord hretried).evaluates h).2 with
      ⟨hr, hlength, hok⟩ | ⟨hr, t, ht, hfail⟩
    · refine .inl ⟨hr, ?_⟩
      rw [countP_effects, countP_answered hok, hlength]
      rfl
    · exact .inr ⟨hr, t.act, List.mem_map_of_mem ht, hfail⟩

def Video.retryColumns (row : Video) :
    VideoStatus × Option String × Option JsObject × Option String :=
  (row.status, row.errorMessage, row.metadata, row.queueJobId)

/-- A call that throws has changed nothing; one that returns has a row, one new job and the
mark of its record. -/
structure RetriesAtomically (w w' : World) (id : String)
    (r : Except Thrown RetryFailedJobDto) : Prop where
  thrown : ∀ e, r = .error e →
    (∀ k, (w'.videos.find? k).map Video.retryColumns =
      (w.videos.find? k).map Video.retryColumns) ∧
    w'.queue = w.queue ∧ ∀ k, w'.failedJobs.find? k = w.failedJobs.find? k
  returned : ∀ dto, r = .ok dto →
    (∃ row, w'.videos.find? dto.videoId = some row) ∧
    (∃ q, w'.queue.jobs.rows = w.queue.jobs.rows ++ [q] ∧
      q.job.data.videoId = dto.videoId ∧ toString q.jobId = dto.retryJobId) ∧
    ∃ record, w'.failedJobs.find? id = some record ∧ record.retried = true ∧
      record.retryJobId = some dto.retryJobId

def unqueuedRetry : List Fate :=
  [.ok .unit, .ok .unit, .rejected (.instance .error "connection")]

def isReturned {ε α : Type} : Except ε α → Bool
  | .ok _ => true
  | .error _ => false

theorem retry_leaves_reset : ∃ (ts : List (Transition World Fate))
    (r : Except Thrown RetryFailedJobDto) (w' : World),
    (retryFailedJob "record").Evaluates World.exec failedWorld ts r w' ∧
      ts.map Transition.act = unqueuedRetry ∧
      RetryContract failedWorld w' "record" unqueuedRetry r := by
  have hsome : ((retryFailedJob "record").evalAll World.exec failedWorld unqueuedRetry).isSome :=
    by decide +kernel
  obtain ⟨⟨w', r⟩, heval⟩ := Option.isSome_iff_exists.mp hsome
  obtain ⟨ts, hts, hacts⟩ := Program.evaluates_of_evalAll heval
  exact ⟨ts, r, w', hts, hacts, hacts ▸ retry_leaves_prefix hts⟩

theorem retry_not_atomic : ∃ (ts : List (Transition World Fate))
    (r : Except Thrown RetryFailedJobDto) (w' : World),
    (retryFailedJob "record").Evaluates World.exec failedWorld ts r w' ∧
      ts.map Transition.act = unqueuedRetry ∧ ¬RetriesAtomically failedWorld w' "record" r := by
  have hobs : ((retryFailedJob "record").evalAll World.exec failedWorld unqueuedRetry).map
      (fun p ↦ (isReturned p.2, p.1.statusOf "video")) = some (false, some .pending) := by
    decide +kernel
  obtain ⟨⟨w', r⟩, heval, hseen⟩ := Option.map_eq_some_iff.mp hobs
  obtain ⟨hthrown, hstatus⟩ := Prod.mk.inj hseen
  obtain ⟨ts, hts, hacts⟩ := Program.evaluates_of_evalAll heval
  refine ⟨ts, r, w', hts, hacts, fun h ↦ ?_⟩
  cases r with
  | ok dto => cases hthrown
  | error e =>
      have hsame := congrArg (Option.map Prod.fst) ((h.thrown e rfl).1 "video")
      have hbefore : failedWorld.statusOf "video" = some .failed := by decide +kernel
      have hafter : w'.statusOf "video" = failedWorld.statusOf "video" := by
        simpa [World.statusOf, Video.retryColumns, Function.comp_def] using hsame
      rw [hbefore, hstatus] at hafter
      cases hafter

/-! ## Creating a video -/

def createdRow (userId : String) (dto : CreateVideoDto) (id : String) (now : ℕ)
    (queueJobId : Option String) : Video :=
  { Video.create id (dto.fields userId) now with queueJobId := queueJobId }

/-- What is left when `calls` of the four calls of a creation took effect: the new row, one
new job, the job id in the row and the event, as far as they got. -/
structure AfterCreation (w w' : World) (userId : String) (dto : CreateVideoDto) (id : String)
    (calls : ℕ) : Prop where
  fresh : w.videos.find? id = none
  rows : ∀ k, w'.videos.find? k =
    if k = id then
      some (createdRow userId dto id w.now
        (if calls < 3 then none else some (toString (w.queue.lastId + 1))))
    else w.videos.find? k
  queue : w'.queue =
    if calls < 2 then w.queue
    else w.queue.add videoGenerationJob ⟨id⟩ (JobOptions.over {} videosModuleJobOptions)
  events : w'.events =
    if calls < 4 then w.events
    else w.events ++ [.created id userId dto.prompt (toString (w.queue.lastId + 1))]
  others : w'.failedJobs = w.failedJobs ∧ w'.now = w.now ∧ w'.jobProgress = w.jobProgress ∧
    w'.redis = w.redis ∧ w'.redisWrites = w.redisWrites ∧ w'.bucket = w.bucket

namespace AfterCreation

variable {w₁ : World} {userId : String} {dto : CreateVideoDto} {id : String}

theorem insert (hfresh : w.videos.find? id = none)
    (hinsert : (w.videos.insert? (Video.create id (dto.fields userId) w.now)) = some w₁.videos)
    (hrest : w₁ = { w with videos := w₁.videos }) : AfterCreation w w₁ userId dto id 1 where
  fresh := hfresh
  rows k := by
    rw [Table.find?_of_insert? hinsert]
    rfl
  queue := by
    rw [hrest]
    rfl
  events := by
    rw [hrest]
    rfl
  others := by
    rw [hrest]
    exact ⟨rfl, rfl, rfl, rfl, rfl, rfl⟩

theorem add (h : AfterCreation w w₁ userId dto id 1) :
    AfterCreation w { w₁ with
      queue := w₁.queue.add videoGenerationJob ⟨id⟩ (JobOptions.over {} videosModuleJobOptions) }
      userId dto id 2 where
  fresh := h.fresh
  rows := h.rows
  queue := congrArg (fun q : Queue ↦ q.add videoGenerationJob ⟨id⟩
    (JobOptions.over {} videosModuleJobOptions)) h.queue
  events := h.events
  others := h.others

theorem link (h : AfterCreation w w₁ userId dto id 2) {jobId : ℕ}
    (hjob : jobId = w.queue.lastId + 1) :
    AfterCreation w (w₁.updateVideo id none (queueJobIdFields jobId)).1 userId dto id 3 := by
  subst hjob
  obtain ⟨hbeside, hqueue, hrecords⟩ := w₁.updateVideo_beside id none
    (queueJobIdFields (w.queue.lastId + 1))
  obtain ⟨hnow, hprogress, hredis, hwrites, hbucket, hevents⟩ := by
    simpa [World.beside] using hbeside
  obtain ⟨hfailed, hnow', hprogress', hredis', hwrites', hbucket'⟩ := h.others
  refine ⟨h.fresh, fun k ↦ ?_, hqueue.trans h.queue, hevents.trans h.events,
    hrecords.trans hfailed, hnow.trans hnow', hprogress.trans hprogress', hredis.trans hredis',
    hwrites.trans hwrites', hbucket.trans hbucket'⟩
  rw [World.find?_updateVideo]
  by_cases hk : k = id
  · rw [if_pos hk, if_pos hk, h.rows, if_pos rfl, hnow']
    rfl
  · rw [if_neg hk, if_neg hk, h.rows, if_neg hk]

theorem announce (h : AfterCreation w w₁ userId dto id 3) {jobId : ℕ}
    (hjob : jobId = w.queue.lastId + 1) :
    AfterCreation w { w₁ with
      events := w₁.events ++ [.created id userId dto.prompt (toString jobId)] }
      userId dto id 4 where
  fresh := h.fresh
  rows := h.rows
  queue := h.queue
  events := by
    subst hjob
    exact congrArg (· ++ [.created id userId dto.prompt (toString (w.queue.lastId + 1))]) h.events
  others := h.others

end AfterCreation

def creationWorlds (w₁ : World) (userId : String) (saved : Video) : List World :=
  let jobId := w₁.queue.lastId + 1
  let added := { w₁ with
    queue := w₁.queue.add videoGenerationJob ⟨saved.id⟩
      (JobOptions.over {} videosModuleJobOptions) }
  let linked := (added.updateVideo saved.id none (queueJobIdFields jobId)).1
  [added, linked,
    { linked with
      events := linked.events ++ [.created saved.id userId saved.prompt (toString jobId)] }]

def queueCreated (userId : String) (saved : Video) : Prog Video := do
  let jobId ← queueAdd videosModuleJobOptions videoGenerationJob ⟨saved.id⟩ {}
  let _ ← updateVideo saved.id none (queueJobIdFields jobId)
  emit (.created saved.id userId saved.prompt (toString jobId))
  pure { saved with queueJobId := some (toString jobId) }

theorem straight_queueCreated (w₁ : World) (userId : String) (saved : Video) :
    Straight (queueCreated userId saved) w₁ (creationWorlds w₁ userId saved)
      { saved with queueJobId := some (toString (w₁.queue.lastId + 1)) } := by
  refine .call (World.answer_of_unit rfl) (fun _ ↦ rfl) ?_
  refine .call (World.answer_of_unit rfl) (fun _ ↦ rfl) ?_
  refine .call (World.answer_of_unit rfl) (fun _ ↦ rfl) ?_
  exact .done _ _

theorem AfterCreation.of_worlds {w₁ : World} {userId : String} {dto : CreateVideoDto}
    {id : String} (h : AfterCreation w w₁ userId dto id 1) {calls : ℕ}
    (hw : (w₁ :: creationWorlds w₁ userId (Video.create id (dto.fields userId) w.now))[calls]? =
      some w') : AfterCreation w w' userId dto id (calls + 1) := by
  have hjob := congrArg (fun q : Queue ↦ q.lastId + 1) h.queue
  have hlinked := h.add.link hjob
  have hannounced := hlinked.announce hjob
  match calls with
  | 0 =>
      obtain rfl := Option.some.inj hw
      exact h
  | 1 =>
      obtain rfl := Option.some.inj hw
      exact h.add
  | 2 =>
      obtain rfl := Option.some.inj hw
      exact hlinked
  | 3 =>
      obtain rfl := Option.some.inj hw
      exact hannounced
  | calls + 4 => simp [creationWorlds] at hw

/-- What `createAndQueue` does on its own, however its calls go. -/
structure CreationContract (w w' : World) (userId : String) (dto : CreateVideoDto)
    (fates : List Fate) (r : Except Thrown Video) : Prop where
  /-- What is left are the effects of the calls up to the failing one. -/
  leaves : (fates.countP Fate.TakesEffect = 0 ∧ w' = w) ∨
    ∃ id, AfterCreation w w' userId dto id (fates.countP Fate.TakesEffect)
  /-- It returns when all four calls are answered, and throws otherwise. -/
  ends : (∃ id, r = .ok (createdRow userId dto id w.now (some (toString (w.queue.lastId + 1)))) ∧
      AfterCreation w w' userId dto id 4) ∨
    (∃ e, r = .error e) ∧ ∃ f ∈ fates, ¬f.Answers

theorem answer_insert {w₁ : World} {b : Answer} {userId : String} {dto : CreateVideoDto}
    {x : Video} (h : w.answer (.insertVideo none (dto.fields userId)) b = some (w₁, x)) :
    ∃ id, x = Video.create id (dto.fields userId) w.now ∧ AfterCreation w w₁ userId dto id 1 := by
  cases b <;> simp only [World.answer, reduceCtorEq, Option.map_eq_some_iff, Prod.mk.injEq] at h
  rename_i id
  obtain ⟨videos, hinsert, rfl, rfl⟩ := h
  exact ⟨id, rfl, .insert (Table.find?_fresh_of_insert? hinsert) hinsert rfl⟩

theorem creation_evaluates {userId : String} {dto : CreateVideoDto} {r : Except Thrown Video}
    (h : (createAndQueue userId dto).Evaluates World.exec w ts r w') :
    CreationContract w w' userId dto (ts.map Transition.act) r := by
  obtain ⟨f, w₁, x, rest, hexec, rfl, hrest⟩ := Program.evaluates_perform_bind_iff.mp h
  rcases World.exec_cases hexec with ⟨b, y, rfl, hy, rfl⟩ | ⟨e, rfl, -, rfl, rfl⟩ |
    ⟨b, e, y, rfl, -, hy, rfl⟩
  · obtain ⟨id, rfl, hinsert⟩ := answer_insert hy
    obtain ⟨hworld, hend⟩ := (straight_queueCreated w₁ userId _).evaluates hrest
    have hleft := hinsert.of_worlds hworld
    have hcount : ((⟨w, .ok b, w₁⟩ :: rest : List (Transition World Fate)).map
        Transition.act).countP Fate.TakesEffect =
          rest.countP (fun t ↦ t.act.TakesEffect) + 1 := by
      rw [countP_effects, List.countP_cons]
      rfl
    refine ⟨.inr ⟨id, hcount ▸ hleft⟩, ?_⟩
    rcases hend with ⟨hr, hlength, hok⟩ | ⟨hr, t, ht, hfail⟩
    · refine .inl ⟨id, hr.trans ?_, ?_⟩
      · have hlast : w₁.queue.lastId = w.queue.lastId := congrArg Queue.lastId hinsert.queue
        rw [hlast]
        rfl
      · rw [countP_answered hok, hlength] at hleft
        exact hleft
    · exact .inr ⟨hr, t.act, List.mem_cons_of_mem _ (List.mem_map_of_mem ht), hfail⟩
  · obtain ⟨rfl, rfl, rfl⟩ := hrest
    exact ⟨.inl ⟨rfl, rfl⟩, .inr ⟨⟨e, rfl⟩, _, List.mem_singleton_self _, id⟩⟩
  · obtain ⟨rfl, rfl, rfl⟩ := hrest
    obtain ⟨id, -, hinsert⟩ := answer_insert hy
    exact ⟨.inr ⟨id, hinsert⟩, .inr ⟨⟨e, rfl⟩, _, List.mem_singleton_self _, fun h ↦ h⟩⟩

end VideoGen
