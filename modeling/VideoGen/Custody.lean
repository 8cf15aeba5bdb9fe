import VideoGen.Attendance
import VideoGen.LifeCycle

/-!
# The system goes through the life cycle

The threads, the jobs and the records of a video are put on the places of its
life cycle.  While the infrastructure works, nobody edits or removes the video
and its retries do not overlap, every step of the system is a transition of
the life cycle.
-/

namespace VideoGen

open Ledger (on claims)

/-! ## The places of threads, jobs and records -/

def Creation.place (videoId : String) : Creation → Option Place
  | .adding id => if id = videoId then some .creating else none
  | _ => none

def Retry.record? : Retry → Option FailedJob
  | .resetting record => some record
  | .adding record => some record
  | .stamping record _ => some record
  | .linking record _ _ => some record
  | .marking record _ _ => some record
  | _ => none

def Retry.progress : Retry → Place
  | .resetting _ => .resetting
  | .adding _ => .readding
  | _ => .passed

def Retry.place (videoId : String) (retry : Retry) : Option Place :=
  match retry.record? with
  | some record => if record.videoId = videoId then some retry.progress else none
  | none => none

def Recording.place : Recording → Option Place
  | .reading => some .unsaved
  | .saving _ => some .unsaved
  | _ => none

def Stage.place (videoId : String) : Stage → Option Place
  | .creating _ _ creation => creation.place videoId
  | .retrying _ retry => retry.place videoId
  | .listening event recording => if event.videoId = videoId then recording.place else none
  | _ => none

def Phase.place : Phase → Place
  | .fresh => .waiting
  | .loaded _ => .waiting
  | .working => .working
  | .failing => .working
  | .marked _ => .marked
  | .reported _ => .reported
  | _ => .finished

/-- The place of a job is that of the execution that holds it. -/
def QueuedJob.place (threads : List Worker) (q : QueuedJob) : Place :=
  match q.state with
  | .waiting => .waiting
  | .delayed => .waiting
  | .completed => .completed
  | .failed => .failed
  | .active i =>
      match threads[i]?.map stageOf with
      | some (.worker _ phase) => phase.place
      | _ => .finished

def jobPlace (videoId : String) (threads : List Worker) (q : QueuedJob) : Option Place :=
  if q.job.data.videoId = videoId then some (q.place threads) else none

def FailedJob.place (videoId : String) (r : FailedJob) : Option Place :=
  if r.videoId = videoId then some (if r.retried then .retried else .unretried) else none

def threadPlace (videoId : String) (t : Worker) : Option Place := (stageOf t).place videoId

def ledgerOf (videoId : String) (s : State) : Ledger where
  status := s.state.statusOf videoId
  tokens := census (threadPlace videoId) s.threads +
    census (jobPlace videoId s.threads) s.state.queue.jobs.rows +
    census (FailedJob.place videoId) s.state.failedJobs.rows

theorem ledgerOf_empty (videoId : String) : ledgerOf videoId ⟨World.empty, []⟩ = ⟨none, 0⟩ := rfl

theorem QueuedJob.place_active {threads : List Worker} {q : QueuedJob} {i : ℕ} {t : Worker}
    {job : Job} {phase : Phase} (hstate : q.state = .active i) (hget : threads[i]? = some t)
    (hstage : stageOf t = .worker job phase) : q.place threads = phase.place := by
  simp [place, hstate, hget, hstage]

theorem QueuedJob.place_congr {threads threads' : List Worker} {q : QueuedJob}
    (h : ∀ i, q.state = .active i → threads'[i]? = threads[i]?) :
    q.place threads' = q.place threads := by
  unfold place
  cases hstate : q.state with
  | active i => simp only [h i hstate]
  | _ => rfl

theorem jobPlace_congr {videoId : String} {threads threads' : List Worker} {q : QueuedJob}
    (h : ∀ i, q.state = .active i → threads'[i]? = threads[i]?) :
    jobPlace videoId threads' q = jobPlace videoId threads q := by
  unfold jobPlace
  rw [QueuedJob.place_congr h]

/-! ## Each place has its store -/

theorem store_of_thread {videoId : String} {t : Worker} {p : Place}
    (h : threadPlace videoId t = some p) : p.store = .calls := by
  unfold threadPlace at h
  generalize stageOf t = stage at h
  cases stage with
  | creating userId dto creation =>
      cases creation with
      | adding id =>
          obtain ⟨-, heq⟩ := Option.ite_none_right_eq_some.mp h
          obtain rfl := Option.some.inj heq
          rfl
      | _ => cases h
  | retrying id retry =>
      cases retry with
      | looking => cases h
      | returned => cases h
      | thrown => cases h
      | _ =>
          obtain ⟨-, heq⟩ := Option.ite_none_right_eq_some.mp h
          obtain rfl := Option.some.inj heq
          rfl
  | listening event recording =>
      obtain ⟨-, heq⟩ := Option.ite_none_right_eq_some.mp h
      cases recording <;> cases heq <;> rfl
  | worker job phase => cases h
  | removing id userId removal => cases h
  | service call => cases h

theorem store_of_job {videoId : String} {threads : List Worker} {q : QueuedJob} {p : Place}
    (h : jobPlace videoId threads q = some p) : p.store = .jobs := by
  obtain ⟨-, heq⟩ := Option.ite_none_right_eq_some.mp h
  obtain rfl := Option.some.inj heq
  unfold QueuedJob.place
  cases q.state with
  | active i =>
      simp only
      split
      · rename_i phase _
        cases phase <;> rfl
      · rfl
  | _ => rfl

theorem store_of_record {videoId : String} {r : FailedJob} {p : Place}
    (h : r.place videoId = some p) : p.store = .records := by
  obtain ⟨-, heq⟩ := Option.ite_none_right_eq_some.mp h
  obtain rfl := Option.some.inj heq
  split <;> rfl

section Stores

variable {videoId : String} {s : State} {p : Place}

theorem census_of_store {α : Type} {place : α → Option Place} {store : Store} {l : List α}
    (hstore : ∀ a p, place a = some p → p.store = store) (hp : p.store ≠ store) :
    census place l p = 0 := by
  apply Nat.eq_zero_of_not_pos
  intro hpos
  obtain ⟨a, -, ha⟩ := exists_of_census_pos hpos
  exact hp (hstore a p ha)

theorem tokens_of_calls (hp : p.store = .calls) :
    (ledgerOf videoId s).tokens p = census (threadPlace videoId) s.threads p := by
  have hjobs : census (jobPlace videoId s.threads) s.state.queue.jobs.rows p = 0 :=
    census_of_store (fun _ _ ↦ store_of_job) (by simp [hp])
  have hrecords : census (FailedJob.place videoId) s.state.failedJobs.rows p = 0 :=
    census_of_store (fun _ _ ↦ store_of_record) (by simp [hp])
  simp only [ledgerOf, Pi.add_apply]
  omega

theorem tokens_of_jobs (hp : p.store = .jobs) : (ledgerOf videoId s).tokens p =
    census (jobPlace videoId s.threads) s.state.queue.jobs.rows p := by
  have hthreads : census (threadPlace videoId) s.threads p = 0 :=
    census_of_store (fun _ _ ↦ store_of_thread) (by simp [hp])
  have hrecords : census (FailedJob.place videoId) s.state.failedJobs.rows p = 0 :=
    census_of_store (fun _ _ ↦ store_of_record) (by simp [hp])
  simp only [ledgerOf, Pi.add_apply]
  omega

theorem tokens_of_records (hp : p.store = .records) : (ledgerOf videoId s).tokens p =
    census (FailedJob.place videoId) s.state.failedJobs.rows p := by
  have hthreads : census (threadPlace videoId) s.threads p = 0 :=
    census_of_store (fun _ _ ↦ store_of_thread) (by simp [hp])
  have hjobs : census (jobPlace videoId s.threads) s.state.queue.jobs.rows p = 0 :=
    census_of_store (fun _ _ ↦ store_of_job) (by simp [hp])
  simp only [ledgerOf, Pi.add_apply]
  omega

end Stores

section System

variable {config : StorageConfig} {s s' : State} {videoId : String}

/-! ## What a call moves -/

section Calls

variable {i : ℕ} {f : Fate} {t t' : Worker} {c : Call} {r : Except Thrown c.Reply}

theorem listeners_of_not_failure (hc : ∀ event, c ≠ .emit (.failed event)) :
    listeners c = [] := by
  unfold listeners
  split
  · exact absurd rfl (hc _)
  · rfl

theorem fires_threads (videoId : String) (h : Answered config s s' i f t t' c r) :
    Fires (token (threadPlace videoId t))
      (token (threadPlace videoId t') +
        census (threadPlace videoId) ((listeners c).map (system config).start))
      (census (threadPlace videoId) s.threads) (census (threadPlace videoId) s'.threads) := by
  have hset := fires_set (threadPlace videoId) h.get t'
  have happend := fires_append (threadPlace videoId) (s.threads.set i t')
    ((listeners c).map (system config).start)
  have hthreads : s'.threads = s.threads.set i t' ++
    (listeners c).map (system config).start := h.threads_eq
  funext x
  have hx := hset.apply x
  have hx' := happend.apply x
  rw [← hthreads] at hx'
  simp only [Pi.add_apply, Pi.zero_apply] at hx hx' ⊢
  omega

theorem jobPlace_of_call (h : Answered config s s' i f t t' c r)
    (hd : ∀ id, Delivered id s) {q : QueuedJob} (hq : q ∈ s.state.queue.jobs.rows)
    (hother : t.task ≠ .process q.job) :
    jobPlace videoId s'.threads q = jobPlace videoId s.threads q := by
  apply jobPlace_congr
  intro j hstate
  have hfind : s.state.queue.find? q.jobId = some q := Table.find?_eq_some_iff.mpr ⟨hq, rfl⟩
  obtain ⟨u, hget, htask⟩ := (hd q.jobId).held q j hfind hstate
  have hne : j ≠ i := by
    rintro rfl
    obtain rfl := Option.some.inj (hget.symm.trans h.get)
    exact hother htask
  rw [hget]
  exact h.get_of_ne hne hget

theorem census_jobs_of_call (h : Answered config s s' i f t t' c r)
    (hd : ∀ id, Delivered id s) (hother : ∀ job, t.task ≠ .process job) :
    census (jobPlace videoId s'.threads) s.state.queue.jobs.rows =
      census (jobPlace videoId s.threads) s.state.queue.jobs.rows :=
  census_congr fun q hq ↦ jobPlace_of_call h hd hq (hother q.job)

theorem fires_jobs (h : Answered config s s' i f t t' c r) (hd : ∀ id, Delivered id s)
    {job : Job} {phase phase' : Phase} (hstage : stageOf t = .worker job phase)
    (hstage' : stageOf t' = .worker job phase') :
    Fires (if job.data.videoId = videoId then on phase.place else 0)
      (if job.data.videoId = videoId then on phase'.place else 0)
      (census (jobPlace videoId s.threads) s.state.queue.jobs.rows)
      (census (jobPlace videoId s'.threads) s.state.queue.jobs.rows) := by
  have htask : t.task = .process job := by
    rw [← task_stageOf, hstage]
    rfl
  obtain ⟨q, hq, hstate, hjob⟩ := (hd job.id).running i t h.get (by rw [htask]; rfl)
    (not_ended_of_answered h)
  obtain rfl : job = q.job := Task.process.inj (htask.symm.trans hjob)
  have hmoved := fires_row (jobPlace videoId s.threads) (jobPlace videoId s'.threads)
    hq ?_
  · have hplace (threads : List Worker) (phase : Phase)
        (hp : q.place threads = phase.place) : token (jobPlace videoId threads q) =
          if q.job.data.videoId = videoId then on phase.place else 0 := by
      unfold jobPlace
      split
      · rw [hp]
      · exact token_none
    rw [hplace _ _ (QueuedJob.place_active hstate h.get hstage),
      hplace _ _ (QueuedJob.place_active hstate h.get_self hstage')] at hmoved
    exact hmoved
  · intro q' hq' hkey
    apply jobPlace_of_call h hd hq'
    intro htask'
    apply hkey
    rw [htask] at htask'
    have heq : q.job = q'.job := Task.process.inj htask'
    exact (congrArg Job.id heq).symm

end Calls

end System

/-! ## Custody -/

/-- The request does not remove a video. -/
def Task.Keeps : Task → Prop
  | .remove _ _ => False
  | _ => True

instance : DecidablePred Task.Keeps
  | .process _ => isTrue trivial
  | .createAndQueue _ _ => isTrue trivial
  | .retryFailedJob _ => isTrue trivial
  | .onVideoFailed _ => isTrue trivial
  | .remove _ _ => isFalse id
  | .service _ => isTrue trivial

/-- No retry of the video reads its record while another one that has read is at work. -/
def RetriesApart (videoId : String) (s : State) (a : Step) : Prop :=
  ∀ (i : ℕ) (f : Fate) (t : Worker) (id : String) (record : FailedJob), a = .call i f →
    s.threads[i]? = some t → t.task = .retryFailedJob id →
    t.pending? = some (.selectFailedJob id) → s.state.failedJobs.find? id = some record →
    record.videoId = videoId →
    ∀ u ∈ s.threads, ∀ id' record', u.task = .retryFailedJob id' →
      s.state.failedJobs.find? id' = some record' → record'.videoId = videoId →
      u.pending? = some (.selectFailedJob id') ∨ u.Ended

/-- An execution fails its row only in its final attempt, and its update is answered. -/
def Phase.Warranted (job : Job) : Phase → Prop
  | .marked _ => IsFinalAttempt job
  | .reported _ => IsFinalAttempt job
  | .broken => False
  | _ => True

structure Custody (videoId : String) (s : State) : Prop where
  calm : Calm s
  kept : ∀ t ∈ s.threads, t.task.Keeps
  warranted : ∀ t ∈ s.threads, ∀ job phase, stageOf t = .worker job phase →
    phase.Warranted job
  loaded : ∀ (id : ℕ) (q : QueuedJob) (i : ℕ) (t : Worker) (expected : VideoStatus),
    s.state.queue.find? id = some q → q.job.data.videoId = videoId → q.state = .active i →
    s.threads[i]? = some t → stageOf t = .worker q.job (.loaded expected) →
    s.state.statusOf videoId = some expected
  claimed : ∀ t ∈ s.threads, ∀ id retry record, stageOf t = .retrying id retry →
    retry.record? = some record → ∃ stored, s.state.failedJobs.find? id = some stored ∧
      stored.videoId = record.videoId ∧ (stored.videoId = videoId → stored.retried = false)
  sound : (ledgerOf videoId s).Sound

section System

variable {config : StorageConfig} {s s' : State} {videoId : String} {p : Task → Prop}

section Calls

variable {i : ℕ} {f : Fate} {t t' : Worker} {c : Call} {r : Except Thrown c.Reply}

theorem tokens_of_call {preT postT preJ postJ preR postR : Marking Place}
    (hthreads : Fires preT postT (census (threadPlace videoId) s.threads)
      (census (threadPlace videoId) s'.threads))
    (hjobs : Fires preJ postJ (census (jobPlace videoId s.threads) s.state.queue.jobs.rows)
      (census (jobPlace videoId s'.threads) s'.state.queue.jobs.rows))
    (hrecords : Fires preR postR (census (FailedJob.place videoId) s.state.failedJobs.rows)
      (census (FailedJob.place videoId) s'.state.failedJobs.rows)) :
    Fires (preT + preJ + preR) (postT + postJ + postR) (ledgerOf videoId s).tokens
      (ledgerOf videoId s').tokens :=
  (hthreads.add hjobs).add hrecords

theorem running_of_worker (hcalm : Calm s) (h : Answered config s s' i f t t' c r) {job : Job}
    {phase : Phase} (hstage : stageOf t = .worker job phase) :
    ∃ q, s.state.queue.find? job.id = some q ∧ q.state = .active i ∧ job = q.job := by
  have htask : t.task = .process job := by
    rw [← task_stageOf, hstage]
    rfl
  obtain ⟨q, hq, hstate, hjob⟩ := (hcalm.delivered job.id).running i t h.get
    (by rw [htask]; rfl) (not_ended_of_answered h)
  exact ⟨q, hq, hstate, Task.process.inj (htask.symm.trans hjob)⟩

theorem tokens_of_job (hc : Custody videoId s) {job : Job} {phase : Phase}
    (h : Answered config s s' i f t t' c r) (hvideo : job.data.videoId = videoId)
    (hstage : stageOf t = .worker job phase) : 0 < (ledgerOf videoId s).tokens phase.place := by
  obtain ⟨q, hq, hstate, rfl⟩ := running_of_worker hc.calm h hstage
  have hplace : jobPlace videoId s.threads q = some phase.place := by
    unfold jobPlace
    rw [if_pos hvideo, QueuedJob.place_active hstate h.get hstage]
  have hpos := census_pos (Table.find?_eq_some_iff.mp hq).1 hplace
  unfold ledgerOf
  simp only [Pi.add_apply]
  omega

/-- Every call of an execution is a transition of the life cycle. -/
theorem step_of_worker (hc : Custody videoId s) (ho : Orderly p s (.call i f))
    (h : Answered config s s' i f t t' c r) {job : Job} {phase : Phase}
    (hstage : stageOf t = .worker job phase) (hallows : WorkerAllows job phase c) :
    Ledger.Step (ledgerOf videoId s) (ledgerOf videoId s') := by
  have hstage' : stageOf t' = .worker job (phase.next c r) := by
    rw [stageOf_of_answered h, hstage]
    rfl
  obtain ⟨q, hq, hstate, hjob⟩ := running_of_worker hc.calm h hstage
  have hqueue : s'.state.queue = s.state.queue := by
    apply World.exec_queue h.exec
    cases hallows with
    | quiet _ hquiet => cases c <;> first | rfl | cases hquiet
    | _ => rfl
  have hrecords : s'.state.failedJobs = s.state.failedJobs := by
    apply World.exec_failedJobs h.exec
    cases hallows with
    | quiet _ hquiet => cases c <;> first | rfl | cases hquiet
    | _ => rfl
  have hthreads := fires_threads videoId h
  have hnone : threadPlace videoId t = none := by
    unfold threadPlace
    rw [hstage]
    rfl
  have hnone' : threadPlace videoId t' = none := by
    unfold threadPlace
    rw [hstage']
    rfl
  have hkept : Fires 0 0 (census (FailedJob.place videoId) s.state.failedJobs.rows)
      (census (FailedJob.place videoId) s'.state.failedJobs.rows) := by
    rw [hrecords]
    exact Fires.refl _
  have hmoved : Fires (if job.data.videoId = videoId then on phase.place else 0)
      (if job.data.videoId = videoId then on (phase.next c r).place else 0)
      (census (jobPlace videoId s.threads) s.state.queue.jobs.rows)
      (census (jobPlace videoId s'.threads) s'.state.queue.jobs.rows) := by
    rw [hqueue]
    exact fires_jobs h hc.calm.delivered hstage hstage'
  have hfires := tokens_of_call hthreads hmoved hkept
  rw [hnone, hnone', token_none, zero_add, zero_add, add_zero, add_zero] at hfires
  have hsame (hw : c.WritesVideos = false) :
      s'.state.statusOf videoId = s.state.statusOf videoId :=
    status_of_videos (World.exec_videos h.exec hw)
  by_cases hvideo : job.data.videoId = videoId
  · rw [if_pos hvideo, if_pos hvideo] at hfires
    have hpos := tokens_of_job hc h hvideo hstage
    have hquiet (hplace : (phase.next c r).place = phase.place) (hlisteners : listeners c = [])
        (hstatus : s'.state.statusOf videoId = s.state.statusOf videoId) :
        Ledger.Step (ledgerOf videoId s) (ledgerOf videoId s') := by
      rw [hplace, hlisteners, List.map_nil, census_nil, zero_add] at hfires
      exact .quiet hstatus hfires.eq_of_same
    have hwrite {status : VideoStatus} (hlisteners : listeners c = [])
        (hmove : Ledger.Writes status (on phase.place) (on (phase.next c r).place))
        (hstatus : s'.state.statusOf videoId = some status) :
        Ledger.Step (ledgerOf videoId s) (ledgerOf videoId s') := by
      rw [hlisteners, List.map_nil, census_nil, zero_add] at hfires
      exact .write hmove hstatus hfires
    cases hallows with
    | load =>
        obtain ⟨b, x, hx, rfl⟩ := ho.reply h rfl
        obtain ⟨-, hfound⟩ := World.answer_selectVideo hx
        rcases hc.sound.open_of_waiting hpos with hstatus | hstatus
        · obtain ⟨row, hrow, -⟩ := World.statusOf_eq_some_iff.mp hstatus
          rw [hvideo, hrow] at hfound
          subst hfound
          exact hquiet rfl rfl (hsame rfl)
        · obtain ⟨row, hrow, -⟩ := World.statusOf_eq_some_iff.mp hstatus
          rw [hvideo, hrow] at hfound
          subst hfound
          exact hquiet rfl rfl (hsame rfl)
    | start expected hallowed =>
        obtain ⟨b, n, hx, rfl⟩ := ho.reply h rfl
        have hstatus := hc.loaded job.id q i t expected hq (hjob ▸ hvideo) hstate h.get
          (hjob ▸ hstage)
        rw [hvideo] at hx
        obtain ⟨hn, hprocessing⟩ := World.statusOf_of_guarded_update hx hstatus (by simp)
        have hphase : Phase.next (.loaded expected) (.updateVideo job.data.videoId
            (some expected) (startExtra.fields .processing)) (.ok n) = .working := if_neg hn
        refine hwrite rfl ?_ hprocessing
        rw [hphase]
        exact .start
    | quiet _ hquietCall =>
        have hwrites : c.WritesVideos = false := by
          cases c <;> first | rfl | cases hquietCall
        have hlisteners : listeners c = [] := by
          apply listeners_of_not_failure
          rintro event rfl
          cases hquietCall
        refine hquiet ?_ hlisteners (hsame hwrites)
        rw [Phase.next_quiet hquietCall]
        rcases r with e | x
        · by_cases hcaught : c.Caught = true <;> simp [hcaught, Phase.place]
        · rfl
    | progress u =>
        obtain ⟨b, n, hx, rfl⟩ := ho.reply h rfl
        exact hquiet rfl rfl (World.statusOf_of_quiet_update hx rfl videoId)
    | complete url thumbnail hurl =>
        obtain ⟨b, n, hx, rfl⟩ := ho.reply h rfl
        rw [hvideo] at hx
        obtain ⟨-, hcompleted⟩ := World.statusOf_of_guarded_update hx
          (hc.sound.processing_of_working hpos) (by simp)
        exact hwrite rfl .complete hcompleted
    | stamp applied event => exact hquiet (by rcases r with e | x <;> rfl) rfl (hsame rfl)
    | cache applied event key value =>
        exact hquiet (by rcases r with e | x <;> rfl) rfl (hsame rfl)
    | record applied event =>
        obtain ⟨b, x, hx, rfl⟩ := ho.reply h rfl
        exact hquiet rfl rfl (hsame rfl)
    | announce applied event => exact hquiet rfl rfl (hsame rfl)
    | mark _ hphase hfinal message =>
        obtain ⟨b, n, hx, rfl⟩ := ho.reply h rfl
        have hworking : phase.place = .working := by
          rcases hphase with rfl | rfl <;> rfl
        rw [hvideo] at hx
        rw [hworking] at hpos
        obtain ⟨-, hfailed⟩ := World.statusOf_of_guarded_update hx
          (hc.sound.processing_of_working hpos) (by simp)
        refine hwrite rfl ?_ hfailed
        rw [hworking, next_mark hphase]
        exact .markFailed
    | evict message key => exact hquiet (by rcases r with e | x <;> rfl) rfl (hsame rfl)
    | report message =>
        have hlistener : threadPlace videoId ((system config).start (.onVideoFailed
            ⟨job.data.videoId, message, job.attemptsMade + 1⟩)) = some .unsaved := if_pos hvideo
        rw [listeners, List.map_singleton, census_singleton, hlistener, add_comm] at hfires
        exact .handover .report (hsame rfl) hfires
  · rw [if_neg hvideo, if_neg hvideo, add_zero] at hfires
    have hlisteners : census (threadPlace videoId) ((listeners c).map (system config).start) =
        0 := by
      apply census_eq_zero
      intro u hu
      obtain ⟨task, htask, rfl⟩ := List.mem_map.mp hu
      cases hallows with
      | quiet _ hquietCall =>
          rw [listeners_of_not_failure (by rintro event rfl; cases hquietCall)] at htask
          cases htask
      | report message =>
          obtain rfl := List.mem_singleton.mp htask
          exact if_neg hvideo
      | _ => cases htask
    rw [hlisteners] at hfires
    refine .quiet ?_ hfires.eq_of_same
    by_cases hw : c.WritesVideos = false
    · exact hsame hw
    · obtain ⟨expected, fields, rfl, -⟩ := hallows.write (by simpa using hw)
      obtain ⟨b, n, hx, -⟩ := ho.reply h rfl
      rcases World.statusOf_of_update hx videoId with hstatus | ⟨status, hid, -⟩
      · exact hstatus
      · exact absurd hid.symm hvideo

/-! ### Calls of other threads -/

theorem fires_queue (h : Answered config s s' i f t t' c r) (hd : ∀ id, Delivered id s)
    (hother : ∀ job, t.task ≠ .process job) {post : Marking Place}
    (hqueue : Fires 0 post (census (jobPlace videoId s'.threads) s.state.queue.jobs.rows)
      (census (jobPlace videoId s'.threads) s'.state.queue.jobs.rows)) :
    Fires 0 post (census (jobPlace videoId s.threads) s.state.queue.jobs.rows)
      (census (jobPlace videoId s'.threads) s'.state.queue.jobs.rows) := by
  rw [census_jobs_of_call h hd hother] at hqueue
  exact hqueue

theorem fires_added {name : String} {data : VideoGenerationJobData} {opts : JobOptions}
    (hqueue : s'.state.queue = s.state.queue.add name data opts) :
    Fires 0 (if data.videoId = videoId then on .waiting else 0)
      (census (jobPlace videoId s'.threads) s.state.queue.jobs.rows)
      (census (jobPlace videoId s'.threads) s'.state.queue.jobs.rows) := by
  have hplace : token (jobPlace videoId s'.threads (s.state.queue.newJob name data opts)) =
      if data.videoId = videoId then on .waiting else 0 := by
    by_cases hvideo : data.videoId = videoId
    · rw [if_pos hvideo]
      exact congrArg token (if_pos hvideo)
    · rw [if_neg hvideo, ← token_none]
      exact congrArg token (if_neg hvideo)
  have happend := fires_append (jobPlace videoId s'.threads) s.state.queue.jobs.rows
    [s.state.queue.newJob name data opts]
  rw [census_singleton, hplace] at happend
  rw [hqueue]
  exact happend

theorem tokens_beside (videoId : String) (h : Answered config s s' i f t t' c r) (hd : ∀ id, Delivered id s)
    (hother : ∀ job, t.task ≠ .process job) (hlisteners : listeners c = [])
    {postJ preR postR : Marking Place}
    (hqueue : Fires 0 postJ (census (jobPlace videoId s'.threads) s.state.queue.jobs.rows)
      (census (jobPlace videoId s'.threads) s'.state.queue.jobs.rows))
    (hrecords : Fires preR postR (census (FailedJob.place videoId) s.state.failedJobs.rows)
      (census (FailedJob.place videoId) s'.state.failedJobs.rows)) :
    Fires (token (threadPlace videoId t) + preR)
      (token (threadPlace videoId t') + postJ + postR) (ledgerOf videoId s).tokens
      (ledgerOf videoId s').tokens := by
  have hthreads := fires_threads videoId h
  rw [hlisteners, List.map_nil, census_nil, add_zero] at hthreads
  have htokens := tokens_of_call hthreads (fires_queue h hd hother hqueue) hrecords
  rw [add_zero] at htokens
  exact htokens

theorem tokens_alone (videoId : String) (h : Answered config s s' i f t t' c r) (hd : ∀ id, Delivered id s)
    (hother : ∀ job, t.task ≠ .process job) (hlisteners : listeners c = [])
    (hqueue : c.WritesQueue = false) (hrecords : c.WritesFailedJobs = false) :
    Fires (token (threadPlace videoId t)) (token (threadPlace videoId t'))
      (ledgerOf videoId s).tokens (ledgerOf videoId s').tokens := by
  have hjobs : Fires 0 0 (census (jobPlace videoId s'.threads) s.state.queue.jobs.rows)
      (census (jobPlace videoId s'.threads) s'.state.queue.jobs.rows) := by
    rw [World.exec_queue h.exec hqueue]
    exact Fires.refl _
  have hsaved : Fires 0 0 (census (FailedJob.place videoId) s.state.failedJobs.rows)
      (census (FailedJob.place videoId) s'.state.failedJobs.rows) := by
    rw [World.exec_failedJobs h.exec hrecords]
    exact Fires.refl _
  have htokens := tokens_beside videoId h hd hother hlisteners hjobs hsaved
  rw [add_zero, add_zero, add_zero] at htokens
  exact htokens

theorem threadPlace_of_stage {u : Worker} {stage : Stage} (hstage : stageOf u = stage) :
    threadPlace videoId u = stage.place videoId := congrArg _ hstage

theorem step_of_creation (hc : Custody videoId s) (ho : Orderly p s (.call i f))
    (h : Answered config s s' i f t t' c r) {userId : String} {dto : CreateVideoDto}
    {creation : Creation} (hstage : stageOf t = .creating userId dto creation)
    (hallows : CreationAllows userId dto creation c) :
    Ledger.Step (ledgerOf videoId s) (ledgerOf videoId s') := by
  have hstage' : stageOf t' = .creating userId dto (creation.next c r) := by
    rw [stageOf_of_answered h, hstage]
    rfl
  have hother (job : Job) : t.task ≠ .process job := by
    rw [← task_stageOf, hstage]
    simp [Stage.task]
  have hplace : threadPlace videoId t = creation.place videoId := threadPlace_of_stage hstage
  have hplace' : threadPlace videoId t' = (creation.next c r).place videoId :=
    threadPlace_of_stage hstage'
  have halone (hq : c.WritesQueue = false) (hr : c.WritesFailedJobs = false)
      (hl : listeners c = []) :
      Fires (token (creation.place videoId)) (token ((creation.next c r).place videoId))
        (ledgerOf videoId s).tokens (ledgerOf videoId s').tokens := by
    rw [← hplace, ← hplace']
    exact tokens_alone videoId h hc.calm.delivered hother hl hq hr
  cases hallows with
  | insert =>
      obtain ⟨b, video, hx, rfl⟩ := ho.reply h rfl
      obtain ⟨id, rfl, hfresh, hfind⟩ := World.answer_insertVideo hx
      have hfires := halone rfl rfl rfl
      change Fires (token none) (token (if id = videoId then some Place.creating else none)) _ _
        at hfires
      by_cases hid : id = videoId
      · subst hid
        rw [if_pos rfl, token_none] at hfires
        refine .create ?_ ?_ hfires
        · simp [ledgerOf, World.statusOf, hfresh]
        · simp [ledgerOf, World.statusOf, hfind, Video.create, CreateVideoDto.fields]
      · rw [if_neg hid] at hfires
        refine .quiet ?_ hfires.eq_of_same
        simp only [ledgerOf, World.statusOf]
        rw [hfind, if_neg (Ne.symm hid)]
  | add id =>
      obtain ⟨b, jobId, hx, rfl⟩ := ho.reply h rfl
      obtain ⟨hqueue, -⟩ := World.answer_queueAdd hx
      have hstatus : s'.state.statusOf videoId = s.state.statusOf videoId :=
        status_of_videos (World.exec_videos h.exec rfl)
      have hrecords : Fires 0 0 (census (FailedJob.place videoId) s.state.failedJobs.rows)
          (census (FailedJob.place videoId) s'.state.failedJobs.rows) := by
        rw [World.exec_failedJobs h.exec rfl]
        exact Fires.refl _
      have hfires := tokens_beside videoId h hc.calm.delivered hother rfl (fires_added hqueue) hrecords
      rw [hplace, hplace'] at hfires
      change Fires (token (if id = videoId then some Place.creating else none) + 0)
        (token none + (if id = videoId then on .waiting else 0) + 0) _ _ at hfires
      rw [add_zero, add_zero, token_none, zero_add] at hfires
      by_cases hid : id = videoId
      · rw [if_pos hid, if_pos hid] at hfires
        exact .handover .enqueue hstatus hfires
      · rw [if_neg hid, if_neg hid, token_none] at hfires
        exact .quiet hstatus hfires.eq_of_same
  | link id jobId =>
      obtain ⟨b, n, hx, rfl⟩ := ho.reply h rfl
      exact .quiet (World.statusOf_of_quiet_update hx rfl videoId)
        (halone rfl rfl rfl).eq_of_same
  | announce id prompt jobId =>
      have hfires := halone rfl rfl rfl
      have hnone : ((Creation.announcing id jobId).next
          (.emit (.created id userId prompt (toString jobId))) r).place videoId = none := by
        rcases r with e | x <;> rfl
      rw [hnone] at hfires
      exact .quiet (status_of_videos (World.exec_videos h.exec rfl)) hfires.eq_of_same

theorem step_of_recording (hc : Custody videoId s) (ho : Orderly p s (.call i f))
    (h : Answered config s s' i f t t' c r) {event : VideoFailedEvent} {recording : Recording}
    (hstage : stageOf t = .listening event recording)
    (hallows : RecordingAllows event recording c) :
    Ledger.Step (ledgerOf videoId s) (ledgerOf videoId s') := by
  have hstage' : stageOf t' = .listening event (recording.next c r) := by
    rw [stageOf_of_answered h, hstage]
    rfl
  have hother (job : Job) : t.task ≠ .process job := by
    rw [← task_stageOf, hstage]
    simp [Stage.task]
  have hplace : threadPlace videoId t = if event.videoId = videoId then recording.place else none :=
    threadPlace_of_stage hstage
  have hplace' : threadPlace videoId t' =
      if event.videoId = videoId then (recording.next c r).place else none :=
    threadPlace_of_stage hstage'
  have hstatus : s'.state.statusOf videoId = s.state.statusOf videoId := by
    apply status_of_videos
    apply World.exec_videos h.exec
    cases hallows <;> rfl
  cases hallows with
  | read =>
      obtain ⟨b, video, hx, rfl⟩ := ho.reply h rfl
      have hfires := tokens_alone videoId h hc.calm.delivered hother rfl rfl rfl
      rw [hplace, hplace'] at hfires
      exact .quiet hstatus hfires.eq_of_same
  | save video =>
      obtain ⟨b, x, hx, rfl⟩ := ho.reply h rfl
      obtain ⟨id, rfl, hfresh, hinsert⟩ := World.answer_insertFailedJob hx
      have hqueue : Fires 0 0 (census (jobPlace videoId s'.threads) s.state.queue.jobs.rows)
          (census (jobPlace videoId s'.threads) s'.state.queue.jobs.rows) := by
        rw [World.exec_queue h.exec rfl]
        exact Fires.refl _
      have hrecords := fires_append (FailedJob.place videoId) s.state.failedJobs.rows
        [FailedJob.create id (failedJobFields event video) s.state.now]
      have hfires := tokens_beside videoId h hc.calm.delivered hother rfl hqueue
        (by rw [hinsert]; exact hrecords)
      rw [hplace, hplace', census_singleton] at hfires
      change Fires (token (if event.videoId = videoId then some Place.unsaved else none) + 0)
        (token (if event.videoId = videoId then none else none) + 0 +
          token (if event.videoId = videoId then some Place.unretried else none)) _ _ at hfires
      rw [add_zero, add_zero, ite_self, token_none, zero_add] at hfires
      by_cases hvideo : event.videoId = videoId
      · rw [if_pos hvideo, if_pos hvideo] at hfires
        exact .handover .save hstatus hfires
      · rw [if_neg hvideo, if_neg hvideo] at hfires
        exact .quiet hstatus hfires.eq_of_same

theorem claim_of_stage {id : String} {retry : Retry} {record : FailedJob} {u : Worker}
    (hstage : stageOf u = .retrying id retry) (hrecord : retry.record? = some record)
    (hvideo : record.videoId = videoId) : claims (token (threadPlace videoId u)) = 1 := by
  have hplace : threadPlace videoId u = some retry.progress := by
    rw [threadPlace_of_stage hstage]
    change Retry.place videoId retry = _
    unfold Retry.place
    rw [hrecord]
    exact if_pos hvideo
  rw [hplace]
  cases retry <;> rfl

theorem exists_claim (h : 0 < claims (ledgerOf videoId s).tokens) :
    ∃ u ∈ s.threads, ∃ id retry record, stageOf u = .retrying id retry ∧
      retry.record? = some record ∧ record.videoId = videoId := by
  have hplace : ∃ u ∈ s.threads, threadPlace videoId u = some .resetting ∨
      threadPlace videoId u = some .readding ∨ threadPlace videoId u = some .passed := by
    unfold claims at h
    rw [tokens_of_calls rfl, tokens_of_calls rfl, tokens_of_calls rfl] at h
    by_cases hresetting : 0 < census (threadPlace videoId) s.threads .resetting
    · obtain ⟨u, hu, hp⟩ := exists_of_census_pos hresetting
      exact ⟨u, hu, .inl hp⟩
    · by_cases hreadding : 0 < census (threadPlace videoId) s.threads .readding
      · obtain ⟨u, hu, hp⟩ := exists_of_census_pos hreadding
        exact ⟨u, hu, .inr (.inl hp)⟩
      · have hpassed : 0 < census (threadPlace videoId) s.threads .passed := by omega
        obtain ⟨u, hu, hp⟩ := exists_of_census_pos hpassed
        exact ⟨u, hu, .inr (.inr hp)⟩
  obtain ⟨u, hu, hp⟩ := hplace
  refine ⟨u, hu, ?_⟩
  unfold threadPlace at hp
  generalize stageOf u = stage at hp
  cases stage with
  | retrying id retry =>
      cases hrecord : retry.record? with
      | none => simp [Stage.place, Retry.place, hrecord] at hp
      | some record =>
          refine ⟨id, retry, record, rfl, hrecord, ?_⟩
          by_contra hvideo
          simp [Stage.place, Retry.place, hrecord, hvideo] at hp
  | creating userId dto creation =>
      cases creation <;> simp [Stage.place, Creation.place] at hp
  | listening event recording => cases recording <;> simp [Stage.place, Recording.place] at hp
  | worker job phase => simp [Stage.place] at hp
  | removing id userId removal => simp [Stage.place] at hp
  | service call => simp [Stage.place] at hp

theorem not_idle_of_claim (hcalm : Calm s) {u : Worker} (hu : u ∈ s.threads) {id : String}
    {retry : Retry} {record : FailedJob} (hstage : stageOf u = .retrying id retry)
    (hrecord : retry.record? = some record) :
    u.pending? ≠ some (.selectFailedJob id) ∧ ¬u.Ended := by
  have hends (r : Except Thrown Value) : ¬Stage.Ends (stageOf u) r := by
    rw [hstage]
    cases retry <;> first | exact fun h ↦ h | cases hrecord
  obtain ⟨c, hpending, hallows⟩ := pending_of_stage (hcalm.conforming u hu) hends
  constructor
  · intro hselect
    obtain rfl := Option.some.inj (hpending.symm.trans hselect)
    rw [hstage] at hallows
    cases hallows with
    | retrying hallows =>
        cases hallows
        cases hrecord
  · obtain ⟨next, hprog⟩ := Thread.pending?_eq_some_iff.mp hpending
    rintro (hcrashed | hfinished)
    · rw [hcalm.alive u hu] at hcrashed
      cases hcrashed
    · rw [hprog] at hfinished
      exact hfinished

theorem step_of_retry (hc : Custody videoId s) (ho : Orderly p s (.call i f))
    (hapart : RetriesApart videoId s (.call i f))
    (h : Answered config s s' i f t t' c r) {id : String} {retry : Retry}
    (hstage : stageOf t = .retrying id retry) (hallows : RetryAllows id retry c) :
    Ledger.Step (ledgerOf videoId s) (ledgerOf videoId s') := by
  have hstage' : stageOf t' = .retrying id (retry.next c r) := by
    rw [stageOf_of_answered h, hstage]
    rfl
  have htask : t.task = .retryFailedJob id := by
    rw [← task_stageOf, hstage]
    rfl
  have hother (job : Job) : t.task ≠ .process job := by
    rw [htask]
    simp
  have hplace : threadPlace videoId t = retry.place videoId := threadPlace_of_stage hstage
  have hplace' : threadPlace videoId t' = (retry.next c r).place videoId :=
    threadPlace_of_stage hstage'
  have halone (hq : c.WritesQueue = false) (hr : c.WritesFailedJobs = false)
      (hl : listeners c = []) :
      Fires (token (retry.place videoId)) (token ((retry.next c r).place videoId))
        (ledgerOf videoId s).tokens (ledgerOf videoId s').tokens := by
    rw [← hplace, ← hplace']
    exact tokens_alone videoId h hc.calm.delivered hother hl hq hr
  have hsame (hw : c.WritesVideos = false) :
      s'.state.statusOf videoId = s.state.statusOf videoId :=
    status_of_videos (World.exec_videos h.exec hw)
  cases hallows with
  | look =>
      obtain ⟨b, x, hx, rfl⟩ := ho.reply h rfl
      obtain ⟨-, hfound⟩ := World.answer_selectFailedJob hx
      have hfires := halone rfl rfl rfl
      cases x with
      | none => exact .quiet (hsame rfl) hfires.eq_of_same
      | some record =>
          change Fires _ (token (Retry.place videoId
            (if record.retried = true then Retry.thrown else .resetting record))) _ _ at hfires
          by_cases hretried : record.retried = true
          · rw [if_pos hretried] at hfires
            exact .quiet (hsame rfl) hfires.eq_of_same
          · rw [if_neg hretried] at hfires
            change Fires (token none)
              (token (if record.videoId = videoId then some Place.resetting else none)) _ _
              at hfires
            by_cases hvideo : record.videoId = videoId
            · rw [if_pos hvideo, token_none] at hfires
              refine .claim ?_ ?_ (hsame rfl) hfires
              · apply Nat.eq_zero_of_not_pos
                intro hpos
                obtain ⟨u, hu, id', retry', record', hstage₁, hrecord₁, hvideo₁⟩ :=
                  exists_claim hpos
                obtain ⟨stored, hstored, hsame₁, -⟩ :=
                  hc.claimed u hu id' retry' record' hstage₁ hrecord₁
                obtain ⟨hpending, hended⟩ := not_idle_of_claim hc.calm hu hstage₁ hrecord₁
                rcases hapart i f t id record rfl h.get htask h.pending hfound.symm hvideo u hu
                  id' stored (by rw [← task_stageOf, hstage₁]; rfl) hstored
                  (hsame₁.trans hvideo₁) with hselect | hend
                · exact hpending hselect
                · exact hended hend
              · rw [tokens_of_records rfl]
                apply census_pos (Table.find?_eq_some_iff.mp hfound.symm).1
                unfold FailedJob.place
                rw [if_pos hvideo, if_neg hretried]
            · rw [if_neg hvideo] at hfires
              exact .quiet (hsame rfl) hfires.eq_of_same
  | reset record =>
      obtain ⟨b, n, hx, rfl⟩ := ho.reply h rfl
      have hfires := halone rfl rfl rfl
      change Fires (token (if record.videoId = videoId then some Place.resetting else none))
        (token (if record.videoId = videoId then some Place.readding else none)) _ _ at hfires
      by_cases hvideo : record.videoId = videoId
      · have hclaim := claim_of_stage hstage rfl hvideo
        rw [if_pos hvideo, if_pos hvideo] at hfires
        have hpos : 0 < (ledgerOf videoId s).tokens .resetting := by
          have happly := hfires.apply .resetting
          simp [token] at happly
          omega
        obtain ⟨status, hstatus⟩ := hc.sound.row_of_claim
          (Nat.lt_of_lt_of_le hpos (by unfold claims; omega))
        rw [hvideo] at hx
        obtain ⟨-, hpending⟩ := World.statusOf_of_guarded_update hx hstatus rfl
        exact .write .reset hpending hfires
      · rw [if_neg hvideo, if_neg hvideo] at hfires
        refine .quiet ?_ hfires.eq_of_same
        rcases World.statusOf_of_update hx videoId with hkept | ⟨status, hid, -⟩
        · exact hkept
        · exact absurd hid.symm hvideo
  | add record =>
      obtain ⟨b, jobId, hx, rfl⟩ := ho.reply h rfl
      obtain ⟨hqueue, -⟩ := World.answer_queueAdd hx
      have hrecords : Fires 0 0 (census (FailedJob.place videoId) s.state.failedJobs.rows)
          (census (FailedJob.place videoId) s'.state.failedJobs.rows) := by
        rw [World.exec_failedJobs h.exec rfl]
        exact Fires.refl _
      have hfires := tokens_beside videoId h hc.calm.delivered hother rfl (fires_added hqueue) hrecords
      rw [hplace, hplace'] at hfires
      change Fires (token (if record.videoId = videoId then some Place.readding else none) + 0)
        (token (if record.videoId = videoId then some Place.passed else none) +
          (if record.videoId = videoId then on .waiting else 0) + 0) _ _ at hfires
      rw [add_zero, add_zero] at hfires
      by_cases hvideo : record.videoId = videoId
      · rw [if_pos hvideo, if_pos hvideo, if_pos hvideo] at hfires
        exact .handover .enqueueAgain (hsame rfl) hfires
      · rw [if_neg hvideo, if_neg hvideo, if_neg hvideo, add_zero] at hfires
        exact .quiet (hsame rfl) hfires.eq_of_same
  | stamp record jobId =>
      obtain ⟨b, now, hx, rfl⟩ := ho.reply h rfl
      exact .quiet (hsame rfl) (halone rfl rfl rfl).eq_of_same
  | link record jobId now =>
      obtain ⟨b, n, hx, rfl⟩ := ho.reply h rfl
      exact .quiet (World.statusOf_of_quiet_update hx rfl videoId) (halone rfl rfl rfl).eq_of_same
  | mark record jobId now =>
      obtain ⟨b, x, hx, rfl⟩ := ho.reply h rfl
      obtain ⟨stored, hstored, hsameVideo, hunretried⟩ := hc.claimed t
        (List.mem_of_getElem? h.get) id _ record hstage rfl
      have hqueue : Fires 0 0 (census (jobPlace videoId s'.threads) s.state.queue.jobs.rows)
          (census (jobPlace videoId s'.threads) s'.state.queue.jobs.rows) := by
        rw [World.exec_queue h.exec rfl]
        exact Fires.refl _
      have hrecords := fires_modify (FailedJob.place videoId) (FailedJob.place videoId)
        hstored (fun r ↦ r.markRetried now (toString jobId))
        (fun r ↦ r.markRetried_id now (toString jobId)) fun _ _ _ ↦ rfl
      have hfires := tokens_beside videoId h hc.calm.delivered hother rfl hqueue
        (by rw [World.answer_markRetried hx]; exact hrecords)
      rw [hplace, hplace'] at hfires
      by_cases hvideo : stored.videoId = videoId
      · have hbefore : stored.place videoId = some .unretried := by
          unfold FailedJob.place
          rw [if_pos hvideo, hunretried hvideo]
          rfl
        have hafter : (stored.markRetried now (toString jobId)).place videoId =
            some .retried := if_pos hvideo
        have hpassed : (Retry.marking record jobId now).place videoId = some .passed :=
          if_pos (hsameVideo.symm.trans hvideo)
        rw [hbefore, hafter, hpassed] at hfires
        change Fires _ (token none + 0 + _) _ _ at hfires
        rw [token_none, add_zero, zero_add] at hfires
        exact .handover .markRetried (hsame rfl) hfires
      · have hbefore : stored.place videoId = none := if_neg hvideo
        have hafter : (stored.markRetried now (toString jobId)).place videoId = none :=
          if_neg hvideo
        have hpassed : (Retry.marking record jobId now).place videoId = none :=
          if_neg fun heq ↦ hvideo (hsameVideo.trans heq)
        rw [hbefore, hafter, hpassed] at hfires
        change Fires _ (token none + 0 + _) _ _ at hfires
        rw [add_zero] at hfires
        exact .quiet (hsame rfl) hfires.eq_of_same

end Calls

end System

end VideoGen
