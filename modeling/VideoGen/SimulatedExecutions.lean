import VideoGen.SimulatedCourse

/-!
# Executions with the simulated provider

While other executions, requests and the queue go on, an execution waits ten
seconds before each poll and polls at most thirty times.  It alone polls the job
that it has submitted, so the simulator completes that job for it.  With a delay
of at most five minutes no execution gives up: what fails is a store.
-/

namespace VideoGen

open FakeVideoProvider (jobName completed notFound processing)

/-! ## Runs in time -/

def answeredAt (i : ℕ) (ts : List (Transition DeployedState DeployedStep)) : ℕ :=
  ts.foldl (fun n t ↦ match t.act with
    | .call j _ => if j = i then t.before.state.world.now else n
    | _ => n) 0

def calling? (t : Transition DeployedState DeployedStep) : Option Call :=
  match t.act with
  | .call i _ => t.before.threads[i]?.bind Thread.pending?
  | _ => none

def submission? (t : Transition DeployedState DeployedStep) : Option (String × ℕ) :=
  match calling? t with
  | some (.generateVideo _ videoId) => some (videoId, t.before.state.world.now)
  | _ => none

def submissions (ts : List (Transition DeployedState DeployedStep)) : List (String × ℕ) :=
  ts.filterMap submission?

/-- No timer fires early. -/
def Timely (ts : List (Transition DeployedState DeployedStep)) : Prop :=
  ∀ pre t post, ts = pre ++ t :: post → ∀ i o ms, t.act = .call i o →
    calling? t = some (.setTimeout ms) → answeredAt i pre + ms ≤ t.before.state.world.now

/-- The simulator's delay, with what passes while it accepts a job, is at most five minutes. -/
def Swift (delay : ℤ) (ts : List (Transition DeployedState DeployedStep)) : Prop :=
  ∀ t ∈ ts, ∀ i lag, t.act = .call i (.served lag) → delay + lag ≤ 300000

section Bookkeeping

variable {ts : List (Transition DeployedState DeployedStep)} {s s' : DeployedState}
  {a : DeployedStep}

theorem answeredAt_snoc (i : ℕ) (t : Transition DeployedState DeployedStep) :
    answeredAt i (ts ++ [t]) = match t.act with
      | .call j _ => if j = i then t.before.state.world.now else answeredAt i ts
      | _ => answeredAt i ts := by
  rw [answeredAt, List.foldl_append]
  rfl

theorem Timely.head {t : Transition DeployedState DeployedStep} (h : Timely (ts ++ [t])) :
    Timely ts := by
  intro pre u post hts
  exact h pre u (post ++ [t]) (by simp [hts])

theorem submissions_snoc (t : Transition DeployedState DeployedStep) :
    submissions (ts ++ [t]) = submissions ts ++ (submission? t).toList := by
  rw [submissions, List.filterMap_append, ← submissions]
  cases h : submission? t with
  | none => simp [h]
  | some x => simp [h]

theorem nodup_head {t : Transition DeployedState DeployedStep}
    (h : (submissions (ts ++ [t])).Nodup) : (submissions ts).Nodup := by
  rw [submissions_snoc] at h
  exact (List.nodup_append.mp h).1

end Bookkeeping

/-- What holds of an execution and of its job in the simulator: the job is due when the
execution has still polls left. -/
structure Served (ts : List (Transition DeployedState DeployedStep)) (p : FakeVideoProvider)
    (i : ℕ) (t : Worker) (job : Job) : Prop where
  takes : t.prog.Keeps (courseSpec job) (fun x r ↦ x.Ends job (r.map fun _ ↦ ())) (courseOf t)
  submitted : ∀ jobId, (courseOf t).jobId = some jobId → ∃ now,
    jobId = jobName job.data.videoId now ∧ (job.data.videoId, now) ∈ submissions ts
  waiting : ∀ jobId, (courseOf t).jobId = some jobId → (courseOf t).rendered = false →
    ∃ state, p.jobs jobId = some state ∧ state.videoId = job.data.videoId ∧
      (state.startedAt : ℤ) + state.completionDelayMs +
        10000 * ((courseOf t).polls + if (courseOf t).paused then 1 else 0) ≤
          answeredAt i ts + 300000

structure Serving (delay : ℤ) (ts : List (Transition DeployedState DeployedStep))
    (s : DeployedState) : Prop where
  threads : ∀ i t job, s.threads[i]? = some t → t.task = .process job →
    Served ts s.state.provider i t job
  apart : ∀ (i j : ℕ) t u job job' jobId, s.threads[i]? = some t → s.threads[j]? = some u →
    t.task = .process job → u.task = .process job' → (courseOf t).jobId = some jobId →
    (courseOf u).jobId = some jobId → i = j
  clock : ∀ i, answeredAt i ts ≤ s.state.world.now
  delay : s.state.provider.defaultDelayMs = delay

section Step

variable {config : StorageConfig} {delay : ℤ}
  {ts ts' : List (Transition DeployedState DeployedStep)} {s s' : DeployedState}
  {p p' : FakeVideoProvider} {i : ℕ} {t : Worker} {job : Job}

theorem Served.mono (h : Served ts p i t job)
    (hsubmissions : submissions ts ⊆ submissions ts')
    (hanswered : answeredAt i ts' = answeredAt i ts)
    (hjobs : ∀ jobId, (courseOf t).jobId = some jobId → (courseOf t).rendered = false →
      p'.jobs jobId = p.jobs jobId) : Served ts' p' i t job where
  takes := h.takes
  submitted jobId hjobId := by
    obtain ⟨now, hname, hmem⟩ := h.submitted jobId hjobId
    exact ⟨now, hname, hsubmissions hmem⟩
  waiting jobId hjobId hrendered := by
    obtain ⟨state, hstate, hvideo, hdue⟩ := h.waiting jobId hjobId hrendered
    rw [hanswered]
    exact ⟨state, (hjobs jobId hjobId hrendered).trans hstate, hvideo, hdue⟩

theorem courseOf_congr {u : Worker} (hlog : t.log = u.log) : courseOf t = courseOf u := by
  rw [courseOf, courseOf, hlog]

theorem Served.congr {u : Worker} (h : Served ts p i t job) (hprog : t.prog = u.prog)
    (hlog : t.log = u.log) : Served ts p i u job := by
  have hcourse := courseOf_congr hlog
  constructor
  · rw [← hprog, ← hcourse]
    exact h.takes
  · rw [← hcourse]
    exact h.submitted
  · rw [← hcourse]
    exact h.waiting

theorem Served.start (task : Task) (htask : task = .process job) :
    Served ts p i ((deployed config).start task) job where
  takes := by
    subst htask
    refine Program.keeps_map.mpr (Program.Keeps.mono ?_
      (takes_process job : Takes job (process config job) _ _))
    rintro x (e | a) hends
    · exact hends
    · exact hends
  submitted jobId hjobId := by cases hjobId
  waiting jobId hjobId := by cases hjobId

def Task.Asks (task : Task) (c : Call) : Prop :=
  c.ForProvider = false ∨ ∃ job, task = .process job

theorem asks_of_body (config : StorageConfig) (task : Task) :
    (task.body config).Calls task.Asks := by
  cases task with
  | process job => exact Program.calls_of_forall (fun _ ↦ .inr ⟨job, rfl⟩) _
  | createAndQueue userId dto =>
      refine Program.Calls.map ?_ _
      refine (calls_ask (.inl rfl)).bind fun saved ↦ (calls_ask (.inl rfl)).bind fun jobId ↦ ?_
      exact (calls_ask (.inl rfl)).bind fun _ ↦ (calls_ask (.inl rfl)).bind fun _ ↦ trivial
  | retryFailedJob id =>
      refine Program.Calls.map ?_ _
      refine (calls_ask (.inl rfl)).bind fun record ↦ ?_
      cases record with
      | none => trivial
      | some record =>
          change Program.Calls _ (if record.retried = true then _ else _)
          split
          · trivial
          refine (calls_ask (.inl rfl)).bind fun _ ↦ (calls_ask (.inl rfl)).bind fun jobId ↦ ?_
          refine (calls_ask (.inl rfl)).bind fun now ↦ (calls_ask (.inl rfl)).bind fun _ ↦ ?_
          exact (calls_ask (.inl rfl)).bind fun _ ↦ trivial
  | onVideoFailed event =>
      refine Program.Calls.map ?_ _
      refine Program.Calls.catchWith ?_ fun _ ↦ trivial
      refine (calls_ask (.inl rfl)).bind fun video ↦ ?_
      exact (calls_ask (.inl rfl)).bind fun _ ↦ trivial
  | remove id userId =>
      refine Program.Calls.map ?_ _
      exact (calls_findOneForUser (.inl rfl)).bind fun video ↦ calls_ask (.inl rfl)
  | service call =>
      cases call with
      | update id userId dto =>
          exact (calls_update (fun _ ↦ .inl rfl) (fun _ _ ↦ .inl rfl) fun _ _ ↦ .inl rfl).map _
      | transitionStatus videoId expectedStatus newStatus extra =>
          exact (calls_transitionStatus (.inl rfl) (fun _ _ ↦ .inl rfl) fun _ ↦ .inl rfl).map _
      | updateProgress videoId percent message additionalMeta =>
          exact (calls_updateProgress (.inl rfl) (fun _ _ ↦ .inl rfl) (.inl rfl)).map _
      | markFailed videoId errorMessage => exact (calls_markFailed (.inl rfl) (.inl rfl)).map _
      | evictCache videoId => exact (calls_evictCache (.inl rfl)).map _
      | getCachedStatus videoId =>
          exact (calls_getCachedStatus (.inl rfl)
            (calls_loadFromDb (.inl rfl) (.inl rfl) fun _ ↦ .inl rfl)).map _

theorem asks_of_run {w : Installation} (hrun : Run (deployed config).step ⟨w, []⟩ ts s)
    (ht : t ∈ s.threads) {c : Call} (hpending : t.pending? = some c) : t.task.Asks c := by
  have hcalls : ∀ t ∈ s.threads, t.prog.Calls t.task.Asks :=
    hrun.invariant (fun s ↦ ∀ t ∈ s.threads, t.prog.Calls t.task.Asks) (by simp)
      fun _ _ hstep h ↦ Machine.step_calls (M := deployed config) (asks_of_body config) hstep h
  obtain ⟨next, hprog⟩ := Thread.pending?_eq_some_iff.mp hpending
  have ht' := hcalls t ht
  rw [hprog] at ht'
  exact ht'.1

theorem Serving.aside {a : DeployedStep} (h : Serving delay ts s)
    (hstep : (deployed config).step s a = some s') (ha : ∀ i o, a ≠ .call i o) :
    Serving delay (ts ++ [⟨s, a, s'⟩]) s' := by
  have hstate : s'.state.provider = s.state.provider ∧ s.state.world.now ≤ s'.state.world.now := by
    cases a with
    | invoke task =>
        obtain rfl := Option.some.inj hstep
        exact ⟨rfl, le_rfl⟩
    | crash i =>
        obtain ⟨u, -, rfl⟩ := (deployed config).step_crash_cases hstep
        exact ⟨rfl, le_rfl⟩
    | env l =>
        obtain ⟨w, tasks, henv, rfl⟩ := (deployed config).step_env_cases hstep
        obtain ⟨henv, hprovider⟩ := deployed_env config henv
        exact ⟨hprovider, now_le_of_env henv⟩
    | call i o => exact absurd rfl (ha i o)
  have hanswered (i : ℕ) : answeredAt i (ts ++ [⟨s, a, s'⟩]) = answeredAt i ts := by
    rw [answeredAt_snoc]
    cases a with
    | call j o => exact absurd rfl (ha j o)
    | _ => rfl
  have hsubmissions : submissions ts ⊆ submissions (ts ++ [⟨s, a, s'⟩]) := by
    rw [submissions_snoc]
    exact List.subset_append_left _ _
  have hold {j : ℕ} {u : Worker} (hu : s'.threads[j]? = some u) :
      (∃ v, s.threads[j]? = some v ∧ v.task = u.task ∧ v.prog = u.prog ∧ v.log = u.log) ∨
        ∃ task, u = (deployed config).start task := by
    rcases Machine.called_cases hstep hu with ⟨v, hv, rfl | ⟨-, rfl⟩⟩ | ⟨-, task, rfl⟩ |
      ⟨f, -, -, -, -, rfl, -⟩
    · exact .inl ⟨u, hv, rfl, rfl, rfl⟩
    · exact .inl ⟨v, hv, rfl, rfl, rfl⟩
    · exact .inr ⟨task, rfl⟩
    · exact absurd rfl (ha _ _)
  constructor
  · intro j u job hu htask
    rcases hold hu with ⟨v, hv, htask', hprog, hlog⟩ | ⟨task, rfl⟩
    · refine ((h.threads j v job hv (htask'.trans htask)).congr hprog hlog).mono hsubmissions
        (hanswered j) fun jobId _ _ ↦ ?_
      rw [hstate.1]
    · exact Served.start task htask
  · intro j k u u' job job' jobId hu hu' htask htask' hjobId hjobId'
    rcases hold hu with ⟨v, hv, htask₁, -, hlog⟩ | ⟨task, rfl⟩
    · rcases hold hu' with ⟨v', hv', htask₁', -, hlog'⟩ | ⟨task', rfl⟩
      · rw [← courseOf_congr hlog] at hjobId
        rw [← courseOf_congr hlog'] at hjobId'
        exact h.apart j k v v' job job' jobId hv hv' (htask₁.trans htask) (htask₁'.trans htask')
          hjobId hjobId'
      · cases hjobId'
    · cases hjobId
  · intro i
    rw [hanswered]
    exact (h.clock i).trans hstate.2
  · rw [hstate.1]
    exact h.delay

theorem courseOf_called {o : Reaction} {u : Worker} {c : Call} {r : Except Thrown c.Reply}
    (h : Machine.Called (deployed config) s s' i o t u c r) :
    courseOf u = (courseOf t).next c r := by
  rw [courseOf, h.log_eq, List.foldl_append]
  rfl

theorem Serving.called {o : Reaction} {u : Worker} {c : Call} {r : Except Thrown c.Reply}
    (h : Serving delay ts s) (hcalled : Machine.Called (deployed config) s s' i o t u c r)
    (hself : ∀ job, t.task = .process job →
      Served (ts ++ [⟨s, .call i o, s'⟩]) s'.state.provider i u job)
    (hjobs : ∀ j v job jobId, j ≠ i → s.threads[j]? = some v → v.task = .process job →
      (courseOf v).jobId = some jobId → s'.state.provider.jobs jobId = s.state.provider.jobs jobId)
    (hapart : ∀ job jobId, t.task = .process job → (courseOf u).jobId = some jobId →
      (courseOf t).jobId = some jobId ∨ ∀ j v job', j ≠ i → s.threads[j]? = some v →
        v.task = .process job' → (courseOf v).jobId ≠ some jobId)
    (hnow : s'.state.world.now = s.state.world.now)
    (hdelay : s'.state.provider.defaultDelayMs = s.state.provider.defaultDelayMs) :
    Serving delay (ts ++ [⟨s, .call i o, s'⟩]) s' := by
  have hsubmissions : submissions ts ⊆ submissions (ts ++ [⟨s, .call i o, s'⟩]) := by
    rw [submissions_snoc]
    exact List.subset_append_left _ _
  have hother (j : ℕ) (hj : j ≠ i) :
      answeredAt j (ts ++ [⟨s, .call i o, s'⟩]) = answeredAt j ts := by
    rw [answeredAt_snoc]
    exact if_neg (Ne.symm hj)
  have halone {j : ℕ} {v : Worker} {job job' : Job} {jobId : String} (hj : j ≠ i)
      (hv : s.threads[j]? = some v) (htask : u.task = .process job)
      (htask' : v.task = .process job') (hjobId : (courseOf u).jobId = some jobId) :
      (courseOf v).jobId ≠ some jobId := by
    intro hjobId'
    have htask₀ := hcalled.task_eq.symm.trans htask
    rcases hapart job jobId htask₀ hjobId with hbefore | hnew
    · exact hj (h.apart i j t v job job' jobId hcalled.get hv htask₀ htask' hbefore hjobId').symm
    · exact hnew j v job' hj hv htask' hjobId'
  constructor
  · intro j v job hv htask
    rcases hcalled.get_cases hv with ⟨rfl, rfl⟩ | ⟨hj, hv⟩ | ⟨-, task, -, rfl⟩
    · exact hself job (hcalled.task_eq.symm.trans htask)
    · exact (h.threads j v job hv htask).mono hsubmissions (hother j hj)
        fun jobId hjobId _ ↦ hjobs j v job jobId hj hv htask hjobId
    · exact Served.start task htask
  · intro j k v v' job job' jobId hv hv' htask htask' hjobId hjobId'
    rcases hcalled.get_cases hv with ⟨rfl, rfl⟩ | ⟨hj, hv⟩ | ⟨-, task, -, rfl⟩
    · rcases hcalled.get_cases hv' with ⟨rfl, rfl⟩ | ⟨hk, hv'⟩ | ⟨-, task, -, rfl⟩
      · rfl
      · exact absurd hjobId' (halone hk hv' htask htask' hjobId)
      · cases hjobId'
    · rcases hcalled.get_cases hv' with ⟨rfl, rfl⟩ | ⟨hk, hv'⟩ | ⟨-, task, -, rfl⟩
      · exact absurd hjobId (halone hj hv htask' htask hjobId')
      · exact h.apart j k v v' job job' jobId hv hv' htask htask' hjobId hjobId'
      · cases hjobId'
    · cases hjobId
  · intro k
    rw [hnow, answeredAt_snoc]
    change (if i = k then s.state.world.now else answeredAt k ts) ≤ s.state.world.now
    split
    · exact le_rfl
    · exact h.clock k
  · rw [hdelay]
    exact h.delay

theorem Served.takes_next {o : Reaction} {c : Call}
    {next : Except Thrown c.Reply → Program interface Value} {r : Except Thrown c.Reply}
    (h : Served ts p i t job) (hprog : t.prog = .call c next)
    (hanswered : (courseOf t).Answered job c r)
    (hcalled : Machine.Called (deployed config) s s' i o t (t.resume c next r) c r) :
    (t.resume c next r).prog.Keeps (courseSpec job) (fun x r ↦ x.Ends job (r.map fun _ ↦ ()))
      (courseOf (t.resume c next r)) := by
  have htakes := h.takes
  rw [hprog] at htakes
  rw [courseOf_called hcalled]
  exact htakes.2 r _ ⟨hanswered, rfl⟩

theorem Served.admits {c : Call} (h : Served ts p i t job) (hpending : t.pending? = some c) :
    (courseOf t).Admits job c := by
  obtain ⟨next, hprog⟩ := Thread.pending?_eq_some_iff.mp hpending
  have htakes := h.takes
  rw [hprog] at htakes
  exact htakes.1

theorem calling?_of_called {o : Reaction} {u : Worker} {c : Call} {r : Except Thrown c.Reply}
    (h : Machine.Called (deployed config) s s' i o t u c r) :
    calling? ⟨s, .call i o, s'⟩ = some c := by
  simp [calling?, h.get, h.pending]

theorem Serving.submit {lag : ℕ} {params : GenerateVideoParams} {videoId : String}
    {next : Except Thrown (Call.generateVideo params videoId).Reply → Program interface Value}
    {r : Except Thrown (Call.generateVideo params videoId).Reply}
    (h : Serving delay ts s) (htask : t.task = .process job)
    (hprog : t.prog = .call (.generateVideo params videoId) next)
    (hcalled : Machine.Called (deployed config) s s' i (.served lag) t
      (t.resume (.generateVideo params videoId) next r) (.generateVideo params videoId) r)
    (hr : r = .ok (s.state.provider.submit videoId params s.state.world.now
      (s.state.world.now + lag)).2)
    (hs' : s'.state = ⟨s.state.world, (s.state.provider.submit videoId params s.state.world.now
      (s.state.world.now + lag)).1⟩)
    (hapart : (submissions (ts ++ [⟨s, .call i (.served lag), s'⟩])).Nodup)
    (hswift : delay + lag ≤ 300000) :
    Serving delay (ts ++ [⟨s, .call i (.served lag), s'⟩]) s' := by
  have hserved := h.threads i t job hcalled.get htask
  obtain ⟨hvideo, hcourse⟩ := hserved.admits hcalled.pending
  subst hr
  have hcourse' := courseOf_called hcalled
  rw [hcourse] at hcourse'
  have hsubmission : submission? ⟨s, .call i (.served lag), s'⟩ =
      some (videoId, s.state.world.now) := by
    simp [submission?, calling?_of_called hcalled]
  rw [submissions_snoc, hsubmission] at hapart
  have hfresh : (videoId, s.state.world.now) ∉ submissions ts := by
    intro hmem
    exact (List.nodup_append.mp hapart).2.2 _ hmem _ (List.mem_singleton_self _) rfl
  have hnew (j : ℕ) (v : Worker) (job' : Job) (jobId : String) (hv : s.threads[j]? = some v)
      (htask' : v.task = .process job') (hjobId : (courseOf v).jobId = some jobId) :
      jobId ≠ jobName videoId s.state.world.now := by
    rintro rfl
    obtain ⟨now, hname, hmem⟩ := (h.threads j v job' hv htask').submitted _ hjobId
    obtain ⟨hsame, rfl⟩ := FakeVideoProvider.jobName_inj hname
    rw [← hsame] at hmem
    exact hfresh hmem
  refine h.called hcalled (fun job' htask' ↦ ?_) (fun j v job' jobId hj hv htask' hjobId ↦ ?_)
    (fun job' jobId _ hjobId ↦ ?_) (by rw [hs']) (by rw [hs']; rfl)
  · obtain rfl : job' = job := Task.process.inj (htask'.symm.trans htask)
    constructor
    · exact hserved.takes_next hprog ⟨_, rfl, rfl⟩ hcalled
    · intro jobId hjobId
      rw [hcourse'] at hjobId
      obtain rfl := Option.some.inj hjobId
      refine ⟨s.state.world.now, by rw [hvideo]; rfl, ?_⟩
      rw [submissions_snoc, hsubmission, ← hvideo]
      exact List.mem_append_right _ (List.mem_singleton_self _)
    · intro jobId hjobId _
      rw [hcourse'] at hjobId ⊢
      obtain rfl := Option.some.inj hjobId
      refine ⟨⟨videoId, params, s.state.world.now + lag, s.state.provider.defaultDelayMs⟩, ?_,
        hvideo, ?_⟩
      · rw [hs']
        exact if_pos rfl
      · rw [h.delay, answeredAt_snoc]
        simp [Course.next]
        omega
  · rw [hs']
    exact if_neg (hnew j v job' jobId hv htask' hjobId)
  · rw [hcourse'] at hjobId
    obtain rfl := Option.some.inj hjobId
    exact .inr fun j v job₁ _ hv htask₁ hjobId₁ ↦ hnew j v job₁ _ hv htask₁ hjobId₁ rfl

theorem Serving.poll {lag : ℕ} {jobId : String}
    {next : Except Thrown (Call.getGenerationStatus jobId).Reply → Program interface Value}
    {r : Except Thrown (Call.getGenerationStatus jobId).Reply}
    (h : Serving delay ts s) (htask : t.task = .process job)
    (hprog : t.prog = .call (.getGenerationStatus jobId) next)
    (hcalled : Machine.Called (deployed config) s s' i (.served lag) t
      (t.resume (.getGenerationStatus jobId) next r) (.getGenerationStatus jobId) r)
    (hr : r = .ok (s.state.provider.checkStatus jobId s.state.world.now).2)
    (hs' : s'.state = ⟨s.state.world,
      (s.state.provider.checkStatus jobId s.state.world.now).1⟩) :
    Serving delay (ts ++ [⟨s, .call i (.served lag), s'⟩]) s' := by
  have hserved := h.threads i t job hcalled.get htask
  obtain ⟨hjobId, hpaused, hrendered⟩ := hserved.admits hcalled.pending
  obtain ⟨state, hstate, hvideo, hdue⟩ := hserved.waiting jobId hjobId hrendered
  have hclock := h.clock i
  rw [hpaused, if_pos rfl] at hdue
  have hcourse' := courseOf_called hcalled
  have hanswered : answeredAt i (ts ++ [⟨s, .call i (.served lag), s'⟩]) = s.state.world.now := by
    rw [answeredAt_snoc]
    exact if_pos rfl
  have hkept : ∀ id, (courseOf (t.resume (.getGenerationStatus jobId) next r)).jobId = some id →
      (courseOf t).jobId = some id := by
    intro id hid
    rw [hcourse', hr] at hid
    exact hid
  have hsubmitted : ∀ id, (courseOf (t.resume (.getGenerationStatus jobId) next r)).jobId =
      some id → ∃ now, id = jobName job.data.videoId now ∧ (job.data.videoId, now) ∈
        submissions (ts ++ [⟨s, .call i (.served lag), s'⟩]) := by
    intro id hid
    obtain ⟨now, hname, hmem⟩ := hserved.submitted id (hkept id hid)
    refine ⟨now, hname, ?_⟩
    rw [submissions_snoc]
    exact List.mem_append_left _ hmem
  rcases checkStatus_cases s.state.provider jobId s.state.world.now with ⟨-, hnone⟩ |
    ⟨hcheck, state', hstate', hearly⟩ | ⟨state', hstate', hcheck⟩
  · rw [hstate] at hnone
    cases hnone
  · obtain rfl := Option.some.inj (hstate.symm.trans hstate')
    rw [hcheck] at hr hs'
    subst hr
    refine h.called hcalled (fun job' htask' ↦ ?_) (fun j v _ id _ _ _ _ ↦ by rw [hs'])
      (fun _ id _ hid ↦ .inl (hkept id hid)) (by rw [hs']) (by rw [hs'])
    obtain rfl : job' = job := Task.process.inj (htask'.symm.trans htask)
    have hmore : (courseOf t).polls + 1 < maxPollAttempts := by
      unfold maxPollAttempts
      omega
    refine ⟨hserved.takes_next hprog (.inl ⟨rfl, hmore⟩) hcalled, hsubmitted, ?_⟩
    intro id hid _
    obtain rfl := Option.some.inj (hjobId.symm.trans (hkept id hid))
    refine ⟨state, by rw [hs']; exact hstate, hvideo, ?_⟩
    rw [hcourse', hanswered]
    simp only [Course.next, Bool.false_eq_true, if_false]
    omega
  · obtain rfl := Option.some.inj (hstate.symm.trans hstate')
    rw [hcheck] at hr hs'
    subst hr
    refine h.called hcalled (fun job' htask' ↦ ?_) (fun j v job' id hj hv htask' hid ↦ ?_)
      (fun _ id _ hid ↦ .inl (hkept id hid)) (by rw [hs']) (by rw [hs']; rfl)
    · obtain rfl : job' = job := Task.process.inj (htask'.symm.trans htask)
      refine ⟨hserved.takes_next hprog (.inr (by rw [hvideo])) hcalled, hsubmitted, ?_⟩
      intro id _ hid
      rw [hcourse'] at hid
      cases hid
    · rw [hs']
      refine if_neg ?_
      rintro rfl
      exact hj (h.apart i j t v job job' id hcalled.get hv htask htask' hjobId hid).symm

theorem Course.next_other {x : Course} {c : Call} {r : Except Thrown c.Reply}
    (hc : c.ForProvider = false) : (x.next c r).jobId = x.jobId ∧ (x.next c r).polls = x.polls ∧
      (x.next c r).rendered = x.rendered ∧
      ((x.next c r).paused = x.paused ∨ ∃ ms, c = .setTimeout ms) := by
  cases r with
  | error e =>
      rw [Course.next_error]
      exact ⟨rfl, rfl, rfl, .inl rfl⟩
  | ok a =>
      cases c with
      | generateVideo params videoId => cases hc
      | getGenerationStatus jobId => cases hc
      | setTimeout ms => exact ⟨rfl, rfl, rfl, .inr ⟨ms, rfl⟩⟩
      | selectVideo id => cases a <;> exact ⟨rfl, rfl, rfl, .inl rfl⟩
      | emit event => cases event <;> exact ⟨rfl, rfl, rfl, .inl rfl⟩
      | _ => exact ⟨rfl, rfl, rfl, .inl rfl⟩

theorem answered_other {x : Course} {c : Call} {r : Except Thrown c.Reply}
    (hc : c.ForProvider = false) (hr : c.Possible r) : x.Answered job c r := by
  cases c with
  | generateVideo params videoId => cases hc
  | getGenerationStatus jobId => cases hc
  | _ => exact hr

theorem Serving.other {f : Fate} {c : Call}
    {next : Except Thrown c.Reply → Program interface Value} {r : Except Thrown c.Reply}
    (h : Serving delay ts s) (hprog : t.prog = .call c next)
    (hcalled : Machine.Called (deployed config) s s' i (.fate f) t (t.resume c next r) c r)
    (hc : c.ForProvider = false) (hr : c.Possible r)
    (hnow : s'.state.world.now = s.state.world.now)
    (hprovider : s'.state.provider = s.state.provider)
    (htimely : ∀ ms, c = .setTimeout ms → answeredAt i ts + ms ≤ s.state.world.now) :
    Serving delay (ts ++ [⟨s, .call i (.fate f), s'⟩]) s' := by
  have hcourse' := courseOf_called hcalled
  obtain ⟨hjobId, hpolls, hrendered, hpaused⟩ := Course.next_other (x := courseOf t) (r := r) hc
  rw [← hcourse'] at hjobId hpolls hrendered hpaused
  have hclock := h.clock i
  refine h.called hcalled (fun job htask ↦ ?_) (fun _ _ _ _ _ _ _ _ ↦ by rw [hprovider])
    (fun _ id _ hid ↦ .inl (hjobId ▸ hid)) hnow (by rw [hprovider])
  have hserved := h.threads i t job hcalled.get htask
  refine ⟨hserved.takes_next hprog (answered_other hc hr) hcalled, fun id hid ↦ ?_,
    fun id hid hwaits ↦ ?_⟩
  · obtain ⟨now, hname, hmem⟩ := hserved.submitted id (hjobId ▸ hid)
    refine ⟨now, hname, ?_⟩
    rw [submissions_snoc]
    exact List.mem_append_left _ hmem
  · obtain ⟨state, hstate, hvideo, hdue⟩ := hserved.waiting id (hjobId ▸ hid) (hrendered ▸ hwaits)
    refine ⟨state, by rw [hprovider]; exact hstate, hvideo, ?_⟩
    have hanswered : answeredAt i (ts ++ [⟨s, .call i (.fate f), s'⟩]) = s.state.world.now := by
      rw [answeredAt_snoc]
      exact if_pos rfl
    rw [hanswered, hpolls]
    rcases hpaused with hsame | ⟨ms, rfl⟩
    · rw [hsame]
      exact hdue.trans (by omega)
    · obtain ⟨-, -, rfl⟩ := hserved.admits hcalled.pending
      have hlate := htimely 10000 rfl
      split at hdue
      · split <;> omega
      · split <;> omega

theorem Serving.call {w : Installation} {o : Reaction}
    (hrun : Run (deployed config).step ⟨w, []⟩ ts s) (h : Serving delay ts s)
    (hstep : (deployed config).step s (.call i o) = some s')
    (htimely : Timely (ts ++ [⟨s, .call i o, s'⟩]))
    (hapart : (submissions (ts ++ [⟨s, .call i o, s'⟩])).Nodup)
    (hswift : Swift delay (ts ++ [⟨s, .call i o, s'⟩])) :
    Serving delay (ts ++ [⟨s, .call i o, s'⟩]) s' := by
  obtain ⟨t, c, next, r, hprog, hcalled⟩ := Machine.called_of_step hstep
  have hlast : (⟨s, .call i o, s'⟩ : Transition DeployedState DeployedStep) ∈
      ts ++ [⟨s, .call i o, s'⟩] := List.mem_append_right _ (List.mem_singleton_self _)
  have hasks := asks_of_run hrun (List.mem_of_getElem? hcalled.get) hcalled.pending
  rcases Installation.exec_cases hcalled.exec with ⟨lag, params, videoId, rfl, rfl, hs', hexec⟩ |
    ⟨lag, jobId, rfl, rfl, hs', hexec⟩ | ⟨f, hc, rfl, hexec, hprovider⟩
  · obtain ⟨job, htask⟩ := hasks.resolve_left Bool.noConfusion
    refine h.submit htask hprog hcalled ?_ hs' hapart (hswift _ hlast i lag rfl)
    exact (Prod.mk.inj (Option.some.inj hexec)).2.symm
  · obtain ⟨job, htask⟩ := hasks.resolve_left Bool.noConfusion
    refine h.poll htask hprog hcalled ?_ hs'
    exact (Prod.mk.inj (Option.some.inj hexec)).2.symm
  · refine h.other hprog hcalled hc (World.possible_of_exec hexec) ?_ hprovider ?_
    · exact World.now_of_exec hexec
    · rintro ms rfl
      exact htimely ts _ [] rfl i (.fate f) ms rfl (calling?_of_called hcalled)

end Step

theorem serving_of_run {config : StorageConfig} {simulationDelayMs : Option ℤ}
    {ts : List (Transition DeployedState DeployedStep)} {s : DeployedState}
    (hrun : Run (deployed config).step
      ⟨⟨World.empty, FakeVideoProvider.create simulationDelayMs⟩, []⟩ ts s)
    (htimely : Timely ts) (hapart : (submissions ts).Nodup)
    (hswift : Swift (simulationDelayMs.getD 5000) ts) :
    Serving (simulationDelayMs.getD 5000) ts s := by
  induction hrun with
  | nil =>
      constructor
      · intro i t job ht
        cases ht
      · intro i j t u job job' jobId ht
        cases ht
      · intro i
        exact le_rfl
      · rfl
  | @snoc ts s s' a head last ih =>
      have h := ih htimely.head (nodup_head hapart) fun t ht ↦
        hswift t (List.mem_append_left _ ht)
      cases a with
      | call i o => exact h.call head last htimely hapart hswift
      | invoke task => exact h.aside last fun _ _ ↦ nofun
      | crash i => exact h.aside last fun _ _ ↦ nofun
      | env l => exact h.aside last fun _ _ ↦ nofun

/-- In every run of the deployed system in which no timer fires early, no video is submitted
twice in one millisecond and the simulator is due within five minutes: an execution that throws
was hindered by the stores, and one that submits its video and returns has announced it, with
the url of the simulator, however many executions interleave. -/
theorem simulated_executions_announce {config : StorageConfig} {simulationDelayMs : Option ℤ}
    {ts : List (Transition DeployedState DeployedStep)} {s : DeployedState}
    (hrun : Run (deployed config).step
      ⟨⟨World.empty, FakeVideoProvider.create simulationDelayMs⟩, []⟩ ts s)
    (htimely : Timely ts) (hapart : (submissions ts).Nodup)
    (hswift : Swift (simulationDelayMs.getD 5000) ts) {i : ℕ} {t : Worker} {job : Job}
    (hget : s.threads[i]? = some t) (htask : t.task = .process job) :
    (∀ e, t.prog = .done (.error e) → ∃ x ∈ t.log, Hinders x) ∧
    ∀ v, t.prog = .done (.ok v) → HasSubmitted t →
      (⟨.emit (.completed (simulatedEvent job.data.videoId)), .ok ()⟩ : Exchange interface) ∈
        t.log := by
  have hserved := (serving_of_run hrun htimely hapart hswift).threads i t job hget htask
  have htakes := hserved.takes
  constructor
  · intro e hdone
    rw [hdone] at htakes
    exact (hindered_iff t).mp htakes
  · intro v hdone hsubmitted
    rw [hdone] at htakes
    have hends : (courseOf t).jobId = none ∨
        (courseOf t).announced = some (simulatedEvent job.data.videoId) := htakes
    rcases hends with hnone | hannounced
    · exact absurd hsubmitted (not_submitted hnone)
    · exact announced_mem hannounced

/-! ### A run in time -/

def inTime (pre : List (Transition DeployedState DeployedStep)) :
    List (Transition DeployedState DeployedStep) → Bool
  | [] => true
  | t :: post => (match t.act, calling? t with
      | .call i _, some (.setTimeout ms) => answeredAt i pre + ms ≤ t.before.state.world.now
      | _, _ => true) && inTime (pre ++ [t]) post

theorem timely_of_inTime {pre ts : List (Transition DeployedState DeployedStep)}
    (h : inTime pre ts = true) : ∀ pre' t post, ts = pre' ++ t :: post → ∀ i o ms,
      t.act = .call i o → calling? t = some (.setTimeout ms) →
        answeredAt i (pre ++ pre') + ms ≤ t.before.state.world.now := by
  induction ts generalizing pre with
  | nil => simp
  | cons u ts ih =>
      obtain ⟨hu, hts⟩ := Bool.and_eq_true_iff.mp h
      intro pre' t post heq i o ms hact hcalling
      cases pre' with
      | nil =>
          obtain ⟨rfl, rfl⟩ := List.cons.inj heq
          rw [hact, hcalling] at hu
          rw [List.append_nil]
          exact of_decide_eq_true hu
      | cons v pre' =>
          obtain ⟨rfl, rfl⟩ := List.cons.inj heq
          have hrest := ih hts pre' t post rfl i o ms hact hcalling
          rwa [List.append_assoc] at hrest

def isSwift (delay : ℤ) (t : Transition DeployedState DeployedStep) : Bool :=
  match t.act with
  | .call _ (.served lag) => delay + lag ≤ 300000
  | _ => true

theorem swift_of_isSwift {delay : ℤ} {ts : List (Transition DeployedState DeployedStep)}
    (h : ts.all (isSwift delay) = true) : Swift delay ts := by
  intro t ht i lag hact
  have hswift := List.all_eq_true.mp h t ht
  unfold isSwift at hswift
  rw [hact] at hswift
  exact of_decide_eq_true hswift

def isAcceptance : Exchange interface → Bool
  | ⟨.generateVideo _ _, .ok _⟩ => true
  | _ => false

def rendered? (t : Worker) : Option String :=
  match t.task, t.prog with
  | .process job, .done (.ok _) => if t.log.any isAcceptance then some job.data.videoId else none
  | _, _ => none

theorem of_rendered? {t : Worker} {videoId : String} (h : rendered? t = some videoId) :
    ∃ job v, t.task = .process job ∧ job.data.videoId = videoId ∧ t.prog = .done (.ok v) ∧
      HasSubmitted t := by
  unfold rendered? at h
  split at h
  · rename_i job v htask hdone
    obtain ⟨hany, hvideo⟩ := Option.ite_none_right_eq_some.mp h
    obtain ⟨⟨c, r⟩, hmem, haccepted⟩ := List.any_eq_true.mp hany
    refine ⟨job, v, htask, Option.some.inj hvideo, hdone, ?_⟩
    unfold isAcceptance at haccepted
    split at haccepted
    · rename_i params id result heq
      exact ⟨params, id, result, heq ▸ hmem⟩
    · cases haccepted
  · cases h

theorem simulated_executions_announce_simulated :
    ∃ (ts : List (Transition DeployedState DeployedStep)) (s : DeployedState) (t : Worker),
      Run (deployed ⟨"bucket", none, "region"⟩).step
        ⟨⟨World.empty, FakeVideoProvider.create none⟩, []⟩ ts s ∧ s.threads[1]? = some t ∧
      (⟨.emit (.completed (simulatedEvent "video")), .ok ()⟩ : Exchange interface) ∈ t.log := by
  obtain ⟨ts, s, hrun, -, hobs⟩ := Run.exists_of_follow (deployed ⟨"bucket", none, "region"⟩).step
    ⟨⟨World.empty, FakeVideoProvider.create none⟩, []⟩ simulatedActs
    (fun p ↦ (inTime [] p.1, submissions p.1, p.1.all (isSwift 5000),
      p.2.threads[1]?.bind rendered?))
    (true, [("video", 0)], true, some "video") (by decide +kernel)
  obtain ⟨htime, hobs⟩ := Prod.mk.inj hobs
  obtain ⟨hsubmissions, hobs⟩ := Prod.mk.inj hobs
  obtain ⟨hswift, hrendered⟩ := Prod.mk.inj hobs
  obtain ⟨t, hget, hrendered⟩ := Option.bind_eq_some_iff.mp hrendered
  obtain ⟨job, v, htask, hvideo, hdone, hsubmitted⟩ := of_rendered? hrendered
  have hapart : (submissions ts).Nodup := by
    have hall : submissions ts = [("video", 0)] := hsubmissions
    rw [hall]
    exact List.nodup_singleton _
  have hannounced := (simulated_executions_announce hrun (timely_of_inTime htime) hapart
    (swift_of_isSwift hswift) hget htask).2 v hdone hsubmitted
  rw [hvideo] at hannounced
  exact ⟨ts, s, t, hrun, hget, hannounced⟩

end VideoGen
