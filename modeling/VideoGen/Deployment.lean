import VideoGen.FakeVideoProvider
import VideoGen.Lib.Refinement
import VideoGen.Provenance
import VideoGen.ProviderAnswers

/-!
# The deployed system

`AiService` hands every submission and every poll to the simulated provider,
which runs in the process of the worker.  The deployed system is the system in
which the simulator gives those answers; it implements the system in which they
are chosen freely, so what holds of all runs there holds here.  The simulator
says of every video that it is stored already, at a place of its own.
-/

namespace VideoGen

/-- The stores and the memory of the simulator. -/
structure Installation where
  world : World
  provider : FakeVideoProvider

/-- How a call is settled: by the environment, or by the simulator, which reads the clock
twice on a submission, so many milliseconds apart. -/
inductive Reaction where
  | fate (f : Fate)
  | served (lag : ℕ)

namespace Installation

def serve (s : Installation) (lag : ℕ) : Call → Option (FakeVideoProvider × GenerateVideoResult)
  | .generateVideo params videoId =>
      some (s.provider.submit videoId params s.world.now (s.world.now + lag))
  | .getGenerationStatus jobId => some (s.provider.checkStatus jobId s.world.now)
  | _ => none

def exec (s : Installation) : (c : Call) → Reaction → Option (Installation × Except Thrown c.Reply)
  | .generateVideo params videoId, .served lag =>
      (s.serve lag (.generateVideo params videoId)).map fun p ↦ (⟨s.world, p.1⟩, .ok p.2)
  | .getGenerationStatus jobId, .served lag =>
      (s.serve lag (.getGenerationStatus jobId)).map fun p ↦ (⟨s.world, p.1⟩, .ok p.2)
  | .generateVideo _ _, .fate _ => none
  | .getGenerationStatus _, .fate _ => none
  | c, .fate f => (s.world.exec c f).map fun p ↦ (⟨p.1, s.provider⟩, p.2)
  | _, .served _ => none

def fateOf (s : Installation) (c : Call) : Reaction → Fate
  | .fate f => f
  | .served lag => ((s.serve lag c).map fun p ↦ Fate.ok (.generation p.2)).getD (.ok .unit)

variable {s s' : Installation} {c : Call} {o : Reaction} {r : Except Thrown c.Reply}

theorem exec_cases (h : s.exec c o = some (s', r)) :
    (∃ lag params videoId, c = .generateVideo params videoId ∧ o = .served lag ∧
      s' = ⟨s.world, (s.provider.submit videoId params s.world.now (s.world.now + lag)).1⟩ ∧
      s.world.exec c (.ok (.generation
        (s.provider.submit videoId params s.world.now (s.world.now + lag)).2)) =
          some (s.world, r)) ∨
    (∃ lag jobId, c = .getGenerationStatus jobId ∧ o = .served lag ∧
      s' = ⟨s.world, (s.provider.checkStatus jobId s.world.now).1⟩ ∧
      s.world.exec c (.ok (.generation (s.provider.checkStatus jobId s.world.now).2)) =
        some (s.world, r)) ∨
    ∃ f, c.ForProvider = false ∧ o = .fate f ∧ s.world.exec c f = some (s'.world, r) ∧
      s'.provider = s.provider := by
  have hstores (f : Fate) (hc : c.ForProvider = false)
      (h : (s.world.exec c f).map (fun p ↦ ((⟨p.1, s.provider⟩ : Installation), p.2)) =
        some (s', r)) : s.world.exec c f = some (s'.world, r) ∧ s'.provider = s.provider := by
    obtain ⟨⟨w, x⟩, hexec, heq⟩ := Option.map_eq_some_iff.mp h
    obtain ⟨rfl, rfl⟩ := Prod.mk.inj heq
    exact ⟨hexec, rfl⟩
  cases o with
  | fate f =>
      refine .inr (.inr ⟨f, ?_⟩)
      cases c with
      | generateVideo params videoId => cases h
      | getGenerationStatus jobId => cases h
      | _ => exact ⟨rfl, rfl, hstores f rfl h⟩
  | served lag =>
      cases c with
      | generateVideo params videoId =>
          obtain ⟨rfl, rfl⟩ := Prod.mk.inj (Option.some.inj h)
          exact .inl ⟨lag, params, videoId, rfl, rfl, rfl, rfl⟩
      | getGenerationStatus jobId =>
          obtain ⟨rfl, rfl⟩ := Prod.mk.inj (Option.some.inj h)
          exact .inr (.inl ⟨lag, jobId, rfl, rfl, rfl, rfl⟩)
      | _ => cases h

end Installation

abbrev DeployedState := Config interface Task Value Installation

abbrev DeployedStep := Act Task Reaction EnvStep

section Machine

variable (config : StorageConfig)

def deployed : Machine interface Task Value Installation Reaction EnvStep where
  body := Task.body config
  exec := Installation.exec
  forks := listeners
  env s threads l := (envStep s.world threads l).map fun p ↦ (⟨p.1, s.provider⟩, p.2)

theorem deployed_env {s s' : Installation} {threads : List Worker} {l : EnvStep}
    {tasks : List Task} (h : (deployed config).env s threads l = some (s', tasks)) :
    envStep s.world threads l = some (s'.world, tasks) ∧ s'.provider = s.provider := by
  obtain ⟨⟨w, tasks'⟩, henv, heq⟩ := Option.map_eq_some_iff.mp h
  obtain ⟨rfl, rfl⟩ := Prod.mk.inj heq
  exact ⟨henv, rfl⟩

/-- The deployed system implements the free one. -/
def opened : Machine.Implements (deployed config) (system config) where
  state := Installation.world
  fate := Installation.fateOf
  body_eq := rfl
  forks_eq := rfl
  exec s c o s' r h := by
    have h : s.exec c o = some (s', r) := h
    rcases Installation.exec_cases h with ⟨lag, params, videoId, rfl, rfl, rfl, hexec⟩ |
      ⟨lag, jobId, rfl, rfl, rfl, hexec⟩ | ⟨f, -, rfl, hexec, -⟩
    · exact hexec
    · exact hexec
    · exact hexec
  env s threads l s' tasks h := (deployed_env config h).1

/-- Every run of the deployed system is, step by step, one of the free system. -/
theorem deployed_runs_free {simulationDelayMs : Option ℤ}
    {ts : List (Transition DeployedState DeployedStep)} {s : DeployedState}
    (hrun : Run (deployed config).step
      ⟨⟨World.empty, FakeVideoProvider.create simulationDelayMs⟩, []⟩ ts s) :
    ts.map (opened config).transition? = ((opened config).views ts).map some ∧
      Run (system config).step ⟨World.empty, []⟩ ((opened config).views ts)
        ⟨s.state.world, s.threads⟩ :=
  (opened config).run hrun

end Machine

/-! ## What the simulator has said -/

open FakeVideoProvider (jobName completed notFound processing buildVideoUrl buildThumbnailUrl)

/-- Jobs are named after their videos, submissions were answered with such names, and a poll
that brought a url completed the job of that name. -/
structure Honest (past : Past) (p : FakeVideoProvider) : Prop where
  jobs : ∀ jobId state, p.jobs jobId = some state → ∃ now, jobId = jobName state.videoId now
  submitted : ∀ params videoId first,
    (Call.generateVideo params videoId, Fate.ok (.generation first)) ∈ past →
      ∃ now, first.jobId = jobName videoId now
  polled : ∀ jobId result, (Call.getGenerationStatus jobId, Fate.ok (.generation result)) ∈ past →
    result.videoUrl = none ∧ result.thumbnailUrl = none ∨
      ∃ videoId now, jobId = jobName videoId now ∧ result = completed jobId videoId

section Honesty

variable {past : Past} {p : FakeVideoProvider}

theorem Honest.submit (h : Honest past p) (params : GenerateVideoParams) (videoId : String)
    (now startedAt : ℕ) : Honest (past ++ [(Call.generateVideo params videoId,
      Fate.ok (.generation (p.submit videoId params now startedAt).2))])
      (p.submit videoId params now startedAt).1 := by
  constructor
  · intro jobId state hstate
    change (if jobId = jobName videoId now then some _ else p.jobs jobId) = some state at hstate
    split at hstate
    · rename_i hname
      obtain rfl := Option.some.inj hstate
      exact ⟨now, hname⟩
    · exact h.jobs jobId state hstate
  · intro params' videoId' first hmem
    rcases List.mem_append.mp hmem with hold | hnew
    · exact h.submitted params' videoId' first hold
    · obtain ⟨hcall, hfate⟩ := Prod.mk.inj (List.mem_singleton.mp hnew)
      obtain ⟨-, rfl⟩ := Call.generateVideo.inj hcall
      obtain rfl := Answer.generation.inj (Fate.ok.inj hfate)
      exact ⟨now, rfl⟩
  · intro jobId result hmem
    rcases List.mem_append.mp hmem with hold | hnew
    · exact h.polled jobId result hold
    · cases (Prod.mk.inj (List.mem_singleton.mp hnew)).1

theorem checkStatus_cases (p : FakeVideoProvider) (jobId : String) (now : ℕ) :
    (p.checkStatus jobId now = (p, notFound jobId) ∧ p.jobs jobId = none) ∨
    (p.checkStatus jobId now = (p, processing jobId) ∧ ∃ state, p.jobs jobId = some state ∧
      (now : ℤ) < state.startedAt + state.completionDelayMs) ∨
    ∃ state, p.jobs jobId = some state ∧
      p.checkStatus jobId now = (p.set jobId none, completed jobId state.videoId) := by
  cases hjob : p.jobs jobId with
  | none => exact .inl ⟨by simp [FakeVideoProvider.checkStatus, hjob], rfl⟩
  | some state =>
      by_cases hdue : state.completionDelayMs ≤ (now : ℤ) - state.startedAt
      · exact .inr (.inr ⟨state, rfl, by simp [FakeVideoProvider.checkStatus, hjob, hdue]⟩)
      · refine .inr (.inl ⟨by simp [FakeVideoProvider.checkStatus, hjob, hdue], state, rfl, ?_⟩)
        omega

theorem Honest.checkStatus (h : Honest past p) (jobId : String) (now : ℕ) :
    Honest (past ++ [(Call.getGenerationStatus jobId,
      Fate.ok (.generation (p.checkStatus jobId now).2))]) (p.checkStatus jobId now).1 := by
  have hold {q : FakeVideoProvider} {result : GenerateVideoResult}
      (hq : ∀ id state, q.jobs id = some state → p.jobs id = some state)
      (hresult : result.videoUrl = none ∧ result.thumbnailUrl = none ∨
        ∃ videoId now, jobId = jobName videoId now ∧ result = completed jobId videoId) :
      Honest (past ++ [(Call.getGenerationStatus jobId, Fate.ok (.generation result))]) q := by
    constructor
    · exact fun id state hstate ↦ h.jobs id state (hq id state hstate)
    · intro params videoId first hmem
      rcases List.mem_append.mp hmem with hold | hnew
      · exact h.submitted params videoId first hold
      · cases (Prod.mk.inj (List.mem_singleton.mp hnew)).1
    · intro id result' hmem
      rcases List.mem_append.mp hmem with hold | hnew
      · exact h.polled id result' hold
      · obtain ⟨hcall, hfate⟩ := Prod.mk.inj (List.mem_singleton.mp hnew)
        obtain rfl := Call.getGenerationStatus.inj hcall
        obtain rfl := Answer.generation.inj (Fate.ok.inj hfate)
        exact hresult
  rcases checkStatus_cases p jobId now with ⟨heq, -⟩ | ⟨heq, -⟩ | ⟨state, hjob, heq⟩
  · rw [heq]
    exact hold (fun _ _ hstate ↦ hstate) (.inl ⟨rfl, rfl⟩)
  · rw [heq]
    exact hold (fun _ _ hstate ↦ hstate) (.inl ⟨rfl, rfl⟩)
  · rw [heq]
    obtain ⟨now', hname⟩ := h.jobs jobId state hjob
    refine hold (fun id state' hstate ↦ ?_) (.inr ⟨state.videoId, now', hname, rfl⟩)
    change (if id = jobId then none else p.jobs id) = some state' at hstate
    split at hstate
    · cases hstate
    · exact hstate

theorem Honest.other (h : Honest past p) {c : Call} (hc : c.ForProvider = false) (f : Fate) :
    Honest (past ++ [(c, f)]) p := by
  refine ⟨h.jobs, ?_, ?_⟩
  · intro params videoId first hmem
    rcases List.mem_append.mp hmem with hold | hnew
    · exact h.submitted params videoId first hold
    · obtain ⟨rfl, -⟩ := Prod.mk.inj (List.mem_singleton.mp hnew)
      cases hc
  · intro jobId result hmem
    rcases List.mem_append.mp hmem with hold | hnew
    · exact h.polled jobId result hold
    · obtain ⟨rfl, -⟩ := Prod.mk.inj (List.mem_singleton.mp hnew)
      cases hc

end Honesty

section Runs

variable {config : StorageConfig} {simulationDelayMs : Option ℤ} {s s' : DeployedState}
  {ts : List (Transition DeployedState DeployedStep)}

theorem answeredCall_of_view {i : ℕ} {o : Reaction} {t : Worker} {c : Call}
    (hget : s.threads[i]? = some t) (hpending : t.pending? = some c) {a : Step}
    (hact : (opened config).act? s (.call i o) = some a) :
    Machine.answeredCall ⟨(opened config).config s, a, (opened config).config s'⟩ =
      [(c, s.state.fateOf c o)] := by
  obtain ⟨c', hc', rfl⟩ := Option.map_eq_some_iff.mp hact
  obtain rfl : c = c' := by
    rw [hget] at hc'
    exact Option.some.inj (hpending.symm.trans hc')
  simp [Machine.answeredCall, Machine.Implements.config, hget, hpending, opened]

theorem honest_of_run (hrun : Run (deployed config).step
    ⟨⟨World.empty, FakeVideoProvider.create simulationDelayMs⟩, []⟩ ts s) :
    Honest (Machine.answeredCalls ((opened config).views ts)) s.state.provider := by
  induction hrun with
  | nil =>
      constructor
      · rintro jobId state ⟨⟩
      · intro params videoId first hmem
        simp [Machine.answeredCalls] at hmem
      · intro jobId result hmem
        simp [Machine.answeredCalls] at hmem
  | @snoc ts s s' a head last ih =>
      obtain ⟨a', hview, hact, -⟩ := (opened config).transition?_of_step last
      rw [(opened config).views_snoc ts hview, Machine.answeredCalls_snoc]
      cases a with
      | invoke task =>
          obtain rfl := Option.some.inj hact
          obtain rfl := Option.some.inj last
          simpa [Machine.answeredCall] using ih
      | crash i =>
          obtain rfl := Option.some.inj hact
          obtain ⟨t, -, rfl⟩ := (deployed config).step_crash_cases last
          simpa [Machine.answeredCall] using ih
      | env l =>
          obtain rfl := Option.some.inj hact
          obtain ⟨w, tasks, henv, rfl⟩ := (deployed config).step_env_cases last
          rw [← (deployed_env config henv).2] at ih
          simpa [Machine.answeredCall] using ih
      | call i o =>
          obtain ⟨t, c, next, r, -, h⟩ := Machine.called_of_step last
          rw [answeredCall_of_view h.get h.pending hact]
          rcases Installation.exec_cases h.exec with ⟨lag, params, videoId, rfl, rfl, hs', -⟩ |
            ⟨lag, jobId, rfl, rfl, hs', -⟩ | ⟨f, hc, rfl, -, hs'⟩
          · rw [hs']
            exact ih.submit params videoId _ _
          · rw [hs']
            exact ih.checkStatus jobId _
          · rw [hs']
            exact ih.other hc f

theorem sourced_of_deployed (hrun : Run (deployed config).step
    ⟨⟨World.empty, FakeVideoProvider.create simulationDelayMs⟩, []⟩ ts s)
    (hinvoke : ∀ t ∈ ts, t.act.InvokesOnly Task.GivesNoUrl) :
    Sourced config ⟨s.state.world, Machine.answeredCalls ((opened config).views ts)⟩ :=
  sourced_of_run ((opened config).run hrun).2 ((opened config).invokesOnly hinvoke)

end Runs

/-! ## Videos of the simulator -/

section Places

variable {past : Past} {p : FakeVideoProvider} {config : StorageConfig} {videoId url : String}

theorem Honest.completed_of_polled (h : Honest past p) {result : GenerateVideoResult}
    (hpolled : PolledFor past videoId result)
    (hurl : result.videoUrl ≠ none ∨ result.thumbnailUrl ≠ none) :
    ∃ jobId, result = completed jobId videoId := by
  obtain ⟨first, ⟨params, hsubmitted⟩, hpoll⟩ := hpolled
  obtain ⟨now, hname⟩ := h.submitted params videoId first hsubmitted
  rcases h.polled first.jobId result hpoll with ⟨hvideo, hthumbnail⟩ |
    ⟨videoId', now', hname', hresult⟩
  · rcases hurl with hne | hne
    · exact absurd hvideo hne
    · exact absurd hthumbnail hne
  · obtain ⟨rfl, -⟩ := FakeVideoProvider.jobName_inj (hname.symm.trans hname')
    exact ⟨first.jobId, hresult⟩

theorem Honest.not_fetched (h : Honest past p) {body : Bytes} : ¬Fetched past videoId body := by
  rintro ⟨result, url, hpolled, hstored, hurl, -⟩
  obtain ⟨jobId, rfl⟩ := h.completed_of_polled hpolled (.inl (by simp [hurl]))
  exact hstored rfl

theorem Honest.rendered (h : Honest past p) (hrendered : Rendered config past videoId url) :
    url = buildVideoUrl videoId := by
  rcases hrendered with ⟨result, hpolled, -, hurl⟩ | ⟨body, hfetched, -⟩
  · obtain ⟨jobId, rfl⟩ := h.completed_of_polled hpolled (.inl (by simp [hurl]))
    exact (Option.some.inj hurl).symm
  · exact absurd hfetched h.not_fetched

theorem Honest.depicted (h : Honest past p) (hdepicted : Depicted past videoId url) :
    url = buildThumbnailUrl videoId := by
  obtain ⟨result, hpolled, hurl⟩ := hdepicted
  obtain ⟨jobId, rfl⟩ := h.completed_of_polled hpolled (.inr (by simp [hurl]))
  exact (Option.some.inj hurl).symm

end Places

/-- In every run of the deployed system, however executions for different videos and repeated
executions for one video interleave: a video never shows another url than the simulator's
place for that very video, and nothing is ever stored in the bucket. -/
theorem simulated_videos_own_urls {config : StorageConfig} {simulationDelayMs : Option ℤ}
    {ts : List (Transition DeployedState DeployedStep)} {s : DeployedState}
    (hrun : Run (deployed config).step
      ⟨⟨World.empty, FakeVideoProvider.create simulationDelayMs⟩, []⟩ ts s)
    (hinvoke : ∀ t ∈ ts, t.act.InvokesOnly Task.GivesNoUrl) :
    (∀ videoId row, s.state.world.videos.find? videoId = some row →
      (∀ url, row.videoUrl = some url → url = buildVideoUrl videoId) ∧
      ∀ url, row.thumbnailUrl = some url → url = buildThumbnailUrl videoId) ∧
    (∀ event, DomainEvent.completed event ∈ s.state.world.events →
      event.videoUrl = buildVideoUrl event.videoId ∧
      ∀ url, event.thumbnailUrl = some url → url = buildThumbnailUrl event.videoId) ∧
    ∀ key, s.state.world.bucket key = none := by
  have hhonest := honest_of_run hrun
  have hsourced := sourced_of_deployed hrun hinvoke
  refine ⟨fun videoId row hrow ↦ ?_, fun event hevent ↦ ?_, fun key ↦ ?_⟩
  · have hfrom := hsourced.rows videoId row hrow
    exact ⟨fun url hurl ↦ hhonest.rendered (hfrom.rendered url hurl),
      fun url hurl ↦ hhonest.depicted (hfrom.depicted url hurl)⟩
  · have hfrom := hsourced.events event hevent
    exact ⟨hhonest.rendered hfrom.rendered,
      fun url hurl ↦ hhonest.depicted (hfrom.depicted url hurl)⟩
  · cases hobject : s.state.world.bucket key with
    | none => rfl
    | some object =>
        obtain ⟨videoId, -, -, hfetched⟩ := hsourced.bucket key object.1 object.2 hobject
        exact absurd hfetched hhonest.not_fetched

/-! ### A run -/

def answered (i n : ℕ) : List DeployedStep := List.replicate n (.call i (.fate (.ok .unit)))

/-- A video is created; its execution polls the simulator once, ten seconds later. -/
def simulatedActs : List DeployedStep :=
  [.invoke (.createAndQueue "user" ⟨"title", "prompt", none, none, none, none, none⟩),
    .call 0 (.fate (.ok (.uuid "video")))] ++ answered 0 3 ++ [.env (.take 1)] ++ answered 1 6 ++
    [.call 1 (.fate (.ok (.text none)))] ++ answered 1 4 ++ [.call 1 (.served 0)] ++
    answered 1 4 ++ [.env (.tick 10000)] ++ answered 1 1 ++ [.call 1 (.served 0)] ++ answered 1 10

theorem deployed_runs_free_simulated :
    ∃ (ts : List (Transition DeployedState DeployedStep)) (s : DeployedState),
      Run (deployed ⟨"bucket", none, "region"⟩).step
        ⟨⟨World.empty, FakeVideoProvider.create none⟩, []⟩ ts s ∧
      s.state.world.statusOf "video" = some .completed ∧
      ts.map (opened ⟨"bucket", none, "region"⟩).transition? =
        ((opened ⟨"bucket", none, "region"⟩).views ts).map some ∧
      Run (system ⟨"bucket", none, "region"⟩).step ⟨World.empty, []⟩
        ((opened ⟨"bucket", none, "region"⟩).views ts) ⟨s.state.world, s.threads⟩ := by
  obtain ⟨ts, s, hrun, -, hobs⟩ := Run.exists_of_follow (deployed ⟨"bucket", none, "region"⟩).step
    ⟨⟨World.empty, FakeVideoProvider.create none⟩, []⟩ simulatedActs
    (fun p ↦ p.2.state.world.statusOf "video") (some .completed) (by decide +kernel)
  exact ⟨ts, s, hrun, hobs, deployed_runs_free ⟨"bucket", none, "region"⟩ hrun⟩

theorem simulated_videos_own_urls_completed :
    ∃ (ts : List (Transition DeployedState DeployedStep)) (s : DeployedState),
      Run (deployed ⟨"bucket", none, "region"⟩).step
        ⟨⟨World.empty, FakeVideoProvider.create none⟩, []⟩ ts s ∧
      (s.state.world.videos.find? "video").bind Video.videoUrl = some (buildVideoUrl "video") ∧
      ∀ videoId row, s.state.world.videos.find? videoId = some row →
        ∀ url, row.videoUrl = some url → url = buildVideoUrl videoId := by
  obtain ⟨ts, s, hrun, hacts, hobs⟩ := Run.exists_of_follow
    (deployed ⟨"bucket", none, "region"⟩).step
    ⟨⟨World.empty, FakeVideoProvider.create none⟩, []⟩ simulatedActs
    (fun p ↦ (p.2.state.world.videos.find? "video").bind Video.videoUrl)
    (some (buildVideoUrl "video")) (by decide +kernel)
  have hmanaged : ∀ a ∈ simulatedActs, a.InvokesOnly Task.Managed := by decide
  have hinvoke : ∀ t ∈ ts, t.act.InvokesOnly Task.GivesNoUrl := fun t ht ↦
    (hmanaged t.act (hacts ▸ List.mem_map_of_mem ht)).mono fun _ ↦ Task.Managed.givesNoUrl
  have hown := (simulated_videos_own_urls hrun hinvoke).1
  exact ⟨ts, s, hrun, hobs, fun videoId row hrow ↦ (hown videoId row hrow).1⟩

end VideoGen
