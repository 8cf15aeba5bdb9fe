import VideoGen.HealthyRuns
import VideoGen.Outcomes

/-!
# Everything is completed

In the deployed system the simulator answers every submission and every poll, and a
timer fires when its time has come.  So nothing gets stuck there either, the work
that is left is bounded as in the free system, and while the stores answer it ends
with every video completed.
-/

namespace VideoGen

/-- Users create and retry, the stores answer, no worker dies, no timer fires early, no video
is submitted twice in one millisecond and the simulator is due within five minutes. -/
structure Untroubled (delay : ℤ) (ts : List (Transition DeployedState DeployedStep)) : Prop where
  timely : Timely ts
  apart : (submissions ts).Nodup
  swift : Swift delay ts
  healthy : ∀ t ∈ ts, Healthy t.before t.act

/-- It goes on like this, and nobody asks for anything new. -/
structure Unprompted (delay : ℤ) (ts us : List (Transition DeployedState DeployedStep)) :
    Prop where
  untroubled : Untroubled delay (ts ++ us)
  unasked : ∀ t ∈ us, t.act.InvokesOnly fun _ ↦ False

/-- Nothing is left to do, and every video shows the simulator's file. -/
structure AllFinished (s : DeployedState) : Prop where
  idle : Idle ⟨s.state.world, s.threads⟩
  videos : ∀ videoId row, s.state.world.videos.find? videoId = some row →
    Finished videoId row s.state.world

section Steps

variable {config : StorageConfig} {delay : ℤ} {ts us : List (Transition DeployedState DeployedStep)}
  {s s' : DeployedState} {a : DeployedStep} {l : EnvStep}

/-! ## Going on without trouble -/

theorem Timely.snoc (h : Timely ts) {t : Transition DeployedState DeployedStep}
    (ht : ∀ i o ms, t.act = .call i o → calling? t = some (.setTimeout ms) →
      answeredAt i ts + ms ≤ t.before.state.world.now) : Timely (ts ++ [t]) := by
  intro pre u post heq i o ms hact hcalling
  rcases List.eq_nil_or_concat post with rfl | ⟨post, v, rfl⟩
  · obtain ⟨rfl, hu⟩ := List.append_inj' heq rfl
    obtain rfl := List.singleton_inj.mp hu
    exact ht i o ms hact hcalling
  · have hsplit : ts ++ [t] = (pre ++ u :: post) ++ [v] := by simpa using heq
    exact h pre u post (List.append_inj' hsplit rfl).1 i o ms hact hcalling

theorem Untroubled.snoc (h : Untroubled delay ts) (hhealthy : Healthy s a)
    (htimer : ∀ i o ms, a = .call i o → calling? ⟨s, a, s'⟩ = some (.setTimeout ms) →
      answeredAt i ts + ms ≤ s.state.world.now)
    (hsubmit : ∀ x, submission? ⟨s, a, s'⟩ = some x → x ∉ submissions ts)
    (hserve : ∀ i lag, a = .call i (.served lag) → delay + lag ≤ 300000) :
    Untroubled delay (ts ++ [⟨s, a, s'⟩]) := by
  constructor
  · exact h.timely.snoc htimer
  · rw [submissions_snoc]
    cases hsubmission : submission? ⟨s, a, s'⟩ with
    | none => simpa using h.apart
    | some x =>
        apply List.nodup_append.mpr
        refine ⟨h.apart, List.nodup_singleton x, ?_⟩
        rintro y hy z hz rfl
        obtain rfl := List.mem_singleton.mp hz
        exact hsubmit y hsubmission hy
  · intro t ht
    rcases List.mem_append.mp ht with ht | ht
    · exact h.swift t ht
    · obtain rfl := List.mem_singleton.mp ht
      exact hserve
  · intro t ht
    rcases List.mem_append.mp ht with ht | ht
    · exact h.healthy t ht
    · obtain rfl := List.mem_singleton.mp ht
      exact hhealthy

theorem healthy_env (s : DeployedState) (l : EnvStep) : Healthy s (.env l) where
  invokes := trivial
  no_crash := fun _ ↦ nofun
  answers := fun _ _ _ _ ↦ nofun

theorem Untroubled.env (h : Untroubled delay ts) (s s' : DeployedState) (l : EnvStep) :
    Untroubled delay (ts ++ [⟨s, .env l, s'⟩]) :=
  h.snoc (healthy_env s l) (fun _ _ _ ↦ nofun) (fun _ ↦ nofun) fun _ _ ↦ nofun

theorem step_env_of_envStep (config : StorageConfig) {w : World} {tasks : List Task}
    (h : envStep s.state.world s.threads l = some (w, tasks)) :
    (deployed config).step s (.env l) =
      some ⟨⟨w, s.state.provider⟩, s.threads ++ tasks.map (deployed config).start⟩ := by
  have henv : (deployed config).env s.state s.threads l = some (⟨w, s.state.provider⟩, tasks) := by
    change (envStep s.state.world s.threads l).map _ = _
    rw [h]
    rfl
  simp only [Machine.step, henv]

/-! ## Nothing gets stuck -/

theorem Installation.exec_fate {c : Call} (s : Installation) (hc : c.ForProvider = false)
    (f : Fate) :
    s.exec c (.fate f) = (s.world.exec c f).map fun p ↦ (⟨p.1, s.provider⟩, p.2) := by
  cases c with
  | generateVideo params videoId => cases hc
  | getGenerationStatus jobId => cases hc
  | _ => rfl

theorem Installation.exists_reaction (s : Installation) {c : Call}
    (hc : ∀ id fields, c ≠ .insertVideo (some id) fields) :
    ∃ o p, s.exec c o = some p ∧ (o = .served 0 ∨ ∃ b, o = .fate (.ok b)) := by
  cases hprovider : c.ForProvider with
  | true =>
      refine ⟨.served 0, ?_⟩
      cases c with
      | generateVideo params videoId => exact ⟨_, rfl, .inl rfl⟩
      | getGenerationStatus jobId => exact ⟨_, rfl, .inl rfl⟩
      | _ => cases hprovider
  | false =>
      obtain ⟨b, p, hanswer⟩ := s.world.exists_answer hc
      refine ⟨.fate (.ok b), (⟨p.1, s.provider⟩, .ok p.2), ?_, .inr ⟨b, rfl⟩⟩
      rw [s.exec_fate hprovider, World.exec, hanswer]
      rfl

theorem healthy_call {i : ℕ} {o : Reaction} (ho : o = .served 0 ∨ ∃ b, o = .fate (.ok b)) :
    Healthy s (.call i o) := by
  refine ⟨trivial, fun _ ↦ nofun, ?_⟩
  intro i' f t c heq _ _ _
  rcases ho with rfl | ⟨b, rfl⟩
  · cases heq
  · cases heq
    exact ⟨b, rfl⟩

/-- Late enough for the timer of a call, and later than every submission. -/
def pauseFor (i : ℕ) (c : Call) (ts : List (Transition DeployedState DeployedStep)) : ℕ :=
  answeredAt i ts + c.uses .pause + ((submissions ts).map Prod.snd).sum + 1

theorem Untroubled.answered (h : Untroubled delay ts) (hdelay : delay ≤ 300000) {i : ℕ}
    {o : Reaction} {c : Call} (hcalling : calling? ⟨s, .call i o, s'⟩ = some c)
    (ho : o = .served 0 ∨ ∃ b, o = .fate (.ok b)) (hnow : pauseFor i c ts ≤ s.state.world.now) :
    Untroubled delay (ts ++ [⟨s, .call i o, s'⟩]) := by
  unfold pauseFor at hnow
  apply h.snoc (healthy_call ho)
  · intro j o' ms heq htimer
    obtain ⟨rfl, -⟩ := Act.call.inj heq
    obtain rfl := Option.some.inj (hcalling.symm.trans htimer)
    have huses : (Call.setTimeout ms).uses .pause = ms := rfl
    omega
  · intro x hx hmem
    have hlate : x.2 = s.state.world.now := by
      rw [submission?, hcalling] at hx
      cases c with
      | generateVideo params videoId => exact congrArg Prod.snd (Option.some.inj hx).symm
      | _ => cases hx
    have hle : x.2 ≤ ((submissions ts).map Prod.snd).sum :=
      List.single_le_sum (fun _ _ ↦ Nat.zero_le _) x.2 (List.mem_map_of_mem hmem)
    omega
  · intro j lag heq
    obtain ⟨-, rfl⟩ := Act.call.inj heq
    rcases ho with hserved | ⟨b, hfate⟩
    · obtain rfl := Reaction.served.inj hserved
      simpa using hdelay
    · cases hfate

theorem onward_in_time (hcalm : Calm ⟨s.state.world, s.threads⟩) (h : Untroubled delay ts)
    (hdelay : delay ≤ 300000) {i : ℕ} {t : Worker} (hget : s.threads[i]? = some t)
    (halive : ¬t.Ended) :
    ∃ us s', Onward (deployed config).step (Unprompted delay) (IsWork · = true) ts us s s' := by
  have ht := List.mem_of_getElem? hget
  obtain ⟨c, next, hprog⟩ := exists_pending halive
  have htick := step_env_of_envStep config (s := s) (l := .tick (pauseFor i c ts)) rfl
  simp only [List.map_nil, List.append_nil] at htick
  generalize hlater : (⟨⟨{ s.state.world with
    now := s.state.world.now + pauseFor i c ts }, s.state.provider⟩, s.threads⟩ :
      DeployedState) = later at htick
  have hnow : pauseFor i c ts ≤ later.state.world.now := by
    rw [← hlater]
    exact Nat.le_add_left _ _
  have hthread : later.threads[i]? = some t := by
    rw [← hlater]
    exact hget
  obtain ⟨o, p, hexec, ho⟩ := later.state.exists_reaction (hcalm.not_insert ht hprog)
  have hexec : (deployed config).exec later.state c o = some p := hexec
  obtain ⟨s', hstep⟩ := Machine.exists_step_of_exec hthread (hcalm.alive t ht) hprog hexec
  have hcalling : calling? ⟨later, .call i o, s'⟩ = some c := by
    simp [calling?, hthread, Thread.pending?, hprog]
  have hwaited : Untroubled delay (ts ++ [⟨s, .env (.tick (pauseFor i c ts)), later⟩]) :=
    h.env _ _ _
  have hsame : pauseFor i c (ts ++ [⟨s, .env (.tick (pauseFor i c ts)), later⟩]) =
      pauseFor i c ts := by
    rw [pauseFor, answeredAt_snoc, submissions_snoc]
    simp [pauseFor, submission?, calling?]
  have huntroubled := hwaited.answered hdelay hcalling ho (hsame.trans_le hnow)
  refine ⟨[⟨s, .env (.tick (pauseFor i c ts)), later⟩, ⟨later, .call i o, s'⟩], s', ?_, ?_, ?_⟩
  · exact .cons htick (.cons hstep .nil)
  · refine ⟨by simpa using huntroubled, ?_⟩
    simp [Act.InvokesOnly]
  · exact ⟨⟨later, .call i o, s'⟩, by simp, rfl⟩

theorem onward_by_move (hcalm : Calm ⟨s.state.world, s.threads⟩) (h : Untroubled delay ts)
    (hthreads : ∀ t ∈ s.threads, t.Ended) {id : ℕ} {q : QueuedJob}
    (hq : s.state.world.queue.find? id = some q) (hlive : q.state.Live) :
    ∃ us s', Onward (deployed config).step (Unprompted delay) (IsWork · = true) ts us s s' := by
  obtain ⟨l, ⟨w, tasks⟩, hmoves, henv⟩ := hcalm.exists_move hthreads hq hlive
  have hstep := step_env_of_envStep config henv
  refine ⟨[⟨s, .env l, _⟩], _, .cons hstep .nil, ⟨h.env _ _ _, ?_⟩, ?_⟩
  · simp [Act.InvokesOnly]
  · exact ⟨⟨s, .env l, _⟩, List.mem_singleton_self _, hmoves⟩

theorem isWork_of_act? {a' : Step} (hact : (opened config).act? s a = some a') :
    IsWork a' = IsWork a := by
  cases a with
  | call i o =>
      obtain ⟨c, -, rfl⟩ := Option.map_eq_some_iff.mp hact
      rfl
  | _ =>
      obtain rfl := Option.some.inj hact
      rfl

end Steps

/-! ## Runs -/

section Runs

variable {config : StorageConfig} {simulationDelayMs : Option ℤ}
  {ts us : List (Transition DeployedState DeployedStep)} {s s' : DeployedState}

theorem toil_lt_of_onward {delay : ℤ} (hrun : Run (deployed config).step
    ⟨⟨World.empty, FakeVideoProvider.create simulationDelayMs⟩, []⟩ ts s)
    (h : Onward (deployed config).step (Unprompted delay) (IsWork · = true) ts us s s') :
    toil ⟨s'.state.world, s'.threads⟩ < toil ⟨s.state.world, s.threads⟩ := by
  obtain ⟨hviews, hrest⟩ := (opened config).run h.run
  apply toil_lt ((opened config).run hrun).2 hrest
  · exact (opened config).invokesOnly h.continues.unasked
  · obtain ⟨t, ht, hwork⟩ := h.works
    have hmem : (opened config).transition? t ∈ ((opened config).views us).map some :=
      hviews ▸ List.mem_map_of_mem ht
    obtain ⟨t', ht', hview⟩ := List.mem_map.mp hmem
    obtain ⟨a', hact, rfl⟩ := Option.map_eq_some_iff.mp hview.symm
    exact ⟨_, ht', (isWork_of_act? hact).trans hwork⟩

section Untroubled

variable (hrun : Run (deployed config).step
    ⟨⟨World.empty, FakeVideoProvider.create simulationDelayMs⟩, []⟩ ts s)
  (h : Untroubled (simulationDelayMs.getD 5000) ts)

include hrun h

theorem calm_of_untroubled : Calm ⟨s.state.world, s.threads⟩ :=
  (custody_of_run ((opened config).run hrun).2
    (undivided_of_run hrun h.timely h.apart h.swift h.healthy) : Custody "" _).calm

theorem exists_onward (hdelay : simulationDelayMs.getD 5000 ≤ 300000)
    (hidle : ¬Idle ⟨s.state.world, s.threads⟩) :
    ∃ us s', Onward (deployed config).step (Unprompted (simulationDelayMs.getD 5000))
      (IsWork · = true) ts us s s' := by
  have hcalm := calm_of_untroubled hrun h
  by_cases hthreads : ∀ t ∈ s.threads, t.Ended
  · have hjobs : ¬∀ id q, s.state.world.queue.find? id = some q → ¬q.state.Live :=
      fun hjobs ↦ hidle ⟨hthreads, hjobs⟩
    simp only [not_forall, not_not, exists_prop] at hjobs
    obtain ⟨id, q, hq, hlive⟩ := hjobs
    exact onward_by_move hcalm h hthreads hq hlive
  · simp only [not_forall, exists_prop] at hthreads
    obtain ⟨t, ht, halive⟩ := hthreads
    obtain ⟨i, hget⟩ := List.getElem?_of_mem ht
    exact onward_in_time hcalm h hdelay hget halive

theorem allFinished_of_idle (hidle : Idle ⟨s.state.world, s.threads⟩) : AllFinished s := by
  refine ⟨hidle, ?_⟩
  intro videoId row hrow
  rcases finished_or_inProgress hrun h.timely h.apart h.swift h.healthy hrow
    (hidle.atRest videoId (calm_of_untroubled hrun h)) with hfinished | ⟨-, hlive⟩
  · exact hfinished
  · exact absurd (hlive.symm.trans (hidle.no_live_jobs videoId)) Nat.one_ne_zero

/-- From every state that such a run reaches, once nobody asks for anything new: as long as work
is left, some of it can be done, and however executions, listeners and the queue go on with it,
they end with every video completed and showing the simulator's file. -/
theorem videos_inevitably_complete (hdelay : simulationDelayMs.getD 5000 ≤ 300000) :
    Inevitable (deployed config).step (Unprompted (simulationDelayMs.getD 5000))
      (IsWork · = true) AllFinished ts s := by
  apply Inevitable.of_measure (fun ts s ↦ Run (deployed config).step
    ⟨⟨World.empty, FakeVideoProvider.create simulationDelayMs⟩, []⟩ ts s ∧
      Untroubled (simulationDelayMs.getD 5000) ts) fun s ↦ toil ⟨s.state.world, s.threads⟩
  · rintro ts us s s' ⟨hrun, -⟩ honward
    exact ⟨⟨hrun.append honward.run, honward.continues.untroubled⟩,
      toil_lt_of_onward hrun honward⟩
  · rintro ts s ⟨hrun, h⟩ hunfinished
    exact exists_onward hrun h hdelay fun hidle ↦
      hunfinished (allFinished_of_idle hrun h hidle)
  · exact ⟨hrun, h⟩

end Untroubled

end Runs

/-- The video has been submitted; from there on it is completed inevitably. -/
theorem videos_inevitably_complete_submitted :
    ∃ (ts : List (Transition DeployedState DeployedStep)) (s : DeployedState),
      Run (deployed ⟨"bucket", none, "region"⟩).step
        ⟨⟨World.empty, FakeVideoProvider.create none⟩, []⟩ ts s ∧
      s.state.world.statusOf "video" = some .processing ∧
      Inevitable (deployed ⟨"bucket", none, "region"⟩).step (Unprompted 5000) (IsWork · = true)
        AllFinished ts s ∧
      ∃ us s', Run (deployed ⟨"bucket", none, "region"⟩).step s us s' ∧ AllFinished s' := by
  obtain ⟨ts, s, hrun, -, hobs⟩ := Run.exists_of_follow (deployed ⟨"bucket", none, "region"⟩).step
    ⟨⟨World.empty, FakeVideoProvider.create none⟩, []⟩ (simulatedActs.take 18)
    (fun p ↦ (inTime [] p.1 && p.1.all fun t ↦ isSwift 5000 t && isHealthy t, submissions p.1,
      p.2.state.world.statusOf "video"))
    (true, [("video", 0)], some .processing) (by decide +kernel)
  simp only [Prod.mk.injEq] at hobs
  obtain ⟨hchecked, hsubmissions, hstatus⟩ := hobs
  obtain ⟨htime, hchecked⟩ := Bool.and_eq_true_iff.mp hchecked
  have hchecked : ∀ t ∈ ts, isSwift 5000 t = true ∧ isHealthy t = true := by
    simpa using hchecked
  have huntroubled : Untroubled 5000 ts := by
    constructor
    · exact timely_of_inTime htime
    · rw [hsubmissions]
      exact List.nodup_singleton _
    · exact swift_of_isSwift (List.all_eq_true.mpr fun t ht ↦ (hchecked t ht).1)
    · exact fun t ht ↦ healthy_of_isHealthy (hchecked t ht).2
  have hinevitable := videos_inevitably_complete hrun huntroubled (by decide)
  exact ⟨ts, s, hrun, hstatus, hinevitable, hinevitable.exists_run⟩

end VideoGen
