import VideoGen.Lib.Pool

/-!
# Contracts of interleaved programs

A contract says what holds of the shared state between any two steps of a
pool, what becomes of the state from one moment to a later one, and which
calls may be made.  A program keeps it when, at whatever later moment it makes
its next call, the call is allowed and every outcome of it keeps the contract.
A pool whose tasks, forks and environment keep the contract keeps it in every
run, whatever is started and however the threads interleave.
-/

namespace VideoGen

/-- A contract for calls with the given effects. -/
structure Contract {I : Interface} {σ F : Type}
    (exec : σ → (c : I.Call) → F → Option (σ × Except I.Error (I.Reply c))) where
  Inv : σ → Prop
  Later : σ → σ → Prop
  Allows : σ → I.Call → Prop
  refl : ∀ w, Later w w
  trans : ∀ w w' w'', Later w w' → Later w' w'' → Later w w''
  step : ∀ w c f w' r, Inv w → Allows w c → exec w c f = some (w', r) → Inv w' ∧ Later w w'

variable {I : Interface} {T α β σ F L : Type}

namespace Contract

variable {exec : σ → (c : I.Call) → F → Option (σ × Except I.Error (I.Reply c))}
  (K : Contract exec)

/-- The program continues at a moment that is later than its last answer. -/
def spec : Spec I σ where
  Allows w c := ∀ w', K.Later w w' → K.Inv w' → K.Allows w' c
  Moves w c r w'' := ∃ w' f, K.Later w w' ∧ K.Inv w' ∧ exec w' c f = some (w'', r)

/-- The program keeps the contract from the state on, also when others go first. -/
abbrev Keeps (p : Program I α) (w : σ) : Prop := p.Keeps K.spec (fun _ _ ↦ True) w

def Harmless (c : I.Call) : Prop := ∀ w, K.Inv w → K.Allows w c

variable {K} {w w' : σ}

theorem Keeps.later {p : Program I α} (h : K.Keeps p w) (hlater : K.Later w w') :
    K.Keeps p w' := by
  cases p with
  | done r => trivial
  | call c next =>
      obtain ⟨hallows, hnext⟩ := h
      constructor
      · intro w₁ hw₁
        exact hallows w₁ (K.trans _ _ _ hlater hw₁)
      · rintro r w₂ ⟨w₁, f, hw₁, hinv, hexec⟩
        exact hnext r w₂ ⟨w₁, f, K.trans _ _ _ hlater hw₁, hinv, hexec⟩

theorem keeps_perform {c : I.Call} {Post : σ → Except I.Error (I.Reply c) → Prop}
    (h : ∀ w', K.Later w w' → K.Inv w' → K.Allows w' c ∧ ∀ f w'' r,
      exec w' c f = some (w'', r) → Post w'' r) :
    (Program.perform c).Keeps K.spec Post w := by
  constructor
  · intro w' hlater hinv
    exact (h w' hlater hinv).1
  · rintro r w'' ⟨w', f, hlater, hinv, hexec⟩
    exact (h w' hlater hinv).2 f w'' r hexec

theorem keeps_of_calls {p : Program I α} (h : p.Calls K.Harmless) (w : σ) : K.Keeps p w := by
  induction p generalizing w with
  | done r => trivial
  | call c next ih =>
      refine ⟨fun w' _ hinv ↦ h.1 w' hinv, ?_⟩
      rintro r w'' -
      exact ih r (h.2 r) w''

theorem keeps_calls_then {p : Program I α} {f : α → Program I β}
    {Post : σ → Except I.Error β → Prop} (h : p.Calls K.Harmless)
    (hf : ∀ a w', K.Later w w' → (f a).Keeps K.spec Post w')
    (he : ∀ e w', K.Later w w' → Post w' (.error e)) : (p >>= f).Keeps K.spec Post w := by
  induction p generalizing w with
  | done r =>
      cases r with
      | ok a => exact hf a w (K.refl w)
      | error e => exact he e w (K.refl w)
  | call c next ih =>
      refine ⟨fun w' _ hinv ↦ h.1 w' hinv, ?_⟩
      rintro r w'' ⟨w', g, hlater, hinv, hexec⟩
      have hstep := (K.step w' c g w'' r hinv (h.1 w' hinv) hexec).2
      have hlater'' := K.trans _ _ _ hlater hstep
      exact ih r (h.2 r) (fun a w₁ hw₁ ↦ hf a w₁ (K.trans _ _ _ hlater'' hw₁))
        fun e w₁ hw₁ ↦ he e w₁ (K.trans _ _ _ hlater'' hw₁)

theorem keeps_calls_bind {p : Program I α} {f : α → Program I β} (h : p.Calls K.Harmless)
    (hf : ∀ a w', K.Later w w' → K.Keeps (f a) w') : K.Keeps (p >>= f) w :=
  keeps_calls_then h hf fun _ _ _ ↦ trivial

theorem ends_later {p : Program I α} {Post : σ → Except I.Error α → Prop}
    (h : p.Keeps K.spec Post w) : p.Keeps K.spec (fun w' r ↦ Post w' r ∧ K.Later w w') w := by
  induction p generalizing w with
  | done r => exact ⟨h, K.refl w⟩
  | call c next ih =>
      refine ⟨h.1, ?_⟩
      rintro r w'' ⟨w', f, hlater, hinv, hexec⟩
      have hstep := (K.step w' c f w'' r hinv (h.1 w' hlater hinv) hexec).2
      refine (ih r (h.2 r w'' ⟨w', f, hlater, hinv, hexec⟩)).mono fun w₁ x hx ↦ ?_
      exact ⟨hx.1, K.trans _ _ _ (K.trans _ _ _ hlater hstep) hx.2⟩

theorem keeps_of_protocol {S : Type} {P : Protocol I S} {Q : S → Except I.Error α → Prop}
    (hpossible : ∀ w c f w' r, exec w c f = some (w', r) → P.Possible c r)
    (hharmless : ∀ s c, P.Allows s c → K.Harmless c) {p : Program I α} {s : S}
    (h : p.Keeps P.spec Q s) (w : σ) : K.Keeps p w := by
  induction p generalizing s w with
  | done r => trivial
  | call c next ih =>
      refine ⟨fun w' _ hinv ↦ hharmless s c h.1 w' hinv, ?_⟩
      rintro r w'' ⟨w', f, -, -, hexec⟩
      exact ih r (h.2 r _ ⟨hpossible _ _ _ _ _ hexec, rfl⟩) w''

theorem keeps_bind {p : Program I α} {f : α → Program I β}
    (hp : p.Keeps K.spec (fun w r ↦ ∀ a, r = .ok a → K.Keeps (f a) w) w) :
    K.Keeps (p >>= f) w := by
  rw [Keeps, Program.keeps_bind]
  refine hp.mono fun w r h ↦ ?_
  cases r with
  | ok a => exact h a rfl
  | error e => trivial

theorem Keeps.bind {p : Program I α} {f : α → Program I β} (hp : K.Keeps p w)
    (hf : ∀ a w', K.Keeps (f a) w') : K.Keeps (p >>= f) w :=
  keeps_bind (hp.mono fun w' _ _ a _ ↦ hf a w')

theorem keeps_map {p : Program I α} {f : α → β} (hp : K.Keeps p w) : K.Keeps (f <$> p) w := by
  rw [Keeps, Program.keeps_map]
  exact hp

theorem Keeps.catchWith {p : Program I α} {h : I.Error → Program I α} (hp : K.Keeps p w)
    (hh : ∀ e w', K.Keeps (h e) w') : K.Keeps (p.catchWith h) w := by
  rw [Keeps, Program.keeps_catchWith]
  refine hp.mono fun w' r _ ↦ ?_
  cases r with
  | ok a => trivial
  | error e => exact hh e w'

end Contract

/-! ## Pools -/

namespace Machine

variable (M : Machine I T α σ F L) (K : Contract M.exec)

/-- The ingredients of a pool keep the contract, when only tasks that satisfy `p` are
started from outside. -/
structure Fulfils (p : T → Prop) : Prop where
  invoked : ∀ task, p task → ∀ w, K.Inv w → K.Keeps (M.body task) w
  forked : ∀ w c f w' r, K.Inv w → K.Allows w c → M.exec w c f = some (w', r) →
    ∀ task ∈ M.forks c, K.Keeps (M.body task) w'
  env : ∀ w threads l w' tasks, K.Inv w → M.env w threads l = some (w', tasks) →
    K.Inv w' ∧ K.Later w w' ∧ ∀ task ∈ tasks, K.Keeps (M.body task) w'

/-- The state keeps the contract, and what is left of every program does so from now on. -/
structure Kept (s : Config I T α σ) : Prop where
  inv : K.Inv s.state
  threads : ∀ t ∈ s.threads, K.Keeps t.prog s.state

def AllowsStep (s : Config I T α σ) (a : Act T F L) : Prop :=
  ∀ i f t c, a = .call i f → s.threads[i]? = some t → t.pending? = some c → K.Allows s.state c

variable {M K} {p : T → Prop} {s s' : Config I T α σ}

theorem Kept.start {w : σ} (hw : K.Inv w) : M.Kept K ⟨w, []⟩ where
  inv := hw
  threads := by simp

theorem Kept.allows (h : M.Kept K s) (a : Act T F L) : M.AllowsStep K s a := by
  rintro i f t c - hget hpending
  obtain ⟨next, hprog⟩ := Thread.pending?_eq_some_iff.mp hpending
  have hkeeps := h.threads t (List.mem_of_getElem? hget)
  rw [hprog] at hkeeps
  exact hkeeps.1 s.state (K.refl _) h.inv

theorem Kept.step {a : Act T F L} (h : M.Kept K s) (hM : M.Fulfils K p)
    (hinvoke : a.InvokesOnly p) (hstep : M.step s a = some s') :
    M.Kept K s' ∧ K.Later s.state s'.state := by
  have hold {w : σ} (hlater : K.Later s.state w) {t : Thread I T α} (ht : t ∈ s.threads) :
      K.Keeps t.prog w := (h.threads t ht).later hlater
  cases a with
  | invoke task =>
      obtain rfl := Option.some.inj hstep
      refine ⟨⟨h.inv, fun t ht ↦ ?_⟩, K.refl _⟩
      rcases List.mem_append.mp ht with ht | ht
      · exact hold (K.refl _) ht
      · obtain rfl := List.mem_singleton.mp ht
        exact hM.invoked task hinvoke _ h.inv
  | crash i =>
      obtain ⟨u, hu, rfl⟩ := M.step_crash_cases hstep
      refine ⟨⟨h.inv, fun t ht ↦ ?_⟩, K.refl _⟩
      rcases List.mem_or_eq_of_mem_set ht with ht | rfl
      · exact hold (K.refl _) ht
      · exact h.threads u (List.mem_of_getElem? hu)
  | env l =>
      obtain ⟨w, tasks, henv, rfl⟩ := M.step_env_cases hstep
      obtain ⟨hinv, hlater, htasks⟩ := hM.env _ _ _ _ _ h.inv henv
      refine ⟨⟨hinv, fun t ht ↦ ?_⟩, hlater⟩
      rcases List.mem_append.mp ht with ht | ht
      · exact hold hlater ht
      · obtain ⟨task, htask, rfl⟩ := List.mem_map.mp ht
        exact htasks task htask
  | call i f =>
      obtain ⟨u, c, next, w, r, hu, -, hprog, hexec, rfl⟩ := M.stepCall_cases hstep
      have hkeeps := h.threads u (List.mem_of_getElem? hu)
      rw [hprog] at hkeeps
      obtain ⟨hcall, hnext⟩ := hkeeps
      have hallows := hcall s.state (K.refl _) h.inv
      obtain ⟨hinv, hlater⟩ := K.step _ _ _ _ _ h.inv hallows hexec
      refine ⟨⟨hinv, fun t ht ↦ ?_⟩, hlater⟩
      rcases List.mem_append.mp ht with ht | ht
      · rcases List.mem_or_eq_of_mem_set ht with ht | rfl
        · exact hold hlater ht
        · exact hnext r w ⟨s.state, f, K.refl _, h.inv, hexec⟩
      · obtain ⟨task, htask, rfl⟩ := List.mem_map.mp ht
        exact hM.forked _ _ _ _ _ h.inv hallows hexec task htask

/-- A run keeps the contract, and each of its calls is allowed where it is answered. -/
theorem Fulfils.run (hM : M.Fulfils K p) {ts : List (Transition (Config I T α σ) (Act T F L))}
    {s₀ : Config I T α σ} (hrun : Run M.step s₀ ts s) (hs₀ : M.Kept K s₀)
    (hinvoke : ∀ t ∈ ts, t.act.InvokesOnly p) :
    M.Kept K s ∧ K.Later s₀.state s.state ∧ ∀ t ∈ ts, M.AllowsStep K t.before t.act := by
  induction hrun with
  | nil => exact ⟨hs₀, K.refl _, by simp⟩
  | @snoc ts s s' a head last ih =>
      obtain ⟨hkept, hlater, hallows⟩ := ih fun t ht ↦ hinvoke t (List.mem_append_left _ ht)
      obtain ⟨hkept', hlater'⟩ := hkept.step hM (hinvoke ⟨s, a, s'⟩ (by simp)) last
      refine ⟨hkept', K.trans _ _ _ hlater hlater', fun t ht ↦ ?_⟩
      rcases List.mem_append.mp ht with ht | ht
      · exact hallows t ht
      · obtain rfl := List.mem_singleton.mp ht
        exact hkept.allows a

/-! ## What has been called -/

/-- A state with the calls answered so far and the outcomes chosen for them. -/
structure Recorded (I : Interface) (σ F : Type) where
  state : σ
  calls : List (I.Call × F)

variable (M) in
def recording : Machine I T α (Recorded I σ F) F L where
  body := M.body
  exec s c f := (M.exec s.state c f).map fun x ↦ (⟨x.1, s.calls ++ [(c, f)]⟩, x.2)
  forks := M.forks
  env s threads l := (M.env s.state threads l).map fun x ↦ (⟨x.1, s.calls⟩, x.2)

theorem recording_exec {s s' : Recorded I σ F} {c : I.Call} {f : F}
    {r : Except I.Error (I.Reply c)} : M.recording.exec s c f = some (s', r) ↔
      M.exec s.state c f = some (s'.state, r) ∧ s'.calls = s.calls ++ [(c, f)] := by
  obtain ⟨w', calls'⟩ := s'
  simp only [recording, Option.map_eq_some_iff, Prod.mk.injEq, Recorded.mk.injEq]
  constructor
  · rintro ⟨⟨w, x⟩, hexec, ⟨rfl, rfl⟩, rfl⟩
    exact ⟨hexec, rfl⟩
  · rintro ⟨hexec, rfl⟩
    exact ⟨_, hexec, ⟨rfl, rfl⟩, rfl⟩

theorem recording_env {s s' : Recorded I σ F} {threads : List (Thread I T α)} {l : L}
    {tasks : List T} : M.recording.env s threads l = some (s', tasks) ↔
      M.env s.state threads l = some (s'.state, tasks) ∧ s'.calls = s.calls := by
  obtain ⟨w', calls'⟩ := s'
  simp only [recording, Option.map_eq_some_iff, Prod.mk.injEq, Recorded.mk.injEq]
  constructor
  · rintro ⟨⟨w, x⟩, henv, ⟨rfl, rfl⟩, rfl⟩
    exact ⟨henv, rfl⟩
  · rintro ⟨henv, rfl⟩
    exact ⟨_, henv, ⟨rfl, rfl⟩, rfl⟩

def answeredCall (t : Transition (Config I T α σ) (Act T F L)) : List (I.Call × F) :=
  match t.act with
  | .call i f => ((t.before.threads[i]?.bind Thread.pending?).map (·, f)).toList
  | _ => []

def answeredCalls (ts : List (Transition (Config I T α σ) (Act T F L))) : List (I.Call × F) :=
  ts.flatMap answeredCall

@[simp] theorem answeredCalls_snoc (ts : List (Transition (Config I T α σ) (Act T F L)))
    (t : Transition (Config I T α σ) (Act T F L)) :
    answeredCalls (ts ++ [t]) = answeredCalls ts ++ answeredCall t := by
  simp [answeredCalls]

def withCalls (s : Config I T α σ) (calls : List (I.Call × F)) :
    Config I T α (Recorded I σ F) := ⟨⟨s.state, calls⟩, s.threads⟩

theorem step_recording {a : Act T F L} (hstep : M.step s a = some s')
    (calls : List (I.Call × F)) : M.recording.step (withCalls s calls) a =
      some (withCalls s' (calls ++ answeredCall ⟨s, a, s'⟩)) := by
  cases a with
  | invoke task =>
      obtain rfl := Option.some.inj hstep
      simp [step, withCalls, answeredCall, start, recording]
  | crash i =>
      obtain ⟨t, ht, rfl⟩ := M.step_crash_cases hstep
      simp [step, withCalls, answeredCall, ht]
  | env l =>
      obtain ⟨w, tasks, henv, rfl⟩ := M.step_env_cases hstep
      simp [step, withCalls, answeredCall, start, recording, henv]
  | call i f =>
      obtain ⟨t, c, next, w, r, ht, halive, hprog, hexec, rfl⟩ := M.stepCall_cases hstep
      have hpending : t.pending? = some c := Thread.pending?_eq_some_iff.mpr ⟨next, hprog⟩
      simp [step, stepCall, withCalls, answeredCall, start, recording, ht, halive, hprog,
        hexec, hpending]

/-- A run keeps a contract that speaks of the calls made so far. -/
theorem Fulfils.recorded {K : Contract M.recording.exec} (hM : M.recording.Fulfils K p)
    {ts : List (Transition (Config I T α σ) (Act T F L))} {w : σ}
    (hrun : Run M.step ⟨w, []⟩ ts s) (hw : K.Inv ⟨w, []⟩)
    (hinvoke : ∀ t ∈ ts, t.act.InvokesOnly p) :
    M.recording.Kept K (withCalls s (answeredCalls ts)) := by
  induction hrun with
  | nil => exact Kept.start hw
  | @snoc ts s s' a head last ih =>
      have hkept := ih fun t ht ↦ hinvoke t (List.mem_append_left _ ht)
      have hstep := step_recording last (answeredCalls ts)
      rw [answeredCalls_snoc]
      exact (hkept.step hM (hinvoke ⟨s, a, s'⟩ (by simp)) hstep).1

theorem Fulfils.recorded_allows {K : Contract M.recording.exec} (hM : M.recording.Fulfils K p)
    {ts : List (Transition (Config I T α σ) (Act T F L))} {w : σ}
    (hrun : Run M.step ⟨w, []⟩ ts s) (hw : K.Inv ⟨w, []⟩)
    (hinvoke : ∀ t ∈ ts, t.act.InvokesOnly p) {pre post : List (Transition _ _)}
    {v : Transition (Config I T α σ) (Act T F L)} (hts : ts = pre ++ v :: post) :
    M.recording.AllowsStep K (withCalls v.before (answeredCalls pre)) v.act := by
  subst hts
  have hpre := hrun.at_append_cons.1
  exact (hM.recorded hpre hw fun t ht ↦ hinvoke t (List.mem_append_left _ ht)).allows v.act

end Machine

end VideoGen
