import VideoGen.Lib.Pool

/-!
# Programs that run alone

A program that runs alone turns a state into a state and a result, call by
call.  Evaluation follows the operations on programs (`evaluates_bind_iff`),
a specification whose moves include those of the environment holds at the end
of every evaluation (`Program.Evaluates.post`), and an evaluation is a run of
any pool in which nothing else moves (`Machine.run_of_evaluates`).
-/

namespace VideoGen

variable {I : Interface} {α β σ F : Type}

namespace Program

/-- The program ends in `r` and the state `s'` by the transitions `ts`, one a call. -/
inductive Evaluates (exec : σ → (c : I.Call) → F → Option (σ × Except I.Error (I.Reply c))) :
    Program I α → σ → List (Transition σ F) → Except I.Error α → σ → Prop where
  | done (r : Except I.Error α) (s : σ) : Evaluates exec (.done r) s [] r s
  | call {c : I.Call} {next : Except I.Error (I.Reply c) → Program I α} {s s₁ s' : σ} {f : F}
      {x : Except I.Error (I.Reply c)} {ts : List (Transition σ F)} {r : Except I.Error α}
      (hexec : exec s c f = some (s₁, x)) (hrest : Evaluates exec (next x) s₁ ts r s') :
      Evaluates exec (.call c next) s (⟨s, f, s₁⟩ :: ts) r s'

variable {exec : σ → (c : I.Call) → F → Option (σ × Except I.Error (I.Reply c))}
  {s s' : σ} {ts : List (Transition σ F)}

@[simp] theorem evaluates_done_iff {r r' : Except I.Error α} :
    (Program.done r).Evaluates exec s ts r' s' ↔ ts = [] ∧ r' = r ∧ s' = s := by
  constructor
  · intro h
    cases h
    exact ⟨rfl, rfl, rfl⟩
  · rintro ⟨rfl, rfl, rfl⟩
    exact .done _ _

theorem evaluates_call_iff {c : I.Call} {next : Except I.Error (I.Reply c) → Program I α}
    {r : Except I.Error α} : (Program.call c next).Evaluates exec s ts r s' ↔
      ∃ f s₁ x rest, exec s c f = some (s₁, x) ∧ (next x).Evaluates exec s₁ rest r s' ∧
        ts = ⟨s, f, s₁⟩ :: rest := by
  constructor
  · intro h
    cases h with
    | call hexec hrest => exact ⟨_, _, _, _, hexec, hrest, rfl⟩
  · rintro ⟨f, s₁, x, rest, hexec, hrest, rfl⟩
    exact .call hexec hrest

theorem evaluates_bind_iff {p : Program I α} {f : α → Program I β} {r : Except I.Error β} :
    (p >>= f).Evaluates exec s ts r s' ↔
      (∃ ts₁ a s₁ ts₂, p.Evaluates exec s ts₁ (.ok a) s₁ ∧ (f a).Evaluates exec s₁ ts₂ r s' ∧
        ts = ts₁ ++ ts₂) ∨
      ∃ e, p.Evaluates exec s ts (.error e) s' ∧ r = .error e := by
  change (p.bind f).Evaluates exec s ts r s' ↔ _
  induction p generalizing s ts with
  | done x =>
      cases x with
      | ok a =>
          constructor
          · intro h
            exact .inl ⟨[], a, s, ts, .done _ _, h, rfl⟩
          · rintro (⟨ts₁, a', s₁, ts₂, h, h', rfl⟩ | ⟨e, h, -⟩)
            · obtain ⟨rfl, ha, rfl⟩ := evaluates_done_iff.mp h
              obtain rfl := Except.ok.inj ha
              exact h'
            · cases h
      | error e =>
          constructor
          · intro h
            obtain ⟨rfl, rfl, rfl⟩ := evaluates_done_iff.mp h
            exact .inr ⟨e, .done _ _, rfl⟩
          · rintro (⟨ts₁, a, s₁, ts₂, h, -, -⟩ | ⟨e', h, rfl⟩)
            · cases h
            · obtain ⟨rfl, he, rfl⟩ := evaluates_done_iff.mp h
              obtain rfl := Except.error.inj he
              exact .done _ _
  | call c next ih =>
      constructor
      · intro h
        obtain ⟨f', s₁, x, rest, hexec, hrest, rfl⟩ := evaluates_call_iff.mp h
        rcases (ih x).mp hrest with ⟨ts₁, a, s₂, ts₂, h₁, h₂, rfl⟩ | ⟨e, h₁, rfl⟩
        · exact .inl ⟨_, a, s₂, ts₂, .call hexec h₁, h₂, rfl⟩
        · exact .inr ⟨e, .call hexec h₁, rfl⟩
      · rintro (⟨ts₁, a, s₁, ts₂, h₁, h₂, rfl⟩ | ⟨e, h₁, rfl⟩)
        · obtain ⟨f', s₂, x, rest, hexec, hrest, rfl⟩ := evaluates_call_iff.mp h₁
          exact .call hexec ((ih x).mpr (.inl ⟨rest, a, s₁, ts₂, hrest, h₂, rfl⟩))
        · obtain ⟨f', s₂, x, rest, hexec, hrest, rfl⟩ := evaluates_call_iff.mp h₁
          exact .call hexec ((ih x).mpr (.inr ⟨e, hrest, rfl⟩))

theorem evaluates_perform_bind_iff {c : I.Call} {f : I.Reply c → Program I β}
    {r : Except I.Error β} : (perform c >>= f).Evaluates exec s ts r s' ↔
      ∃ a s₁ x rest, exec s c a = some (s₁, x) ∧ ts = ⟨s, a, s₁⟩ :: rest ∧
        match x with
        | .ok y => (f y).Evaluates exec s₁ rest r s'
        | .error e => rest = [] ∧ r = .error e ∧ s' = s₁ := by
  constructor
  · intro h
    obtain ⟨a, s₁, x, rest, hexec, hrest, rfl⟩ := evaluates_call_iff.mp h
    refine ⟨a, s₁, x, rest, hexec, rfl, ?_⟩
    cases x with
    | ok y => exact hrest
    | error e => exact evaluates_done_iff.mp hrest
  · rintro ⟨a, s₁, x, rest, hexec, rfl, hrest⟩
    refine .call hexec ?_
    cases x with
    | ok y => exact hrest
    | error e => exact evaluates_done_iff.mpr hrest

theorem Evaluates.attempt {p : Program I α} {r : Except I.Error α}
    (h : p.Evaluates exec s ts r s') : p.attempt.Evaluates exec s ts (.ok r) s' := by
  induction h with
  | done r s => exact .done _ _
  | call hexec _ ih => exact .call hexec ih

/-- The specification that the environment itself is, for outcomes that satisfy `P`. -/
def environment (exec : σ → (c : I.Call) → F → Option (σ × Except I.Error (I.Reply c)))
    (P : F → Prop) : Spec I σ where
  Allows _ _ := True
  Moves s c r s' := ∃ f, P f ∧ exec s c f = some (s', r)

theorem Evaluates.post {P : F → Prop} {Post : σ → Except I.Error α → Prop} {p : Program I α}
    {r : Except I.Error α} (h : p.Evaluates exec s ts r s') (hp : p.Keeps (environment exec P) Post s)
    (hts : ∀ t ∈ ts, P t.act) : Post s' r := by
  induction h with
  | done r s => exact hp
  | @call c next s s₁ s' f x ts r hexec hrest ih =>
      obtain ⟨hf, hts⟩ := List.forall_mem_cons.mp hts
      exact ih (hp.2 x s₁ ⟨f, hf, hexec⟩) hts

/-- Calls that are allowed where they are made, answered by the environment. -/
def guarded (exec : σ → (c : I.Call) → F → Option (σ × Except I.Error (I.Reply c)))
    (Allows : σ → I.Call → Prop) : Spec I σ where
  Allows := Allows
  Moves s c r s' := ∃ f, exec s c f = some (s', r)

/-- A relation that every allowed call keeps relates the start of an evaluation to its end. -/
theorem Evaluates.related {Allows : σ → I.Call → Prop} {R : σ → σ → Prop} (hrefl : ∀ s, R s s)
    (htrans : ∀ {s₁ s₂ s₃}, R s₁ s₂ → R s₂ s₃ → R s₁ s₃)
    (hcall : ∀ {s c f s' r}, Allows s c → exec s c f = some (s', r) → R s s')
    {Post : σ → Except I.Error α → Prop} {p : Program I α} {r : Except I.Error α}
    (h : p.Evaluates exec s ts r s') (hp : p.Keeps (guarded exec Allows) Post s) : R s s' := by
  induction h with
  | done r s => exact hrefl s
  | @call c next s s₁ s' f x ts r hexec hrest ih =>
      exact htrans (hcall hp.1 hexec) (ih (hp.2 x s₁ ⟨f, hexec⟩))

/-- What every allowed call keeps of the history, the state and the automaton that watches the
program still holds at the end of an evaluation. -/
theorem Evaluates.invariant {S : Type} (P : Protocol I S) {Post : S → Except I.Error α → Prop}
    (Inv : List (Transition σ F) → σ → S → Prop) {p : Program I α} {r : Except I.Error α}
    (hcall : ∀ past s q c f s₁ x, P.Allows q c → exec s c f = some (s₁, x) → Inv past s q →
      P.Possible c x ∧ Inv (past ++ [⟨s, f, s₁⟩]) s₁ (P.next q c x))
    (h : p.Evaluates exec s ts r s') : ∀ {q : S} {past : List (Transition σ F)},
      p.Keeps P.spec Post q → Inv past s q → ∃ q', Post q' r ∧ Inv (past ++ ts) s' q' := by
  induction h with
  | done r s =>
      intro q past hp hinv
      exact ⟨q, hp, by simpa using hinv⟩
  | @call c next s s₁ s' f x ts r hexec hrest ih =>
      intro q past hp hinv
      obtain ⟨hpossible, hinv₁⟩ := hcall past s q c f s₁ x hp.1 hexec hinv
      obtain ⟨q', hpost, hinv'⟩ := ih (hp.2 x _ ⟨hpossible, rfl⟩) hinv₁
      exact ⟨q', hpost, by simpa using hinv'⟩

/-- A program that conforms to an automaton has an evaluation when every allowed call can be
executed. -/
theorem exists_evaluates {S : Type} (P : Protocol I S) {Post : S → Except I.Error α → Prop}
    (hexec : ∀ q s c, P.Allows q c → ∃ f s₁ x, exec s c f = some (s₁, x) ∧ P.Possible c x)
    {p : Program I α} {q : S} (hp : p.Keeps P.spec Post q) (s : σ) :
    ∃ ts r s', p.Evaluates exec s ts r s' := by
  induction p generalizing q s with
  | done r => exact ⟨[], r, s, .done _ _⟩
  | call c next ih =>
      obtain ⟨f, s₁, x, hcall, hx⟩ := hexec q s c hp.1
      obtain ⟨ts, r, s', hrest⟩ := ih x (hp.2 x _ ⟨hx, rfl⟩) s₁
      exact ⟨_, r, s', .call hcall hrest⟩

/-- When every call over one kind of states is a call with an outcome in `G` over another, so
are the evaluations. -/
theorem Evaluates.simulated {τ G : Type}
    {exec' : τ → (c : I.Call) → G → Option (τ × Except I.Error (I.Reply c))} (view : σ → τ)
    {Good : G → Prop} (hcall : ∀ s c f s₁ x, exec s c f = some (s₁, x) →
      ∃ g, Good g ∧ exec' (view s) c g = some (view s₁, x))
    {p : Program I α} {r : Except I.Error α} (h : p.Evaluates exec s ts r s') :
    ∃ us, p.Evaluates exec' (view s) us r (view s') ∧ ∀ u ∈ us, Good u.act := by
  induction h with
  | done r s => exact ⟨[], .done _ _, by simp⟩
  | @call c next s s₁ s' f x ts r hexec hrest ih =>
      obtain ⟨g, hg, hexec'⟩ := hcall s c f s₁ x hexec
      obtain ⟨us, hus, hacts⟩ := ih
      exact ⟨_, .call hexec' hus, List.forall_mem_cons.mpr ⟨hg, hacts⟩⟩

/-- Evaluate a program with one outcome for every call. -/
def evalWith (exec : σ → (c : I.Call) → F → Option (σ × Except I.Error (I.Reply c))) (f : F) :
    Program I α → σ → Option (σ × Except I.Error α)
  | .done r, s => some (s, r)
  | .call c next, s =>
      match exec s c f with
      | some (s₁, x) => (next x).evalWith exec f s₁
      | none => none

section EvalWith

variable {f : F}

@[simp] theorem evalWith_pure (a : α) :
    (Pure.pure a : Program I α).evalWith exec f s = some (s, .ok a) := rfl

@[simp] theorem evalWith_throw (e : I.Error) :
    (Program.throw e : Program I α).evalWith exec f s = some (s, .error e) := rfl

@[simp] theorem evalWith_perform (c : I.Call) :
    (perform c).evalWith exec f s = exec s c f := by
  unfold perform evalWith
  cases exec s c f <;> rfl

def andThen (exec : σ → (c : I.Call) → F → Option (σ × Except I.Error (I.Reply c))) (f : F)
    (g : α → Program I β) : σ × Except I.Error α → Option (σ × Except I.Error β)
  | (s, .ok a) => (g a).evalWith exec f s
  | (s, .error e) => some (s, .error e)

@[simp] theorem andThen_ok (g : α → Program I β) (a : α) :
    andThen exec f g (s, .ok a) = (g a).evalWith exec f s := rfl

@[simp] theorem andThen_error (g : α → Program I β) (e : I.Error) :
    andThen exec f g (s, .error e) = some (s, .error e) := rfl

@[simp] theorem evalWith_bind (p : Program I α) (g : α → Program I β) :
    (p >>= g).evalWith exec f s = (p.evalWith exec f s).bind (andThen exec f g) := by
  change (p.bind g).evalWith exec f s = _
  induction p generalizing s with
  | done r => cases r <;> rfl
  | call c next ih =>
      simp only [Program.bind, evalWith]
      cases exec s c f with
      | none => rfl
      | some q => exact ih q.2

@[simp] theorem evalWith_map (p : Program I α) (g : α → β) :
    (g <$> p).evalWith exec f s = (p.evalWith exec f s).map fun q ↦ (q.1, q.2.map g) := by
  change (p >>= fun a ↦ pure (g a)).evalWith exec f s = _
  rw [evalWith_bind]
  cases p.evalWith exec f s with
  | none => rfl
  | some q =>
      obtain ⟨s', r⟩ := q
      cases r <;> rfl

@[simp] theorem evalWith_attempt (p : Program I α) :
    p.attempt.evalWith exec f s = (p.evalWith exec f s).map fun q ↦ (q.1, .ok q.2) := by
  induction p generalizing s with
  | done r => rfl
  | call c next ih =>
      simp only [Program.attempt, evalWith]
      cases exec s c f with
      | none => rfl
      | some q => exact ih q.2

def orElse (exec : σ → (c : I.Call) → F → Option (σ × Except I.Error (I.Reply c))) (f : F)
    (h : I.Error → Program I α) : σ × Except I.Error α → Option (σ × Except I.Error α)
  | (s, .ok a) => some (s, .ok a)
  | (s, .error e) => (h e).evalWith exec f s

@[simp] theorem orElse_ok (h : I.Error → Program I α) (a : α) :
    orElse exec f h (s, .ok a) = some (s, .ok a) := rfl

@[simp] theorem orElse_error (h : I.Error → Program I α) (e : I.Error) :
    orElse exec f h (s, .error e) = (h e).evalWith exec f s := rfl

@[simp] theorem evalWith_catchWith (p : Program I α) (h : I.Error → Program I α) :
    (p.catchWith h).evalWith exec f s = (p.evalWith exec f s).bind (orElse exec f h) := by
  rw [catchWith, evalWith_bind, evalWith_attempt]
  cases p.evalWith exec f s with
  | none => rfl
  | some q =>
      obtain ⟨s', r⟩ := q
      cases r <;> rfl

end EvalWith

theorem evaluates_of_evalWith {f : F} {p : Program I α} {r : Except I.Error α}
    (h : p.evalWith exec f s = some (s', r)) :
    ∃ ts, p.Evaluates exec s ts r s' ∧ ∀ t ∈ ts, t.act = f := by
  induction p generalizing s with
  | done x =>
      obtain ⟨rfl, rfl⟩ := Prod.mk.inj (Option.some.inj h)
      exact ⟨[], .done _ _, by simp⟩
  | call c next ih =>
      simp only [evalWith] at h
      split at h
      · rename_i s₁ x hexec
        obtain ⟨ts, hts, hacts⟩ := ih x h
        exact ⟨_, .call hexec hts, List.forall_mem_cons.mpr ⟨rfl, hacts⟩⟩
      · cases h

def evalAll (exec : σ → (c : I.Call) → F → Option (σ × Except I.Error (I.Reply c))) :
    Program I α → σ → List F → Option (σ × Except I.Error α)
  | .done r, s, [] => some (s, r)
  | .call c next, s, f :: fs =>
      match exec s c f with
      | some (s₁, x) => (next x).evalAll exec s₁ fs
      | none => none
  | _, _, _ => none

theorem evaluates_of_evalAll {fs : List F} {p : Program I α} {r : Except I.Error α}
    (h : p.evalAll exec s fs = some (s', r)) :
    ∃ ts, p.Evaluates exec s ts r s' ∧ ts.map Transition.act = fs := by
  induction p generalizing s fs with
  | done x =>
      cases fs with
      | nil =>
          obtain ⟨rfl, rfl⟩ := Prod.mk.inj (Option.some.inj h)
          exact ⟨[], .done _ _, rfl⟩
      | cons f fs => cases h
  | call c next ih =>
      cases fs with
      | nil => cases h
      | cons f fs =>
          simp only [evalAll] at h
          split at h
          · rename_i s₁ x hexec
            obtain ⟨ts, hts, hacts⟩ := ih x h
            exact ⟨_, .call hexec hts, congrArg (f :: ·) hacts⟩
          · cases h

end Program

/-! ## Evaluations in a pool -/

namespace Machine

variable {T L : Type} {M : Machine I T α σ F L}

theorem run_of_evaluates {p : Program I α} {w w' : σ} {ts : List (Transition σ F)}
    {r : Except I.Error α} (h : p.Evaluates M.exec w ts r w') {s : Config I T α σ} {i : ℕ}
    {t : Thread I T α} (hstate : s.state = w) (hget : s.threads[i]? = some t)
    (halive : t.crashed = false) (hprog : t.prog = p) :
    ∃ us s' t', Run M.step s us s' ∧ us.map Transition.act = ts.map (fun t ↦ .call i t.act) ∧
      s'.state = w' ∧ s'.threads[i]? = some t' ∧ t'.task = t.task ∧ t'.prog = .done r ∧
      t'.crashed = false := by
  induction h generalizing s t with
  | done r w => exact ⟨[], s, t, .nil, rfl, hstate, hget, rfl, hprog, halive⟩
  | @call c next w w₁ w' f x ts r hexec hrest ih =>
      subst hstate
      let s₁ : Config I T α σ := ⟨w₁, s.threads.set i (t.resume c next x) ++ (M.forks c).map M.start⟩
      have hstep : M.step s (.call i f) = some s₁ := by
        simp [step, stepCall, hget, halive, hprog, hexec, s₁]
      have hlt : i < s.threads.length := (List.getElem?_eq_some_iff.mp hget).1
      have hget₁ : s₁.threads[i]? = some (t.resume c next x) := by
        change (s.threads.set i (t.resume c next x) ++ _)[i]? = _
        rw [List.getElem?_append_left (by simpa using hlt)]
        exact List.getElem?_set_self hlt
      obtain ⟨us, s', t', hrun, hacts, hstate', hget', htask, hprog', halive'⟩ :=
        ih (s := s₁) rfl hget₁ halive rfl
      exact ⟨_, s', t', Run.cons hstep hrun, by simp [hacts], hstate', hget', htask, hprog',
        halive'⟩

end Machine

end VideoGen
