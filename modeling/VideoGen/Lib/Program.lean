import Mathlib.Logic.Relation

/-!
# Programs that talk to an environment

An asynchronous function is modelled by the tree of the calls it awaits.
A node asks one question; the continuation receives either the reply or
the error with which the call was rejected.  Sequencing and `try`/`catch`
are operations on trees, so a residual program is again a program and can
be suspended between any two of its calls.
-/

namespace VideoGen

/-- The calls a program can make, what each replies, and what can be thrown. -/
structure Interface where
  Call : Type
  Reply : Call → Type
  Error : Type

inductive Program (I : Interface) (α : Type) : Type where
  | done (result : Except I.Error α)
  | call (c : I.Call) (next : Except I.Error (I.Reply c) → Program I α)

namespace Program

variable {I : Interface} {α β S : Type}

def bind : Program I α → (α → Program I β) → Program I β
  | .done (.ok a), f => f a
  | .done (.error e), _ => .done (.error e)
  | .call c next, f => .call c fun r ↦ (next r).bind f

/-- The end of a program as a value, also when it is an error. -/
def attempt : Program I α → Program I (Except I.Error α)
  | .done r => .done (.ok r)
  | .call c next => .call c fun r ↦ (next r).attempt

def throw (e : I.Error) : Program I α := .done (.error e)

def perform (c : I.Call) : Program I (I.Reply c) := .call c .done

instance : Monad (Program I) where
  pure a := .done (.ok a)
  bind := bind

/-- Run the handler on the error of a program, as `try`/`catch` does: calls of
the handler are outside the `try`. -/
def catchWith (p : Program I α) (h : I.Error → Program I α) : Program I α :=
  p.attempt >>= fun
    | .ok a => pure a
    | .error e => h e

theorem bind_assoc {γ : Type} (p : Program I α) (f : α → Program I β) (g : β → Program I γ) :
    (p >>= f) >>= g = p >>= fun a ↦ f a >>= g := by
  change (p.bind f).bind g = p.bind fun a ↦ (f a).bind g
  induction p with
  | done r => cases r <;> rfl
  | call c next ih => exact congrArg (Program.call c) (funext ih)

def Finished : Program I α → Prop
  | .done _ => True
  | .call _ _ => False

instance : DecidablePred (Finished (I := I) (α := α))
  | .done _ => isTrue trivial
  | .call _ _ => isFalse id

end Program

/-! ## Specifications of calls -/

/-- What a program may ask in each state and how a reply moves the state.
The state can be that of an automaton watching the program, or the state of
the environment itself. -/
structure Spec (I : Interface) (S : Type) where
  Allows : S → I.Call → Prop
  Moves : S → (c : I.Call) → Except I.Error (I.Reply c) → S → Prop

namespace Program

variable {I : Interface} {α β S : Type}

/-- Every call the program makes is allowed where it is made, whatever the
replies, and every end it reaches satisfies `Post`. -/
def Keeps (P : Spec I S) (Post : S → Except I.Error α → Prop) :
    Program I α → S → Prop
  | .done r, s => Post s r
  | .call c next, s => P.Allows s c ∧
      ∀ r s', P.Moves s c r s' → (next r).Keeps P Post s'

variable {P : Spec I S}

@[simp] theorem keeps_done {Post : S → Except I.Error α → Prop}
    {r : Except I.Error α} {s : S} :
    (Program.done r).Keeps P Post s ↔ Post s r := Iff.rfl

@[simp] theorem keeps_pure {Post : S → Except I.Error α → Prop} {a : α} {s : S} :
    (Pure.pure a : Program I α).Keeps P Post s ↔ Post s (.ok a) := Iff.rfl

@[simp] theorem keeps_throw {Post : S → Except I.Error α → Prop}
    {e : I.Error} {s : S} :
    (Program.throw e : Program I α).Keeps P Post s ↔ Post s (.error e) := Iff.rfl

@[simp] theorem keeps_call {Post : S → Except I.Error α → Prop} {c : I.Call}
    {next : Except I.Error (I.Reply c) → Program I α} {s : S} :
    (Program.call c next).Keeps P Post s ↔ P.Allows s c ∧
      ∀ r s', P.Moves s c r s' → (next r).Keeps P Post s' := Iff.rfl

@[simp] theorem keeps_perform {c : I.Call}
    {Post : S → Except I.Error (I.Reply c) → Prop} {s : S} :
    (perform c).Keeps P Post s ↔ P.Allows s c ∧
      ∀ r s', P.Moves s c r s' → Post s' r := Iff.rfl

theorem Keeps.mono {Post Post' : S → Except I.Error α → Prop}
    (hpost : ∀ s r, Post s r → Post' s r) {p : Program I α} :
    ∀ {s : S}, p.Keeps P Post s → p.Keeps P Post' s := by
  induction p with
  | done r => exact fun h ↦ hpost _ r h
  | call c next ih =>
      rintro s ⟨hallow, hnext⟩
      exact ⟨hallow, fun r s' hmove ↦ ih r (hnext r s' hmove)⟩

/-- The end of the first program is either passed on to the second one or,
when it is an error, ends the whole. -/
def Then (P : Spec I S) (Post : S → Except I.Error β → Prop)
    (f : α → Program I β) (s : S) : Except I.Error α → Prop
  | .ok a => (f a).Keeps P Post s
  | .error e => Post s (.error e)

@[simp] theorem then_ok {Post : S → Except I.Error β → Prop}
    {f : α → Program I β} {s : S} {a : α} :
    Then P Post f s (.ok a) ↔ (f a).Keeps P Post s := Iff.rfl

@[simp] theorem then_error {Post : S → Except I.Error β → Prop}
    {f : α → Program I β} {s : S} {e : I.Error} :
    Then P Post f s (.error e) ↔ Post s (.error e) := Iff.rfl

@[simp] theorem keeps_bind {Post : S → Except I.Error β → Prop}
    {p : Program I α} {f : α → Program I β} {s : S} :
    (p >>= f).Keeps P Post s ↔ p.Keeps P (Then P Post f) s := by
  change (p.bind f).Keeps P Post s ↔ _
  induction p generalizing s with
  | done r => cases r <;> rfl
  | call c next ih =>
      exact and_congr Iff.rfl (forall_congr' fun r ↦ forall_congr' fun s' ↦
        imp_congr Iff.rfl (ih r))

@[simp] theorem keeps_map {Post : S → Except I.Error β → Prop}
    {p : Program I α} {f : α → β} {s : S} :
    (f <$> p).Keeps P Post s ↔ p.Keeps P (fun s r ↦ Post s (r.map f)) s := by
  change (p >>= fun a ↦ pure (f a)).Keeps P Post s ↔ _
  rw [keeps_bind]
  constructor <;> refine Keeps.mono fun s r ↦ ?_ <;> cases r <;> exact id

/-- The end of a `try` block: its value ends the whole, its error is handled. -/
def Else (P : Spec I S) (Post : S → Except I.Error α → Prop)
    (h : I.Error → Program I α) (s : S) : Except I.Error α → Prop
  | .ok a => Post s (.ok a)
  | .error e => (h e).Keeps P Post s

@[simp] theorem else_ok {Post : S → Except I.Error α → Prop}
    {h : I.Error → Program I α} {s : S} {a : α} :
    Else P Post h s (.ok a) ↔ Post s (.ok a) := Iff.rfl

@[simp] theorem else_error {Post : S → Except I.Error α → Prop}
    {h : I.Error → Program I α} {s : S} {e : I.Error} :
    Else P Post h s (.error e) ↔ (h e).Keeps P Post s := Iff.rfl

@[simp] theorem keeps_attempt {Post : S → Except I.Error (Except I.Error α) → Prop}
    {p : Program I α} {s : S} :
    p.attempt.Keeps P Post s ↔ p.Keeps P (fun s r ↦ Post s (.ok r)) s := by
  induction p generalizing s with
  | done r => rfl
  | call c next ih =>
      exact and_congr Iff.rfl (forall_congr' fun r ↦ forall_congr' fun s' ↦
        imp_congr Iff.rfl (ih r))

@[simp] theorem keeps_catchWith {Post : S → Except I.Error α → Prop}
    {p : Program I α} {h : I.Error → Program I α} {s : S} :
    (p.catchWith h).Keeps P Post s ↔ p.Keeps P (Else P Post h) s := by
  rw [catchWith, keeps_bind, keeps_attempt]
  constructor <;> refine Keeps.mono fun s r ↦ ?_ <;> cases r <;> exact id

end Program

/-! ## The calls of a program -/

namespace Program

variable {I : Interface} {α β : Type} {Q : I.Call → Prop}

def Calls (Q : I.Call → Prop) : Program I α → Prop
  | .done _ => True
  | .call c next => Q c ∧ ∀ r, (next r).Calls Q

theorem calls_of_forall (h : ∀ c, Q c) (p : Program I α) : p.Calls Q := by
  induction p with
  | done r => trivial
  | call c next ih => exact ⟨h c, ih⟩

theorem calls_perform {c : I.Call} (h : Q c) : (perform c).Calls Q := ⟨h, fun _ ↦ trivial⟩

theorem Calls.bind {p : Program I α} {f : α → Program I β} (hp : p.Calls Q)
    (hf : ∀ a, (f a).Calls Q) : (p >>= f).Calls Q := by
  change (p.bind f).Calls Q
  induction p with
  | done r =>
      cases r with
      | ok a => exact hf a
      | error e => trivial
  | call c next ih => exact ⟨hp.1, fun r ↦ ih r (hp.2 r)⟩

theorem Calls.map {p : Program I α} (hp : p.Calls Q) (f : α → β) : (f <$> p).Calls Q :=
  hp.bind fun _ ↦ trivial

theorem Calls.attempt {p : Program I α} (hp : p.Calls Q) : p.attempt.Calls Q := by
  induction p with
  | done r => trivial
  | call c next ih => exact ⟨hp.1, fun r ↦ ih r (hp.2 r)⟩

theorem Calls.catchWith {p : Program I α} {h : I.Error → Program I α} (hp : p.Calls Q)
    (hh : ∀ e, (h e).Calls Q) : (p.catchWith h).Calls Q := by
  refine hp.attempt.bind fun r ↦ ?_
  cases r with
  | ok a => trivial
  | error e => exact hh e

end Program

/-! ## What remains of a program -/

/-- After the exchanges of the log, `q` is left of the program. -/
def Program.Follows {I : Interface} {α : Type} : Program I α →
    List (Σ c : I.Call, Except I.Error (I.Reply c)) → Program I α → Prop
  | p, [], q => p = q
  | .done _, _ :: _, _ => False
  | .call c next, x :: log, q => ∃ r, x = ⟨c, r⟩ ∧ (next r).Follows log q

@[simp] theorem Program.follows_nil {I : Interface} {α : Type} {p q : Program I α} :
    p.Follows [] q ↔ p = q := by
  cases p <;> rfl

theorem Program.Follows.snoc {I : Interface} {α : Type} {c : I.Call}
    {next : Except I.Error (I.Reply c) → Program I α}
    {log : List (Σ c : I.Call, Except I.Error (I.Reply c))} {p : Program I α}
    (h : p.Follows log (.call c next)) (r : Except I.Error (I.Reply c)) :
    p.Follows (log ++ [⟨c, r⟩]) (next r) := by
  induction log generalizing p with
  | nil =>
      obtain rfl := Program.follows_nil.mp h
      exact ⟨r, rfl, Program.follows_nil.mpr rfl⟩
  | cons x log ih =>
      cases p with
      | done r' => exact h.elim
      | call c' next' =>
          obtain ⟨r', rfl, h⟩ := h
          exact ⟨r', rfl, ih h⟩

theorem Program.Follows.of_call {I : Interface} {α : Type} {c : I.Call}
    {next : Except I.Error (I.Reply c) → Program I α} {result : Except I.Error α}
    {log : List (Σ c : I.Call, Except I.Error (I.Reply c))}
    (h : (Program.call c next).Follows log (.done result)) :
    ∃ r rest, log = ⟨c, r⟩ :: rest ∧ (next r).Follows rest (.done result) := by
  cases log with
  | nil => cases Program.follows_nil.mp h
  | cons x rest =>
      obtain ⟨r, rfl, h⟩ := h
      exact ⟨r, rest, rfl, h⟩

theorem Program.Follows.of_done {I : Interface} {α : Type} {result result' : Except I.Error α}
    {log : List (Σ c : I.Call, Except I.Error (I.Reply c))}
    (h : (Program.done result).Follows log (.done result')) : log = [] ∧ result' = result := by
  cases log with
  | nil =>
      obtain rfl := Program.done.inj (Program.follows_nil.mp h)
      exact ⟨rfl, rfl⟩
  | cons x rest => exact h.elim

theorem Program.not_follows_done {I : Interface} {α : Type} {result : Except I.Error α}
    {log : List (Σ c : I.Call, Except I.Error (I.Reply c))} {c : I.Call}
    {next : Except I.Error (I.Reply c) → Program I α} :
    ¬(Program.done result).Follows log (.call c next) := by
  intro h
  cases log with
  | nil => cases Program.follows_nil.mp h
  | cons x rest => exact h.elim

theorem Program.Follows.of_perform_bind {I : Interface} {α : Type} {c c' : I.Call}
    {f : I.Reply c → Program I α} {next : Except I.Error (I.Reply c') → Program I α}
    {log : List (Σ c : I.Call, Except I.Error (I.Reply c))}
    (h : (Program.perform c >>= f).Follows log (.call c' next)) :
    (log = [] ∧ c = c') ∨
      ∃ a rest, log = ⟨c, .ok a⟩ :: rest ∧ (f a).Follows rest (.call c' next) := by
  cases log with
  | nil =>
      have heq : Program.call c _ = Program.call c' next := Program.follows_nil.mp h
      cases heq
      exact .inl ⟨rfl, rfl⟩
  | cons x rest =>
      obtain ⟨r, rfl, h⟩ := h
      cases r with
      | error e => exact absurd h Program.not_follows_done
      | ok a => exact .inr ⟨a, rest, rfl, h⟩

theorem Program.follows_bind_done_iff {I : Interface} {α β : Type} {p : Program I α}
    {f : α → Program I β} {log : List (Σ c : I.Call, Except I.Error (I.Reply c))}
    {r : Except I.Error β} : (p >>= f).Follows log (.done r) ↔
      (∃ log₁ a log₂, p.Follows log₁ (.done (.ok a)) ∧ (f a).Follows log₂ (.done r) ∧
        log = log₁ ++ log₂) ∨
      ∃ e, p.Follows log (.done (.error e)) ∧ r = .error e := by
  change (p.bind f).Follows log (.done r) ↔ _
  induction p generalizing log with
  | done x =>
      cases x with
      | ok a =>
          constructor
          · intro h
            exact .inl ⟨[], a, log, Program.follows_nil.mpr rfl, h, rfl⟩
          · rintro (⟨log₁, a', log₂, h, h', rfl⟩ | ⟨e, h, -⟩)
            · obtain ⟨rfl, ha⟩ := h.of_done
              obtain rfl := Except.ok.inj ha
              exact h'
            · cases h.of_done.2
      | error e =>
          constructor
          · intro h
            obtain ⟨rfl, rfl⟩ := Program.Follows.of_done h
            exact .inr ⟨e, Program.follows_nil.mpr rfl, rfl⟩
          · rintro (⟨log₁, a, log₂, h, -, -⟩ | ⟨e', h, rfl⟩)
            · cases h.of_done.2
            · obtain ⟨rfl, he⟩ := h.of_done
              obtain rfl := Except.error.inj he
              exact Program.follows_nil.mpr rfl
  | call c next ih =>
      constructor
      · intro h
        obtain ⟨x, rest, rfl, hrest⟩ := Program.Follows.of_call h
        rcases (ih x).mp hrest with ⟨log₁, a, log₂, h₁, h₂, rfl⟩ | ⟨e, h₁, rfl⟩
        · exact .inl ⟨⟨c, x⟩ :: log₁, a, log₂, ⟨x, rfl, h₁⟩, h₂, rfl⟩
        · exact .inr ⟨e, ⟨x, rfl, h₁⟩, rfl⟩
      · rintro (⟨log₁, a, log₂, h₁, h₂, rfl⟩ | ⟨e, h₁, rfl⟩)
        · obtain ⟨x, rest, rfl, hrest⟩ := h₁.of_call
          exact ⟨x, rfl, (ih x).mpr (.inl ⟨rest, a, log₂, hrest, h₂, rfl⟩)⟩
        · obtain ⟨x, rest, rfl, hrest⟩ := h₁.of_call
          exact ⟨x, rfl, (ih x).mpr (.inr ⟨e, hrest, rfl⟩)⟩

theorem Program.follows_attempt_done_iff {I : Interface} {α : Type} {p : Program I α}
    {log : List (Σ c : I.Call, Except I.Error (I.Reply c))}
    {r : Except I.Error (Except I.Error α)} :
    p.attempt.Follows log (.done r) ↔ ∃ x, r = .ok x ∧ p.Follows log (.done x) := by
  induction p generalizing log with
  | done x =>
      constructor
      · intro h
        obtain ⟨rfl, rfl⟩ := Program.Follows.of_done h
        exact ⟨x, rfl, Program.follows_nil.mpr rfl⟩
      · rintro ⟨y, rfl, h⟩
        obtain ⟨rfl, rfl⟩ := h.of_done
        exact Program.follows_nil.mpr rfl
  | call c next ih =>
      constructor
      · intro h
        obtain ⟨y, rest, rfl, hrest⟩ := Program.Follows.of_call h
        obtain ⟨x, rfl, hx⟩ := (ih y).mp hrest
        exact ⟨x, rfl, y, rfl, hx⟩
      · rintro ⟨x, rfl, h⟩
        obtain ⟨y, rest, rfl, hrest⟩ := h.of_call
        exact ⟨y, rfl, (ih y).mpr ⟨x, rfl, hrest⟩⟩

theorem Program.Follows.calls {I : Interface} {α : Type} {Q : I.Call → Prop}
    {log : List (Σ c : I.Call, Except I.Error (I.Reply c))} {p q : Program I α}
    (h : p.Follows log q) (hp : p.Calls Q) : (∀ x ∈ log, Q x.1) ∧ q.Calls Q := by
  induction log generalizing p with
  | nil =>
      obtain rfl := Program.follows_nil.mp h
      exact ⟨by simp, hp⟩
  | cons x log ih =>
      cases p with
      | done r => exact h.elim
      | call c next =>
          obtain ⟨r, rfl, h⟩ := h
          obtain ⟨hlog, hq⟩ := ih h (hp.2 r)
          exact ⟨List.forall_mem_cons.mpr ⟨hp.1, hlog⟩, hq⟩

/-! ## Watching automata -/

/-- A deterministic specification: an automaton that reads the exchanges of a
program and says which call may come next, for an environment that gives only
possible replies. -/
structure Protocol (I : Interface) (S : Type) where
  Allows : S → I.Call → Prop
  Possible : (c : I.Call) → Except I.Error (I.Reply c) → Prop
  next : S → (c : I.Call) → Except I.Error (I.Reply c) → S

namespace Protocol

variable {I : Interface} {S : Type}

def spec (P : Protocol I S) : Spec I S where
  Allows := P.Allows
  Moves s c r s' := P.Possible c r ∧ s' = P.next s c r

@[simp] theorem spec_allows {P : Protocol I S} {s : S} {c : I.Call} :
    P.spec.Allows s c ↔ P.Allows s c := Iff.rfl

@[simp] theorem spec_moves {P : Protocol I S} {s s' : S} {c : I.Call}
    {r : Except I.Error (I.Reply c)} :
    P.spec.Moves s c r s' ↔ P.Possible c r ∧ s' = P.next s c r := Iff.rfl

def after (P : Protocol I S) (s : S) (log : List (Σ c : I.Call,
    Except I.Error (I.Reply c))) : S :=
  log.foldl (fun s x ↦ P.next s x.1 x.2) s

@[simp] theorem after_nil (P : Protocol I S) (s : S) : P.after s [] = s := rfl

@[simp] theorem after_append_singleton (P : Protocol I S) (s : S)
    (log : List (Σ c : I.Call, Except I.Error (I.Reply c)))
    (x : Σ c : I.Call, Except I.Error (I.Reply c)) :
    P.after s (log ++ [x]) = P.next (P.after s log) x.1 x.2 := by
  simp [after]

end Protocol

/-- In a state of the automaton that allows every call and is never left, every
program conforms. -/
theorem Program.keeps_of_stable {I : Interface} {α S : Type} {P : Protocol I S}
    {Post : S → Except I.Error α → Prop} {s : S} (hallows : ∀ c, P.Allows s c)
    (hnext : ∀ c r, P.next s c r = s) (hpost : ∀ r, Post s r) (p : Program I α) :
    p.Keeps P.spec Post s := by
  induction p with
  | done r => exact hpost r
  | call c next ih =>
      refine ⟨hallows c, ?_⟩
      rintro r s' ⟨-, rfl⟩
      rw [hnext]
      exact ih r

def Protocol.prod {I : Interface} {S S' : Type} (P : Protocol I S) (P' : Protocol I S') :
    Protocol I (S × S') where
  Allows s c := P.Allows s.1 c ∧ P'.Allows s.2 c
  Possible c r := P.Possible c r ∧ P'.Possible c r
  next s c r := (P.next s.1 c r, P'.next s.2 c r)

theorem Program.Keeps.prod {I : Interface} {α S S' : Type} {P : Protocol I S}
    {P' : Protocol I S'} {Post : S → Except I.Error α → Prop}
    {Post' : S' → Except I.Error α → Prop} {p : Program I α} :
    ∀ {s : S} {s' : S'}, p.Keeps P.spec Post s → p.Keeps P'.spec Post' s' →
      p.Keeps (P.prod P').spec (fun x r ↦ Post x.1 r ∧ Post' x.2 r) (s, s') := by
  induction p with
  | done r => exact fun h h' ↦ ⟨h, h'⟩
  | call c next ih =>
      rintro s s' ⟨hallow, hnext⟩ ⟨hallow', hnext'⟩
      refine ⟨⟨hallow, hallow'⟩, ?_⟩
      rintro r x ⟨⟨hr, hr'⟩, rfl⟩
      exact ih r (hnext r _ ⟨hr, rfl⟩) (hnext' r _ ⟨hr', rfl⟩)

theorem Program.Calls.keeps {I : Interface} {α S : Type} {P : Protocol I S}
    {Q : I.Call → Prop} {p : Program I α} (hp : p.Calls Q) {s : S}
    (hallows : ∀ c, Q c → P.Allows s c) (hnext : ∀ c r, Q c → P.next s c r = s) :
    p.Keeps P.spec (fun s' _ ↦ s' = s) s := by
  induction p with
  | done r => rfl
  | call c next ih =>
      refine ⟨hallows c hp.1, ?_⟩
      rintro r s' ⟨-, rfl⟩
      rw [hnext c r hp.1]
      exact ih r (hp.2 r)

theorem Program.Calls.keeps_bind {I : Interface} {α β S : Type} {P : Protocol I S}
    {Q : I.Call → Prop} {p : Program I α} {f : α → Program I β}
    {Post : S → Except I.Error β → Prop} (hp : p.Calls Q) {s : S}
    (hallows : ∀ c, Q c → P.Allows s c) (hnext : ∀ c r, Q c → P.next s c r = s)
    (hf : ∀ a, (f a).Keeps P.spec Post s) (herror : ∀ e, Post s (.error e)) :
    (p >>= f).Keeps P.spec Post s := by
  refine Program.keeps_bind.mpr (Program.Keeps.mono ?_ (hp.keeps hallows hnext))
  rintro s' (e | a) rfl
  · exact herror e
  · exact hf a

theorem Program.Calls.keeps_anywhere {I : Interface} {α S : Type} {P : Protocol I S}
    {Q : I.Call → Prop} {p : Program I α} (hp : p.Calls Q)
    (hallows : ∀ s c, Q c → P.Allows s c) (s : S) : p.Keeps P.spec (fun _ _ ↦ True) s := by
  induction p generalizing s with
  | done r => trivial
  | call c next ih =>
      refine ⟨hallows s c hp.1, ?_⟩
      rintro r s' ⟨-, rfl⟩
      exact ih r (hp.2 r) _

theorem Program.Follows.keeps {I : Interface} {α S : Type} {P : Protocol I S}
    {Post : S → Except I.Error α → Prop} {p q : Program I α}
    {log : List (Σ c : I.Call, Except I.Error (I.Reply c))} (h : p.Follows log q) {s : S}
    (hp : p.Keeps P.spec Post s) (hlog : ∀ x ∈ log, P.Possible x.1 x.2) :
    q.Keeps P.spec Post (P.after s log) := by
  induction log generalizing p s with
  | nil =>
      obtain rfl := Program.follows_nil.mp h
      exact hp
  | cons x log ih =>
      cases p with
      | done r => exact h.elim
      | call c next =>
          obtain ⟨r, rfl, h⟩ := h
          obtain ⟨hfirst, hrest⟩ := List.forall_mem_cons.mp hlog
          exact ih h (hp.2 r _ ⟨hfirst, rfl⟩) hrest

/-- A program that conforms to one automaton conforms to a second one whose
states embed those of the first. -/
theorem Program.Keeps.embed {I : Interface} {α S S' : Type} {P : Protocol I S}
    {P' : Protocol I S'} (f : S → S') {Post : S → Except I.Error α → Prop}
    {Post' : S' → Except I.Error α → Prop}
    (hallows : ∀ s c, P.Allows s c → P'.Allows (f s) c)
    (hpossible : ∀ c r, P'.Possible c r → P.Possible c r)
    (hnext : ∀ s c r, P'.next (f s) c r = f (P.next s c r))
    (hpost : ∀ s r, Post s r → Post' (f s) r) {p : Program I α} :
    ∀ {s : S}, p.Keeps P.spec Post s → p.Keeps P'.spec Post' (f s) := by
  induction p with
  | done r => exact hpost _ r
  | call c next ih =>
      rintro s ⟨hallow, hnext'⟩
      refine ⟨hallows s c hallow, ?_⟩
      rintro r s' ⟨hr, rfl⟩
      rw [hnext]
      exact ih r (hnext' r _ ⟨hpossible c r hr, rfl⟩)

end VideoGen
