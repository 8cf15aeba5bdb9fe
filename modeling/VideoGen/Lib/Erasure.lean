import VideoGen.Lib.Pool

/-!
# Runs without the calls of one thread

A program is blind to some part of its replies when it goes on in the same
way whatever that part is.  If the calls of one thread change nothing but
what all other threads are blind to, the same schedule without these calls
is a run as well, and it ends in the same state up to that part
(`Machine.run_erase`).
-/

namespace VideoGen

variable {I : Interface} {α β : Type}

/-! ## Blind programs -/

namespace Program

/-- The program goes on in the same way after replies of which `see` shows the same. -/
def Blind (see : (c : I.Call) → I.Reply c → I.Reply c) : Program I α → Prop
  | .done _ => True
  | .call c next => (∀ x y, see c x = see c y → next (.ok x) = next (.ok y)) ∧
      ∀ r, (next r).Blind see

variable {see : (c : I.Call) → I.Reply c → I.Reply c}

@[simp] theorem blind_pure {a : α} : (Pure.pure a : Program I α).Blind see := trivial

@[simp] theorem blind_throw {e : I.Error} : (Program.throw e : Program I α).Blind see := trivial

theorem blind_bind {p : Program I α} {f : α → Program I β} (hp : p.Blind see)
    (hf : ∀ a, (f a).Blind see) : (p >>= f).Blind see := by
  change (p.bind f).Blind see
  induction p with
  | done r =>
      cases r with
      | ok a => exact hf a
      | error e => trivial
  | call c next ih =>
      exact ⟨fun x y hxy ↦ congrArg (Program.bind · f) (hp.1 x y hxy), fun r ↦ ih r (hp.2 r)⟩

theorem blind_map {p : Program I α} {f : α → β} (hp : p.Blind see) : (f <$> p).Blind see :=
  blind_bind hp fun _ ↦ trivial

theorem blind_attempt {p : Program I α} (hp : p.Blind see) : p.attempt.Blind see := by
  induction p with
  | done r => trivial
  | call c next ih =>
      exact ⟨fun x y hxy ↦ congrArg Program.attempt (hp.1 x y hxy), fun r ↦ ih r (hp.2 r)⟩

theorem blind_catchWith {p : Program I α} {h : I.Error → Program I α} (hp : p.Blind see)
    (hh : ∀ e, (h e).Blind see) : (p.catchWith h).Blind see := by
  refine blind_bind (blind_attempt hp) fun r ↦ ?_
  cases r with
  | ok a => trivial
  | error e => exact hh e

theorem blind_perform {c : I.Call} (hc : ∀ x, see c x = x) : (perform c).Blind see := by
  refine ⟨fun x y hxy ↦ ?_, fun _ ↦ trivial⟩
  rw [hc, hc] at hxy
  rw [hxy]

theorem blind_perform_bind {c : I.Call} {f : I.Reply c → Program I α}
    (hsame : ∀ x y, see c x = see c y → f x = f y) (hf : ∀ x, (f x).Blind see) :
    (perform c >>= f).Blind see := by
  refine ⟨hsame, fun r ↦ ?_⟩
  cases r with
  | ok x => exact hf x
  | error e => trivial

theorem Blind.follows {p q : Program I α} {log : List (Exchange I)} (hp : p.Blind see)
    (h : p.Follows log q) : q.Blind see := by
  induction log generalizing p with
  | nil => exact follows_nil.mp h ▸ hp
  | cons x log ih =>
      cases p with
      | done r => exact h.elim
      | call c next =>
          obtain ⟨r, rfl, h⟩ := h
          exact ih (hp.2 r) h

end Program

/-! ## Erasing the calls of a thread -/

def Act.isCallOf {T F L : Type} (k : ℕ) : Act T F L → Bool
  | .call i _ => i = k
  | _ => false

namespace Machine

variable {T σ F L : Type}

/-- Two configurations that differ in what `N` hides of the state and in how far
thread `k` has come. -/
structure Beside (N : σ → σ) (k : ℕ) (s s' : Config I T α σ) : Prop where
  state : N s.state = N s'.state
  length : s.threads.length = s'.threads.length
  others : ∀ (i : ℕ) (t : Thread I T α), i ≠ k → s.threads[i]? = some t →
    ∃ t', s'.threads[i]? = some t' ∧ t'.task = t.task ∧ t'.prog = t.prog ∧
      t'.crashed = t.crashed

variable {M : Machine I T α σ F L} {N : σ → σ} {k : ℕ} {s s' u : Config I T α σ}

namespace Beside

theorem get_some (h : Beside N k s u) {i : ℕ} {t : Thread I T α} (ht : s.threads[i]? = some t) :
    ∃ t', u.threads[i]? = some t' := by
  have hlt := (List.getElem?_eq_some_iff.mp ht).1
  rw [h.length] at hlt
  exact ⟨_, List.getElem?_eq_getElem hlt⟩

theorem append (h : Beside N k s u) {w w' : σ} (hw : N w = N w') (tasks : List T) :
    Beside N k ⟨w, s.threads ++ tasks.map M.start⟩ ⟨w', u.threads ++ tasks.map M.start⟩ := by
  refine ⟨hw, by simp [h.length], ?_⟩
  intro i t hi ht
  rcases get_append_cases ht with hold | ⟨hle, hmem⟩
  · obtain ⟨t', ht', hrest⟩ := h.others i t hi hold
    have hlt := (List.getElem?_eq_some_iff.mp ht').1
    exact ⟨t', by rw [List.getElem?_append_left hlt]; exact ht', hrest⟩
  · refine ⟨t, ?_, rfl, rfl, rfl⟩
    rw [List.getElem?_append_right hle] at ht
    rw [List.getElem?_append_right (h.length ▸ hle), ← h.length]
    exact ht

theorem set (h : Beside N k s u) {w w' : σ} (hw : N w = N w') {i : ℕ} {t t' : Thread I T α}
    (hsame : i ≠ k → t'.task = t.task ∧ t'.prog = t.prog ∧ t'.crashed = t.crashed) :
    Beside N k ⟨w, s.threads.set i t⟩ ⟨w', u.threads.set i t'⟩ := by
  refine ⟨hw, by simp [h.length], ?_⟩
  intro j v hj hv
  by_cases hji : j = i
  · subst hji
    have hlt : j < s.threads.length := by
      have hlt := (List.getElem?_eq_some_iff.mp hv).1
      simpa using hlt
    simp only [List.getElem?_set_self hlt] at hv
    obtain rfl := Option.some.inj hv
    exact ⟨t', List.getElem?_set_self (h.length ▸ hlt), hsame hj⟩
  · simp only [List.getElem?_set_ne (Ne.symm hji)] at hv ⊢
    exact h.others j v hj hv

end Beside

/-- What erasing the calls of thread `k` needs of the machine: calls and environment
steps cannot tell configurations apart that differ only in what is hidden. -/
structure Hides (M : Machine I T α σ F L) (N : σ → σ) (see : (c : I.Call) → I.Reply c → I.Reply c)
    (k : ℕ) (Inv : Config I T α σ → Prop) : Prop where
  exec : ∀ (w u w' : σ) (c : I.Call) (f : F) (r : Except I.Error (I.Reply c)), N w = N u →
    M.exec w c f = some (w', r) → ∃ u' r', M.exec u c f = some (u', r') ∧ N w' = N u' ∧
      r.map (see c) = r'.map (see c)
  env : ∀ (s u : Config I T α σ) (l : L) (w : σ) (tasks : List T), Inv s → Beside N k s u →
    M.env s.state s.threads l = some (w, tasks) →
    ∃ w', M.env u.state u.threads l = some (w', tasks) ∧ N w = N w'

variable {see : (c : I.Call) → I.Reply c → I.Reply c} {Inv : Config I T α σ → Prop}

theorem Hides.step (hM : M.Hides N see k Inv) {a : Act T F L} (ha : a.isCallOf k = false)
    (hinv : Inv s) (hblind : ∀ (i : ℕ) (t : Thread I T α), i ≠ k → s.threads[i]? = some t →
      t.prog.Blind see)
    (hstep : M.step s a = some s') (h : Beside N k s u) :
    ∃ u', M.step u a = some u' ∧ Beside N k s' u' := by
  cases a with
  | invoke task =>
      obtain rfl := Option.some.inj hstep
      exact ⟨_, rfl, h.append h.state [task]⟩
  | crash i =>
      obtain ⟨t, ht, rfl⟩ := M.step_crash_cases hstep
      obtain ⟨t', ht'⟩ := h.get_some ht
      refine ⟨{ u with threads := u.threads.set i { t' with crashed := true } },
        by simp [Machine.step, ht'], h.set h.state fun hi ↦ ?_⟩
      obtain ⟨t₀, ht₀, htask, hprog, -⟩ := h.others i t hi ht
      obtain rfl := Option.some.inj (ht'.symm.trans ht₀)
      exact ⟨htask, hprog, rfl⟩
  | env l =>
      obtain ⟨w, tasks, henv, rfl⟩ := M.step_env_cases hstep
      obtain ⟨w', henv', hw⟩ := hM.env s u l w tasks hinv h henv
      refine ⟨⟨w', u.threads ++ tasks.map M.start⟩, ?_, h.append hw tasks⟩
      simp [Machine.step, henv']
  | call i f =>
      have hi : i ≠ k := of_decide_eq_false ha
      obtain ⟨t, c, next, w, r, ht, halive, hprog, hexec, rfl⟩ := M.stepCall_cases hstep
      obtain ⟨t', ht', htask, hprog', hcrashed⟩ := h.others i t hi ht
      obtain ⟨w', r', hexec', hw, hsee⟩ := hM.exec s.state u.state w c f r h.state hexec
      rw [hprog] at hprog'
      have hnext : next r = next r' := by
        have hsame := hblind i t hi ht
        rw [hprog] at hsame
        cases r with
        | ok x =>
            cases r' with
            | ok y => exact hsame.1 x y (Except.ok.inj hsee)
            | error e => cases hsee
        | error e =>
            cases r' with
            | ok y => cases hsee
            | error e' =>
                obtain rfl := Except.error.inj hsee
                rfl
      refine ⟨⟨w', u.threads.set i (t'.resume c next r') ++ (M.forks c).map M.start⟩, ?_, ?_⟩
      · simp [Machine.step, stepCall, ht', hcrashed, halive, hprog', hexec']
      · have hset : Beside N k ⟨w, s.threads.set i (t.resume c next r)⟩
            ⟨w', u.threads.set i (t'.resume c next r')⟩ :=
          h.set hw fun _ ↦ ⟨htask, hnext.symm, hcrashed⟩
        exact hset.append hw (M.forks c)

/-- When the calls of thread `k` change only what is hidden and start no tasks, and all
other threads are blind to it, the schedule without these calls is a run that ends beside
the given one. -/
theorem run_erase {s₀ : Config I T α σ} {ts : List (Transition (Config I T α σ) (Act T F L))}
    (hM : M.Hides N see k Inv) (hrun : Run M.step s₀ ts s)
    (hinv : ∀ v ∈ ts, Inv v.before)
    (hblind : ∀ v ∈ ts, ∀ (i : ℕ) (t : Thread I T α), i ≠ k → v.before.threads[i]? = some t →
      t.prog.Blind see)
    (hhidden : ∀ v ∈ ts, v.act.isCallOf k = true →
      N v.after.state = N v.before.state ∧
        v.after.threads.length = v.before.threads.length) :
    ∃ ts' s', Run M.step s₀ ts' s' ∧
      ts'.map Transition.act = (ts.map Transition.act).filter (!·.isCallOf k) ∧
      Beside N k s s' := by
  induction hrun with
  | nil =>
      exact ⟨[], s₀, .nil, rfl, rfl, rfl, fun i t _ ht ↦ ⟨t, ht, rfl, rfl, rfl⟩⟩
  | @snoc ts s s' a head last ih =>
      obtain ⟨ts', u, hrun', hacts, h⟩ := ih (fun v hv ↦ hinv v (List.mem_append_left _ hv))
        (fun v hv ↦ hblind v (List.mem_append_left _ hv))
        fun v hv ↦ hhidden v (List.mem_append_left _ hv)
      have hlast : (⟨s, a, s'⟩ : Transition (Config I T α σ) (Act T F L)) ∈
          ts ++ [⟨s, a, s'⟩] := by simp
      cases ha : a.isCallOf k with
      | true =>
          obtain ⟨hstate, hlength⟩ := hhidden _ hlast ha
          refine ⟨ts', u, hrun', by simp [hacts, ha], hstate.trans h.state,
            hlength.trans h.length, ?_⟩
          intro i t hi ht
          rcases called_cases last ht with ⟨t₀, ht₀, rfl | ⟨hcrash, -⟩⟩ | ⟨hle, -⟩ |
            ⟨f, t₀, c, next, r, hcall, -⟩
          · exact h.others i t hi ht₀
          · rw [hcrash] at ha
            cases ha
          · have hlt := (List.getElem?_eq_some_iff.mp ht).1
            simp only at hlength
            omega
          · rw [hcall] at ha
            exact absurd (of_decide_eq_true ha) hi
      | false =>
          obtain ⟨u', hstep', h'⟩ := hM.step ha (hinv _ hlast) (hblind _ hlast) last h
          exact ⟨_, u', hrun'.snoc a hstep', by simp [hacts, ha], h'⟩

end Machine

end VideoGen
