import Mathlib
import VideoGen.Lib.Pool
import VideoGen.Lib.Table

/-!
# Budgets

Every call has a price.  A program spends at most `n` when its calls cost at most
`n` together, however they are answered; the bounds of its parts add up.  In a pool
the task of a thread sets its budget, and what the log has not spent is in reserve.
A potential that pays for every step of a run out of its decrease and of what is
granted bounds what the run spends.
-/

namespace VideoGen

namespace Program

variable {I : Interface} {α β : Type} {price : I.Call → ℕ} {n m : ℕ}

/-- The calls of the program cost at most so much, whatever the replies. -/
def AtMost (price : I.Call → ℕ) : Program I α → ℕ → Prop
  | .done _, _ => True
  | .call c next, n => price c ≤ n ∧ ∀ r, (next r).AtMost price (n - price c)

theorem atMost_pure (a : α) (n : ℕ) : (pure a : Program I α).AtMost price n := trivial

theorem atMost_throw (e : I.Error) (n : ℕ) : (throw e : Program I α).AtMost price n := trivial

theorem atMost_perform {c : I.Call} (h : price c ≤ n) : (perform c).AtMost price n :=
  ⟨h, fun _ ↦ trivial⟩

theorem AtMost.mono {p : Program I α} (h : p.AtMost price n) (hle : n ≤ m) :
    p.AtMost price m := by
  induction p generalizing n m with
  | done r => trivial
  | call c next ih =>
      obtain ⟨hprice, hnext⟩ := h
      exact ⟨Nat.le_trans hprice hle, fun r ↦ ih r (hnext r) (by omega)⟩

theorem AtMost.bind {p : Program I α} {f : α → Program I β} (hp : p.AtMost price n)
    (hf : ∀ a, (f a).AtMost price m) : (p >>= f).AtMost price (n + m) := by
  change (p.bind f).AtMost price (n + m)
  induction p generalizing n with
  | done r =>
      cases r with
      | ok a => exact (hf a).mono (Nat.le_add_left m n)
      | error e => trivial
  | call c next ih =>
      obtain ⟨hprice, hnext⟩ := hp
      refine ⟨by omega, fun r ↦ (ih r (hnext r)).mono ?_⟩
      omega

theorem AtMost.map {p : Program I α} (hp : p.AtMost price n) (f : α → β) :
    (f <$> p).AtMost price n :=
  hp.bind fun a ↦ atMost_pure (f a) 0

theorem AtMost.attempt {p : Program I α} (hp : p.AtMost price n) : p.attempt.AtMost price n := by
  induction p generalizing n with
  | done r => trivial
  | call c next ih => exact ⟨hp.1, fun r ↦ ih r (hp.2 r)⟩

theorem AtMost.catchWith {p : Program I α} {h : I.Error → Program I α}
    (hp : p.AtMost price n) (hh : ∀ e, (h e).AtMost price m) :
    (p.catchWith h).AtMost price (n + m) := by
  refine hp.attempt.bind fun r ↦ ?_
  cases r with
  | ok a => exact atMost_pure a m
  | error e => exact hh e

end Program

/-! ## Budgets of threads -/

namespace Machine

variable {I : Interface} {T α σ F L : Type} {M : Machine I T α σ F L}
  (price : I.Call → ℕ) (budget : T → ℕ)

def spent (log : List (Exchange I)) : ℕ := (log.map fun x ↦ price x.1).sum

/-- What the thread has not spent of its budget. -/
def reserve (t : Thread I T α) : ℕ := budget t.task - spent price t.log

/-- The thread keeps to its budget, and will do so. -/
structure Within (t : Thread I T α) : Prop where
  spent_le : spent price t.log ≤ budget t.task
  atMost : t.prog.AtMost price (reserve price budget t)

def reserves (threads : List (Thread I T α)) : ℕ := (threads.map (reserve price budget)).sum

variable {price budget}

theorem spent_snoc (log : List (Exchange I)) (x : Exchange I) :
    spent price (log ++ [x]) = spent price log + price x.1 := by
  simp [spent]

theorem within_start (hbody : ∀ task, (M.body task).AtMost price (budget task)) (task : T) :
    Within price budget (M.start task) := by
  constructor
  · exact Nat.zero_le _
  · exact hbody task

theorem Within.pays {t : Thread I T α} {c : I.Call}
    {next : Except I.Error (I.Reply c) → Program I α} (h : Within price budget t)
    (hprog : t.prog = .call c next) (r : Except I.Error (I.Reply c)) :
    Within price budget (t.resume c next r) ∧
      reserve price budget (t.resume c next r) + price c = reserve price budget t := by
  have hatMost := h.atMost
  rw [hprog] at hatMost
  obtain ⟨hprice, hnext⟩ := hatMost
  have hspent : spent price (t.resume c next r).log = spent price t.log + price c :=
    spent_snoc t.log ⟨c, r⟩
  have hreserve : reserve price budget (t.resume c next r) =
      reserve price budget t - price c := by
    unfold reserve
    rw [hspent, Thread.resume_task]
    omega
  refine ⟨⟨?_, ?_⟩, ?_⟩
  · have hle := h.spent_le
    unfold reserve at hprice
    rw [hspent, Thread.resume_task]
    omega
  · rw [hreserve]
    exact hnext r
  · omega

theorem step_within (hbody : ∀ task, (M.body task).AtMost price (budget task))
    {s s' : Config I T α σ} {a : Act T F L} (hstep : M.step s a = some s')
    (hs : ∀ t ∈ s.threads, Within price budget t) :
    ∀ t ∈ s'.threads, Within price budget t :=
  step_forall_threads hstep (within_start hbody)
    (fun _ _ _ _ _ r _ hprog _ h ↦ (h.pays hprog r).1) (fun _ h ↦ ⟨h.spent_le, h.atMost⟩) hs

theorem reserves_append (threads threads' : List (Thread I T α)) :
    reserves price budget (threads ++ threads') =
      reserves price budget threads + reserves price budget threads' := by
  simp [reserves]

theorem reserves_start (tasks : List T) :
    reserves price budget (tasks.map M.start) = (tasks.map budget).sum := by
  induction tasks with
  | nil => rfl
  | cons task tasks ih =>
      simp only [reserves, List.map_cons, List.sum_cons] at ih ⊢
      rw [ih]
      rfl

theorem reserves_set {threads : List (Thread I T α)} {i : ℕ} {t : Thread I T α}
    (hget : threads[i]? = some t) (u : Thread I T α) :
    reserves price budget (threads.set i u) + reserve price budget t =
      reserves price budget threads + reserve price budget u := by
  induction threads generalizing i with
  | nil => cases hget
  | cons v threads ih =>
      cases i with
      | zero =>
          obtain rfl : v = t := by simpa using hget
          simp only [reserves, List.set_cons_zero, List.map_cons, List.sum_cons]
          omega
      | succ i =>
          have hrest := ih (i := i) (by simpa using hget)
          simp only [reserves, List.set_cons_succ, List.map_cons, List.sum_cons] at hrest ⊢
          omega

theorem reserves_of_call {s s' : Config I T α σ} {i : ℕ} {f : F}
    (hstep : M.step s (.call i f) = some s') (hs : ∀ t ∈ s.threads, Within price budget t) :
    ∃ t c r, (∃ u, Called M s s' i f t u c r) ∧
      reserves price budget s'.threads + price c =
        reserves price budget s.threads + ((M.forks c).map budget).sum := by
  obtain ⟨t, c, next, r, hprog, h⟩ := called_of_step hstep
  refine ⟨t, c, r, ⟨_, h⟩, ?_⟩
  have hpays := ((hs t (List.mem_of_getElem? h.get)).pays hprog r).2
  have hset : reserves price budget (s.threads.set i (t.resume c next r)) + _ = _ + _ :=
    reserves_set h.get (t.resume c next r)
  rw [h.threads_eq, reserves_append, reserves_start]
  omega

end Machine

/-! ## Sums over a table -/

namespace Table

variable {ρ κ : Type} {key : ρ → κ} [DecidableEq κ]

theorem sum_modify {t : Table key} {k : κ} {r : ρ} (hr : t.find? k = some r) (f : ρ → ρ)
    (hf : ∀ r, key (f r) = key r) (g : ρ → ℕ) :
    ((t.modify k f hf).rows.map g).sum + g r = (t.rows.map g).sum + g (f r) := by
  obtain ⟨l₁, l₂, hrows, hrows'⟩ := rows_modify hr f hf
  rw [hrows, hrows']
  simp only [List.map_append, List.map_cons, List.sum_append, List.sum_cons]
  omega

end Table

/-! ## The potential method -/

/-- When every step is paid out of the decrease of the potential and of what the step is
granted, then so is the whole run. -/
theorem Run.paid {σ A : Type} {step : σ → A → Option σ} {s₀ s : σ}
    {ts : List (Transition σ A)} (potential : σ → ℕ) (charge grant : Transition σ A → ℕ)
    (hrun : Run step s₀ ts s)
    (hpaid : ∀ t ∈ ts, potential t.after + charge t ≤ potential t.before + grant t) :
    (ts.map charge).sum + potential s ≤ potential s₀ + (ts.map grant).sum := by
  induction hrun with
  | nil => simp
  | @snoc ts s s' a head last ih =>
      have hrest := ih fun t ht ↦ hpaid t (List.mem_append_left _ ht)
      have hlast := hpaid ⟨s, a, s'⟩ (List.mem_append_right _ (List.mem_singleton_self _))
      simp only [List.map_append, List.sum_append, List.map_cons, List.map_nil, List.sum_cons,
        List.sum_nil]
      simp only at hlast
      omega

end VideoGen
