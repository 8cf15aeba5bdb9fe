import VideoGen.Lib.Pool

/-!
# Refinement of pools

A pool implements another one that runs the same programs when each of its
steps, seen through a map of the states, is a step of the other one.  The
outcomes may be of another kind; how they are seen can depend on the state and
on the call.
-/

namespace VideoGen

variable {I : Interface} {T α σ σ' F F' L : Type}

namespace Machine

/-- The first pool implements the second one. -/
structure Implements (M : Machine I T α σ F L) (N : Machine I T α σ' F' L) where
  state : σ → σ'
  fate : σ → I.Call → F → F'
  body_eq : N.body = M.body
  forks_eq : N.forks = M.forks
  exec : ∀ w c f w' r, M.exec w c f = some (w', r) →
    N.exec (state w) c (fate w c f) = some (state w', r)
  env : ∀ w threads l w' tasks, M.env w threads l = some (w', tasks) →
    N.env (state w) threads l = some (state w', tasks)

namespace Implements

variable {M : Machine I T α σ F L} {N : Machine I T α σ' F' L} (R : Implements M N)
  {s s' s₀ : Config I T α σ}

def config (s : Config I T α σ) : Config I T α σ' := ⟨R.state s.state, s.threads⟩

/-- The act as the second pool sees it, if the thread that it answers waits for a call. -/
def act? (s : Config I T α σ) : Act T F L → Option (Act T F' L)
  | .invoke task => some (.invoke task)
  | .call i f => (s.threads[i]?.bind Thread.pending?).map fun c ↦ .call i (R.fate s.state c f)
  | .crash i => some (.crash i)
  | .env l => some (.env l)

def transition? (t : Transition (Config I T α σ) (Act T F L)) :
    Option (Transition (Config I T α σ') (Act T F' L)) :=
  (R.act? t.before t.act).map fun a ↦ ⟨R.config t.before, a, R.config t.after⟩

include R in
theorem start_eq (task : T) : N.start task = M.start task := by
  rw [start, start, R.body_eq]

theorem step {a : Act T F L} (h : M.step s a = some s') :
    ∃ a', R.act? s a = some a' ∧ N.step (R.config s) a' = some (R.config s') := by
  have hstarts (tasks : List T) : tasks.map N.start = tasks.map M.start :=
    List.map_congr_left fun task _ ↦ R.start_eq task
  cases a with
  | invoke task =>
      obtain rfl := Option.some.inj h
      refine ⟨_, rfl, ?_⟩
      simp [Machine.step, config, R.start_eq]
  | crash i =>
      obtain ⟨t, ht, rfl⟩ := M.step_crash_cases h
      refine ⟨_, rfl, ?_⟩
      simp [Machine.step, config, ht]
  | env l =>
      obtain ⟨w, tasks, henv, rfl⟩ := M.step_env_cases h
      refine ⟨_, rfl, ?_⟩
      simp [Machine.step, config, R.env _ _ _ _ _ henv, hstarts]
  | call i f =>
      obtain ⟨t, c, next, w, r, ht, halive, hprog, hexec, rfl⟩ := M.stepCall_cases h
      have hpending : t.pending? = some c := Thread.pending?_eq_some_iff.mpr ⟨next, hprog⟩
      refine ⟨.call i (R.fate s.state c f), by simp [act?, ht, hpending], ?_⟩
      simp [Machine.step, stepCall, config, ht, halive, hprog, R.exec _ _ _ _ _ hexec,
        R.forks_eq, hstarts]

def views (ts : List (Transition (Config I T α σ) (Act T F L))) :
    List (Transition (Config I T α σ') (Act T F' L)) := ts.filterMap R.transition?

@[simp] theorem views_nil : R.views [] = [] := rfl

theorem views_snoc (ts : List (Transition (Config I T α σ) (Act T F L))) {t : Transition _ _}
    {t' : Transition _ _} (h : R.transition? t = some t') :
    R.views (ts ++ [t]) = R.views ts ++ [t'] := by
  rw [views, List.filterMap_append, List.filterMap_cons_some h, List.filterMap_nil, views]

theorem transition?_of_step {a : Act T F L} (h : M.step s a = some s') :
    ∃ a', R.transition? ⟨s, a, s'⟩ = some ⟨R.config s, a', R.config s'⟩ ∧
      R.act? s a = some a' ∧ N.step (R.config s) a' = some (R.config s') := by
  obtain ⟨a', hact, hstep⟩ := R.step h
  exact ⟨a', by simp [transition?, hact], hact, hstep⟩

theorem run {ts : List (Transition (Config I T α σ) (Act T F L))}
    (h : Run M.step s₀ ts s) : ts.map R.transition? = (R.views ts).map some ∧
      Run N.step (R.config s₀) (R.views ts) (R.config s) := by
  induction h with
  | nil => exact ⟨rfl, .nil⟩
  | @snoc ts s s' a head last ih =>
      obtain ⟨hviews, hrun⟩ := ih
      obtain ⟨a', hview, -, hstep⟩ := R.transition?_of_step last
      rw [R.views_snoc ts hview]
      exact ⟨by simp [hviews, hview], hrun.snoc a' hstep⟩

theorem invokesOnly {p : T → Prop} {ts : List (Transition (Config I T α σ) (Act T F L))}
    (h : ∀ t ∈ ts, t.act.InvokesOnly p) : ∀ t ∈ R.views ts, t.act.InvokesOnly p := by
  intro t' ht'
  obtain ⟨t, ht, hview⟩ := List.mem_filterMap.mp ht'
  obtain ⟨a, hact, rfl⟩ := Option.map_eq_some_iff.mp hview
  have htask := h t ht
  cases hkind : t.act with
  | invoke task =>
      rw [hkind] at hact htask
      obtain rfl := Option.some.inj hact
      exact htask
  | call i f =>
      rw [hkind] at hact
      obtain ⟨c, -, rfl⟩ := Option.map_eq_some_iff.mp hact
      trivial
  | crash i =>
      rw [hkind] at hact
      obtain rfl := Option.some.inj hact
      trivial
  | env l =>
      rw [hkind] at hact
      obtain rfl := Option.some.inj hact
      trivial

end Implements

end Machine

end VideoGen
