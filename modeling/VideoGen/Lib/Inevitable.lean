import VideoGen.Lib.Run

/-!
# What inevitably happens

Only some continuations of a run are considered, and some of their steps are work.
A goal is inevitable when work can be done as long as it has not been reached, and
is reached however the work goes on.  A measure that work decreases shows it.
-/

namespace VideoGen

section Inevitable

variable {σ A : Type} (step : σ → A → Option σ)
  (Continues : List (Transition σ A) → List (Transition σ A) → Prop) (Works : A → Prop)

/-- The run `ts` goes on with `us`, and some work is done. -/
structure Onward (ts us : List (Transition σ A)) (s s' : σ) : Prop where
  run : Run step s us s'
  continues : Continues ts us
  works : ∃ t ∈ us, Works t.act

/-- Work leads to the goal, and can be done until it is reached. -/
inductive Inevitable (goal : σ → Prop) : List (Transition σ A) → σ → Prop where
  | reached {ts : List (Transition σ A)} {s : σ} (h : goal s) : Inevitable goal ts s
  | ahead {ts : List (Transition σ A)} {s : σ}
      (hcan : ∃ us s', Onward step Continues Works ts us s s')
      (hall : ∀ us s', Onward step Continues Works ts us s s' → Inevitable goal (ts ++ us) s') :
      Inevitable goal ts s

variable {step Continues Works} {goal : σ → Prop} {ts : List (Transition σ A)} {s : σ}

/-- It is enough that work decreases a measure and can be done away from the goal. -/
theorem Inevitable.of_measure (Inv : List (Transition σ A) → σ → Prop) (measure : σ → ℕ)
    (hkept : ∀ ts us s s', Inv ts s → Onward step Continues Works ts us s s' →
      Inv (ts ++ us) s' ∧ measure s' < measure s)
    (hcan : ∀ ts s, Inv ts s → ¬goal s → ∃ us s', Onward step Continues Works ts us s s')
    (h : Inv ts s) : Inevitable step Continues Works goal ts s := by
  induction hn : measure s using Nat.strongRecOn generalizing ts s with
  | ind n ih =>
      by_cases hgoal : goal s
      · exact .reached hgoal
      · apply Inevitable.ahead (hcan ts s h hgoal)
        intro us s' honward
        obtain ⟨hinv, hless⟩ := hkept ts us s s' h honward
        exact ih (measure s') (hn ▸ hless) hinv rfl

theorem Inevitable.exists_run (h : Inevitable step Continues Works goal ts s) :
    ∃ us s', Run step s us s' ∧ goal s' := by
  induction h with
  | @reached ts s h => exact ⟨[], s, .nil, h⟩
  | ahead hcan hall ih =>
      obtain ⟨us, s', honward⟩ := hcan
      obtain ⟨vs, s'', hrest, hgoal⟩ := ih us s' honward
      exact ⟨us ++ vs, s'', honward.run.append hrest, hgoal⟩

end Inevitable

end VideoGen
