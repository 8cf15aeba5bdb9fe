import Mathlib.Algebra.Group.Nat.Defs
import Mathlib.Algebra.Group.Pi.Basic
import Mathlib.Algebra.GroupWithZero.Nat
import Mathlib.Order.Basic
import VideoGen.Lib.Table

/-!
# Tokens on places

The items of a list, or the rows of a table, lie on places; the marking counts
the items on each.  When one item changes its place, the marking fires: a
token is taken from the old place and put down on the new one.  Firings of
several stores add up, so that the moves of a step are read off item by item.
-/

namespace VideoGen

/-- How many tokens lie on each place. -/
abbrev Marking (P : Type) := P → ℕ

variable {P α : Type} [DecidableEq P]

def token (p : Option P) : Marking P := fun x ↦ if p = some x then 1 else 0

@[simp] theorem token_none : token (none : Option P) = 0 := by
  funext x
  simp [token]

theorem token_some_self (p : P) : token (some p) p = 1 := by simp [token]

omit [DecidableEq P] in
/-- The tokens `pre` are taken away and the tokens `post` are put down. -/
def Fires (pre post m m' : Marking P) : Prop := m' + pre = m + post

namespace Fires

variable {pre post pre' post' m m' n n' : Marking P}

omit [DecidableEq P] in
theorem apply (h : Fires pre post m m') (x : P) : m' x + pre x = m x + post x :=
  congrFun h x

omit [DecidableEq P] in
theorem refl (m : Marking P) : Fires 0 0 m m := rfl

omit [DecidableEq P] in
theorem add (h : Fires pre post m m') (h' : Fires pre' post' n n') :
    Fires (pre + pre') (post + post') (m + n) (m' + n') := by
  funext x
  have hx := h.apply x
  have hx' := h'.apply x
  simp only [Pi.add_apply]
  omega

omit [DecidableEq P] in
theorem eq_of_same (h : Fires pre pre m m') : m' = m := by
  funext x
  have hx := h.apply x
  omega

end Fires

/-! ## Items on places -/

variable {place place' : α → Option P} {l : List α} {a b : α} {x : P}

def census (place : α → Option P) (l : List α) : Marking P :=
  fun x ↦ l.countP fun a ↦ place a = some x

@[simp] theorem census_nil : census place ([] : List α) = 0 := rfl

theorem census_append (l l' : List α) :
    census place (l ++ l') = census place l + census place l' := by
  funext x
  simp [census, List.countP_append]

theorem census_singleton (a : α) : census place [a] = token (place a) := by
  funext x
  by_cases h : place a = some x <;> simp [census, token, h]

theorem census_cons (a : α) (l : List α) :
    census place (a :: l) = token (place a) + census place l := by
  rw [← List.singleton_append, census_append, census_singleton]

theorem census_congr (h : ∀ a ∈ l, place' a = place a) : census place' l = census place l := by
  funext x
  apply List.countP_congr
  intro a ha
  rw [h a ha]

theorem census_eq_zero (h : ∀ a ∈ l, place a = none) : census place l = 0 := by
  funext x
  apply List.countP_eq_zero.mpr
  intro a ha
  simp [h a ha]

theorem census_pos (ha : a ∈ l) (hp : place a = some x) : 0 < census place l x :=
  List.countP_pos_iff.mpr ⟨a, ha, by simp [hp]⟩

theorem exists_of_census_pos (h : 0 < census place l x) : ∃ a ∈ l, place a = some x := by
  obtain ⟨a, ha, hp⟩ := List.countP_pos_iff.mp h
  exact ⟨a, ha, of_decide_eq_true hp⟩

theorem token_le_census (place : α → Option P) (ha : a ∈ l) : token (place a) ≤ census place l := by
  intro x
  by_cases hp : place a = some x
  · have hpos := census_pos ha hp
    rw [token, if_pos hp]
    exact hpos
  · rw [token, if_neg hp]
    exact Nat.zero_le _

theorem census_eq_count (place : α → Option P) (l : List α) (x : P) :
    census place l x = (l.filterMap place).count x := by
  induction l with
  | nil => rfl
  | cons a l ih =>
      rw [census_cons, Pi.add_apply, ih]
      cases hp : place a with
      | none => simp [hp, token_none]
      | some y =>
          rw [List.filterMap_cons_some hp, List.count_cons]
          by_cases hxy : y = x <;> simp [token, hxy]
          omega

theorem nodup_of_census_le_one (h : ∀ x, census place l x ≤ 1) : (l.filterMap place).Nodup := by
  rw [List.nodup_iff_count_le_one]
  intro x
  rw [← census_eq_count]
  exact h x

theorem countP_places (place : α → Option P) (ps : List P) (hps : ps.Nodup) {p : α → Bool}
    (h : ∀ a ∈ l, p a = true ↔ ∃ x ∈ ps, place a = some x) :
    l.countP p = (ps.map (census place l)).sum := by
  induction ps generalizing p with
  | nil =>
      rw [List.map_nil, List.sum_nil, List.countP_eq_zero]
      intro a ha hp
      obtain ⟨x, hx, -⟩ := (h a ha).mp hp
      cases hx
  | cons y ps ih =>
      obtain ⟨hy, hps⟩ := List.nodup_cons.mp hps
      have hone : l.countP (fun a ↦ p a && decide (place a = some y)) = census place l y := by
        apply List.countP_congr
        intro a ha
        by_cases hp : place a = some y
        · simp [hp, (h a ha).mpr ⟨y, List.mem_cons_self, hp⟩]
        · simp [hp]
      have hrest : l.countP (fun a ↦ p a && !decide (place a = some y)) =
          (ps.map (census place l)).sum := by
        apply ih hps
        intro a ha
        constructor
        · intro hpa
          simp only [Bool.and_eq_true, Bool.not_eq_true', decide_eq_false_iff_not] at hpa
          obtain ⟨x, hx, hplace⟩ := (h a ha).mp hpa.1
          rcases List.mem_cons.mp hx with rfl | hx
          · exact absurd hplace hpa.2
          · exact ⟨x, hx, hplace⟩
        · rintro ⟨x, hx, hplace⟩
          have hne : x ≠ y := fun heq ↦ hy (heq ▸ hx)
          simp [hplace, hne, (h a ha).mpr ⟨x, List.mem_cons_of_mem y hx, hplace⟩]
      have hsplit := List.countP_eq_countP_filter_add l p fun a ↦ decide (place a = some y)
      rw [List.countP_filter, List.countP_filter] at hsplit
      rw [List.map_cons, List.sum_cons, ← hrest, ← hone]
      exact hsplit

theorem tokens_le_census {i j : ℕ} (hne : i ≠ j) (ha : l[i]? = some a) (hb : l[j]? = some b) :
    token (place a) + token (place b) ≤ census place l := by
  induction l generalizing i j with
  | nil => simp at ha
  | cons c l ih =>
      rw [census_cons]
      cases i with
      | zero =>
          cases j with
          | zero => exact absurd rfl hne
          | succ j =>
              obtain rfl : c = a := by simpa using ha
              have hmem : b ∈ l := List.mem_of_getElem? (by simpa using hb)
              have hle := token_le_census place hmem
              intro x
              have hx : token (place b) x ≤ census place l x := hle x
              simp only [Pi.add_apply]
              omega
      | succ i =>
          have ha' : l[i]? = some a := by simpa using ha
          cases j with
          | zero =>
              obtain rfl : c = b := by simpa using hb
              have hle := token_le_census place (List.mem_of_getElem? ha')
              intro x
              have hx : token (place a) x ≤ census place l x := hle x
              simp only [Pi.add_apply]
              omega
          | succ j =>
              have hb' : l[j]? = some b := by simpa using hb
              have hle := ih (fun h ↦ hne (congrArg Nat.succ h)) ha' hb'
              intro x
              have hx : token (place a) x + token (place b) x ≤ census place l x := hle x
              simp only [Pi.add_apply]
              omega

theorem fires_set (place : α → Option P) {i : ℕ} (ha : l[i]? = some a) (b : α) :
    Fires (token (place a)) (token (place b)) (census place l) (census place (l.set i b)) := by
  induction l generalizing i with
  | nil => simp at ha
  | cons c l ih =>
      cases i with
      | zero =>
          obtain rfl : c = a := by simpa using ha
          funext x
          simp only [List.set_cons_zero, census_cons, Pi.add_apply]
          omega
      | succ i =>
          have hrest := ih (i := i) (by simpa using ha)
          funext x
          have hx := hrest.apply x
          simp only [List.set_cons_succ, census_cons, Pi.add_apply]
          omega

theorem fires_append (place : α → Option P) (l l' : List α) :
    Fires 0 (census place l') (census place l) (census place (l ++ l')) := by
  rw [census_append]
  rfl

/-! ## Rows on places -/

section Rows

variable {κ : Type} [DecidableEq κ] {key : α → κ} {t : Table key} {k : κ}

/-- One row changes its place: the rows with other keys stay where they are. -/
theorem fires_row (place place' : α → Option P) (ha : t.find? k = some a)
    (hothers : ∀ r ∈ t.rows, key r ≠ k → place' r = place r) :
    Fires (token (place a)) (token (place' a)) (census place t.rows) (census place' t.rows) := by
  obtain ⟨hmem, hkey⟩ := Table.find?_eq_some_iff.mp ha
  obtain ⟨l₁, l₂, hrows⟩ := List.append_of_mem hmem
  have hnodup := t.nodup
  rw [hrows, List.map_append, List.map_cons, List.nodup_append] at hnodup
  have h₁ : census place' l₁ = census place l₁ := by
    apply census_congr
    intro r hr
    refine hothers r (by simp [hrows, hr]) fun hk ↦ ?_
    exact hnodup.2.2 (key r) (List.mem_map_of_mem hr) (key a) (by simp) (hk.trans hkey.symm)
  have h₂ : census place' l₂ = census place l₂ := by
    apply census_congr
    intro r hr
    refine hothers r (by simp [hrows, hr]) fun hk ↦ ?_
    exact (List.nodup_cons.mp hnodup.2.1).1 (hkey.trans hk.symm ▸ List.mem_map_of_mem hr)
  funext x
  simp only [hrows, census_append, census_cons, h₁, h₂, Pi.add_apply]
  omega

/-- Modifying one row, while the places of the others may be seen in a new way that
keeps them. -/
theorem fires_modify (place place' : α → Option P) (ha : t.find? k = some a) (f : α → α) (hf : ∀ r, key (f r) = key r)
    (hothers : ∀ r ∈ t.rows, key r ≠ k → place' r = place r) :
    Fires (token (place a)) (token (place' (f a))) (census place t.rows)
      (census place' (t.modify k f hf).rows) := by
  have hmap : census place' (t.modify k f hf).rows =
      census (fun r ↦ place' (if key r = k then f r else r)) t.rows := by
    funext x
    simp only [census, Table.modify, List.countP_map]
    rfl
  have hrow := fires_row place (fun r ↦ place' (if key r = k then f r else r)) ha ?_
  · rw [if_pos (Table.key_of_find? ha)] at hrow
    rw [hmap]
    exact hrow
  · intro r hr hk
    rw [if_neg hk]
    exact hothers r hr hk

end Rows

end VideoGen
