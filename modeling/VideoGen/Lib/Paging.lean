import Mathlib.Data.List.Nodup
import Mathlib.Order.Lattice

/-!
# Pages of a sorted result

Rows are sorted by a key that may not tell them apart, and every page is cut
out of an ordering of its own.  The pages contain every row exactly once,
whatever the orderings, if no page boundary falls between two rows with equal
keys (`Unsplit.ordered_pagesOf`), and only then (`unsplit_of_nodup`).
-/

namespace VideoGen

variable {α κ : Type} [LinearOrder κ] {key : α → κ} {rows l l' : List α} {a : α} {limit n i : ℕ}

/-- The rows in descending order of their keys. -/
structure Ordered (key : α → κ) (rows l : List α) : Prop where
  perm : l.Perm rows
  sorted : l.Pairwise fun a b ↦ key b ≤ key a

/-- The page with the index `k`, from 0 on. -/
def pageOf (limit k : ℕ) (l : List α) : List α := (l.drop (k * limit)).take limit

/-- The first `n` pages, each of an ordering of its own. -/
def pagesOf (limit n : ℕ) (orders : ℕ → List α) : List α :=
  (List.range n).flatMap fun k ↦ pageOf limit k (orders k)

def before (key : α → κ) (rows : List α) (k : κ) : ℕ := rows.countP fun b ↦ k < key b

def upTo (key : α → κ) (rows : List α) (k : κ) : ℕ := rows.countP fun b ↦ k ≤ key b

/-- No page boundary falls between two rows with equal keys. -/
def Unsplit (key : α → κ) (limit : ℕ) (rows : List α) : Prop :=
  ∀ a ∈ rows, ∀ m, ¬(before key rows (key a) < m * limit ∧ m * limit < upTo key rows (key a))

/-! ## Positions -/

/-- In an ordering a row stands behind the rows with greater keys and before those with smaller
ones. -/
theorem Ordered.position (h : Ordered key rows l) (ha : l[i]? = some a) :
    before key rows (key a) ≤ i ∧ i < upTo key rows (key a) := by
  obtain ⟨hlt, hget⟩ := List.getElem?_eq_some_iff.mp ha
  have hsorted := h.sorted
  rw [← List.take_append_drop i l, List.drop_eq_getElem_cons hlt, hget,
    List.pairwise_append] at hsorted
  obtain ⟨-, hdrop, htake⟩ := hsorted
  constructor
  · unfold before
    rw [← h.perm.countP_eq, ← List.take_append_drop i l, List.countP_append,
      List.drop_eq_getElem_cons hlt, hget]
    have hzero : (a :: l.drop (i + 1)).countP (fun b ↦ key a < key b) = 0 := by
      apply List.countP_eq_zero.mpr
      intro b hb
      rcases List.mem_cons.mp hb with rfl | hb
      · simp
      · simpa using (List.pairwise_cons.mp hdrop).1 b hb
    have hle := List.countP_le_length (p := fun b ↦ decide (key a < key b)) (l := l.take i)
    rw [List.length_take] at hle
    omega
  · unfold upTo
    rw [← h.perm.countP_eq, ← List.take_append_drop i l, List.countP_append,
      List.drop_eq_getElem_cons hlt, hget, List.countP_cons_of_pos (by simp)]
    have hall : (l.take i).countP (fun b ↦ key a ≤ key b) = (l.take i).length := by
      apply List.countP_eq_length.mpr
      intro b hb
      simpa using htake b hb a List.mem_cons_self
    rw [hall, List.length_take]
    omega

theorem Ordered.key_at (h : Ordered key rows l) (ha : l[i]? = some a) {k : κ}
    (hbefore : before key rows k ≤ i) (hupTo : i < upTo key rows k) : key a = k := by
  obtain ⟨hlow, hhigh⟩ := h.position ha
  rcases lt_trichotomy (key a) k with hlt | heq | hgt
  · have hle : upTo key rows k ≤ before key rows (key a) := by
      apply List.countP_mono_left
      intro b _ hb
      have hk : k ≤ key b := by simpa using hb
      simpa using lt_of_lt_of_le hlt hk
    omega
  · exact heq
  · have hle : upTo key rows (key a) ≤ before key rows k := by
      apply List.countP_mono_left
      intro b _ hb
      have hk : key a ≤ key b := by simpa using hb
      simpa using lt_of_lt_of_le hgt hk
    omega

theorem mem_pageOf_iff (k : ℕ) :
    a ∈ pageOf limit k l ↔ ∃ i, l[i]? = some a ∧ k * limit ≤ i ∧ i < k * limit + limit := by
  unfold pageOf
  rw [List.mem_iff_getElem?]
  constructor
  · rintro ⟨j, hj⟩
    rw [List.getElem?_take] at hj
    split at hj
    · rename_i hlt
      rw [List.getElem?_drop] at hj
      exact ⟨k * limit + j, hj, by omega, by omega⟩
    · cases hj
  · rintro ⟨i, hi, hlow, hhigh⟩
    refine ⟨i - k * limit, ?_⟩
    rw [List.getElem?_take, if_pos (by omega), List.getElem?_drop]
    have hsum : k * limit + (i - k * limit) = i := by omega
    rw [hsum]
    exact hi

theorem Ordered.mem_take_or (h : Ordered key rows l) (ha : a ∈ rows) :
    a ∈ l.take n ∨ ((l.take n).length = n ∧ ∀ b ∈ l.take n, key a ≤ key b) := by
  have hmem : a ∈ l := h.perm.mem_iff.mpr ha
  have hsorted := h.sorted
  rw [← List.take_append_drop n l] at hmem hsorted
  rcases List.mem_append.mp hmem with htake | hdrop
  · exact .inl htake
  · refine .inr ⟨?_, fun b hb ↦ (List.pairwise_append.mp hsorted).2.2 b hb a hdrop⟩
    have hpos := List.length_pos_of_mem hdrop
    rw [List.length_drop] at hpos
    rw [List.length_take]
    omega

/-- When no group of rows is split, the page of a row does not depend on the ordering. -/
theorem Unsplit.mem_pageOf_iff (h : Unsplit key limit rows) (hlimit : 0 < limit)
    (hl : Ordered key rows l) (k : ℕ) :
    a ∈ pageOf limit k l ↔ a ∈ rows ∧ before key rows (key a) / limit = k := by
  -- Every position of the row lies on the page of the first row with its key.
  have hdiv (i : ℕ) (ha : l[i]? = some a) : i / limit = before key rows (key a) / limit := by
    obtain ⟨hlow, hhigh⟩ := hl.position ha
    have hmem : a ∈ rows := hl.perm.mem_iff.mp (List.mem_of_getElem? ha)
    apply Nat.le_antisymm
    · by_contra hgt
      have hle : i / limit * limit ≤ i := Nat.div_mul_le_self i limit
      have hlt : before key rows (key a) < i / limit * limit :=
        (Nat.div_lt_iff_lt_mul hlimit).mp (by omega)
      exact h a hmem (i / limit) ⟨hlt, by omega⟩
    · exact Nat.div_le_div_right hlow
  rw [VideoGen.mem_pageOf_iff]
  constructor
  · rintro ⟨i, hi, hlow, hhigh⟩
    refine ⟨hl.perm.mem_iff.mp (List.mem_of_getElem? hi), ?_⟩
    rw [← hdiv i hi]
    apply Nat.div_eq_of_lt_le hlow
    rw [Nat.succ_mul]
    exact hhigh
  · rintro ⟨hmem, hk⟩
    obtain ⟨i, hi⟩ := List.mem_iff_getElem?.mp (hl.perm.mem_iff.mpr hmem)
    refine ⟨i, hi, ?_⟩
    rw [← hdiv i hi] at hk
    subst hk
    have hlow := Nat.div_mul_le_self i limit
    have hhigh := Nat.lt_div_mul_add (a := i) hlimit
    omega

/-! ## All pages together -/

theorem pagesOf_same (l : List α) : pagesOf limit n (fun _ ↦ l) = l.take (n * limit) := by
  unfold pagesOf
  induction n with
  | zero => simp
  | succ n ih =>
      rw [List.range_succ, List.flatMap_append, ih, List.flatMap_singleton, Nat.succ_mul,
        List.take_add]
      rfl

theorem Ordered.map_key_eq (h : Ordered key rows l) (h' : Ordered key rows l') :
    l.map key = l'.map key := by
  have hanti : ∀ a b : κ, a ∈ l.map key → b ∈ l'.map key → b ≤ a → a ≤ b → a = b :=
    fun a b _ _ hba hab ↦ le_antisymm hab hba
  exact List.Perm.eq_of_pairwise hanti (List.pairwise_map.mpr h.sorted)
    (List.pairwise_map.mpr h'.sorted) ((h.perm.trans h'.perm.symm).map key)

omit [LinearOrder κ] in
theorem map_pageOf (k : ℕ) (l : List α) : (pageOf limit k l).map key = pageOf limit k (l.map key) := by
  simp [pageOf, List.map_take, List.map_drop]

theorem sorted_pagesOf {orders : ℕ → List α} (h : ∀ k, Ordered key rows (orders k)) :
    (pagesOf limit n orders).Pairwise fun a b ↦ key b ≤ key a := by
  have hkeys : (pagesOf limit n orders).map key = ((orders 0).map key).take (n * limit) := by
    rw [← pagesOf_same, pagesOf, pagesOf, List.map_flatMap]
    apply List.flatMap_congr
    intro k _
    rw [map_pageOf, (h k).map_key_eq (h 0)]
  have hsorted : (((orders 0).map key).take (n * limit)).Pairwise fun a b ↦ b ≤ a :=
    (List.pairwise_map.mpr (h 0).sorted).sublist (List.take_sublist _ _)
  rw [← hkeys] at hsorted
  exact List.pairwise_map.mp hsorted

theorem Unsplit.ordered_pagesOf (h : Unsplit key limit rows) (hlimit : 0 < limit)
    (hnodup : rows.Nodup) (hn : rows.length ≤ n * limit) {orders : ℕ → List α}
    (horders : ∀ k, Ordered key rows (orders k)) :
    Ordered key rows (pagesOf limit n orders) := by
  refine ⟨?_, sorted_pagesOf horders⟩
  have hpages : (pagesOf limit n orders).Nodup := by
    unfold pagesOf
    rw [List.nodup_flatMap]
    constructor
    · intro k _
      have hk : (orders k).Nodup := (horders k).perm.nodup_iff.mpr hnodup
      exact hk.sublist ((List.take_sublist _ _).trans (List.drop_sublist _ _))
    · apply List.Nodup.pairwise_of_forall_ne List.nodup_range
      intro j _ k _ hne a haj hak
      obtain ⟨-, hj⟩ := (h.mem_pageOf_iff hlimit (horders j) j).mp haj
      obtain ⟨-, hk⟩ := (h.mem_pageOf_iff hlimit (horders k) k).mp hak
      exact hne (hj.symm.trans hk)
  rw [List.perm_ext_iff_of_nodup hpages hnodup]
  intro a
  unfold pagesOf
  rw [List.mem_flatMap]
  constructor
  · rintro ⟨k, -, ha⟩
    exact ((h.mem_pageOf_iff hlimit (horders k) k).mp ha).1
  · intro ha
    have hbefore : before key rows (key a) < rows.length := by
      unfold before
      apply Nat.lt_of_le_of_ne List.countP_le_length
      intro heq
      exact lt_irrefl _ (of_decide_eq_true (List.countP_eq_length.mp heq a ha))
    have hk : before key rows (key a) / limit < n :=
      (Nat.div_lt_iff_lt_mul hlimit).mpr (by omega)
    exact ⟨_, List.mem_range.mpr hk, (h.mem_pageOf_iff hlimit (horders _) _).mpr ⟨ha, rfl⟩⟩

/-! ## A split group -/

theorem Ordered.swap {l₁ l₂ : List α} {b : α} (h : Ordered key rows (l₁ ++ a :: b :: l₂))
    (hkey : key a = key b) : Ordered key rows (l₁ ++ b :: a :: l₂) where
  perm := ((List.Perm.swap a b l₂).append_left l₁).trans h.perm
  sorted := by
    have hsorted := h.sorted
    rw [List.pairwise_append, List.pairwise_cons, List.pairwise_cons] at hsorted ⊢
    obtain ⟨hbefore, ⟨ha, hb, hrest⟩, hcross⟩ := hsorted
    refine ⟨hbefore, ⟨?_, ?_, hrest⟩, ?_⟩
    · intro c hc
      rcases List.mem_cons.mp hc with rfl | hc
      · exact le_of_eq hkey
      · exact hb c hc
    · intro c hc
      exact ha c (List.mem_cons_of_mem _ hc)
    · intro c hc d hd
      apply hcross c hc d
      simp only [List.mem_cons] at hd ⊢
      tauto

/-- When a group is split, there are two orderings that put one row on two pages. -/
theorem exists_row_twice (hordered : Ordered key rows l) (hlimit : 0 < limit) {m : ℕ} {k : κ}
    (hlow : before key rows k < m * limit) (hhigh : m * limit < upTo key rows k) :
    ∃ l' a j, Ordered key rows l' ∧ m = j + 1 ∧ m * limit < rows.length ∧
      a ∈ pageOf limit j l' ∧ a ∈ pageOf limit m l := by
  have hlength : upTo key rows k ≤ l.length := by
    rw [hordered.perm.length_eq]
    exact List.countP_le_length
  obtain ⟨i, hi⟩ : ∃ i, m * limit = i + 1 := ⟨m * limit - 1, by omega⟩
  have hlt : i + 1 < l.length := by omega
  have ha : l[i]? = some l[i] := List.getElem?_eq_getElem (by omega)
  have hb : l[i + 1]? = some l[i + 1] := List.getElem?_eq_getElem hlt
  have hkey : key l[i] = key l[i + 1] := by
    have hka : key l[i] = k := hordered.key_at ha (by omega) (by omega)
    have hkb : key l[i + 1] = k := hordered.key_at hb (by omega) (by omega)
    exact hka.trans hkb.symm
  have hsplit : l = l.take i ++ l[i] :: l[i + 1] :: l.drop (i + 2) := by
    rw [← List.drop_eq_getElem_cons hlt, ← List.drop_eq_getElem_cons (by omega),
      List.take_append_drop]
  have hswapped : Ordered key rows (l.take i ++ l[i + 1] :: l[i] :: l.drop (i + 2)) := by
    rw [hsplit] at hordered
    exact hordered.swap hkey
  obtain ⟨j, rfl⟩ : ∃ j, m = j + 1 := by
    cases m with
    | zero => omega
    | succ j => exact ⟨j, rfl⟩
  refine ⟨_, l[i + 1], j, hswapped, rfl, ?_, ?_, ?_⟩
  · rw [← hordered.perm.length_eq]
    omega
  · rw [mem_pageOf_iff]
    refine ⟨i, ?_, ?_, ?_⟩
    · have hlen : (l.take i).length = i := by
        rw [List.length_take]
        omega
      rw [List.getElem?_append_right (by omega), hlen, Nat.sub_self]
      rfl
    · rw [Nat.succ_mul] at hi
      omega
    · rw [Nat.succ_mul] at hi
      omega
  · rw [mem_pageOf_iff]
    exact ⟨i + 1, hb, by omega, by omega⟩

/-! ## Every choice of orderings -/

/-- How rows are sorted by a key in one query. -/
structure QueryPlan (α κ : Type) [LinearOrder κ] where
  sort : (α → κ) → List α → List α
  ordered : ∀ key rows, Ordered key rows (sort key rows)

namespace QueryPlan

def stable : QueryPlan α κ where
  sort key rows := rows.mergeSort fun a b ↦ key b ≤ key a
  ordered key rows := by
    refine ⟨List.mergeSort_perm _ _, ?_⟩
    have hsorted := @List.pairwise_mergeSort _ (fun a b ↦ decide (key b ≤ key a))
      (fun a b c hab hbc ↦ by simp only [decide_eq_true_eq] at *; exact le_trans hbc hab)
      (fun a b ↦ by simpa using le_total (key b) (key a)) rows
    exact hsorted.imp fun h ↦ of_decide_eq_true h

open Classical in
noncomputable def choosing {key : α → κ} {rows l : List α} (h : Ordered key rows l) :
    QueryPlan α κ where
  sort key' rows' := if key' = key ∧ rows' = rows then l else stable.sort key' rows'
  ordered key' rows' := by
    split
    · rename_i heq
      rw [heq.1, heq.2]
      exact h
    · exact stable.ordered key' rows'

theorem sort_choosing {key : α → κ} {rows l : List α} (h : Ordered key rows l) :
    (choosing h).sort key rows = l := if_pos ⟨rfl, rfl⟩

end QueryPlan

/-- When a group of rows is split, some choice of plans repeats a row. -/
theorem unsplit_of_nodup (hlimit : 0 < limit) (hn : rows.length ≤ n * limit)
    (hall : ∀ plans : ℕ → QueryPlan α κ,
      (pagesOf limit n fun k ↦ (plans k).sort key rows).Nodup) : Unsplit key limit rows := by
  intro b hb m hm
  obtain ⟨hlow, hhigh⟩ := hm
  obtain ⟨l', a, j, hl', rfl, hlength, hj, hm⟩ :=
    exists_row_twice (QueryPlan.stable.ordered key rows) hlimit hlow hhigh
  have hlt : j + 1 < n := by
    by_contra hge
    have hle := Nat.mul_le_mul_right limit (Nat.not_lt.mp hge)
    omega
  -- Only the page before the boundary is cut out of the other ordering.
  let plans (k : ℕ) : QueryPlan α κ := if k = j then .choosing hl' else .stable
  have hnodup := hall plans
  unfold pagesOf at hnodup
  rw [List.nodup_flatMap] at hnodup
  have hdisjoint := (List.pairwise_iff_getElem.mp hnodup.2) j (j + 1) (by simp; omega)
    (by simpa using hlt) (by omega)
  simp only [Function.onFun, List.getElem_range, plans, if_true, QueryPlan.sort_choosing,
    Nat.succ_ne_self, if_false] at hdisjoint
  exact hdisjoint hj hm

end VideoGen
