import Mathlib.Data.List.Basic
import Mathlib.Tactic.Ring

/-!
# JavaScript text

A JavaScript string is a sequence of 16-bit code units, and its methods
count code units: a slice can cut a character in two.
-/

namespace VideoGen

abbrev JsText := List UInt16

def codeUnits (c : Char) : JsText :=
  if c.toNat < 0x10000 then [c.toNat.toUInt16]
  else
    let rest := c.toNat - 0x10000
    [(0xD800 + rest / 0x400).toUInt16, (0xDC00 + rest % 0x400).toUInt16]

def JsText.of (s : String) : JsText := s.toList.flatMap codeUnits

namespace JsText

variable {t a b : JsText} {u : UInt16}

/-- The position of the first unit `u`, or -1. -/
def indexOf (t : JsText) (u : UInt16) : ℤ :=
  match t.idxOf? u with
  | some i => i
  | none => -1

/-- A position that may be counted from the end. -/
def relative (length : ℕ) (i : ℤ) : ℕ :=
  if i < 0 then (length + i).toNat else min i.toNat length

def slice (t : JsText) (first last : ℤ) : JsText :=
  (t.take (relative t.length last)).drop (relative t.length first)

def sliceFrom (t : JsText) (first : ℤ) : JsText := t.drop (relative t.length first)

theorem indexOf_eq_neg_one (h : u ∉ t) : t.indexOf u = -1 := by
  unfold indexOf
  rw [List.idxOf?_eq_none_iff.mpr h]

theorem indexOf_append_cons (h : u ∉ a) : indexOf (a ++ u :: b) u = a.length := by
  unfold indexOf
  have hidx : (a ++ u :: b).idxOf? u = some a.length := by
    induction a with
    | nil => simp [List.idxOf?_cons]
    | cons v a ih =>
        have hv : (v == u) = false := by
          simp only [beq_eq_false_iff_ne, ne_eq]
          rintro rfl
          exact h List.mem_cons_self
        rw [List.cons_append, List.idxOf?_cons, hv,
          ih fun hmem ↦ h (List.mem_cons_of_mem _ hmem)]
        rfl
  rw [hidx]

theorem slice_zero_neg_one (t : JsText) : t.slice 0 (-1) = t.dropLast := by
  have hzero : relative t.length 0 = 0 := by simp [relative]
  have hlast : relative t.length (-1) = t.length - 1 := by
    unfold relative
    rw [if_pos (by omega)]
    omega
  rw [slice, hzero, hlast, List.drop_zero, List.dropLast_eq_take]

theorem slice_zero_length : slice (a ++ b) 0 a.length = a := by
  have hzero : relative (a ++ b).length 0 = 0 := by simp [relative]
  have hlength : relative (a ++ b).length a.length = a.length := by
    unfold relative
    rw [if_neg (by omega), List.length_append]
    omega
  rw [slice, hzero, hlength, List.drop_zero, List.take_left]

theorem sliceFrom_zero (t : JsText) : t.sliceFrom 0 = t := by
  simp [sliceFrom, relative]

theorem sliceFrom_length : sliceFrom (a ++ b) a.length = b := by
  have hlength : relative (a ++ b).length a.length = a.length := by
    unfold relative
    rw [if_neg (by omega), List.length_append]
    omega
  rw [sliceFrom, hlength, List.drop_left]

/-- Cutting a text at its first `u` gives the two parts around it; a text without one is cut
before its last unit, and the second part is the whole. -/
theorem cut_iff (hu : u ∉ a) :
    (t.slice 0 (t.indexOf u) = a ∧ t.sliceFrom (t.indexOf u + 1) = b) ↔
      t = a ++ u :: b ∨ (u ∉ t ∧ t.dropLast = a ∧ t = b) := by
  by_cases hmem : u ∈ t
  · obtain ⟨c, d, rfl, hc⟩ := List.eq_append_cons_of_mem hmem
    have hrest : sliceFrom (c ++ u :: d) (c.length + 1 : ℤ) = d := by
      have happend := sliceFrom_length (a := c ++ [u]) (b := d)
      simpa using happend
    rw [indexOf_append_cons hc, slice_zero_length, hrest]
    constructor
    · rintro ⟨rfl, rfl⟩
      exact .inl rfl
    · rintro (heq | ⟨hnot, -⟩)
      · have hindex := congrArg (fun t : JsText ↦ t.indexOf u) heq
        simp only [indexOf_append_cons hc, indexOf_append_cons hu] at hindex
        obtain ⟨rfl, hcons⟩ := List.append_inj heq (by omega)
        exact ⟨rfl, (List.cons.inj hcons).2⟩
      · exact absurd hmem hnot
  · rw [indexOf_eq_neg_one hmem, slice_zero_neg_one]
    have hzero : (-1 + 1 : ℤ) = 0 := by ring
    rw [hzero, sliceFrom_zero]
    constructor
    · rintro ⟨ha, hb⟩
      exact .inr ⟨hmem, ha, hb⟩
    · rintro (rfl | ⟨-, ha, hb⟩)
      · simp at hmem
      · exact ⟨ha, hb⟩

end JsText

end VideoGen
