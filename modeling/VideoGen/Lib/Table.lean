import Mathlib.Data.List.Nodup

/-!
# Tables with a primary key

A table is a list of rows no two of which share a key.  Selecting,
inserting, modifying and erasing by key are described by what a later
selection returns, so that clients never look at the list.
-/

namespace VideoGen

structure Table {ρ κ : Type} (key : ρ → κ) where
  rows : List ρ
  nodup : (rows.map key).Nodup

namespace Table

variable {ρ κ : Type} [DecidableEq κ] {key : ρ → κ}

def empty : Table key := ⟨[], List.nodup_nil⟩

def single (r : ρ) : Table key := ⟨[r], List.nodup_singleton _⟩

def find? (t : Table key) (k : κ) : Option ρ := t.rows.find? fun r ↦ key r = k

def insert (t : Table key) (r : ρ) (h : key r ∉ t.rows.map key) : Table key :=
  ⟨t.rows ++ [r], by
    rw [List.map_append, List.nodup_append]
    exact ⟨t.nodup, List.nodup_singleton _, by
      rintro a ha b hb rfl
      exact h (List.mem_singleton.mp hb ▸ ha)⟩⟩

/-- Insert a row; `none` when its key is taken. -/
def insert? (t : Table key) (r : ρ) : Option (Table key) :=
  if h : key r ∈ t.rows.map key then none else some (t.insert r h)

def modify (t : Table key) (k : κ) (f : ρ → ρ) (hf : ∀ r, key (f r) = key r) :
    Table key :=
  ⟨t.rows.map fun r ↦ if key r = k then f r else r, by
    have hkeys : key ∘ (fun r ↦ if key r = k then f r else r) = key := by
      funext r
      by_cases hr : key r = k <;> simp [hr, hf]
    rw [List.map_map, hkeys]
    exact t.nodup⟩

def erase (t : Table key) (k : κ) : Table key :=
  ⟨t.rows.filter fun r ↦ key r ≠ k,
    t.nodup.sublist (List.Sublist.map key List.filter_sublist)⟩

def filter (t : Table key) (p : ρ → Bool) : Table key :=
  ⟨t.rows.filter p, t.nodup.sublist (List.Sublist.map key List.filter_sublist)⟩

@[simp] theorem find?_empty (k : κ) : (empty : Table key).find? k = none := rfl

theorem find?_eq_some_iff {t : Table key} {k : κ} {r : ρ} :
    t.find? k = some r ↔ r ∈ t.rows ∧ key r = k := by
  constructor
  · intro h
    exact ⟨List.mem_of_find?_eq_some h, by simpa using List.find?_some h⟩
  · rintro ⟨hmem, rfl⟩
    cases hfind : t.find? (key r) with
    | none => simpa using List.find?_eq_none.mp hfind r hmem
    | some r' =>
        have hmem' : r' ∈ t.rows := List.mem_of_find?_eq_some hfind
        have hkey : key r' = key r := by simpa using List.find?_some hfind
        rw [List.inj_on_of_nodup_map t.nodup hmem' hmem hkey]

theorem key_of_find? {t : Table key} {k : κ} {r : ρ} (h : t.find? k = some r) :
    key r = k := (find?_eq_some_iff.mp h).2

theorem find?_eq_none_iff {t : Table key} {k : κ} :
    t.find? k = none ↔ k ∉ t.rows.map key := by
  simp [find?, List.find?_eq_none]

theorem find?_insert (t : Table key) (r : ρ) (h : key r ∉ t.rows.map key) (k : κ) :
    (t.insert r h).find? k = if k = key r then some r else t.find? k := by
  unfold find? insert
  rw [List.find?_append]
  by_cases hk : k = key r
  · subst hk
    have hnone : t.rows.find? (fun r' ↦ decide (key r' = key r)) = none :=
      find?_eq_none_iff.mpr h
    rw [hnone]
    simp
  · simp [hk, Ne.symm hk]

theorem insert?_eq_some_iff {t t' : Table key} {r : ρ} :
    t.insert? r = some t' ↔ ∃ h, t' = t.insert r h := by
  unfold insert?
  split
  · rename_i h
    simp [h]
  · rename_i h
    simp only [Option.some.injEq, exists_prop_of_true h]
    exact eq_comm

theorem find?_of_insert? {t t' : Table key} {r : ρ} (h : t.insert? r = some t') (k : κ) :
    t'.find? k = if k = key r then some r else t.find? k := by
  obtain ⟨hfresh, rfl⟩ := insert?_eq_some_iff.mp h
  exact find?_insert t r hfresh k

theorem find?_fresh_of_insert? {t t' : Table key} {r : ρ} (h : t.insert? r = some t') :
    t.find? (key r) = none := by
  obtain ⟨hfresh, -⟩ := insert?_eq_some_iff.mp h
  exact find?_eq_none_iff.mpr hfresh

theorem find?_modify (t : Table key) (k : κ) (f : ρ → ρ) (hf : ∀ r, key (f r) = key r)
    (k' : κ) : (t.modify k f hf).find? k' =
      if k' = k then (t.find? k').map f else t.find? k' := by
  unfold find? modify
  rw [List.find?_map]
  have hkeys : ((fun r ↦ decide (key r = k')) ∘ fun r ↦ if key r = k then f r else r) =
      fun r ↦ decide (key r = k') := by
    funext r
    by_cases hr : key r = k <;> simp [hr, hf]
  rw [hkeys]
  cases hfind : t.rows.find? (fun r ↦ decide (key r = k')) with
  | none => simp
  | some r =>
      have hkey : key r = k' := by simpa using List.find?_some hfind
      by_cases hk : k' = k <;> simp [hkey, hk]

theorem find?_erase (t : Table key) (k k' : κ) :
    (t.erase k).find? k' = if k' = k then none else t.find? k' := by
  unfold find? erase
  rw [List.find?_filter]
  by_cases hk : k' = k
  · rw [if_pos hk, List.find?_eq_none]
    intro r _
    simp [hk]
  · rw [if_neg hk]
    congr 1
    funext r
    by_cases hr : key r = k' <;> simp [hr, hk]

/-! ## What a modification hides -/

section Hiding

variable (k : κ) (u : ρ → ρ) (hu : ∀ r, key (u r) = key r)

omit [DecidableEq κ] in
theorem ext_rows {t t' : Table key} (h : t.rows = t'.rows) : t = t' := by
  cases t
  cases t'
  cases h
  rfl

theorem modify_hides (hidem : ∀ r, u (u r) = u r) {f : ρ → ρ} (hf : ∀ r, key (f r) = key r)
    (hfu : ∀ r, u (f (u r)) = u (f r)) (t : Table key) (k' : κ) :
    ((t.modify k u hu).modify k' f hf).modify k u hu = (t.modify k' f hf).modify k u hu := by
  apply ext_rows
  simp only [modify, List.map_map]
  apply List.map_congr_left
  intro r _
  simp only [Function.comp_apply]
  by_cases hk : key r = k <;> by_cases hk' : key r = k' <;> simp_all

theorem modify_hidden {f : ρ → ρ} (hf : ∀ r, key (f r) = key r) (hfu : ∀ r, u (f r) = u r)
    (t : Table key) : (t.modify k f hf).modify k u hu = t.modify k u hu := by
  apply ext_rows
  simp only [modify, List.map_map]
  apply List.map_congr_left
  intro r _
  by_cases hk : key r = k <;> simp [hk, hf, hfu]

theorem modify_idem (hidem : ∀ r, u (u r) = u r) (t : Table key) :
    (t.modify k u hu).modify k u hu = t.modify k u hu := by
  apply ext_rows
  simp only [modify, List.map_map]
  apply List.map_congr_left
  intro r _
  by_cases hk : key r = k <;> simp [hk, hu, hidem]

theorem keys_modify (t : Table key) : (t.modify k u hu).rows.map key = t.rows.map key := by
  simp only [modify, List.map_map]
  apply List.map_congr_left
  intro r _
  by_cases hk : key r = k <;> simp [hk, hu]

theorem modify_insert? (hidem : ∀ r, u (u r) = u r) (t : Table key) (r : ρ) :
    ((t.modify k u hu).insert? r).map (fun t ↦ t.modify k u hu) =
      (t.insert? r).map fun t ↦ t.modify k u hu := by
  unfold insert?
  by_cases h : key r ∈ t.rows.map key
  · rw [dif_pos h, dif_pos (by rw [keys_modify]; exact h)]
  · rw [dif_neg h, dif_neg (by rw [keys_modify]; exact h)]
    simp only [Option.map_some, Option.some.injEq]
    apply ext_rows
    have hrows := congrArg rows (modify_idem k u hu hidem t)
    simp only [modify] at hrows
    simp only [insert, modify, List.map_append, hrows]

theorem modify_erase (hidem : ∀ r, u (u r) = u r) (t : Table key) (k' : κ) :
    ((t.modify k u hu).erase k').modify k u hu = (t.erase k').modify k u hu := by
  apply ext_rows
  simp only [modify, erase, List.filter_map, List.map_map]
  have hkeys : (fun r ↦ decide (key r ≠ k')) ∘ (fun r ↦ if key r = k then u r else r) =
      fun r ↦ decide (key r ≠ k') := by
    funext r
    by_cases hk : key r = k <;> simp [hk, hu]
  rw [hkeys]
  apply List.map_congr_left
  intro r _
  by_cases hk : key r = k <;> simp [hk, hu, hidem]

end Hiding

/-! ## Counting rows -/

section Counting

variable (p : ρ → Bool)

def count (t : Table key) : ℕ := t.rows.countP p

omit [DecidableEq κ] in
theorem count_insert (t : Table key) (r : ρ) (h : key r ∉ t.rows.map key) :
    (t.insert r h).count p = t.count p + if p r then 1 else 0 := by
  simp [count, insert, List.countP_append, List.countP_singleton]

theorem count_modify_eq (t : Table key) (k : κ) (f : ρ → ρ) (hf : ∀ r, key (f r) = key r)
    (hp : ∀ r, p (f r) = p r) : (t.modify k f hf).count p = t.count p := by
  unfold count modify
  rw [List.countP_map]
  apply List.countP_congr
  intro r _
  by_cases hr : key r = k <;> simp [hr, hp]

end Counting

theorem rows_modify {t : Table key} {k : κ} {r : ρ} (hr : t.find? k = some r) (f : ρ → ρ)
    (hf : ∀ r, key (f r) = key r) :
    ∃ l₁ l₂, t.rows = l₁ ++ r :: l₂ ∧ (t.modify k f hf).rows = l₁ ++ f r :: l₂ := by
  obtain ⟨hmem, hkey⟩ := find?_eq_some_iff.mp hr
  obtain ⟨l₁, l₂, hrows⟩ := List.append_of_mem hmem
  have hnodup := t.nodup
  rw [hrows, List.map_append, List.map_cons, List.nodup_append] at hnodup
  have hkept (l : List ρ) (hl : ∀ x ∈ l, key x ≠ k) :
      l.map (fun r ↦ if key r = k then f r else r) = l := by
    rw [List.map_congr_left fun x hx ↦ if_neg (hl x hx)]
    exact List.map_id' l
  have h₁ : ∀ x ∈ l₁, key x ≠ k := fun x hx hxk ↦
    hnodup.2.2 (key x) (List.mem_map_of_mem hx) (key r) (by simp) (hxk.trans hkey.symm)
  have h₂ : ∀ x ∈ l₂, key x ≠ k := fun x hx hxk ↦
    (List.nodup_cons.mp hnodup.2.1).1 (hkey.trans hxk.symm ▸ List.mem_map_of_mem hx)
  refine ⟨l₁, l₂, hrows, ?_⟩
  simp only [modify, hrows, List.map_append, List.map_cons, hkept l₁ h₁, hkept l₂ h₂, hkey,
    if_true]

end Table

end VideoGen
