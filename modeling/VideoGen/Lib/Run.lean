import Mathlib.Data.List.Induction

/-!
# Runs of a labelled transition function

A run is recorded as the list of its transitions, newest last, so that a
statement about a history can quantify over moments of the run and over
the states just before and just after them.
-/

namespace VideoGen

variable {σ A : Type}

structure Transition (σ A : Type) where
  before : σ
  act : A
  after : σ

/-- `Run step s₀ ts s`: the transitions `ts` lead from `s₀` to `s`. -/
inductive Run (step : σ → A → Option σ) (start : σ) :
    List (Transition σ A) → σ → Prop where
  | nil : Run step start [] start
  | snoc {ts : List (Transition σ A)} {s s' : σ} (a : A)
      (head : Run step start ts s) (last : step s a = some s') :
      Run step start (ts ++ [⟨s, a, s'⟩]) s'

namespace Run

variable {step : σ → A → Option σ} {start s : σ} {ts : List (Transition σ A)}

/-- What holds at the start and is kept by every transition of the run holds
at its end. -/
theorem invariant (Inv : σ → Prop) (hrun : Run step start ts s) (hstart : Inv start)
    (hstep : ∀ t ∈ ts, step t.before t.act = some t.after →
      Inv t.before → Inv t.after) : Inv s := by
  induction hrun with
  | nil => exact hstart
  | @snoc ts s s' a head last ih =>
      have hs : Inv s := ih fun t ht ↦ hstep t (List.mem_append_left _ ht)
      exact hstep ⟨s, a, s'⟩ (by simp) last hs

theorem exists_prefix (hrun : Run step start ts s) {t : Transition σ A} (ht : t ∈ ts) :
    ∃ pre post, ts = pre ++ t :: post ∧ Run step start pre t.before ∧
      step t.before t.act = some t.after := by
  induction hrun with
  | nil => simp at ht
  | @snoc ts s s' a head last ih =>
      rcases List.mem_append.mp ht with ht | ht
      · obtain ⟨pre, post, rfl, hpre, hstep⟩ := ih ht
        exact ⟨pre, post ++ [⟨s, a, s'⟩], by simp, hpre, hstep⟩
      · obtain rfl := List.mem_singleton.mp ht
        exact ⟨ts, [], rfl, head, last⟩

theorem step_of_mem (hrun : Run step start ts s) {t : Transition σ A} (ht : t ∈ ts) :
    step t.before t.act = some t.after := by
  obtain ⟨_, _, _, _, hstep⟩ := hrun.exists_prefix ht
  exact hstep

theorem invariant_before (Inv : σ → Prop) (hrun : Run step start ts s)
    (hstart : Inv start)
    (hstep : ∀ t ∈ ts, step t.before t.act = some t.after →
      Inv t.before → Inv t.after) {t : Transition σ A} (ht : t ∈ ts) :
    Inv t.before := by
  obtain ⟨pre, post, rfl, hpre, _⟩ := hrun.exists_prefix ht
  exact hpre.invariant Inv hstart fun u hu ↦ hstep u (by simp [hu])

theorem split {pre post : List (Transition σ A)} (hrun : Run step start (pre ++ post) s) :
    ∃ mid, Run step start pre mid ∧ Run step mid post s := by
  generalize hts : pre ++ post = ts at hrun
  induction hrun generalizing post with
  | nil =>
      obtain ⟨rfl, rfl⟩ := List.append_eq_nil_iff.mp hts
      exact ⟨start, .nil, .nil⟩
  | @snoc ts s s' a head last ih =>
      rcases List.eq_nil_or_concat post with rfl | ⟨post', t, rfl⟩
      · rw [List.append_nil] at hts
        exact ⟨s', hts ▸ head.snoc a last, .nil⟩
      · rw [List.concat_eq_append, ← List.append_assoc] at hts
        obtain ⟨hpre, ht⟩ := List.append_inj' hts rfl
        obtain ⟨mid, hmid, hpost⟩ := ih hpre
        obtain rfl := List.singleton_inj.mp ht
        exact ⟨mid, hmid, by simpa using hpost.snoc a last⟩

/-- The part of a run before one of its transitions leads to where that transition
starts, and the part after it goes on from where it ends. -/
theorem at_append_cons {pre post : List (Transition σ A)} {t : Transition σ A}
    (hrun : Run step start (pre ++ t :: post) s) :
    Run step start pre t.before ∧ step t.before t.act = some t.after ∧
      Run step t.after post s := by
  rw [← List.singleton_append, ← List.append_assoc] at hrun
  obtain ⟨mid, hmid, hpost⟩ := hrun.split
  generalize hts : pre ++ [t] = ts at hmid
  cases hmid with
  | nil => simp at hts
  | snoc a head last =>
      obtain ⟨rfl, ht⟩ := List.append_inj' hts rfl
      obtain rfl := List.singleton_inj.mp ht
      exact ⟨head, last, hpost⟩

theorem end_unique {s' : σ} (hrun : Run step start ts s) (hrun' : Run step start ts s') :
    s = s' := by
  cases hrun with
  | nil =>
      generalize hts : [] = ts at hrun'
      cases hrun' with
      | nil => rfl
      | snoc a head last => simp at hts
  | snoc a head last =>
      generalize hts : _ ++ [_] = ts at hrun'
      cases hrun' with
      | nil => simp at hts
      | snoc b head' last' =>
          have ht := List.singleton_inj.mp (List.append_inj' hts rfl).2
          exact congrArg Transition.after ht

def follow (step : σ → A → Option σ) : σ → List A → Option (List (Transition σ A) × σ)
  | s, [] => some ([], s)
  | s, a :: acts => do
      let s' ← step s a
      let (ts, s'') ← follow step s' acts
      some (⟨s, a, s'⟩ :: ts, s'')

theorem cons {a : A} {s' : σ} (hstep : step start a = some s')
    (hrun : Run step s' ts s) : Run step start (⟨start, a, s'⟩ :: ts) s := by
  induction hrun with
  | nil => exact Run.snoc a .nil hstep
  | snoc b head last ih => exact ih.snoc b last

theorem append {us : List (Transition σ A)} {mid : σ} (hrun : Run step start ts mid)
    (hrest : Run step mid us s) : Run step start (ts ++ us) s := by
  induction hrest with
  | nil => simpa using hrun
  | snoc a head last ih => simpa using ih.snoc a last

theorem of_follow {acts : List A} (h : follow step start acts = some (ts, s)) :
    Run step start ts s := by
  induction acts generalizing start ts with
  | nil =>
      obtain ⟨rfl, rfl⟩ := by simpa [follow] using h
      exact .nil
  | cons a acts ih =>
      simp only [follow, Option.bind_eq_bind, Option.bind_eq_some_iff] at h
      obtain ⟨s', hstep, ⟨ts', u⟩, hrest, heq⟩ := h
      obtain ⟨rfl, rfl⟩ := by simpa using heq
      exact Run.cons hstep (ih hrest)

theorem acts_of_follow {acts : List A} (h : follow step start acts = some (ts, s)) :
    ts.map Transition.act = acts := by
  induction acts generalizing start ts with
  | nil =>
      obtain ⟨rfl, rfl⟩ := by simpa [follow] using h
      rfl
  | cons a acts ih =>
      simp only [follow, Option.bind_eq_bind, Option.bind_eq_some_iff] at h
      obtain ⟨s', hstep, ⟨ts', u⟩, hrest, heq⟩ := h
      obtain ⟨rfl, rfl⟩ := by simpa using heq
      simp [ih hrest]

/-- A run is known from its acts: evaluate what is to be seen of it. -/
theorem exists_of_follow {β : Type} (step : σ → A → Option σ) (start : σ)
    (acts : List A) (obs : List (Transition σ A) × σ → β) (b : β)
    (h : (follow step start acts).map obs = some b) :
    ∃ ts s, Run step start ts s ∧ ts.map Transition.act = acts ∧ obs (ts, s) = b := by
  obtain ⟨⟨ts, s⟩, hfollow, hobs⟩ := Option.map_eq_some_iff.mp h
  exact ⟨ts, s, of_follow hfollow, acts_of_follow hfollow, hobs⟩

theorem exists_of_follow_append {β : Type} (step : σ → A → Option σ) (start : σ)
    (acts acts' : List A) (obs : σ → σ → β) (b : β)
    (h : ((follow step start acts).bind fun p ↦
      (follow step p.2 acts').map fun q ↦ obs p.2 q.2) = some b) :
    ∃ ts mid ts' s, Run step start ts mid ∧ Run step mid ts' s ∧
      ts.map Transition.act = acts ∧ ts'.map Transition.act = acts' ∧ obs mid s = b := by
  obtain ⟨⟨ts, mid⟩, hfollow, hrest⟩ := Option.bind_eq_some_iff.mp h
  obtain ⟨⟨ts', s⟩, hfollow', hobs⟩ := Option.map_eq_some_iff.mp hrest
  exact ⟨ts, mid, ts', s, of_follow hfollow, of_follow hfollow', acts_of_follow hfollow,
    acts_of_follow hfollow', hobs⟩

end Run

/-! ## What has happened since -/

/-- One of the events `P` has occurred, and none of the events `Q` after it. -/
def Since (P Q : Transition σ A → Prop) (ts : List (Transition σ A)) : Prop :=
  ∃ pre t post, ts = pre ++ t :: post ∧ P t ∧ ∀ u ∈ post, ¬Q u

section Since

variable {P Q : Transition σ A → Prop} {ts : List (Transition σ A)}

@[simp] theorem since_nil : ¬Since P Q ([] : List (Transition σ A)) := by
  rintro ⟨pre, t, post, h, -⟩
  simp at h

theorem since_snoc (t : Transition σ A) :
    Since P Q (ts ++ [t]) ↔ P t ∨ Since P Q ts ∧ ¬Q t := by
  constructor
  · rintro ⟨pre, u, post, h, hu, hpost⟩
    rcases List.eq_nil_or_concat post with rfl | ⟨post', v, rfl⟩
    · obtain ⟨-, ht⟩ := List.append_inj' h rfl
      obtain rfl := List.singleton_inj.mp ht
      exact .inl hu
    · rw [List.concat_eq_append, ← List.cons_append, ← List.append_assoc] at h
      obtain ⟨rfl, ht⟩ := List.append_inj' h rfl
      obtain rfl := List.singleton_inj.mp ht
      refine .inr ⟨⟨pre, u, post', rfl, hu, fun w hw ↦ hpost w (by simp [hw])⟩, ?_⟩
      exact hpost t (by simp)
  · rintro (ht | ⟨⟨pre, u, post, rfl, hu, hpost⟩, ht⟩)
    · exact ⟨ts, t, [], rfl, ht, by simp⟩
    · refine ⟨pre, u, post ++ [t], by simp, hu, fun v hv ↦ ?_⟩
      rcases List.mem_append.mp hv with hv | hv
      · exact hpost v hv
      · obtain rfl := List.mem_singleton.mp hv
        exact ht

theorem since_or {P' : Transition σ A → Prop} : Since (fun t ↦ P t ∨ P' t) Q ts ↔
    Since P Q ts ∨ Since P' (fun t ↦ P t ∨ Q t) ts := by
  induction ts using List.reverseRecOn with
  | nil => simp
  | append_singleton ts t ih =>
      rw [since_snoc, since_snoc, since_snoc, ih]
      tauto

/-- A property of states that `P` makes true, that `Q` makes false and that nothing else
changes holds at the end of a run exactly if `P` has occurred and `Q` not since, or if it
held at the start and `Q` has not occurred. -/
theorem Run.holds_iff_since {step : σ → A → Option σ} {start s : σ} (hrun : Run step start ts s)
    (Holds : σ → Prop) (hstep : ∀ t ∈ ts, step t.before t.act = some t.after →
      (Holds t.after ↔ P t ∨ Holds t.before ∧ ¬Q t)) :
    Holds s ↔ Since P Q ts ∨ Holds start ∧ ∀ t ∈ ts, ¬Q t := by
  induction hrun with
  | nil => simp
  | @snoc ts s s' a head last ih =>
      have hlast := hstep ⟨s, a, s'⟩ (by simp) last
      have hold := ih fun t ht ↦ hstep t (List.mem_append_left _ ht)
      rw [hlast, hold, since_snoc, List.forall_mem_append, List.forall_mem_singleton,
        or_and_right, and_assoc, or_assoc]

theorem Run.since_iff {step : σ → A → Option σ} {start s : σ} (hrun : Run step start ts s)
    (Holds : σ → Prop) (hstart : ¬Holds start)
    (hstep : ∀ t ∈ ts, step t.before t.act = some t.after →
      (Holds t.after ↔ P t ∨ Holds t.before ∧ ¬Q t)) : Holds s ↔ Since P Q ts := by
  simpa [hstart] using hrun.holds_iff_since Holds hstep

theorem since_append {us : List (Transition σ A)} (h : Since P Q (ts ++ us)) :
    Since P Q us ∨ Since P Q ts ∧ ∀ u ∈ us, ¬Q u := by
  induction us using List.reverseRecOn with
  | nil => exact .inr ⟨by simpa using h, by simp⟩
  | append_singleton us u ih =>
      rw [← List.append_assoc, since_snoc] at h
      rw [since_snoc]
      rcases h with hu | ⟨hsince, hu⟩
      · exact .inl (.inl hu)
      · rcases ih hsince with hus | ⟨hts, hus⟩
        · exact .inl (.inr ⟨hus, hu⟩)
        · refine .inr ⟨hts, fun v hv ↦ ?_⟩
          rcases List.mem_append.mp hv with hv | hv
          · exact hus v hv
          · obtain rfl := List.mem_singleton.mp hv
            exact hu

theorem since_of_after (hexists : ∃ t ∈ ts, P t)
    (hafter : ∀ pre u post, ts = pre ++ u :: post → Q u → ∃ t ∈ post, P t) : Since P Q ts := by
  induction ts using List.reverseRecOn with
  | nil => simp at hexists
  | append_singleton ts t ih =>
      rw [since_snoc]
      by_cases ht : P t
      · exact .inl ht
      have hnot : ¬Q t := by
        intro hq
        obtain ⟨u, hu, -⟩ := hafter ts t [] rfl hq
        simp at hu
      refine .inr ⟨ih ?_ ?_, hnot⟩
      · obtain ⟨u, hu, hp⟩ := hexists
        rcases List.mem_append.mp hu with hu | hu
        · exact ⟨u, hu, hp⟩
        · obtain rfl := List.mem_singleton.mp hu
          exact absurd hp ht
      · rintro pre u post rfl hq
        obtain ⟨v, hv, hp⟩ := hafter pre u (post ++ [t]) (by simp) hq
        rcases List.mem_append.mp hv with hv | hv
        · exact ⟨v, hv, hp⟩
        · obtain rfl := List.mem_singleton.mp hv
          exact absurd hp ht

end Since

end VideoGen
