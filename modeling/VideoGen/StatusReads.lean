import VideoGen.PartialCalls

/-!
# Status reads without Redis

`getCachedStatus` falls back to the database when Redis misses, fails or
delivers garbage.  The fallback has a `catch` of its own around the query and
the backfill, so that a rejected `SET` throws away the row that was read.
-/

namespace VideoGen

/-- Calls of a read whose database is readable. -/
def World.execReadable (w : World) :
    (c : Call) → Fate → Option (World × Except Thrown c.Reply)
  | .selectVideo id, .ok a => w.exec (.selectVideo id) (.ok a)
  | .selectVideo _, _ => none
  | c, f => w.exec c f

/-- The `GET` of the read delivers a text that can be parsed. -/
def Delivers (w : World) (videoId : String) (ts : List (Transition World Fate))
    (snapshot : StatusSnapshot) : Prop :=
  (∃ t, ts.head? = some t ∧ t.act.Answers) ∧ w.cached videoId = some snapshot

/-- The read returns what Redis delivers, else what the row shows, and `null` only without a
row. -/
structure SurvivesRedis (w : World) (videoId : String) (ts : List (Transition World Fate))
    (r : Except Thrown (Option StatusSnapshot)) : Prop where
  returns : ∃ x, r = .ok x
  hit : ∀ snapshot, Delivers w videoId ts snapshot → r = .ok (some snapshot)
  miss : (∀ snapshot, ¬Delivers w videoId ts snapshot) →
    ∀ row, w.videos.find? videoId = some row → r = .ok (some (row.snapshot w.now))
  null : r = .ok none → w.videos.find? videoId = none

section Evaluations

variable {w w' : World} {videoId : String} {ts : List (Transition World Fate)}
  {r : Except Thrown (Option StatusSnapshot)}

theorem exec_dateNow {f : Fate} {x : Except Thrown ℕ} (h : w.exec .dateNow f = some (w', x)) :
    w' = w ∧ x = .ok w.now := by
  rcases World.exec_cases h with ⟨b, y, -, hy, rfl⟩ | ⟨e, -, hc, -⟩ | ⟨b, e, y, -, hc, -⟩
  · obtain ⟨rfl, rfl⟩ := World.answer_of_unit rfl b w' y hy
    exact ⟨rfl, rfl⟩
  · cases hc
  · cases hc

theorem exec_redisGet {f : Fate} {key : String} {x : Except Thrown (Option CachedText)}
    (h : w.exec (.redisGet key) f = some (w', x)) :
    w' = w ∧ (f.Answers ∧ x = .ok (w.redis key) ∨ ¬f.Answers ∧ ∃ e, x = .error e) := by
  rcases World.exec_cases h with ⟨b, y, rfl, hy, rfl⟩ | ⟨e, rfl, -, rfl, rfl⟩ |
    ⟨b, e, y, rfl, -, hy, rfl⟩
  · obtain ⟨rfl, rfl⟩ := World.answer_of_unit rfl b w' y hy
    exact ⟨rfl, .inl ⟨trivial, rfl⟩⟩
  · exact ⟨rfl, .inr ⟨id, e, rfl⟩⟩
  · obtain ⟨rfl, -⟩ := World.answer_of_unit rfl b w' y hy
    exact ⟨rfl, .inr ⟨id, e, rfl⟩⟩

theorem load_cases (h : (loadFromDb videoId).Evaluates World.execReadable w ts r w') :
    (w.videos.find? videoId = none ∧ ts.length = 1 ∧ r = .ok none) ∨
    ∃ row t₁ t₂ t₃, w.videos.find? videoId = some row ∧ ts = [t₁, t₂, t₃] ∧
      (t₃.act.Answers ∧ r = .ok (some (row.snapshot w.now)) ∨
        ¬t₃.act.Answers ∧ r = .ok none) := by
  obtain ⟨f, w₁, x, rest, hexec, h, rfl⟩ := Program.evaluates_call_iff.mp h
  have hselect : w₁ = w ∧ x = .ok (w.videos.find? videoId) := by
    cases f with
    | rejected e => cases hexec
    | lost b e => cases hexec
    | ok b =>
        obtain ⟨⟨w₂, y⟩, hx, heq⟩ := Option.map_eq_some_iff.mp hexec
        obtain ⟨rfl, rfl⟩ := Prod.mk.inj heq
        obtain ⟨rfl, rfl⟩ := World.answer_selectVideo hx
        exact ⟨rfl, rfl⟩
  obtain ⟨rfl, rfl⟩ := hselect
  cases hrow : w₁.videos.find? videoId with
  | none =>
      rw [hrow] at h
      obtain ⟨rfl, rfl, -⟩ := Program.evaluates_done_iff.mp h
      exact .inl ⟨rfl, rfl, rfl⟩
  | some row =>
      rw [hrow] at h
      obtain ⟨f₂, w₂, now, rest, hnow, h, rfl⟩ := Program.evaluates_call_iff.mp h
      obtain ⟨rfl, rfl⟩ := exec_dateNow hnow
      obtain ⟨f₃, w₃, y, rest, hset, h, rfl⟩ := Program.evaluates_call_iff.mp h
      rcases World.exec_cases hset with ⟨b, z, rfl, -, rfl⟩ | ⟨e, rfl, -, -, rfl⟩ |
        ⟨b, e, z, rfl, -, -, rfl⟩
      · obtain ⟨rfl, rfl, -⟩ := Program.evaluates_done_iff.mp h
        exact .inr ⟨row, _, _, _, rfl, rfl, .inl ⟨trivial, rfl⟩⟩
      · obtain ⟨rfl, rfl, -⟩ := Program.evaluates_done_iff.mp h
        exact .inr ⟨row, _, _, _, rfl, rfl, .inr ⟨id, rfl⟩⟩
      · obtain ⟨rfl, rfl, -⟩ := Program.evaluates_done_iff.mp h
        exact .inr ⟨row, _, _, _, rfl, rfl, .inr ⟨id, rfl⟩⟩

theorem read_cases (h : (getCachedStatus videoId).Evaluates World.execReadable w ts r w') :
    (∃ t snapshot, ts = [t] ∧ Delivers w videoId ts snapshot ∧ r = .ok (some snapshot)) ∨
    ∃ t rest, ts = t :: rest ∧ (∀ snapshot, ¬Delivers w videoId ts snapshot) ∧
      (loadFromDb videoId).Evaluates World.execReadable w rest r w' := by
  obtain ⟨f, w₁, x, rest, hexec, h, rfl⟩ := Program.evaluates_call_iff.mp h
  obtain ⟨rfl, ⟨hanswers, rfl⟩ | ⟨hfail, e, rfl⟩⟩ := exec_redisGet hexec
  · have hmiss (hcached : w₁.cached videoId = none) (snapshot : StatusSnapshot) :
        ¬Delivers w₁ videoId (⟨w₁, f, w₁⟩ :: rest) snapshot := by
      rintro ⟨-, hsome⟩
      rw [hcached] at hsome
      cases hsome
    cases hget : w₁.redis (statusKey videoId) with
    | none =>
        rw [hget] at h
        have hcached : w₁.cached videoId = none := by simp [World.cached, hget]
        exact .inr ⟨_, rest, rfl, hmiss hcached, h⟩
    | some text =>
        rw [hget] at h
        cases text with
        | snapshot s =>
            have hcached : w₁.cached videoId = some s := by simp [World.cached, hget]
            obtain ⟨rfl, rfl, -⟩ := Program.evaluates_done_iff.mp h
            exact .inl ⟨_, s, rfl, ⟨⟨_, rfl, hanswers⟩, hcached⟩, rfl⟩
        | malformed text =>
            have hcached : w₁.cached videoId = none := by simp [World.cached, hget]
            refine .inr ⟨_, rest, rfl, hmiss hcached, ?_⟩
            by_cases hempty : text = ""
            · subst hempty
              exact h
            · have hparse : parseSnapshot (some (.malformed text)) =
                  raise .error "Unexpected token" := if_neg hempty
              change Program.Evaluates _
                (((parseSnapshot (some (.malformed text))).attempt.bind _).bind _) _ _ _ _ at h
              rw [hparse] at h
              exact h
  · refine .inr ⟨_, rest, rfl, ?_, h⟩
    rintro snapshot ⟨⟨t, ht, hanswers⟩, -⟩
    obtain rfl := Option.some.inj ht
    exact hfail hanswers

/-- The read survives every failure of Redis but that of the backfill, its fourth call. -/
theorem survivesRedis_iff (h : (getCachedStatus videoId).Evaluates World.execReadable w ts r w') :
    SurvivesRedis w videoId ts r ↔ ∀ t, ts[3]? = some t → t.act.Answers := by
  rcases read_cases h with ⟨t, snapshot, rfl, hdelivers, rfl⟩ | ⟨t, rest, rfl, hmiss, hload⟩
  · refine iff_of_true ⟨⟨_, rfl⟩, fun s hs ↦ ?_, fun hnone ↦ ?_, nofun⟩ (by simp)
    · rw [Option.some.inj (hs.2.symm.trans hdelivers.2)]
    · exact absurd hdelivers (hnone snapshot)
  rcases load_cases hload with ⟨hrow, hlength, rfl⟩ |
    ⟨row, t₁, t₂, t₃, hrow, rfl, ⟨hanswers, rfl⟩ | ⟨hfail, rfl⟩⟩
  · refine iff_of_true ⟨⟨_, rfl⟩, fun s hs ↦ absurd hs (hmiss s), fun _ row hsome ↦ ?_,
      fun _ ↦ hrow⟩ ?_
    · rw [hrow] at hsome
      cases hsome
    · intro t ht
      have hlt := (List.getElem?_eq_some_iff.mp ht).1
      rw [List.length_cons, hlength] at hlt
      omega
  · refine iff_of_true ⟨⟨_, rfl⟩, fun s hs ↦ absurd hs (hmiss s), fun _ row' hsome ↦ ?_, nofun⟩ ?_
    · rw [Option.some.inj (hrow.symm.trans hsome)]
    · intro t ht
      obtain rfl := Option.some.inj ht
      exact hanswers
  · apply iff_of_false
    · intro hsurvives
      have hnull := hsurvives.null rfl
      rw [hrow] at hnull
      cases hnull
    · exact fun hall ↦ hfail (hall t₃ rfl)

end Evaluations

/-! ## Redis goes down -/

def uncachedWorld : World :=
  { World.empty with videos := Table.single (Video.create "video" {} 0) }

def connectionLost : Fate :=
  .rejected (.instance .error "Connection is closed.")

theorem survivesRedis_missed : ∃ (ts : List (Transition World Fate))
    (r : Except Thrown (Option StatusSnapshot)) (w' : World),
    (getCachedStatus "video").Evaluates World.execReadable uncachedWorld ts r w' ∧
      ts.map Transition.act = [connectionLost, .ok .unit, .ok .unit, .ok .unit] ∧
      SurvivesRedis uncachedWorld "video" ts r := by
  have hobs : ((getCachedStatus "video").evalAll World.execReadable uncachedWorld
      [connectionLost, .ok .unit, .ok .unit, .ok .unit]).isSome = true := by
    decide +kernel
  obtain ⟨⟨w', r⟩, heval⟩ := Option.isSome_iff_exists.mp hobs
  obtain ⟨ts, hts, hacts⟩ := Program.evaluates_of_evalAll heval
  refine ⟨ts, r, w', hts, hacts, (survivesRedis_iff hts).mpr fun t ht ↦ ?_⟩
  have hact : (ts.map Transition.act)[3]? = some t.act := by
    rw [List.getElem?_map, ht, Option.map_some]
  rw [hacts] at hact
  rw [← Option.some.inj hact]
  exact Fate.answers_ok .unit

/-- Redis rejects the `GET` and the `SET`: the row is there, and the read returns `null`. -/
theorem read_without_redis : ∃ (ts : List (Transition World Fate))
    (r : Except Thrown (Option StatusSnapshot)) (w' : World),
    (getCachedStatus "video").Evaluates World.execReadable uncachedWorld ts r w' ∧
      (uncachedWorld.videos.find? "video").isSome ∧ r = .ok none ∧
      ¬SurvivesRedis uncachedWorld "video" ts r := by
  have hobs : ((getCachedStatus "video").evalAll World.execReadable uncachedWorld
      [connectionLost, .ok .unit, .ok .unit, connectionLost]).map
      (fun p ↦ p.2.toOption) = some (some none) := by
    decide +kernel
  obtain ⟨⟨w', r⟩, heval, hseen⟩ := Option.map_eq_some_iff.mp hobs
  obtain ⟨ts, hts, -⟩ := Program.evaluates_of_evalAll heval
  have hrow : (uncachedWorld.videos.find? "video").isSome = true := by decide +kernel
  have hr : r = .ok none := by
    cases r with
    | ok x => exact congrArg Except.ok (Option.some.inj hseen)
    | error e => cases hseen
  refine ⟨ts, r, w', hts, hrow, hr, fun hsurvives ↦ ?_⟩
  rw [hsurvives.null hr] at hrow
  cases hrow

end VideoGen
