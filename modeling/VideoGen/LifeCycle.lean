import VideoGen.Entities
import VideoGen.Lib.Net

/-!
# The life cycle of a video

What the services are for, in their own terms: at every moment somebody is
responsible for a video.  The responsibility is a token that moves from the
call that creates the video to its job, from the job to the finished row or to
the record of its failure, and from the record through a retry to the next
job.  The invariant of this net says that there is exactly one such token, and
how its place and the status of the row belong together.
-/

namespace VideoGen

/-- Where the calls, jobs and records of a video stand. -/
inductive Place where
  /-- A creation has inserted the row and enqueues the job next. -/
  | creating
  /-- A job is queued, or its execution has not started the row. -/
  | waiting
  | working
  /-- An execution has completed the row and is not settled. -/
  | finished
  /-- An execution has failed the row and has not announced it. -/
  | marked
  /-- An execution has announced the failure and is not settled. -/
  | reported
  | completed
  | failed
  /-- A listener has not saved its record. -/
  | unsaved
  | unretried
  | retried
  /-- A retry has read its record. -/
  | resetting
  /-- A retry has reset the row. -/
  | readding
  /-- A retry has added its job and not marked the record. -/
  | passed
  deriving DecidableEq

inductive Store where
  | calls
  | jobs
  | records
  deriving DecidableEq

def Place.store : Place → Store
  | .creating => .calls
  | .unsaved => .calls
  | .resetting => .calls
  | .readding => .calls
  | .passed => .calls
  | .unretried => .records
  | .retried => .records
  | _ => .jobs

/-- The status of the row, if there is one, and how many items lie on each place. -/
structure Ledger where
  status : Option VideoStatus
  tokens : Marking Place

namespace Ledger

def claims (m : Marking Place) : ℕ := m .resetting + m .readding + m .passed

@[simp] theorem claims_add (m m' : Marking Place) : claims (m + m') = claims m + claims m' := by
  simp only [claims, Pi.add_apply]
  omega

abbrev on (p : Place) : Marking Place := token (some p)

inductive Handover : Marking Place → Marking Place → Prop where
  | enqueue : Handover (on .creating) (on .waiting)
  | again : Handover (on .working) (on .waiting)
  | report : Handover (on .marked) (on .reported + on .unsaved)
  | settleCompleted : Handover (on .finished) (on .completed)
  | settleFailed : Handover (on .reported) (on .failed)
  | save : Handover (on .unsaved) (on .unretried)
  | enqueueAgain : Handover (on .readding) (on .passed + on .waiting)
  | markRetried : Handover (on .passed + on .unretried) (on .retried)

inductive Writes : VideoStatus → Marking Place → Marking Place → Prop where
  | start : Writes .processing (on .waiting) (on .working)
  | complete : Writes .completed (on .working) (on .finished)
  | markFailed : Writes .failed (on .working) (on .marked)
  | reset : Writes .pending (on .resetting) (on .readding)

/-- The transitions of the life cycle. -/
inductive Step (l l' : Ledger) : Prop where
  | quiet (hstatus : l'.status = l.status) (htokens : l'.tokens = l.tokens)
  | create (hnone : l.status = none) (hstatus : l'.status = some .pending)
      (hfires : Fires 0 (on .creating) l.tokens l'.tokens)
  | claim (hfree : claims l.tokens = 0) (hrecord : 0 < l.tokens .unretried)
      (hstatus : l'.status = l.status) (hfires : Fires 0 (on .resetting) l.tokens l'.tokens)
  | handover {pre post : Marking Place} (hmove : Handover pre post)
      (hstatus : l'.status = l.status) (hfires : Fires pre post l.tokens l'.tokens)
  | write {status : VideoStatus} {pre post : Marking Place} (hmove : Writes status pre post)
      (hstatus : l'.status = some status) (hfires : Fires pre post l.tokens l'.tokens)

/-- Which items are responsible for a video whose row has the given status.  A retry that
has added its job still holds an unretried record. -/
def Answerable (m : Marking Place) : Option VideoStatus → Prop
  | none => m .creating + m .waiting + m .working + m .marked + m .unsaved + m .unretried = 0
  | some .pending => m .creating + m .waiting + m .readding = 1 ∧
      m .working + m .marked + m .unsaved = 0 ∧ m .unretried = m .readding + m .passed
  | some .processing => m .waiting + m .working = 1 ∧
      m .creating + m .readding + m .marked + m .unsaved = 0 ∧ m .unretried = m .passed
  | some .completed => m .creating + m .waiting + m .working + m .readding + m .marked +
      m .unsaved = 0 ∧ m .unretried = m .passed
  | some .failed => m .creating + m .waiting + m .working + m .readding = 0 ∧
      m .marked + m .unsaved + m .unretried = 1 + m .passed
  | some .cancelled => False

structure Sound (l : Ledger) : Prop where
  claims_le_one : claims l.tokens ≤ 1
  claims_le_unretried : claims l.tokens ≤ l.tokens .unretried
  answerable : Answerable l.tokens l.status
  records : l.tokens .unsaved + l.tokens .unretried + l.tokens .retried =
    l.tokens .failed + l.tokens .reported

theorem sound_empty : Sound ⟨none, 0⟩ := by
  constructor <;> simp [claims, Answerable]

/-! ## The invariant along the transitions -/

theorem places_of_fires {pre post m m' : Marking Place} (h : Fires pre post m m') :
    m' .creating + pre .creating = m .creating + post .creating ∧
    m' .waiting + pre .waiting = m .waiting + post .waiting ∧
    m' .working + pre .working = m .working + post .working ∧
    m' .marked + pre .marked = m .marked + post .marked ∧
    m' .unsaved + pre .unsaved = m .unsaved + post .unsaved ∧
    m' .unretried + pre .unretried = m .unretried + post .unretried ∧
    m' .resetting + pre .resetting = m .resetting + post .resetting ∧
    m' .readding + pre .readding = m .readding + post .readding ∧
    m' .passed + pre .passed = m .passed + post .passed :=
  ⟨h.apply _, h.apply _, h.apply _, h.apply _, h.apply _, h.apply _, h.apply _, h.apply _,
    h.apply _⟩

/-- The firing starts no claim, keeps the records of the claims, and records and failures
stay in balance. -/
structure Balanced (pre post : Marking Place) : Prop where
  claims_le : claims post ≤ claims pre
  unretried_le : claims post + pre .unretried ≤ claims pre + post .unretried
  records : post .unsaved + post .unretried + post .retried + pre .failed + pre .reported =
    pre .unsaved + pre .unretried + pre .retried + post .failed + post .reported

section Firings

variable {status status' : Option VideoStatus} {pre post m m' : Marking Place}

theorem Sound.of_fires (h : Sound ⟨status, m⟩) (hfires : Fires pre post m m')
    (hbalanced : Balanced pre post) (hanswerable : Answerable m' status') :
    Sound ⟨status', m'⟩ := by
  have hclaims : claims m' + claims pre = claims m + claims post := by
    have hsum := congrArg claims hfires
    simpa using hsum
  have hone := h.claims_le_one
  have hle := h.claims_le_unretried
  have hrecords := h.records
  have hunretried := hfires.apply .unretried
  have hunsaved := hfires.apply .unsaved
  have hretried := hfires.apply .retried
  have hfailed := hfires.apply .failed
  have hreported := hfires.apply .reported
  obtain ⟨hstarts, hkeeps, hbalance⟩ := hbalanced
  simp only at hone hle hrecords
  constructor
  · simp only
    omega
  · simp only
    omega
  · exact hanswerable
  · simp only
    omega

theorem Handover.balanced (h : Handover pre post) : Balanced pre post := by
  cases h <;> exact ⟨by decide, by decide, by decide⟩

theorem Writes.balanced {written : VideoStatus} (h : Writes written pre post) :
    Balanced pre post := by
  cases h <;> exact ⟨by decide, by decide, by decide⟩

/-- Whoever hands the responsibility over had it. -/
theorem Sound.handover (h : Sound ⟨status, m⟩) (hmove : Handover pre post)
    (hfires : Fires pre post m m') : Sound ⟨status, m'⟩ := by
  refine h.of_fires hfires hmove.balanced ?_
  have hanswerable : Answerable m status := h.answerable
  have hle : claims m ≤ m .unretried := h.claims_le_unretried
  have hone : claims m ≤ 1 := h.claims_le_one
  have hp := places_of_fires hfires
  unfold claims at hle hone
  cases hmove <;> simp [token] at hp <;> rcases status with _ | (_ | _ | _ | _ | _) <;>
    simp only [Answerable] at hanswerable ⊢ <;> omega

/-- Whoever writes the row had the responsibility, so nobody else has it afterwards. -/
theorem Sound.write {written : VideoStatus} (h : Sound ⟨status, m⟩)
    (hmove : Writes written pre post) (hfires : Fires pre post m m') :
    Sound ⟨some written, m'⟩ := by
  refine h.of_fires hfires hmove.balanced ?_
  have hanswerable : Answerable m status := h.answerable
  have hle : claims m ≤ m .unretried := h.claims_le_unretried
  have hone : claims m ≤ 1 := h.claims_le_one
  have hp := places_of_fires hfires
  unfold claims at hle hone
  cases hmove <;> simp [token] at hp <;> rcases status with _ | (_ | _ | _ | _ | _) <;>
    simp only [Answerable] at hanswerable ⊢ <;> omega

theorem Sound.create (h : Sound ⟨none, m⟩) (hfires : Fires 0 (on .creating) m m') :
    Sound ⟨some .pending, m'⟩ := by
  refine h.of_fires hfires ⟨by decide, by decide, by decide⟩ ?_
  have hanswerable : Answerable m none := h.answerable
  have hle : claims m ≤ m .unretried := h.claims_le_unretried
  have hp := places_of_fires hfires
  simp [token] at hp
  simp only [Answerable, claims] at hanswerable hle ⊢
  omega

theorem Sound.claim (h : Sound ⟨status, m⟩) (hfree : claims m = 0)
    (hrecord : 0 < m .unretried) (hfires : Fires 0 (on .resetting) m m') :
    Sound ⟨status, m'⟩ := by
  have hanswerable : Answerable m status := h.answerable
  have hrecords : m .unsaved + m .unretried + m .retried = m .failed + m .reported := h.records
  have hp := places_of_fires hfires
  have hretried := hfires.apply .retried
  have hfailed := hfires.apply .failed
  have hreported := hfires.apply .reported
  simp [token] at hp hretried hfailed hreported
  unfold claims at hfree
  constructor
  · simp only [claims]
    omega
  · simp only [claims]
    omega
  · rcases status with _ | (_ | _ | _ | _ | _) <;> simp only [Answerable] at hanswerable ⊢ <;>
      omega
  · simp only
    omega

end Firings

/-- Every transition keeps the responsibility with exactly one item. -/
theorem sound_step {l l' : Ledger} (hstep : Step l l') (h : Sound l) : Sound l' := by
  obtain ⟨status, m⟩ := l
  obtain ⟨status', m'⟩ := l'
  cases hstep with
  | quiet hstatus htokens =>
      obtain rfl : status' = status := hstatus
      obtain rfl : m' = m := htokens
      exact h
  | create hnone hstatus hfires =>
      obtain rfl : status = none := hnone
      obtain rfl : status' = some .pending := hstatus
      exact h.create hfires
  | claim hfree hrecord hstatus hfires =>
      obtain rfl : status' = status := hstatus
      exact h.claim hfree hrecord hfires
  | handover hmove hstatus hfires =>
      obtain rfl : status' = status := hstatus
      exact h.handover hmove hfires
  | write hmove hstatus hfires =>
      obtain rfl : status' = some _ := hstatus
      exact h.write hmove hfires

theorem waiting_of_step {l l' : Ledger} (hstep : Step l l') (h : Sound l)
    (hstatus : l'.status ≠ l.status) : l'.tokens .waiting = 0 := by
  obtain ⟨status, m⟩ := l
  have hanswerable : Answerable m status := h.answerable
  have hle : claims m ≤ m .unretried := h.claims_le_unretried
  have hone : claims m ≤ 1 := h.claims_le_one
  unfold claims at hle hone
  cases hstep with
  | quiet hsame htokens => exact absurd hsame hstatus
  | claim hfree hrecord hsame hfires => exact absurd hsame hstatus
  | handover hmove hsame hfires => exact absurd hsame hstatus
  | create hnone hpending hfires =>
      obtain rfl : status = none := hnone
      have hp := places_of_fires hfires
      simp [token] at hp
      simp only [Answerable] at hanswerable
      omega
  | write hmove hwritten hfires =>
      have hp := places_of_fires hfires
      cases hmove <;> simp [token] at hp <;> rcases status with _ | (_ | _ | _ | _ | _) <;>
        simp only [Answerable] at hanswerable <;> omega

/-! ## What the invariant says -/

section Consequences

variable {l : Ledger}

theorem Sound.open_of_waiting (h : Sound l) (hwaiting : 0 < l.tokens .waiting) :
    l.status = some .pending ∨ l.status = some .processing := by
  obtain ⟨status, m⟩ := l
  have hanswerable : Answerable m status := h.answerable
  simp only at hwaiting ⊢
  rcases status with _ | (_ | _ | _ | _ | _) <;> simp only [Answerable] at hanswerable
  · omega
  · exact .inl rfl
  · exact .inr rfl
  · omega
  · omega

theorem Sound.processing_of_working (h : Sound l) (hworking : 0 < l.tokens .working) :
    l.status = some .processing := by
  obtain ⟨status, m⟩ := l
  have hanswerable : Answerable m status := h.answerable
  simp only at hworking ⊢
  rcases status with _ | (_ | _ | _ | _ | _) <;> simp only [Answerable] at hanswerable
  · omega
  · omega
  · rfl
  · omega
  · omega

theorem Sound.row_of_claim (h : Sound l) (hclaim : 0 < claims l.tokens) :
    ∃ status, l.status = some status := by
  obtain ⟨status, m⟩ := l
  cases status with
  | some status => exact ⟨status, rfl⟩
  | none =>
      have hanswerable : Answerable m none := h.answerable
      have hle : claims m ≤ m .unretried := h.claims_le_unretried
      simp only [Answerable] at hanswerable
      simp only at hclaim
      omega

theorem Sound.settled (h : Sound l) (hcalls : l.tokens .creating + l.tokens .unsaved = 0)
    (hmarked : l.tokens .marked = 0) (hclaims : claims l.tokens = 0) (hrow : l.status ≠ none) :
    ((l.status = some .pending ∨ l.status = some .processing) ∧
        l.tokens .waiting + l.tokens .working = 1 ∧ l.tokens .unretried = 0) ∨
      (l.status = some .completed ∧ l.tokens .waiting + l.tokens .working = 0 ∧
        l.tokens .unretried = 0) ∨
      (l.status = some .failed ∧ l.tokens .waiting + l.tokens .working = 0 ∧
        l.tokens .unretried = 1) := by
  obtain ⟨status, m⟩ := l
  have hanswerable : Answerable m status := h.answerable
  unfold claims at hclaims
  simp only at hcalls hmarked hclaims hrow ⊢
  rcases status with _ | (_ | _ | _ | _ | _) <;> simp only [Answerable] at hanswerable
  · exact absurd rfl hrow
  · exact .inl ⟨.inl rfl, by omega, by omega⟩
  · exact .inl ⟨.inr rfl, by omega, by omega⟩
  · exact .inr (.inl ⟨rfl, by omega, by omega⟩)
  · exact .inr (.inr ⟨rfl, by omega, by omega⟩)

end Consequences

end Ledger

end VideoGen
