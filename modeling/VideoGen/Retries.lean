import VideoGen.StorageService

/-!
# Retried operations

A complete run of `withRetry` is a row of complete runs of the operation with a
delay between any two of them.  Every run but the last one failed, and the last
one succeeded, was the last one permitted or failed with a value whose message
cannot be read.
-/

namespace VideoGen

/-- One complete run of an operation: what it exchanged and how it ended. -/
structure Invocation (I : Interface) (α : Type) where
  log : List (Exchange I)
  outcome : Except I.Error α

section Loop

variable {I : Interface} [Runtime I] {α : Type} {operation : Program I α} {n attempt : ℕ}
  {xs : List (Invocation I α)} {x : Invocation I α} {r : Except I.Error α}
  {log : List (Exchange I)}

def Invocation.Of (x : Invocation I α) (operation : Program I α) : Prop :=
  operation.Follows x.log (.done x.outcome)

/-- It failed, and the message of what was thrown can be read. -/
def Invocation.Failed (x : Invocation I α) : Prop :=
  ∃ e, x.outcome = .error e ∧ Runtime.readMessage e = .ok ()

/-- The milliseconds between attempt `attempt` and the next one. -/
def retryWait (attempt : ℕ) : ℕ := timerDelay (baseRetryDelayMs * 2 ^ (attempt - 1))

/-- The wait after attempt `attempt`. -/
def retryDelay (attempt : ℕ) : Exchange I :=
  ⟨Runtime.timer (retryWait attempt), .ok (Runtime.fired (retryWait attempt)).default⟩

/-- The invocations from attempt `attempt` on, with a delay after each one but the last. -/
def interleaved (attempt : ℕ) : List (Invocation I α) → List (Exchange I)
  | [] => []
  | [x] => x.log
  | x :: y :: xs => x.log ++ retryDelay attempt :: interleaved (attempt + 1) (y :: xs)

/-- The timers of a run go off. -/
def TimersFire (log : List (Exchange I)) : Prop :=
  ∀ ms e, (⟨Runtime.timer ms, .error e⟩ : Exchange I) ∉ log

/-- How an invocation that is the last one ends the loop, as the only one of attempt
`attempt`: with its outcome, or, when it is not the last one permitted and what was thrown
has no message, with the error of reading it. -/
inductive Closes (n attempt : ℕ) (x : Invocation I α) : Except I.Error α → Prop where
  | success {value : α} (hvalue : x.outcome = .ok value) : Closes n attempt x (.ok value)
  | exhausted {e : I.Error} (he : x.outcome = .error e) (hlast : n ≤ attempt) :
      Closes n attempt x (.error e)
  | unreadable {e e' : I.Error} (he : x.outcome = .error e) (hless : attempt < n)
      (hread : Runtime.readMessage e = .error e') : Closes n attempt x (.error e')

/-- The invocations of the loop from attempt `attempt` on, and what it ends with. -/
inductive Retried (operation : Program I α) (n : ℕ) :
    ℕ → List (Invocation I α) → Except I.Error α → Prop where
  | last {attempt : ℕ} {x : Invocation I α} {r : Except I.Error α} (hx : x.Of operation)
      (hcloses : Closes n attempt x r) : Retried operation n attempt [x] r
  | again {attempt : ℕ} {x y : Invocation I α} {xs : List (Invocation I α)}
      {r : Except I.Error α} (hx : x.Of operation) (hfailed : x.Failed) (hless : attempt < n)
      (hrest : Retried operation n (attempt + 1) (y :: xs) r) :
      Retried operation n attempt (x :: y :: xs) r

/-! ## The loop -/

omit [Runtime I] in
theorem follows_pure_iff {a : α} :
    (pure a : Program I α).Follows log (.done r) ↔ log = [] ∧ r = .ok a := by
  constructor
  · exact Program.Follows.of_done
  · intro h
    obtain ⟨rfl, rfl⟩ := h
    exact Program.follows_nil.mpr rfl

theorem follows_failed_iff {e : I.Error} {p : Program I α} (hless : attempt < n)
    (htimers : TimersFire log) :
    (if attempt < n then do
        let _ ← Program.done (Runtime.readMessage e)
        let _ ← Program.perform
          (Runtime.timer (timerDelay (baseRetryDelayMs * 2 ^ (attempt - 1))))
        p
      else p : Program I α).Follows log (.done r) ↔
      (∃ e', Runtime.readMessage e = .error e' ∧ log = [] ∧ r = .error e') ∨
      (Runtime.readMessage e = .ok () ∧
        ∃ rest, log = retryDelay attempt :: rest ∧ p.Follows rest (.done r)) := by
  rw [if_pos hless]
  cases hread : Runtime.readMessage e with
  | error e' =>
      constructor
      · intro h
        obtain ⟨rfl, rfl⟩ := Program.Follows.of_done h
        exact .inl ⟨e', rfl, rfl, rfl⟩
      · rintro (⟨e'', he, rfl, rfl⟩ | ⟨hok, -⟩)
        · obtain rfl := Except.error.inj he
          exact Program.follows_nil.mpr rfl
        · cases hok
  | ok u =>
      constructor
      · intro h
        obtain ⟨x, rest, rfl, hrest⟩ := Program.Follows.of_call h
        cases x with
        | ok u =>
            obtain rfl := (Runtime.fired _).eq_default u
            exact .inr ⟨rfl, rest, rfl, hrest⟩
        | error e' => exact absurd List.mem_cons_self (htimers _ e')
      · rintro (⟨e', he, -⟩ | ⟨-, rest, rfl, hrest⟩)
        · cases he
        · exact ⟨_, rfl, hrest⟩

theorem retries_of_follows {remaining : ℕ} {lastError : I.Error}
    (hturns : attempt + remaining = n) (htimers : TimersFire log)
    (h : (withRetryFrom operation n attempt lastError (remaining + 1)).Follows log (.done r)) :
    ∃ x xs, Retried operation n attempt (x :: xs) r ∧ log = interleaved attempt (x :: xs) := by
  induction remaining generalizing attempt lastError log with
  | zero =>
      rcases Program.follows_bind_done_iff.mp h with ⟨log₁, a, log₂, h₁, h₂, rfl⟩ | ⟨e, h₁, -⟩
      · obtain ⟨outcome, ha, hx⟩ := Program.follows_attempt_done_iff.mp h₁
        obtain rfl := Except.ok.inj ha
        cases a with
        | ok value =>
            obtain ⟨rfl, rfl⟩ := follows_pure_iff.mp h₂
            exact ⟨⟨log₁, .ok value⟩, [], .last hx (.success rfl), List.append_nil log₁⟩
        | error e =>
            have hlast : ¬attempt < n := by omega
            change Program.Follows (if attempt < n then _ else _) _ _ at h₂
            rw [if_neg hlast] at h₂
            obtain ⟨rfl, rfl⟩ := Program.Follows.of_done h₂
            exact ⟨⟨log₁, .error e⟩, [], .last hx (.exhausted rfl (by omega)),
              List.append_nil log₁⟩
      · obtain ⟨outcome, he, -⟩ := Program.follows_attempt_done_iff.mp h₁
        cases he
  | succ remaining ih =>
      rcases Program.follows_bind_done_iff.mp h with ⟨log₁, a, log₂, h₁, h₂, rfl⟩ | ⟨e, h₁, -⟩
      · obtain ⟨outcome, ha, hx⟩ := Program.follows_attempt_done_iff.mp h₁
        obtain rfl := Except.ok.inj ha
        cases a with
        | ok value =>
            obtain ⟨rfl, rfl⟩ := follows_pure_iff.mp h₂
            exact ⟨⟨log₁, .ok value⟩, [], .last hx (.success rfl), List.append_nil log₁⟩
        | error e =>
            have hless : attempt < n := by omega
            have htimers₂ : TimersFire log₂ :=
              fun ms e h ↦ htimers ms e (List.mem_append_right _ h)
            rcases (follows_failed_iff hless htimers₂).mp h₂ with
              ⟨e', hread, rfl, rfl⟩ | ⟨hread, rest, rfl, hrest⟩
            · exact ⟨⟨log₁, .error e⟩, [], .last hx (.unreadable rfl hless hread),
                List.append_nil log₁⟩
            · obtain ⟨y, ys, hys, rfl⟩ := ih (by omega)
                (fun ms e h ↦ htimers₂ ms e (List.mem_cons_of_mem _ h)) hrest
              exact ⟨⟨log₁, .error e⟩, y :: ys, .again hx ⟨e, rfl, hread⟩ hless hys, rfl⟩
      · obtain ⟨outcome, he, -⟩ := Program.follows_attempt_done_iff.mp h₁
        cases he

theorem Closes.follows (h : Closes n attempt x r) (hx : x.Of operation) {remaining : ℕ}
    (hturns : attempt + remaining = n) (lastError : I.Error) :
    (withRetryFrom operation n attempt lastError (remaining + 1)).Follows x.log (.done r) := by
  have hx' := Program.follows_attempt_done_iff.mpr ⟨x.outcome, rfl, hx⟩
  refine Program.follows_bind_done_iff.mpr
    (.inl ⟨x.log, x.outcome, [], hx', ?_, (List.append_nil x.log).symm⟩)
  cases h with
  | success hvalue =>
      rw [hvalue]
      exact follows_pure_iff.mpr ⟨rfl, rfl⟩
  | exhausted he hlast =>
      obtain rfl : remaining = 0 := by omega
      rw [he]
      change Program.Follows (if attempt < n then _ else _) _ _
      rw [if_neg (by omega)]
      exact Program.follows_nil.mpr rfl
  | @unreadable e e' he hless hread =>
      rw [he]
      exact (follows_failed_iff hless fun _ _ h ↦ absurd h List.not_mem_nil).mpr
        (.inl ⟨e', hread, rfl, rfl⟩)

theorem Retried.follows (h : Retried operation n attempt xs r) {remaining : ℕ}
    (hturns : attempt + remaining = n) (lastError : I.Error) :
    (withRetryFrom operation n attempt lastError (remaining + 1)).Follows
      (interleaved attempt xs) (.done r) := by
  induction h generalizing remaining lastError with
  | last hx hcloses => exact hcloses.follows hx hturns lastError
  | @again attempt x y xs r hx hfailed hless hrest ih =>
      obtain ⟨e, he, hread⟩ := hfailed
      obtain ⟨remaining, rfl⟩ : ∃ k, remaining = k + 1 := ⟨remaining - 1, by omega⟩
      refine Program.follows_bind_done_iff.mpr (.inl ⟨x.log, .error e,
        retryDelay attempt :: interleaved (attempt + 1) (y :: xs), ?_, ?_, rfl⟩)
      · exact Program.follows_attempt_done_iff.mpr ⟨.error e, rfl, he ▸ hx⟩
      · change Program.Follows (if attempt < n then _ else _) _ _
        rw [if_pos hless, hread]
        exact ⟨.ok _, rfl, ih (by omega) e⟩

/-! ## How often the operation is invoked -/

theorem Retried.ends (h : Retried operation n attempt xs r) (hattempt : attempt ≤ n) :
    ∃ failures x, xs = failures ++ [x] ∧ (∀ y ∈ failures, y.Of operation ∧ y.Failed) ∧
      x.Of operation ∧ Closes n (attempt + failures.length) x r ∧
      attempt + failures.length ≤ n := by
  induction h with
  | @last attempt x r hx hcloses => exact ⟨[], x, rfl, by simp, hx, hcloses, hattempt⟩
  | @again attempt x y xs r hx hfailed hless hrest ih =>
      obtain ⟨failures, z, hxs, hfailures, hz, hcloses, hle⟩ := ih hless
      have hlength : attempt + (x :: failures).length = attempt + 1 + failures.length := by
        rw [List.length_cons]
        omega
      refine ⟨x :: failures, z, congrArg (x :: ·) hxs, ?_, hz, ?_, ?_⟩
      · exact List.forall_mem_cons.mpr ⟨⟨hx, hfailed⟩, hfailures⟩
      · rw [hlength]
        exact hcloses
      · rw [hlength]
        exact hle

/-- A sequence of outcomes is followed up to the first one that closes the loop. -/
theorem retries_of_sequence {k : ℕ} {x : ℕ → Invocation I α} (hx : ∀ j, (x j).Of operation)
    (hfailed : ∀ j < k, (x j).Failed) (hless : attempt + k ≤ n)
    (hcloses : Closes n (attempt + k) (x k) r) :
    Retried operation n attempt ((List.range (k + 1)).map x) r := by
  induction k generalizing attempt x with
  | zero => exact .last (hx 0) hcloses
  | succ k ih =>
      have hshift : attempt + (k + 1) = attempt + 1 + k := by omega
      rw [hshift] at hcloses
      have hrest : Retried operation n (attempt + 1)
          ((List.range (k + 1)).map fun j ↦ x (j + 1)) r :=
        ih (fun j ↦ hx (j + 1)) (fun j hj ↦ hfailed (j + 1) (by omega)) (by omega) hcloses
      rw [List.range_succ_eq_map, List.map_cons, List.map_map]
      rw [List.range_succ_eq_map, List.map_cons] at hrest ⊢
      exact .again (hx 0) (hfailed 0 (by omega)) (by omega) hrest

/-- Delays double until the timers cannot wait so long. -/
theorem retryWait_eq {attempt : ℕ} (h : 1 ≤ attempt) :
    retryWait attempt = if attempt ≤ 24 then 200 * 2 ^ (attempt - 1) else 1 := by
  unfold retryWait timerDelay baseRetryDelayMs
  have hpos : 1 ≤ 2 ^ (attempt - 1) := Nat.one_le_two_pow
  by_cases hsmall : attempt ≤ 24
  · have hpow : 2 ^ (attempt - 1) ≤ 2 ^ 23 := Nat.pow_le_pow_right (by omega) (by omega)
    rw [if_pos hsmall, if_pos (by omega)]
  · have hpow : 2 ^ 24 ≤ 2 ^ (attempt - 1) := Nat.pow_le_pow_right (by omega) (by omega)
    rw [if_neg hsmall, if_neg (by omega)]

end Loop

/-! ## Values without a message -/

inductive Rejection where
  | null
  | undefined
  | value (e : Thrown)

/-- `(error as Error).message` -/
def Rejection.readMessage : Rejection → Except Rejection Unit
  | .null => .error (.value (.instance .error
      "Cannot read properties of null (reading 'message')"))
  | .undefined => .error (.value (.instance .error
      "Cannot read properties of undefined (reading 'message')"))
  | .value _ => .ok ()

/-- The calls of the application, rejected with anything. -/
def rejecting : Interface where
  Call := Call
  Reply := Call.Reply
  Error := Rejection

instance : Runtime rejecting where
  timer := .setTimeout
  fired _ := inferInstanceAs (Unique Unit)
  error message := .value (.instance .error message)
  readMessage := Rejection.readMessage

def nullDelete : Invocation rejecting Unit := ⟨[⟨.s3Delete "key", .error .null⟩], .error .null⟩

def lateDelete : Invocation rejecting Unit :=
  ⟨[⟨.s3Delete "key", .error (.value (.instance .error "timeout"))⟩],
    .error (.value (.instance .error "timeout"))⟩

end VideoGen
