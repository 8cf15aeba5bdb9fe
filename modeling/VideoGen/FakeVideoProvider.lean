import Mathlib.Data.List.Nodup
import VideoGen.World

/-!
# The simulated provider

The simulator keeps a job in memory until a check finds that its delay has
elapsed: that check completes the job and forgets it.  A job is named by its
video and the millisecond of its submission, behind the last dash of the name.
-/

namespace VideoGen

structure FakeJobState where
  videoId : String
  params : GenerateVideoParams
  startedAt : ℕ
  completionDelayMs : ℤ

structure FakeVideoProvider where
  jobs : String → Option FakeJobState
  defaultDelayMs : ℤ

namespace FakeVideoProvider

/-- The constructor, with the value of `ai.simulationDelayMs`. -/
def create (simulationDelayMs : Option ℤ) : FakeVideoProvider where
  jobs _ := none
  defaultDelayMs := simulationDelayMs.getD 5000

def set (p : FakeVideoProvider) (jobId : String) (state : Option FakeJobState) :
    FakeVideoProvider :=
  { p with jobs := fun id ↦ if id = jobId then state else p.jobs id }

def jobName (videoId : String) (now : ℕ) : String := "fake-" ++ videoId ++ "-" ++ toString now

/-- Reads the clock twice, for the name and for the start of the job. -/
def submit (p : FakeVideoProvider) (videoId : String) (params : GenerateVideoParams)
    (now startedAt : ℕ) : FakeVideoProvider × GenerateVideoResult :=
  let jobId := jobName videoId now
  (p.set jobId (some { videoId := videoId
                       params := params
                       startedAt := startedAt
                       completionDelayMs := p.defaultDelayMs }),
    { jobId := jobId
      status := .processing
      estimatedDurationMs := some p.defaultDelayMs })

def buildVideoUrl (videoId : String) : String :=
  "https://fake-cdn.example.com/videos/" ++ videoId ++ "/output.mp4"

def buildThumbnailUrl (videoId : String) : String :=
  "https://fake-cdn.example.com/videos/" ++ videoId ++ "/thumb.jpg"

def notFound (jobId : String) : GenerateVideoResult where
  jobId := jobId
  status := .failed
  errorMessage := some "Job not found in simulator"

def processing (jobId : String) : GenerateVideoResult where
  jobId := jobId
  status := .processing

def completed (jobId videoId : String) : GenerateVideoResult where
  jobId := jobId
  status := .completed
  videoUrl := some (buildVideoUrl videoId)
  thumbnailUrl := some (buildThumbnailUrl videoId)
  alreadyStored := some true

def checkStatus (p : FakeVideoProvider) (jobId : String) (now : ℕ) :
    FakeVideoProvider × GenerateVideoResult :=
  match p.jobs jobId with
  | none => (p, notFound jobId)
  | some state =>
      if state.completionDelayMs ≤ (now : ℤ) - state.startedAt then
        (p.set jobId none, completed jobId state.videoId)
      else (p, processing jobId)

end FakeVideoProvider

/-! ## Sequences of calls -/

/-- A call, with the readings of the clock. -/
inductive SimulatorCall where
  | submit (videoId : String) (params : GenerateVideoParams) (now startedAt : ℕ)
  | checkStatus (jobId : String) (now : ℕ)

namespace SimulatorCall

def readings : SimulatorCall → List ℕ
  | .submit _ _ now startedAt => [now, startedAt]
  | .checkStatus _ now => [now]

def submission? : SimulatorCall → Option (String × ℕ)
  | .submit videoId _ now _ => some (videoId, now)
  | .checkStatus _ _ => none

def check? : SimulatorCall → Option (String × ℕ)
  | .submit _ _ _ _ => none
  | .checkStatus jobId now => some (jobId, now)

def checks (jobId : String) (c : SimulatorCall) : Bool := c.check?.any fun x ↦ x.1 = jobId

end SimulatorCall

abbrev SimulatorReply := SimulatorCall × GenerateVideoResult

namespace FakeVideoProvider

def serve (p : FakeVideoProvider) : SimulatorCall → FakeVideoProvider × GenerateVideoResult
  | .submit videoId params now startedAt => p.submit videoId params now startedAt
  | .checkStatus jobId now => p.checkStatus jobId now

def respond : FakeVideoProvider → List SimulatorCall → List SimulatorReply
  | _, [] => []
  | p, c :: calls => (c, (p.serve c).2) :: (p.serve c).1.respond calls

end FakeVideoProvider

def NonDecreasing (calls : List SimulatorCall) : Prop :=
  (calls.flatMap SimulatorCall.readings).Pairwise (· ≤ ·)

/-- No two submissions share both the video and the millisecond. -/
def SubmittedApart (calls : List SimulatorCall) : Prop :=
  (calls.filterMap SimulatorCall.submission?).Nodup

def submittedId? (x : SimulatorReply) : Option String := x.1.submission?.map fun _ ↦ x.2.jobId

def answerOf (jobId : String) (x : SimulatorReply) : Option (ℕ × GenerateVideoResult) :=
  x.1.check?.bind fun y ↦ if y.1 = jobId then some (y.2, x.2) else none

/-- Processing before the time `due`, then completed once, and failed ever after. -/
def CompletesOnce (jobId videoId : String) (due : ℤ)
    (answers : List (ℕ × GenerateVideoResult)) : Prop :=
  ∃ early late, answers = early ++ late ∧
    (∀ x ∈ early, x.1 < due ∧ x.2 = FakeVideoProvider.processing jobId) ∧
    (∀ x ∈ late, due ≤ x.1) ∧
    (late = [] ∨ ∃ now rest, late = (now, FakeVideoProvider.completed jobId videoId) :: rest ∧
      ∀ x ∈ rest, x.2 = FakeVideoProvider.notFound jobId)

/-- What the simulator that is created with the delay answers to the calls. -/
structure Simulates (p : FakeVideoProvider) (calls : List SimulatorCall) : Prop where
  ids : ((p.respond calls).filterMap submittedId?).Nodup
  submitted : ∀ pre videoId params (now startedAt : ℕ) (r : GenerateVideoResult) post,
    p.respond calls = pre ++ (.submit videoId params now startedAt, r) :: post →
      CompletesOnce r.jobId videoId (startedAt + p.defaultDelayMs)
        (post.filterMap (answerOf r.jobId))
  unsubmitted : ∀ pre jobId now r post,
    p.respond calls = pre ++ (.checkStatus jobId now, r) :: post →
      jobId ∉ pre.filterMap submittedId? → r = FakeVideoProvider.notFound jobId
  apart : ∀ jobId, (p.respond calls).filter (fun x ↦ !x.1.checks jobId) =
    p.respond (calls.filter fun c ↦ !c.checks jobId)

/-! ## Names -/

namespace FakeVideoProvider

theorem append_cons_inj_of_not_mem {α : Type} {a : α} {x x' z z' : List α} (hz : a ∉ z)
    (hz' : a ∉ z') (h : x ++ a :: z = x' ++ a :: z') : x = x' ∧ z = z' := by
  rcases List.append_eq_append_iff.mp h with ⟨c, rfl, hc⟩ | ⟨c, rfl, hc⟩
  · cases c with
    | nil => exact ⟨by simp, by simpa using hc⟩
    | cons b c =>
        obtain ⟨rfl, rfl⟩ := List.cons.inj hc
        simp at hz
  · cases c with
    | nil => exact ⟨by simp, by simpa using hc.symm⟩
    | cons b c =>
        obtain ⟨rfl, rfl⟩ := List.cons.inj hc
        simp at hz'

theorem dash_not_mem_toString (n : ℕ) : '-' ∉ (toString n).toList := by
  intro h
  have hdigit := Nat.isDigit_of_mem_toDigits (by omega) (by omega) (Nat.toList_repr ▸ h)
  cases hdigit

/-- What is behind the last dash is the millisecond, whatever the video is called. -/
theorem jobName_inj {videoId videoId' : String} {now now' : ℕ}
    (h : jobName videoId now = jobName videoId' now') : videoId = videoId' ∧ now = now' := by
  have hchars : "fake-".toList ++ videoId.toList ++ '-' :: (toString now).toList =
      "fake-".toList ++ videoId'.toList ++ '-' :: (toString now').toList := by
    have heq := congrArg String.toList h
    simpa [jobName] using heq
  have hparts := append_cons_inj_of_not_mem (dash_not_mem_toString now)
    (dash_not_mem_toString now') hchars
  constructor
  · exact String.toList_inj.mp (List.append_cancel_left hparts.1)
  · have hdigits := congrArg (fun l ↦ Nat.ofDigitChars 10 l 0) hparts.2
    simpa [Nat.toList_repr] using hdigits

end FakeVideoProvider

/-! ## Answers -/

namespace FakeVideoProvider

variable {p q : FakeVideoProvider} {calls : List SimulatorCall} {jobId : String}
  {c : SimulatorCall}

@[simp] theorem set_jobs (p : FakeVideoProvider) (state : Option FakeJobState) (id : String) :
    (p.set jobId state).jobs id = if id = jobId then state else p.jobs id := rfl

@[simp] theorem set_defaultDelayMs (p : FakeVideoProvider) (state : Option FakeJobState) :
    (p.set jobId state).defaultDelayMs = p.defaultDelayMs := rfl

def Submits (jobId : String) (c : SimulatorCall) : Prop :=
  ∃ x, c.submission? = some x ∧ jobName x.1 x.2 = jobId

theorem serve_defaultDelayMs (p : FakeVideoProvider) (c : SimulatorCall) :
    (p.serve c).1.defaultDelayMs = p.defaultDelayMs := by
  cases c with
  | submit videoId params now startedAt => rfl
  | checkStatus jobId now =>
      simp only [serve, checkStatus]
      split
      · rfl
      · split <;> rfl

theorem serve_jobs (hsubmits : ¬Submits jobId c) (hchecks : c.checks jobId = false) :
    (p.serve c).1.jobs jobId = p.jobs jobId := by
  cases c with
  | submit videoId params now startedAt =>
      have hne : jobId ≠ jobName videoId now := fun heq ↦ hsubmits ⟨_, rfl, heq.symm⟩
      simp [serve, submit, hne]
  | checkStatus id now =>
      have hne : jobId ≠ id := by
        rintro rfl
        simp [SimulatorCall.checks, SimulatorCall.check?] at hchecks
      simp only [serve, checkStatus]
      split
      · rfl
      · split
        · simp [hne]
        · rfl

theorem serve_none (hsubmits : ¬Submits jobId c) (h : p.jobs jobId = none) :
    (p.serve c).1.jobs jobId = none := by
  cases hchecks : c.checks jobId with
  | false => rw [serve_jobs hsubmits hchecks, h]
  | true =>
      cases c with
      | submit videoId params now startedAt => cases hchecks
      | checkStatus id now =>
          obtain rfl : id = jobId := by
            simpa [SimulatorCall.checks, SimulatorCall.check?] using hchecks
          simp [serve, checkStatus, h]

theorem submittedId?_serve (p : FakeVideoProvider) (c : SimulatorCall) :
    submittedId? (c, (p.serve c).2) = c.submission?.map fun x ↦ jobName x.1 x.2 := by
  cases c with
  | submit videoId params now startedAt => rfl
  | checkStatus id now => rfl

theorem submittedIds_respond (p : FakeVideoProvider) (calls : List SimulatorCall) :
    (p.respond calls).filterMap submittedId? =
      (calls.filterMap SimulatorCall.submission?).map fun x ↦ jobName x.1 x.2 := by
  rw [List.map_filterMap]
  induction calls generalizing p with
  | nil => rfl
  | cons c calls ih =>
      rw [respond, List.filterMap_cons, List.filterMap_cons, submittedId?_serve, ih]

def after (p : FakeVideoProvider) (calls : List SimulatorCall) : FakeVideoProvider :=
  calls.foldl (fun p c ↦ (p.serve c).1) p

theorem after_defaultDelayMs (p : FakeVideoProvider) (calls : List SimulatorCall) :
    (p.after calls).defaultDelayMs = p.defaultDelayMs := by
  induction calls generalizing p with
  | nil => rfl
  | cons c calls ih => exact (ih _).trans (serve_defaultDelayMs p c)

theorem after_none (hsubmits : ∀ c ∈ calls, ¬Submits jobId c) (h : p.jobs jobId = none) :
    (p.after calls).jobs jobId = none := by
  induction calls generalizing p with
  | nil => exact h
  | cons c calls ih =>
      obtain ⟨hc, hcalls⟩ := List.forall_mem_cons.mp hsubmits
      exact ih hcalls (serve_none hc h)

theorem respond_eq_append_cons {pre post : List SimulatorReply} {x : SimulatorReply}
    (h : p.respond calls = pre ++ x :: post) : ∃ calls₁ calls₂,
      calls = calls₁ ++ x.1 :: calls₂ ∧ pre = p.respond calls₁ ∧
      x.2 = ((p.after calls₁).serve x.1).2 ∧
      post = ((p.after calls₁).serve x.1).1.respond calls₂ := by
  induction pre generalizing p calls with
  | nil =>
      cases calls with
      | nil => simp [respond] at h
      | cons c calls =>
          obtain ⟨rfl, rfl⟩ := List.cons.inj h
          exact ⟨[], calls, rfl, rfl, rfl, rfl⟩
  | cons y pre ih =>
      cases calls with
      | nil => simp [respond] at h
      | cons c calls =>
          rw [respond, List.cons_append] at h
          obtain ⟨rfl, hrest⟩ := List.cons.inj h
          obtain ⟨calls₁, calls₂, rfl, rfl, hx, hpost⟩ := ih hrest
          exact ⟨c :: calls₁, calls₂, rfl, rfl, hx, hpost⟩

theorem not_submits_iff {calls : List SimulatorCall} :
    (∀ c ∈ calls, ¬Submits jobId c) ↔ jobId ∉ (p.respond calls).filterMap submittedId? := by
  rw [submittedIds_respond]
  constructor
  · intro h hmem
    obtain ⟨x, hx, rfl⟩ := List.mem_map.mp hmem
    obtain ⟨c, hc, hsubmission⟩ := List.mem_filterMap.mp hx
    exact h c hc ⟨x, hsubmission, rfl⟩
  · rintro h c hc ⟨x, hsubmission, rfl⟩
    exact h (List.mem_map.mpr ⟨x, List.mem_filterMap.mpr ⟨c, hc, hsubmission⟩, rfl⟩)

theorem answerOf_eq_some_iff {x : SimulatorReply} {y : ℕ × GenerateVideoResult} :
    answerOf jobId x = some y ↔ x = (.checkStatus jobId y.1, y.2) := by
  obtain ⟨c, r⟩ := x
  obtain ⟨now, r'⟩ := y
  cases c with
  | submit videoId params now startedAt => simp [answerOf, SimulatorCall.check?]
  | checkStatus id now' =>
      simp only [answerOf, SimulatorCall.check?, Option.bind_some, Option.ite_none_right_eq_some]
      simp [and_assoc]

theorem answers_of_none (hsubmits : ∀ c ∈ calls, ¬Submits jobId c) (h : p.jobs jobId = none) :
    ∀ x ∈ (p.respond calls).filterMap (answerOf jobId), x.2 = notFound jobId := by
  intro x hx
  obtain ⟨y, hy, hanswer⟩ := List.mem_filterMap.mp hx
  obtain rfl := answerOf_eq_some_iff.mp hanswer
  obtain ⟨pre, post, hsplit⟩ := List.append_of_mem hy
  obtain ⟨calls₁, calls₂, rfl, -, hx, -⟩ := respond_eq_append_cons hsplit
  have hbefore : ∀ c ∈ calls₁, ¬Submits jobId c := fun c hc ↦
    hsubmits c (List.mem_append_left _ hc)
  have hnone := after_none hbefore h
  simpa [serve, checkStatus, hnone] using hx

theorem map_fst_respond (p : FakeVideoProvider) (calls : List SimulatorCall) :
    (p.respond calls).map Prod.fst = calls := by
  induction calls generalizing p with
  | nil => rfl
  | cons c calls ih => rw [respond, List.map_cons, ih]

theorem reading_of_answer {x : ℕ × GenerateVideoResult}
    (h : x ∈ (p.respond calls).filterMap (answerOf jobId)) :
    x.1 ∈ calls.flatMap SimulatorCall.readings := by
  obtain ⟨y, hy, hanswer⟩ := List.mem_filterMap.mp h
  obtain rfl := answerOf_eq_some_iff.mp hanswer
  have hmem : SimulatorCall.checkStatus jobId x.1 ∈ calls := by
    rw [← map_fst_respond p calls]
    exact List.mem_map_of_mem hy
  exact List.mem_flatMap.mpr ⟨_, hmem, by simp [SimulatorCall.readings]⟩

/-- The answers about a job that is there, from a clock that does not go back. -/
theorem completesOnce_of_job {state : FakeJobState} (hjob : p.jobs jobId = some state)
    (hsubmits : ∀ c ∈ calls, ¬Submits jobId c) (hclock : NonDecreasing calls) :
    CompletesOnce jobId state.videoId (state.startedAt + state.completionDelayMs)
      ((p.respond calls).filterMap (answerOf jobId)) := by
  induction calls generalizing p with
  | nil => exact ⟨[], [], rfl, by simp, by simp, .inl rfl⟩
  | cons c calls ih =>
      obtain ⟨hc, hcalls⟩ := List.forall_mem_cons.mp hsubmits
      rw [NonDecreasing, List.flatMap_cons, List.pairwise_append] at hclock
      obtain ⟨-, hrest, hafter⟩ := hclock
      rw [respond]
      cases hchecks : c.checks jobId with
      | false =>
          have hnone : answerOf jobId (c, (p.serve c).2) = none := by
            cases hanswer : answerOf jobId (c, (p.serve c).2) with
            | none => rfl
            | some y =>
                obtain ⟨rfl, -⟩ := Prod.mk.inj (answerOf_eq_some_iff.mp hanswer)
                simp [SimulatorCall.checks, SimulatorCall.check?] at hchecks
          rw [List.filterMap_cons_none hnone]
          exact ih (by rw [serve_jobs hc hchecks, hjob]) hcalls hrest
      | true =>
          cases c with
          | submit videoId params now startedAt => cases hchecks
          | checkStatus id now =>
              obtain rfl : id = jobId := by
                simpa [SimulatorCall.checks, SimulatorCall.check?] using hchecks
              have hanswer (r : GenerateVideoResult) :
                  answerOf id (.checkStatus id now, r) = some (now, r) :=
                answerOf_eq_some_iff.mpr rfl
              rw [List.filterMap_cons_some (hanswer _)]
              by_cases hdue : state.completionDelayMs ≤ (now : ℤ) - state.startedAt
              · have hserve : p.serve (.checkStatus id now) =
                    (p.set id none, completed id state.videoId) := by
                  simp [serve, checkStatus, hjob, hdue]
                rw [hserve]
                refine ⟨[], _, rfl, by simp, ?_, .inr ⟨now, _, rfl, ?_⟩⟩
                · refine List.forall_mem_cons.mpr ⟨?_, fun x hx ↦ ?_⟩
                  · change _ ≤ (now : ℤ)
                    omega
                  · have hle : now ≤ x.1 := hafter now (by simp [SimulatorCall.readings]) x.1
                      (reading_of_answer hx)
                    omega
                · exact answers_of_none hcalls (by simp)
              · have hserve : p.serve (.checkStatus id now) = (p, processing id) := by
                  simp [serve, checkStatus, hjob, hdue]
                rw [hserve]
                obtain ⟨early, late, heq, hearly, hlate, hfirst⟩ := ih hjob hcalls hrest
                refine ⟨(now, processing id) :: early, late, by rw [heq]; rfl, ?_, hlate, hfirst⟩
                refine List.forall_mem_cons.mpr ⟨⟨?_, rfl⟩, hearly⟩
                change (now : ℤ) < _
                omega

theorem serve_without (hdelay : p.defaultDelayMs = q.defaultDelayMs)
    (hjobs : ∀ id, id ≠ jobId → p.jobs id = q.jobs id) (hchecks : c.checks jobId = false) :
    (p.serve c).2 = (q.serve c).2 ∧
      ∀ id, id ≠ jobId → (p.serve c).1.jobs id = (q.serve c).1.jobs id := by
  cases c with
  | submit videoId params now startedAt =>
      refine ⟨by simp [serve, submit, hdelay], fun id hid ↦ ?_⟩
      simp [serve, submit, hdelay, hjobs id hid]
  | checkStatus id now =>
      have hid : id ≠ jobId := by
        simpa [SimulatorCall.checks, SimulatorCall.check?] using hchecks
      simp only [serve, checkStatus, hjobs id hid]
      cases q.jobs id with
      | none => exact ⟨rfl, hjobs⟩
      | some state =>
          simp only
          split
          · refine ⟨rfl, fun id' hid' ↦ ?_⟩
            simp [hjobs id' hid']
          · exact ⟨rfl, hjobs⟩

theorem respond_without (hdelay : p.defaultDelayMs = q.defaultDelayMs)
    (hjobs : ∀ id, id ≠ jobId → p.jobs id = q.jobs id) :
    (p.respond calls).filter (fun x ↦ !x.1.checks jobId) =
      q.respond (calls.filter fun c ↦ !c.checks jobId) := by
  induction calls generalizing p q with
  | nil => rfl
  | cons c calls ih =>
      rw [respond]
      cases hchecks : c.checks jobId with
      | true =>
          rw [List.filter_cons_of_neg (by simp [hchecks]),
            List.filter_cons_of_neg (by simp [hchecks])]
          apply ih
          · rw [serve_defaultDelayMs, hdelay]
          · intro id hid
            cases c with
            | submit videoId params now startedAt => cases hchecks
            | checkStatus id' now =>
                obtain rfl : id' = jobId := by
                  simpa [SimulatorCall.checks, SimulatorCall.check?] using hchecks
                rw [serve_jobs, hjobs id hid]
                · rintro ⟨x, hx, -⟩
                  cases hx
                · simpa [SimulatorCall.checks, SimulatorCall.check?] using hid.symm
      | false =>
          obtain ⟨hanswer, hserved⟩ := serve_without hdelay hjobs hchecks
          rw [List.filter_cons_of_pos (by simp [hchecks]),
            List.filter_cons_of_pos (by simp [hchecks]), respond, hanswer]
          congr 1
          apply ih _ hserved
          rw [serve_defaultDelayMs, serve_defaultDelayMs, hdelay]

theorem not_submits_of_apart {videoId : String} {params : GenerateVideoParams}
    {now startedAt : ℕ} {calls₁ calls₂ : List SimulatorCall}
    (h : SubmittedApart (calls₁ ++ .submit videoId params now startedAt :: calls₂)) :
    ∀ c ∈ calls₂, ¬Submits (jobName videoId now) c := by
  rintro c hc ⟨x, hx, hname⟩
  obtain ⟨rfl, rfl⟩ := jobName_inj hname
  have hfirst : (SimulatorCall.submit x.1 params x.2 startedAt).submission? = some x := rfl
  unfold SubmittedApart at h
  rw [List.filterMap_append, List.filterMap_cons_some hfirst] at h
  have hnodup := (List.nodup_append.mp h).2.1
  exact (List.nodup_cons.mp hnodup).1 (List.mem_filterMap.mpr ⟨c, hc, hx⟩)

/-- The simulator completes every job once. -/
theorem simulates (simulationDelayMs : Option ℤ) (hclock : NonDecreasing calls)
    (hapart : SubmittedApart calls) : Simulates (create simulationDelayMs) calls := by
  constructor
  · rw [submittedIds_respond]
    refine hapart.map fun x y hname ↦ ?_
    obtain ⟨hvideo, hnow⟩ := jobName_inj hname
    exact Prod.ext hvideo hnow
  · intro pre videoId params now startedAt r post hsplit
    obtain ⟨calls₁, calls₂, rfl, -, hr, rfl⟩ := respond_eq_append_cons hsplit
    obtain rfl : r = (submit _ videoId params now startedAt).2 := hr
    have hdelay := after_defaultDelayMs (create simulationDelayMs) calls₁
    rw [← hdelay]
    generalize (create simulationDelayMs).after calls₁ = p
    have hjob : (p.submit videoId params now startedAt).1.jobs (jobName videoId now) =
        some ⟨videoId, params, startedAt, p.defaultDelayMs⟩ := by
      simp [submit]
    refine completesOnce_of_job hjob (not_submits_of_apart hapart) ?_
    unfold NonDecreasing at hclock
    rw [List.flatMap_append, List.flatMap_cons] at hclock
    exact (List.pairwise_append.mp (List.pairwise_append.mp hclock).2.1).2.1
  · intro pre jobId now r post hsplit hnew
    obtain ⟨calls₁, calls₂, rfl, rfl, hr, -⟩ := respond_eq_append_cons hsplit
    have hnone : ((create simulationDelayMs).after calls₁).jobs jobId = none :=
      after_none (not_submits_iff.mpr hnew) rfl
    simpa [serve, checkStatus, hnone] using hr
  · intro jobId
    exact respond_without rfl fun _ _ ↦ rfl

def skyParams : GenerateVideoParams := ⟨"sky", none, none, none, none, none⟩

/-- Two videos in one millisecond, the name of one being the start of the other's, and one of
them again later; one job is checked before, at and after its time. -/
def skyCalls : List SimulatorCall :=
  [.submit "sky" skyParams 1000 1000, .submit "sky-1" skyParams 1000 1001,
    .checkStatus "fake-sky-1000" 3000, .submit "sky" skyParams 4000 4000,
    .checkStatus "fake-sky-1000" 6000, .checkStatus "fake-sky-1000" 6001,
    .checkStatus "fake-sky-1-1000" 6002]

theorem simulates_sky : NonDecreasing skyCalls ∧ SubmittedApart skyCalls ∧
    Simulates (create none) skyCalls := by
  have hclock : NonDecreasing skyCalls := by
    unfold NonDecreasing
    decide
  have hapart : SubmittedApart skyCalls := by
    unfold SubmittedApart
    decide
  exact ⟨hclock, hapart, simulates none hclock hapart⟩

example : ((create none).respond skyCalls).map (fun x ↦ x.2.status) =
    [.processing, .processing, .processing, .processing, .completed, .failed, .completed] := by
  decide

end FakeVideoProvider

end VideoGen
