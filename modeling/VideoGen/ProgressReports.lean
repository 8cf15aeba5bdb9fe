import VideoGen.MethodCalls
import VideoGen.SoloJob

/-!
# What an execution reports

A second automaton watches an execution of `handleVideoGeneration`: it keeps
the percentage last written to the row, the one last passed to
`job.updateProgress`, the events emitted so far and the estimate of the
polling loop.  Every call of the execution is admitted by it, and an
execution that throws before its last attempt has announced no end.
-/

namespace VideoGen

/-! ## Events of one attempt -/

/-- A start and one update for each of the given number of polls. -/
def pollEvents (job : Job) (polls : ℕ) : List DomainEvent :=
  .processingStarted job.data.videoId (job.attemptsMade + 1) ::
    (List.range polls).map fun k ↦
      .progressUpdated job.data.videoId (pollPercent (k + 1)) (pollMessage (k + 1))

theorem pollEvents_succ (job : Job) (polls : ℕ) : pollEvents job (polls + 1) =
    pollEvents job polls ++ [.progressUpdated job.data.videoId (pollPercent (polls + 1))
      (pollMessage (polls + 1))] := by
  simp [pollEvents, List.range_succ]

/-- The events of an attempt before it announces an end: none, or a start and at most
`maxPollAttempts` updates. -/
def IsBlock (job : Job) (events : List DomainEvent) : Prop :=
  events = [] ∨ ∃ polls ≤ maxPollAttempts, events = pollEvents job polls

/-- At most one event, which announces the end of the video. -/
def IsLast (job : Job) (events : List DomainEvent) : Prop :=
  events = [] ∨ ∃ e, e.isFinal job.data.videoId = true ∧ events = [e]

def IsAttempt (job : Job) (events : List DomainEvent) : Prop :=
  ∃ block last, events = block ++ last ∧ IsBlock job block ∧ IsLast job last

theorem IsBlock.isAttempt {job : Job} {events : List DomainEvent} (h : IsBlock job events) :
    IsAttempt job events :=
  ⟨events, [], by simp, h, .inl rfl⟩

theorem IsBlock.announce {job : Job} {events : List DomainEvent} (h : IsBlock job events)
    {e : DomainEvent} (he : e.isFinal job.data.videoId = true) : IsAttempt job (events ++ [e]) :=
  ⟨events, [e], rfl, h, .inr ⟨e, he, rfl⟩⟩

def storedUrl (config : StorageConfig) (job : Job) (result : GenerateVideoResult)
    (videoUrl : String) : String :=
  if result.alreadyStored = some true then videoUrl
  else getPublicUrl config (outputKey job.data.videoId)

/-- The events of an attempt that completes the video with the last of the provider's
answers; the first one answered the submission. -/
def completionEvents (config : StorageConfig) (job : Job) (answers : List GenerateVideoResult) :
    List DomainEvent :=
  pollEvents job (answers.length - 1) ++
    match answers.getLast? with
    | none => []
    | some result =>
        match truthy result.videoUrl with
        | none => []
        | some videoUrl => [.completed ⟨job.data.videoId, storedUrl config job result videoUrl,
            result.thumbnailUrl⟩]

/-! ## The automaton -/

def VideoFields.storedNumber? (fields : VideoFields) (key : String) : Option ℤ :=
  match fields.metadata with
  | some (some metadata) =>
      match metadata.stored.get key with
      | .number n => some n
      | _ => none
  | _ => none

structure Track where
  /-- The percentage that the last update of the row carried. -/
  written : Option ℤ := none
  /-- The percentage last passed to `job.updateProgress`. -/
  passed : Option ℤ := none
  events : List DomainEvent := []
  /-- The completing transition has been answered. -/
  completed : Bool := false
  /-- What the AI provider answered, to the submission first. -/
  answers : List GenerateVideoResult := []
  /-- The estimate last written by the polling loop. -/
  seconds : Option ℤ := none

namespace Track

def polls (t : Track) : ℕ := t.answers.length - 1

def next (t : Track) : (c : Call) → Except Thrown c.Reply → Track
  | .updateVideo _ _ fields, r =>
      { t with
        written := fields.storedNumber? "progressPercent" <|> t.written
        completed := t.completed || (fields.status = some .completed && r.toBool)
        seconds := if t.polls = 0 then none
          else fields.storedNumber? "estimatedSecondsRemaining" <|> t.seconds }
  | .jobUpdateProgress _ percent, _ => { t with passed := some percent }
  | .generateVideo _ _, .ok (result : GenerateVideoResult) =>
      { t with answers := t.answers ++ [result] }
  | .getGenerationStatus _, .ok (result : GenerateVideoResult) =>
      { t with answers := t.answers ++ [result] }
  | .emit event, _ => { t with events := t.events ++ [event] }
  | _, _ => t

/-- Until the completing transition, which writes 100, percentages stay in range and do
not fall. -/
def Rises (t : Track) (fields : VideoFields) : Prop :=
  ∀ percent, fields.storedNumber? "progressPercent" = some percent →
    fields.status ≠ some .completed → t.completed = false →
    10 ≤ percent ∧ percent ≤ 90 ∧ ∀ before, t.written = some before → before ≤ percent

/-- The estimates of the polling loop count down to zero in steps of ten. -/
def CountsDown (t : Track) (fields : VideoFields) : Prop :=
  ∃ seconds, fields.storedNumber? "estimatedSecondsRemaining" = some seconds ∧ 0 ≤ seconds ∧
    ∀ before, t.seconds = some before → seconds + 10 = before

def Admits (job : Job) (t : Track) : Call → Prop
  | .updateVideo _ _ fields =>
      -- `markFailed` overwrites whatever was there.
      fields.status ≠ some .failed → t.Rises fields ∧
        (t.polls ≠ 0 → fields.status ≠ some .completed → t.CountsDown fields)
  | .jobUpdateProgress _ percent => t.written = some percent ∧
      (percent = 100 → t.completed = true)
  | .emit event => IsAttempt job (t.events ++ [event]) ∧
      ∀ videoId percent message, event = .progressUpdated videoId percent message →
        t.passed = some percent
  | _ => True

/-- An execution that returns has done nothing or has announced the completion; one that
throws before its last attempt has announced no end. -/
def Ends (config : StorageConfig) (job : Job) (t : Track) : Except Thrown Unit → Prop
  | .ok _ => t.events = [] ∨ t.events = completionEvents config job t.answers
  | .error _ => IsFinalAttempt job ∨ IsBlock job t.events

end Track

def trackProtocol (job : Job) : Protocol interface Track where
  Allows := Track.Admits job
  Possible := Call.Possible
  next := Track.next

/-! ## Conformance -/

def Call.Unseen : Call → Prop
  | .updateVideo _ _ _ => False
  | .jobUpdateProgress _ _ => False
  | .generateVideo _ _ => False
  | .getGenerationStatus _ => False
  | .emit _ => False
  | _ => True

section Conformance

variable {config : StorageConfig} {job : Job} {t : Track} {α β : Type}

theorem Track.next_unseen {c : Call} (hc : c.Unseen) (r : Except Thrown c.Reply) :
    t.next c r = t := by
  cases c <;> first | rfl | exact hc.elim

theorem Track.admits_unseen {c : Call} (hc : c.Unseen) : t.Admits job c := by
  cases c <;> trivial

/-- The end of a part of the `try` block: what it threw, it threw before any end was
announced. -/
def Tried (config : StorageConfig) (job : Job) (t : Track) : Except Thrown Unit → Prop
  | .ok _ => t.events = [] ∨ t.events = completionEvents config job t.answers
  | .error _ => IsBlock job t.events

theorem keeps_unseen {p : Prog α} (hp : p.Calls Call.Unseen) :
    p.Keeps (trackProtocol job).spec (fun t' _ ↦ t' = t) t :=
  hp.keeps (fun _ hc ↦ Track.admits_unseen hc) fun _ r hc ↦ Track.next_unseen hc r

theorem tracks_unseen {p : Prog α} {f : α → Prog β} {Post : Track → Except Thrown β → Prop}
    (hp : p.Calls Call.Unseen) (hf : ∀ a, (f a).Keeps (trackProtocol job).spec Post t)
    (herror : ∀ e, Post t (.error e)) :
    (p >>= f).Keeps (trackProtocol job).spec Post t :=
  hp.keeps_bind (fun _ hc ↦ Track.admits_unseen hc) (fun _ r hc ↦ Track.next_unseen hc r) hf
    herror

theorem unseen_writeCache (videoId : String) (status : VideoStatus)
    (progress message : JsValue) :
    (writeCache videoId status progress message).Calls Call.Unseen :=
  calls_writeCache trivial (fun _ _ ↦ trivial) _ _ _ _

/-! ## What the updates carry -/

theorem storedNumber?_progressFields (percent : ℤ) (message : String) {additionalMeta : JsObject}
    (hkeeps : additionalMeta.has "progressPercent" = false) :
    (progressFields percent message additionalMeta).storedNumber? "progressPercent" =
      some percent := by
  unfold VideoFields.storedNumber? progressFields
  simp only [get_progressPercent percent message additionalMeta hkeeps]

theorem storedNumber?_startExtra :
    (startExtra.fields .processing).storedNumber? "progressPercent" = some 10 := by
  decide

theorem storedNumber?_completeExtra (url : String) (thumbnail : Option String) :
    ((completeExtra url thumbnail).fields .completed).storedNumber? "progressPercent" =
      some 100 := by
  unfold VideoFields.storedNumber? completeExtra TransitionExtra.fields
  simp only [get_progressPercent 100 "Completed" JsObject.empty rfl]

def estimateAfter (polls : ℕ) : ℤ := max 0 (((maxPollAttempts : ℤ) - polls) * 10)

theorem storedNumber?_pollMeta (percent : ℤ) (message : String) (polls : ℕ) :
    (progressFields percent message (pollMeta polls)).storedNumber?
      "estimatedSecondsRemaining" = some (estimateAfter polls) := by
  simp [VideoFields.storedNumber?, progressFields, progressMetadata, pollMeta, JsObject.spread,
    JsObject.has, JsObject.stored, JsObject.get, List.lookup_cons, estimateAfter]

theorem estimateAfter_succ {polls : ℕ} (h : polls < maxPollAttempts) :
    estimateAfter (polls + 1) + 10 = estimateAfter polls := by
  unfold estimateAfter maxPollAttempts at *
  omega

theorem pollPercent_mono (polls : ℕ) : pollPercent polls ≤ pollPercent (polls + 1) := by
  unfold pollPercent
  omega

theorem pollPercent_le (polls : ℕ) : 10 ≤ pollPercent polls ∧ pollPercent polls ≤ 90 := by
  unfold pollPercent
  omega

/-! ## The `try` block -/

/-- The attempt renders: it has written the percentage and queried the provider `polls`
times. -/
structure Rendering (job : Job) (polls : ℕ) (percent : ℤ) (t : Track) : Prop where
  written : t.written = some percent
  completed : t.completed = false
  polled : t.polls = polls
  seconds : t.seconds = if polls = 0 then none else some (estimateAfter polls)
  few : polls ≤ maxPollAttempts
  events : t.events = pollEvents job polls

theorem Rendering.isBlock {polls : ℕ} {percent : ℤ} (h : Rendering job polls percent t) :
    IsBlock job t.events := .inr ⟨polls, h.few, h.events⟩

theorem Rendering.rises {polls : ℕ} {before percent : ℤ} (h : Rendering job polls before t)
    {message : String} {additionalMeta : JsObject}
    (hkeeps : additionalMeta.has "progressPercent" = false) (hlow : 10 ≤ percent)
    (hhigh : percent ≤ 90) (hle : before ≤ percent) :
    t.Rises (progressFields percent message additionalMeta) := by
  intro p hp _ _
  obtain rfl := Option.some.inj
    ((storedNumber?_progressFields percent message hkeeps).symm.trans hp)
  refine ⟨hlow, hhigh, ?_⟩
  intro b hb
  obtain rfl := Option.some.inj (h.written.symm.trans hb)
  exact hle

theorem tracks_report {percent before : ℤ} {message : String} {additionalMeta : JsObject}
    {f : Prog Unit} (h : Rendering job 0 before t)
    (hkeeps : additionalMeta.has "progressPercent" = false) (hlow : 10 ≤ percent)
    (hhigh : percent ≤ 90) (hle : before ≤ percent)
    (hf : ∀ t', Rendering job 0 percent t' → t'.answers = t.answers →
      f.Keeps (trackProtocol job).spec (Tried config job) t') :
    (do updateProgress job.data.videoId percent message additionalMeta
        jobUpdateProgress job percent
        f : Prog Unit).Keeps (trackProtocol job).spec (Tried config job) t := by
  have hfields := storedNumber?_progressFields percent message hkeeps
  refine Program.keeps_bind.mpr (Program.keeps_bind.mpr (keeps_ask.mpr ⟨?_, ?_⟩))
  · intro _
    exact ⟨h.rises hkeeps hlow hhigh hle, fun hpolls ↦ absurd h.polled hpolls⟩
  rintro (e | affected) -
  · exact h.isBlock
  refine Program.Keeps.mono ?_ (keeps_unseen (unseen_writeCache _ _ _ _))
  rintro t' (e | x) rfl
  · exact h.isBlock
  refine Program.keeps_bind.mpr (keeps_ask.mpr ⟨⟨?_, ?_⟩, ?_⟩)
  · change (VideoFields.storedNumber? _ _ <|> t.written) = _
    rw [hfields]
    rfl
  · intro hhundred
    omega
  rintro (e | x) -
  · exact h.isBlock
  refine hf _ ?_ rfl
  constructor
  · change (VideoFields.storedNumber? _ _ <|> t.written) = _
    rw [hfields]
    rfl
  · change (t.completed || _) = false
    rw [h.completed]
    rfl
  · exact h.polled
  · change (if t.polls = 0 then none else _) = _
    rw [if_pos h.polled, if_pos rfl]
  · exact h.few
  · exact h.events

theorem tracks_storeVideo (result : GenerateVideoResult) (videoUrl : String) :
    (storeVideo config job result videoUrl).Keeps (trackProtocol job).spec
      (fun t' r ↦ t' = t ∧ ∀ url, r = .ok url → url = storedUrl config job result videoUrl) t := by
  unfold storeVideo storedUrl
  split
  · refine ⟨rfl, ?_⟩
    rintro url ⟨⟩
    rfl
  · have hfetch : (Program.catchWith (ask (.httpsGet videoUrl)) fun _ ↦
        raise .internal "Failed to fetch video from source URL").Calls Call.Unseen :=
      (calls_ask trivial).catchWith fun _ ↦ trivial
    refine Program.keeps_bind.mpr (Program.Keeps.mono ?_ (keeps_unseen hfetch))
    rintro t (e | buffer) rfl
    · exact ⟨rfl, by rintro url ⟨⟩⟩
    have hput : (withRetry (ask (.s3Put (outputKey job.data.videoId) buffer "video/mp4"))
        maxRetryAttempts).Calls Call.Unseen :=
      calls_withRetryFrom (fun _ ↦ trivial) (calls_ask trivial) _ _ _ _
    refine Program.keeps_catchWith.mpr (Program.keeps_bind.mpr
      (Program.Keeps.mono ?_ (keeps_unseen hput)))
    rintro t (e | x) rfl
    · exact ⟨rfl, by rintro url ⟨⟩⟩
    · refine ⟨rfl, ?_⟩
      rintro url ⟨⟩
      rfl

theorem tracks_finishGeneration {polls : ℕ} {percent : ℤ} (h : Rendering job polls percent t)
    {result : GenerateVideoResult} (hlast : t.answers.getLast? = some result)
    {videoUrl : String} (hurl : truthy result.videoUrl = some videoUrl) :
    (finishGeneration config job result videoUrl).Keeps (trackProtocol job).spec
      (Tried config job) t := by
  refine Program.keeps_bind.mpr (Program.Keeps.mono ?_ (tracks_storeVideo result videoUrl))
  rintro t (e | url) ⟨rfl, hstored⟩
  · exact h.isBlock
  have hfields := storedNumber?_completeExtra url result.thumbnailUrl
  have hallows : (trackProtocol job).Allows t (.updateVideo job.data.videoId (some .processing)
      ((completeExtra url result.thumbnailUrl).fields .completed)) := by
    intro _
    constructor
    · intro p _ hstatus
      exact absurd rfl hstatus
    · intro _ hstatus
      exact absurd rfl hstatus
  refine Program.keeps_bind.mpr ?_
  rw [transitionStatus, if_pos allowed_processing_completed]
  refine Program.keeps_bind.mpr (keeps_ask.mpr ⟨hallows, ?_⟩)
  rintro (e | affected) -
  · exact h.isBlock
  have hrecord : Program.Keeps (trackProtocol job).spec (Tried config job)
      (do jobUpdateProgress job 100
          emit (.completed ⟨job.data.videoId, url, result.thumbnailUrl⟩) : Prog Unit)
      ((trackProtocol job).next t (.updateVideo job.data.videoId (some .processing)
        ((completeExtra url result.thumbnailUrl).fields .completed)) (.ok affected)) := by
    refine Program.keeps_bind.mpr (keeps_ask.mpr ⟨⟨?_, ?_⟩, ?_⟩)
    · change (VideoFields.storedNumber? _ _ <|> t.written) = _
      rw [hfields]
      rfl
    · intro _
      change (t.completed || _) = true
      simp [TransitionExtra.fields, Except.toBool]
    rintro (e | x) -
    · exact h.isBlock
    refine keeps_ask.mpr ⟨⟨h.isBlock.announce ?_, ?_⟩, ?_⟩
    · simp [DomainEvent.isFinal]
    · rintro videoId p message ⟨⟩
    rintro (e | x) hpossible
    · exact (Bool.false_ne_true hpossible).elim
    · right
      change t.events ++ [.completed ⟨job.data.videoId, url, result.thumbnailUrl⟩] =
        completionEvents config job t.answers
      have hpolls : t.answers.length - 1 = polls := h.polled
      unfold completionEvents
      rw [h.events, hpolls, hlast]
      simp only [hurl, ← hstored url rfl]
  change Program.Keeps _ _ (if affected = 0 then _ else _) _
  split
  · exact hrecord
  · refine tracks_unseen (unseen_writeCache _ _ _ _) (fun _ ↦ ?_) fun _ ↦ h.isBlock
    exact hrecord

theorem tracks_pollLoop (generationJobId : String) (remaining : ℕ) (status : GenerationStatus)
    {polls : ℕ} (hremaining : polls + remaining = maxPollAttempts)
    (h : Rendering job polls (pollPercent polls) t) (hsubmitted : t.answers ≠ []) :
    (pollLoop config job generationJobId status polls remaining).Keeps
      (trackProtocol job).spec (Tried config job) t := by
  induction remaining generalizing status polls t with
  | zero => exact h.isBlock
  | succ remaining ih =>
      unfold pollLoop
      split
      case isFalse => exact h.isBlock
      have hlt : polls < maxPollAttempts := by omega
      have hkeeps : (pollMeta (polls + 1)).has "progressPercent" = false :=
        (pollUpdate (polls + 1)).keeps_percent
      have hfields := storedNumber?_progressFields (pollPercent (polls + 1))
        (pollMessage (polls + 1)) hkeeps
      have hestimate := storedNumber?_pollMeta (pollPercent (polls + 1))
        (pollMessage (polls + 1)) (polls + 1)
      refine tracks_unseen (calls_ask trivial) (fun _ ↦ ?_) fun _ ↦ h.isBlock
      refine Program.keeps_bind.mpr (keeps_ask.mpr ⟨trivial, ?_⟩)
      rintro (e | result) -
      · exact h.isBlock
      have hpolled : (t.answers ++ [result]).length - 1 = polls + 1 := by
        have hpolls : t.answers.length - 1 = polls := h.polled
        have hpositive := List.length_pos_iff.mpr hsubmitted
        rw [List.length_append, List.length_singleton]
        omega
      refine Program.keeps_bind.mpr (Program.keeps_bind.mpr (keeps_ask.mpr ⟨?_, ?_⟩))
      · intro _
        constructor
        · exact h.rises hkeeps (pollPercent_le _).1 (pollPercent_le _).2 (pollPercent_mono polls)
        · intro _ _
          refine ⟨_, hestimate, le_max_left _ _, ?_⟩
          intro before hbefore
          have hseconds := h.seconds.symm.trans hbefore
          split at hseconds
          · cases hseconds
          · obtain rfl := Option.some.inj hseconds
            exact estimateAfter_succ hlt
      rintro (e | affected) -
      · exact h.isBlock
      refine Program.Keeps.mono ?_ (keeps_unseen (unseen_writeCache _ _ _ _))
      rintro t' (e | x) rfl
      · exact h.isBlock
      refine Program.keeps_bind.mpr (keeps_ask.mpr ⟨⟨?_, ?_⟩, ?_⟩)
      · change (VideoFields.storedNumber? _ _ <|> t.written) = _
        rw [hfields]
        rfl
      · intro hhundred
        have hle := (pollPercent_le (polls + 1)).2
        omega
      rintro (e | x) -
      · exact h.isBlock
      have hevents : t.events ++ [.progressUpdated job.data.videoId (pollPercent (polls + 1))
          (pollMessage (polls + 1))] = pollEvents job (polls + 1) := by
        rw [h.events, pollEvents_succ]
      refine Program.keeps_bind.mpr (keeps_ask.mpr ⟨⟨?_, ?_⟩, ?_⟩)
      · exact IsBlock.isAttempt (.inr ⟨polls + 1, hlt, hevents⟩)
      · rintro videoId p message ⟨⟩
        rfl
      rintro (e | x) hpossible
      · exact (Bool.false_ne_true hpossible).elim
      have hnext : Rendering job (polls + 1) (pollPercent (polls + 1))
          ((trackProtocol job).next ((trackProtocol job).next ((trackProtocol job).next
            ((trackProtocol job).next t (.getGenerationStatus generationJobId) (.ok result))
            (.updateVideo job.data.videoId (some .processing) (progressFields
              (pollPercent (polls + 1)) (pollMessage (polls + 1)) (pollMeta (polls + 1))))
            (.ok affected))
            (.jobUpdateProgress job.id (pollPercent (polls + 1))) (.ok ()))
            (.emit (.progressUpdated job.data.videoId (pollPercent (polls + 1))
              (pollMessage (polls + 1)))) (.ok ())) := by
        constructor
        · change (VideoFields.storedNumber? _ _ <|> t.written) = _
          rw [hfields]
          rfl
        · change (t.completed || _) = false
          rw [h.completed]
          rfl
        · exact hpolled
        · change (if (t.answers ++ [result]).length - 1 = 0 then none
            else VideoFields.storedNumber? _ _ <|> t.seconds) = _
          rw [hpolled, if_neg (Nat.succ_ne_zero _), if_neg (Nat.succ_ne_zero _), hestimate]
          rfl
        · exact hlt
        · exact hevents
      split
      · rename_i videoUrl hurl
        exact tracks_finishGeneration hnext List.getLast?_concat hurl
      · exact ih result.status (by omega) hnext (by simp [trackProtocol, Track.next])

theorem tracks_generate (video : Video) (hwritten : t.written = some 10)
    (hcompleted : t.completed = false) (hanswers : t.answers = []) (hseconds : t.seconds = none)
    (hevents : t.events = []) :
    (generate config job video).Keeps (trackProtocol job).spec (Tried config job) t := by
  refine Program.keeps_bind.mpr (keeps_ask.mpr ⟨⟨hwritten, by omega⟩, ?_⟩)
  rintro (e | x) -
  · exact .inl hevents
  have hstart : t.events ++ [.processingStarted job.data.videoId (job.attemptsMade + 1)] =
      pollEvents job 0 := by
    rw [hevents]
    rfl
  refine Program.keeps_bind.mpr (keeps_ask.mpr ⟨⟨?_, ?_⟩, ?_⟩)
  · exact IsBlock.isAttempt (.inr ⟨0, Nat.zero_le _, hstart⟩)
  · rintro videoId p message ⟨⟩
  rintro (e | x) hpossible
  · exact (Bool.false_ne_true hpossible).elim
  have hten : Rendering job 0 10 ((trackProtocol job).next
      ((trackProtocol job).next t (.jobUpdateProgress job.id 10) (.ok ()))
      (.emit (.processingStarted job.data.videoId (job.attemptsMade + 1))) (.ok ())) :=
    ⟨hwritten, hcompleted, by simp [Track.polls, hanswers, trackProtocol, Track.next], hseconds,
      Nat.zero_le _, hstart⟩
  refine tracks_unseen (calls_enhancePrompt _ trivial) (fun prompt ↦ ?_) fun _ ↦ hten.isBlock
  refine tracks_report hten rfl (by omega) (by omega) (by omega) fun t₁ htwenty hanswers₁ ↦ ?_
  refine Program.keeps_bind.mpr (keeps_ask.mpr ⟨trivial, ?_⟩)
  rintro (e | result) -
  · exact htwenty.isBlock
  have hsubmitted : Rendering job 0 20 { t₁ with answers := t₁.answers ++ [result] } := by
    constructor
    · exact htwenty.written
    · exact htwenty.completed
    · have hnone : t₁.answers = [] := hanswers₁.trans hanswers
      simp [Track.polls, hnone]
    · exact htwenty.seconds
    · exact htwenty.few
    · exact htwenty.events
  refine tracks_report hsubmitted (submittedUpdate result).keeps_percent (by omega) (by omega)
    (by omega) fun t₂ hforty hanswers₂ ↦ ?_
  refine tracks_pollLoop result.jobId maxPollAttempts result.status (Nat.zero_add _) hforty ?_
  rw [hanswers₂]
  exact List.append_ne_nil_of_right_ne_nil _ (List.cons_ne_nil result [])

theorem tracks_attemptGeneration :
    (attemptGeneration config job).Keeps (trackProtocol job).spec (Tried config job) {} := by
  have hload : (findById job.data.videoId).Calls Call.Unseen := by
    refine (calls_ask trivial).bind fun video ↦ ?_
    cases video <;> trivial
  have hnone : IsBlock job (Track.events {}) := .inl rfl
  refine tracks_unseen hload (fun video ↦ ?_) fun _ ↦ hnone
  unfold transitionStatus
  split
  case isFalse => exact .inl rfl
  refine Program.keeps_bind.mpr (Program.keeps_bind.mpr (keeps_ask.mpr ⟨?_, ?_⟩))
  · intro _
    constructor
    · intro p hp _ _
      obtain rfl := Option.some.inj (storedNumber?_startExtra.symm.trans hp)
      exact ⟨by omega, by omega, by rintro before ⟨⟩⟩
    · intro hpolls
      exact absurd rfl hpolls
  rintro (e | affected) -
  · exact hnone
  change Program.Keeps _ _ (if affected = 0 then _ else _) _
  split
  · exact .inl rfl
  · refine tracks_unseen (unseen_writeCache _ _ _ _) (fun _ ↦ ?_) fun _ ↦ hnone
    exact tracks_generate video rfl rfl rfl rfl rfl

theorem tracks_onGenerationError (h : IsBlock job t.events) (error : Thrown) :
    (onGenerationError job error).Keeps (trackProtocol job).spec (Track.Ends config job) t := by
  change Program.Keeps _ _ (if IsFinalAttempt job then _ else _) _
  split
  · rename_i hfinal
    refine Program.keeps_bind.mpr (Program.keeps_bind.mpr (keeps_ask.mpr ⟨?_, ?_⟩))
    · intro hstatus
      exact absurd rfl hstatus
    rintro (e | affected) -
    · exact .inl hfinal
    have hevict : (evictCache job.data.videoId).Calls Call.Unseen := calls_evictCache trivial
    refine Program.Keeps.mono ?_ (keeps_unseen hevict)
    rintro t' (e | x) rfl
    · exact .inl hfinal
    refine Program.keeps_bind.mpr (keeps_ask.mpr ⟨⟨h.announce ?_, ?_⟩, ?_⟩)
    · simp [DomainEvent.isFinal]
    · rintro videoId p message ⟨⟩
    rintro (e | x) -
    · exact .inl hfinal
    · exact .inl hfinal
  · exact .inr h

theorem tracks_process :
    (process config job).Keeps (trackProtocol job).spec (Track.Ends config job) {} := by
  unfold process
  split
  · refine Program.keeps_catchWith.mpr (Program.Keeps.mono ?_ tracks_attemptGeneration)
    rintro t (error | x) h
    · exact tracks_onGenerationError h error
    · exact h
  · exact .inl rfl

end Conformance

end VideoGen
