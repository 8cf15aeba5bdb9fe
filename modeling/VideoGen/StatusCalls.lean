import VideoGen.Steps

/-!
# Status calls as compare-and-set

Any number of calls of `transitionStatus` and `updateProgress` interleave.
Each issues one update, so the update is the moment at which the call
happens: its answer says whether the row was rewritten.  Statuses only move
forward along the transition table, hence a status is left at most once.
-/

namespace VideoGen

def ServiceCall.OnStatus : ServiceCall → Prop
  | .transitionStatus _ _ _ _ => True
  | .updateProgress _ _ _ _ => True
  | _ => False

/-- The act starts a status call, answers, loses or rejects a call, crashes a
thread or is a step of the environment that starts no worker. -/
def StatusAct : Step → Prop
  | .invoke (.service call) => call.OnStatus
  | .invoke _ => False
  | .env (.take _) => False
  | _ => True

/-! ## What one call does -/

/-- The row after a transition: the status, the defined fields of `extra` and the
update date, and nothing else. -/
def TransitionExtra.rewrite (extra : TransitionExtra) (newStatus : VideoStatus) (now : ℕ)
    (row : Video) : Video :=
  { row with
    status := newStatus
    videoUrl := extra.videoUrl.getD row.videoUrl
    thumbnailUrl := extra.thumbnailUrl.getD row.thumbnailUrl
    metadata := (extra.metadata.map (Option.map JsObject.stored)).getD row.metadata
    updatedAt := now }

theorem assign_transition (extra : TransitionExtra) (newStatus : VideoStatus) (now : ℕ)
    (row : Video) :
    row.assign (extra.fields newStatus) now = extra.rewrite newStatus now row := rfl

inductive StatusUpdate : ServiceCall → String → VideoStatus → VideoFields → Prop where
  | transition (videoId : String) (expectedStatus newStatus : VideoStatus)
      (extra : TransitionExtra) (hallowed : Allowed expectedStatus newStatus) :
      StatusUpdate (.transitionStatus videoId expectedStatus newStatus extra) videoId
        expectedStatus (extra.fields newStatus)
  | progress (videoId : String) (percent : ℤ) (message : String) (additionalMeta : JsObject) :
      StatusUpdate (.updateProgress videoId percent message additionalMeta) videoId
        .processing (progressFields percent message additionalMeta)

inductive CallPhase where
  | updating
  | answered (affected : ℕ)
  | thrown

inductive CallStage where
  | status (call : ServiceCall) (phase : CallPhase)
  | other

inductive CallAllows : CallStage → Call → Prop where
  | update {call : ServiceCall} {videoId : String} {expected : VideoStatus}
      {fields : VideoFields} (h : StatusUpdate call videoId expected fields) :
      CallAllows (.status call .updating) (.updateVideo videoId (some expected) fields)
  | stamp (call : ServiceCall) (affected : ℕ) :
      CallAllows (.status call (.answered affected)) .dateNow
  | cache (call : ServiceCall) (affected : ℕ) (key : String) (value : StatusSnapshot) :
      CallAllows (.status call (.answered affected)) (.redisSetLater key value)
  | other (c : Call) : CallAllows .other c

def CallPhase.next : CallPhase → (c : Call) → Except Thrown c.Reply → CallPhase
  | .updating, .updateVideo _ _ _, .ok (affected : ℕ) => .answered affected
  | .updating, _, .error _ => .thrown
  | phase, _, _ => phase

def CallPhase.Ends : CallPhase → ServiceCall → Except Thrown Value → Prop
  | .updating, .transitionStatus _ expectedStatus newStatus _, r =>
      r = .ok (.bool false) ∧ ¬Allowed expectedStatus newStatus
  | .answered affected, .transitionStatus _ _ _ _, r => r = .ok (.bool (affected ≠ 0))
  | .answered _, .updateProgress _ _ _ _, r => r = .ok .unit
  | .thrown, _, .error _ => True
  | _, _, _ => False

namespace CallStage

def init : Task → CallStage
  | .service (.transitionStatus videoId expectedStatus newStatus extra) =>
      .status (.transitionStatus videoId expectedStatus newStatus extra) .updating
  | .service (.updateProgress videoId percent message additionalMeta) =>
      .status (.updateProgress videoId percent message additionalMeta) .updating
  | _ => .other

def next : CallStage → (c : Call) → Except Thrown c.Reply → CallStage
  | .status call phase, c, r => .status call (phase.next c r)
  | .other, _, _ => .other

def Ends : CallStage → Except Thrown Value → Prop
  | .status call phase, r => phase.Ends call r
  | .other, _ => True

end CallStage

def callProtocol : Protocol interface CallStage where
  Allows := CallAllows
  Possible := Call.Possible
  next := CallStage.next

theorem keeps_writeCache_answered {call : ServiceCall} {affected : ℕ}
    {Post : CallStage → Except Thrown Unit → Prop} (videoId : String) (status : VideoStatus)
    (progress message : JsValue)
    (hpost : Post (.status call (.answered affected)) (.ok ())) :
    (writeCache videoId status progress message).Keeps callProtocol.spec Post
      (.status call (.answered affected)) := by
  refine Program.keeps_bind.mpr (keeps_ask.mpr ⟨.stamp call affected, ?_⟩)
  rintro (e | now) h
  · exact (Bool.false_ne_true h).elim
  · refine keeps_ask.mpr ⟨.cache call affected _ _, ?_⟩
    rintro (e | x) h
    · exact (Bool.false_ne_true h).elim
    · exact hpost

theorem keeps_transitionStatus (videoId : String) (expectedStatus newStatus : VideoStatus)
    (extra : TransitionExtra) :
    (transitionStatus videoId expectedStatus newStatus extra).Keeps callProtocol.spec
      (fun stage r ↦ stage.Ends (r.map .bool))
      (.status (.transitionStatus videoId expectedStatus newStatus extra) .updating) := by
  unfold transitionStatus
  split
  · rename_i hallowed
    refine Program.keeps_bind.mpr (keeps_ask.mpr
      ⟨.update (.transition videoId expectedStatus newStatus extra hallowed), ?_⟩)
    rintro (e | affected) -
    · trivial
    · change Program.Keeps _ _ (if affected = 0 then _ else _)
        (CallStage.status _ (.answered affected))
      split
      · rename_i hzero
        subst hzero
        rfl
      · rename_i hne
        refine Program.keeps_bind.mpr (keeps_writeCache_answered _ _ _ _ ?_)
        change Except.ok (Value.bool true) = Except.ok (Value.bool (decide (affected ≠ 0)))
        rw [decide_eq_true hne]
  · rename_i hallowed
    exact ⟨rfl, hallowed⟩

theorem keeps_updateProgress (videoId : String) (percent : ℤ) (message : String)
    (additionalMeta : JsObject) :
    (updateProgress videoId percent message additionalMeta).Keeps callProtocol.spec
      (fun stage r ↦ stage.Ends (r.map fun _ ↦ .unit))
      (.status (.updateProgress videoId percent message additionalMeta) .updating) := by
  refine Program.keeps_bind.mpr (keeps_ask.mpr
    ⟨.update (.progress videoId percent message additionalMeta), ?_⟩)
  rintro (e | affected) -
  · trivial
  · exact keeps_writeCache_answered _ _ _ _ rfl

theorem Task.keeps_calls (config : StorageConfig) (task : Task) :
    (task.body config).Keeps callProtocol.spec CallStage.Ends (CallStage.init task) := by
  have hother (p : Prog Value) : p.Keeps callProtocol.spec CallStage.Ends .other :=
    Program.keeps_of_stable CallAllows.other (fun _ _ ↦ rfl) (fun _ ↦ trivial) p
  cases task with
  | service call =>
      cases call with
      | transitionStatus videoId expectedStatus newStatus extra =>
          exact Program.keeps_map.mpr (keeps_transitionStatus _ _ _ _)
      | updateProgress videoId percent message additionalMeta =>
          exact Program.keeps_map.mpr (keeps_updateProgress _ _ _ _)
      | _ => exact hother _
  | _ => exact hother _

/-! ## Threads of status calls -/

def callStageOf (t : Worker) : CallStage := Machine.stage callProtocol CallStage.init t

theorem callStageOf_status {t : Worker} {call : ServiceCall} (htask : t.task = .service call)
    (hcall : call.OnStatus) : ∃ phase, callStageOf t = .status call phase := by
  have hlog (log : List (Exchange interface)) (phase : CallPhase) :
      ∃ phase', callProtocol.after (.status call phase) log = .status call phase' := by
    induction log generalizing phase with
    | nil => exact ⟨phase, rfl⟩
    | cons x log ih => exact ih _
  unfold callStageOf Machine.stage
  rw [htask]
  cases call with
  | transitionStatus videoId expectedStatus newStatus extra => exact hlog _ _
  | updateProgress videoId percent message additionalMeta => exact hlog _ _
  | _ => exact hcall.elim

/-- The log of a status call, by its phase: it holds the update from its answer on,
and no other write. -/
def CallPhase.Logs (call : ServiceCall) (log : List (Exchange interface)) : CallPhase → Prop
  | .updating => ∀ x ∈ log, x.1.WritesVideos = false
  | .answered affected => ∃ videoId expected fields,
      StatusUpdate call videoId expected fields ∧
      (⟨.updateVideo videoId (some expected) fields, .ok affected⟩ : Exchange interface) ∈ log ∧
      ∀ x ∈ log, x.1.WritesVideos = true →
        x = ⟨.updateVideo videoId (some expected) fields, .ok affected⟩
  | .thrown => ∃ c e, (⟨c, .error e⟩ : Exchange interface) ∈ log

theorem CallPhase.Logs.quiet {call : ServiceCall} {log : List (Exchange interface)} {affected : ℕ}
    (h : (CallPhase.answered affected).Logs call log) {x : Exchange interface}
    (hx : x.1.WritesVideos = false) : (CallPhase.answered affected).Logs call (log ++ [x]) := by
  obtain ⟨videoId, expected, fields, hupdate, hmem, honly⟩ := h
  refine ⟨videoId, expected, fields, hupdate, List.mem_append_left _ hmem, ?_⟩
  intro y hy hwrites
  rcases List.mem_append.mp hy with hy | hy
  · exact honly y hy hwrites
  · obtain rfl := List.mem_singleton.mp hy
    rw [hx] at hwrites
    cases hwrites

section System

variable {config : StorageConfig} {s s' : State} {ts : List (Transition State Step)} {w : World}

theorem call_conforming (hrun : Run (system config).step ⟨w, []⟩ ts s) :
    ∀ t ∈ s.threads, Machine.Conforms callProtocol CallStage.init CallStage.Ends t :=
  Machine.run_conforms callProtocol CallStage.init CallStage.Ends (Task.keeps_calls config)
    (fun _ _ _ _ _ h ↦ World.possible_of_exec h) hrun (by simp)

theorem logs_of_run (hrun : Run (system config).step ⟨w, []⟩ ts s) {i : ℕ} {t : Worker}
    {call : ServiceCall} {phase : CallPhase} (hget : s.threads[i]? = some t)
    (hstage : callStageOf t = .status call phase) : phase.Logs call t.log := by
  induction hrun generalizing i t phase with
  | nil => simp at hget
  | @snoc ts s s' a head last ih =>
      rcases Machine.thread_cases callProtocol CallStage.init CallStage.Ends last
        (call_conforming head) hget with ⟨t₀, ht₀, rfl | ⟨-, rfl⟩⟩ | ⟨-, task, rfl⟩ |
          ⟨f, t₀, c, r, -, h⟩
      · exact ih ht₀ hstage
      · exact ih (t := t₀) ht₀ hstage
      · have hinit : CallStage.init task = .status call phase := hstage
        have hphase : phase = .updating := by
          unfold CallStage.init at hinit
          split at hinit <;> cases hinit <;> rfl
        subst hphase
        intro x hx
        simp at hx
      · have hallows : CallAllows (callStageOf t₀) c := h.allows
        have hnext : callStageOf t = (callStageOf t₀).next c r := h.stage_eq
        rw [hstage] at hnext
        have hold {phase : CallPhase} (hstage₀ : callStageOf t₀ = .status call phase) :
            phase.Logs call t₀.log := ih h.get hstage₀
        rw [h.log_eq]
        generalize callStageOf t₀ = stage at hallows hnext hold
        cases hallows with
        | @update _ videoId expected fields hupdate =>
            rcases r with e | n
            · obtain ⟨rfl, rfl⟩ := CallStage.status.inj hnext
              exact ⟨_, e, List.mem_append_right _ (List.mem_singleton.mpr rfl)⟩
            · obtain ⟨rfl, rfl⟩ := CallStage.status.inj hnext
              have hnone : ∀ x ∈ t₀.log, x.1.WritesVideos = false := hold rfl
              refine ⟨videoId, expected, fields, hupdate, by simp, ?_⟩
              intro x hx hwrites
              rcases List.mem_append.mp hx with hx | hx
              · rw [hnone x hx] at hwrites
                cases hwrites
              · exact List.mem_singleton.mp hx
        | stamp _ affected =>
            obtain ⟨rfl, rfl⟩ := CallStage.status.inj hnext
            exact (hold rfl).quiet rfl
        | cache _ affected key value =>
            obtain ⟨rfl, rfl⟩ := CallStage.status.inj hnext
            exact (hold rfl).quiet rfl
        | other => cases hnext

theorem logs_of_returned (hrun : Run (system config).step ⟨w, []⟩ ts s) {i : ℕ} {t : Worker}
    (hget : s.threads[i]? = some t) {videoId : String} {expected new : VideoStatus}
    {extra : TransitionExtra} {b : Bool}
    (htask : t.task = .service (.transitionStatus videoId expected new extra))
    (hprog : t.prog = .done (.ok (.bool b))) :
    (b = false ∧ ¬Allowed expected new ∧ ∀ x ∈ t.log, x.1.WritesVideos = false) ∨
    (Allowed expected new ∧ ∃ affected : ℕ, b = decide (affected ≠ 0) ∧
      (⟨.updateVideo videoId (some expected) (extra.fields new), .ok affected⟩ :
        Exchange interface) ∈ t.log ∧
      ∀ x ∈ t.log, x.1.WritesVideos = true →
        x = ⟨.updateVideo videoId (some expected) (extra.fields new), .ok affected⟩) := by
  obtain ⟨phase, hphase⟩ := callStageOf_status htask trivial
  have hlogs := logs_of_run hrun hget hphase
  have hends : (callStageOf t).Ends (.ok (.bool b)) :=
    (call_conforming hrun t (List.mem_of_getElem? hget)).post _ _ _ hprog
  rw [hphase] at hends
  cases phase with
  | updating =>
      obtain ⟨hb, hnot⟩ := hends
      obtain rfl : b = false := by simpa using hb
      exact .inl ⟨rfl, hnot, hlogs⟩
  | answered affected =>
      have hb : (.ok (.bool b) : Except Thrown Value) = .ok (.bool (decide (affected ≠ 0))) :=
        hends
      obtain rfl : b = decide (affected ≠ 0) := Value.bool.inj (Except.ok.inj hb)
      obtain ⟨videoId', expected', fields, hupdate, hmem, honly⟩ := hlogs
      cases hupdate with
      | transition _ _ _ _ hallowed => exact .inr ⟨hallowed, affected, rfl, hmem, honly⟩
  | thrown => exact hends.elim

/-! ## The parts of the contract -/

/-- At this moment the update of the call of thread `i` is answered. -/
def Updates (t : Transition State Step) (i : ℕ) (videoId : String)
    (expected new : VideoStatus) (extra : TransitionExtra) : Prop :=
  Receives t i (.service (.transitionStatus videoId expected new extra))
    (.updateVideo videoId (some expected) (extra.fields new))

/-- At this moment the call of thread `i` finds the row in the expected status, the
target is allowed from it, and the row is rewritten. -/
def Moves (t : Transition State Step) (i : ℕ) (videoId : String)
    (expected new : VideoStatus) (extra : TransitionExtra) : Prop :=
  Allowed expected new ∧ Updates t i videoId expected new extra ∧
  ∃ row, t.before.state.videos.find? videoId = some row ∧ row.status = expected ∧
    t.after.state.videos.find? videoId = some (extra.rewrite new t.before.state.now row)

def SameRows (t : Transition State Step) : Prop :=
  ∀ k, t.after.state.videos.find? k = t.before.state.videos.find? k

/-- The statuses of every row form a path in the transition table. -/
def FollowsTable (ts : List (Transition State Step)) : Prop :=
  ∀ t ∈ ts, ∀ videoId status, t.before.state.statusOf videoId = some status →
    ∃ status', t.after.state.statusOf videoId = some status' ∧
      (status' = status ∨ Allowed status status')

/-- `transitionStatus` returns `true` exactly when it moved the row at one moment of the call, and
it does so whenever its update meets the row in the expected status.  It returns `false` exactly
when the target is not allowed, or the row was missing or in another status at its update; then
it changed no row. -/
def Linearizable (ts : List (Transition State Step)) (s : State) : Prop :=
  ∀ (i : ℕ) (t : Worker) (videoId : String) (expected new : VideoStatus)
    (extra : TransitionExtra) (b : Bool), s.threads[i]? = some t →
    t.task = .service (.transitionStatus videoId expected new extra) →
    t.prog = .done (.ok (.bool b)) →
    (b = true ↔ ∃ u ∈ ts, Moves u i videoId expected new extra) ∧
    (∀ u ∈ ts, Updates u i videoId expected new extra →
      u.before.state.statusOf videoId = some expected → b = true) ∧
    (b = false ↔ ¬Allowed expected new ∨ ∃ u ∈ ts, Updates u i videoId expected new extra ∧
      u.before.state.statusOf videoId ≠ some expected) ∧
    (b = false → ∀ u ∈ ts, ∀ f, u.act = .call i f → SameRows u)

/-- A transition of which no call was rejected ends with an answer. -/
def Responds (ts : List (Transition State Step)) (s : State) : Prop :=
  ∀ (i : ℕ) (t : Worker) (videoId : String) (expected new : VideoStatus)
    (extra : TransitionExtra) (r : Except Thrown Value), s.threads[i]? = some t →
    t.task = .service (.transitionStatus videoId expected new extra) → t.prog = .done r →
    (∀ u ∈ ts, ∀ f, u.act = .call i f → ∃ a, f = .ok a) → ∃ b, r = .ok (.bool b)

/-- A status call that has not ended can go on. -/
def GoesOn (config : StorageConfig) (s : State) : Prop :=
  ∀ (i : ℕ) (t : Worker) (call : ServiceCall), s.threads[i]? = some t →
    t.task = .service call → call.OnStatus → ¬t.Ended →
    ∃ s', (system config).step s (okStep i) = some s'

def VideoStatus.Terminal : VideoStatus → Prop
  | .completed => True
  | .failed => True
  | .cancelled => True
  | _ => False

def ServiceCall.videoId? : ServiceCall → Option String
  | .transitionStatus videoId _ _ _ => some videoId
  | .updateProgress videoId _ _ _ => some videoId
  | _ => none

/-- Terminal rows keep every field, a call touches only its own row, and nothing but
calls touches rows. -/
def Confined (ts : List (Transition State Step)) : Prop :=
  ∀ t ∈ ts,
    (∀ k row, t.before.state.videos.find? k = some row → row.status.Terminal →
      t.after.state.videos.find? k = some row) ∧
    (SameRows t ∨ ∃ i f u call videoId, t.act = .call i f ∧
      t.before.threads[i]? = some u ∧ u.task = .service call ∧
      call.videoId? = some videoId ∧ ∀ k, k ≠ videoId →
        t.after.state.videos.find? k = t.before.state.videos.find? k)

/-- For each row and status, at most one call that leaves the status returns `true`. -/
def LeftOnce (s : State) : Prop :=
  ∀ (i j : ℕ) (t u : Worker) (videoId : String) (expected new new' : VideoStatus)
    (extra extra' : TransitionExtra),
    s.threads[i]? = some t → s.threads[j]? = some u →
    t.task = .service (.transitionStatus videoId expected new extra) →
    u.task = .service (.transitionStatus videoId expected new' extra') →
    new ≠ expected → new' ≠ expected →
    t.prog = .done (.ok (.bool true)) → u.prog = .done (.ok (.bool true)) → i = j

theorem mem_log_of_updates (hrun : Run (system config).step ⟨w, []⟩ ts s) {i : ℕ} {t : Worker}
    (hget : s.threads[i]? = some t) {u : Transition State Step} (hu : u ∈ ts) {videoId : String}
    {expected new : VideoStatus} {extra : TransitionExtra}
    (h : Updates u i videoId expected new extra) : ∃ affected : ℕ,
      (affected ≠ 0 ↔ u.before.state.statusOf videoId = some expected) ∧
      (⟨.updateVideo videoId (some expected) (extra.fields new), .ok affected⟩ :
        Exchange interface) ∈ t.log := by
  obtain ⟨a, u₀, hact, hget₀, -, hpending⟩ := h
  obtain ⟨u₁, c, r, hget₁, hpending₁, hexec, hmem⟩ := exists_mem_log hrun hget hu hact
  obtain rfl := Option.some.inj (hget₀.symm.trans hget₁)
  obtain rfl := Option.some.inj (hpending.symm.trans hpending₁)
  obtain ⟨⟨w', n⟩, hanswer, heq⟩ := Option.map_eq_some_iff.mp hexec
  obtain ⟨-, rfl⟩ := Prod.mk.inj heq
  refine ⟨n, ?_, hmem⟩
  obtain ⟨-, rfl⟩ := World.answer_updateVideo hanswer
  rw [World.updateVideo_affected, World.statusOf_eq_some_iff]
  constructor
  · rintro ⟨row, hrow, hguard⟩
    exact ⟨row, hrow, World.status_of_guard hguard⟩
  · rintro ⟨row, hrow, hstatus⟩
    exact ⟨row, hrow, by simp [hstatus]⟩

theorem updates_of_mem_log (hrun : Run (system config).step ⟨w, []⟩ ts s) {i : ℕ} {t : Worker}
    (hget : s.threads[i]? = some t) {videoId : String} {expected new : VideoStatus}
    {extra : TransitionExtra}
    (htask : t.task = .service (.transitionStatus videoId expected new extra)) {affected : ℕ}
    (hmem : (⟨.updateVideo videoId (some expected) (extra.fields new), .ok affected⟩ :
      Exchange interface) ∈ t.log) :
    ∃ u ∈ ts, Updates u i videoId expected new extra ∧
      u.after.state = (u.before.state.updateVideo videoId (some expected) (extra.fields new)).1 ∧
      affected = (u.before.state.updateVideo videoId (some expected) (extra.fields new)).2 := by
  obtain ⟨u, hu, f, u₀, hact, hget₀, hpending, hexec⟩ :=
    (Machine.mem_log_iff hrun rfl hget _).mp hmem
  have htask₀ := Machine.task_eq_of_mem hrun hu hget₀ hget
  rcases World.exec_cases hexec with ⟨a, n, rfl, hanswer, hn⟩ | ⟨e, -, -, -, he⟩ |
    ⟨a, e, n, -, -, -, he⟩
  · obtain rfl := Except.ok.inj hn
    obtain ⟨hw, hn⟩ := World.answer_updateVideo hanswer
    exact ⟨u, hu, ⟨a, u₀, hact, hget₀, htask₀.trans htask, hpending⟩, hw, hn⟩
  · cases he
  · cases he

theorem linearizable (hrun : Run (system config).step ⟨w, []⟩ ts s) : Linearizable ts s := by
  intro i t videoId expected new extra b hget htask hprog
  rcases logs_of_returned hrun hget htask hprog with ⟨rfl, hnot, hnone⟩ |
    ⟨hallowed, affected, rfl, hmem, honly⟩
  · refine ⟨⟨fun h ↦ (Bool.false_ne_true h).elim, ?_⟩, ?_, iff_of_true rfl (.inl hnot), ?_⟩
    · rintro ⟨u, -, hmoves⟩
      exact absurd hmoves.1 hnot
    · intro u hu hupdates _
      obtain ⟨affected, -, hmem⟩ := mem_log_of_updates hrun hget hu hupdates
      cases hnone _ hmem
    · intro _ u hu f hact k
      obtain ⟨u₀, c, r, -, -, hexec, hmem⟩ := exists_mem_log hrun hget hu hact
      rw [World.exec_videos hexec (hnone _ hmem)]
  · obtain ⟨u, hu, hupdates, hw, haffected⟩ := updates_of_mem_log hrun hget htask hmem
    -- The call issues one update only, so its answer is the one that was returned.
    have hone {u' : Transition State Step} (hu' : u' ∈ ts)
        (h : Updates u' i videoId expected new extra) :
        affected ≠ 0 ↔ u'.before.state.statusOf videoId = some expected := by
      obtain ⟨affected', hiff, hmem'⟩ := mem_log_of_updates hrun hget hu' h
      cases honly _ hmem' rfl
      exact hiff
    refine ⟨⟨fun htrue ↦ ?_, ?_⟩, ?_, ⟨fun hfalse ↦ ?_, ?_⟩, ?_⟩
    · have hne : affected ≠ 0 := of_decide_eq_true htrue
      obtain ⟨row, hrow, hstatus⟩ := World.statusOf_eq_some_iff.mp ((hone hu hupdates).mp hne)
      refine ⟨u, hu, hallowed, hupdates, row, hrow, hstatus, ?_⟩
      have hguard : (some expected).all (· = row.status) = true := by simp [hstatus]
      rw [hw, World.find?_updateVideo, if_pos rfl, hrow, Option.map_some, if_pos hguard,
        assign_transition]
    · rintro ⟨u', hu', -, hupdates', row, hrow, hstatus, -⟩
      exact decide_eq_true ((hone hu' hupdates').mpr
        (World.statusOf_eq_some_iff.mpr ⟨row, hrow, hstatus⟩))
    · intro u' hu' hupdates' hstatus
      exact decide_eq_true ((hone hu' hupdates').mpr hstatus)
    · have hzero : ¬affected ≠ 0 := of_decide_eq_false hfalse
      exact .inr ⟨u, hu, hupdates, fun hstatus ↦ hzero ((hone hu hupdates).mpr hstatus)⟩
    · rintro (hnot | ⟨u', hu', hupdates', hstatus⟩)
      · exact absurd hallowed hnot
      · exact decide_eq_false fun hne ↦ hstatus ((hone hu' hupdates').mp hne)
    · intro hfalse u' hu' f hact k
      have hzero : affected = 0 := by simpa using hfalse
      obtain ⟨u₀, c, r, -, -, hexec, hmem'⟩ := exists_mem_log hrun hget hu' hact
      by_cases hc : c.WritesVideos = true
      · cases honly _ hmem' hc
        obtain ⟨-, a, hanswer⟩ := World.exec_ok hexec
        obtain ⟨hw', hn⟩ := World.answer_updateVideo hanswer
        rw [hw', World.updateVideo_unaffected (hn.symm.trans hzero)]
      · rw [World.exec_videos hexec (by simpa using hc)]

theorem responds (hrun : Run (system config).step ⟨w, []⟩ ts s) : Responds ts s := by
  intro i t videoId expected new extra r hget htask hprog hoks
  obtain ⟨phase, hphase⟩ := callStageOf_status htask trivial
  have hlogs := logs_of_run hrun hget hphase
  have hends : (callStageOf t).Ends r :=
    (call_conforming hrun t (List.mem_of_getElem? hget)).post _ _ _ hprog
  rw [hphase] at hends
  cases phase with
  | updating => exact ⟨false, hends.1⟩
  | answered affected => exact ⟨_, hends⟩
  | thrown =>
      obtain ⟨c, e, hmem⟩ := hlogs
      obtain ⟨u, hu, f, u₀, hact, -, -, hexec⟩ := (Machine.mem_log_iff hrun rfl hget _).mp hmem
      obtain ⟨a, rfl⟩ := hoks u hu f hact
      obtain ⟨p, -, heq⟩ := Option.map_eq_some_iff.mp hexec
      cases (Prod.mk.inj heq).2

theorem goesOn (hrun : Run (system config).step ⟨w, []⟩ ts s) : GoesOn config s := by
  intro i t call hget htask hcall hopen
  obtain ⟨phase, hphase⟩ := callStageOf_status htask hcall
  have hcrashed : t.crashed = false := by
    by_contra h
    exact hopen (.inl (by simpa using h))
  cases hprog : t.prog with
  | done r => exact absurd (.inr (by rw [hprog]; trivial)) hopen
  | call c next =>
      have hallows : CallAllows (callStageOf t) c :=
        (call_conforming hrun t (List.mem_of_getElem? hget)).allows _ _ _ hprog
      rw [hphase] at hallows
      obtain ⟨p, hanswer⟩ : ∃ p, s.state.answer c .unit = some p := by
        cases hallows <;> exact ⟨_, rfl⟩
      have hexec : (system config).exec s.state c (.ok .unit) = some (p.1, .ok p.2) := by
        change (s.state.answer c .unit).map _ = _
        rw [hanswer]
        rfl
      change ∃ s', (system config).stepCall s i (.ok .unit) = some s'
      simp only [Machine.stepCall, hget, hcrashed, hprog, hexec]
      exact ⟨_, rfl⟩

/-- What one step does to the rows: nothing, or the guarded update of a status
call. -/
theorem status_step {a : Step} (hstep : (system config).step s a = some s')
    (hconf : ∀ t ∈ s.threads, Machine.Conforms callProtocol CallStage.init CallStage.Ends t)
    (htasks : ∀ t ∈ s.threads, ∃ call : ServiceCall, t.task = .service call ∧ call.OnStatus) :
    SameRows ⟨s, a, s'⟩ ∨ ∃ i f u call videoId expected fields, a = .call i f ∧
      s.threads[i]? = some u ∧ u.task = .service call ∧
      StatusUpdate call videoId expected fields ∧
      s'.state = (s.state.updateVideo videoId (some expected) fields).1 := by
  have hsame (hvideos : s'.state.videos = s.state.videos) : SameRows ⟨s, a, s'⟩ :=
    fun k ↦ by rw [hvideos]
  cases a with
  | invoke task =>
      obtain rfl := Option.some.inj hstep
      exact .inl fun k ↦ rfl
  | crash i =>
      obtain ⟨t, -, rfl⟩ := (system config).step_crash_cases hstep
      exact .inl fun k ↦ rfl
  | env l =>
      obtain ⟨w, tasks, henv, rfl⟩ := (system config).step_env_cases hstep
      exact .inl (hsame (envStep_frame henv).1)
  | call i f =>
      obtain ⟨t, t', c, r, h⟩ :=
        Machine.answered_of_step callProtocol CallStage.init CallStage.Ends hstep hconf
      obtain ⟨call, htask, hcall⟩ := htasks t (List.mem_of_getElem? h.get)
      obtain ⟨phase, hphase⟩ := callStageOf_status htask hcall
      have hallows : CallAllows (callStageOf t) c := h.allows
      rw [hphase] at hallows
      cases hallows with
      | @update _ videoId expected fields hupdate =>
          rcases World.exec_effect h.exec with ⟨-, hw, -⟩ | ⟨-, a, x, hx, -⟩
          · exact .inl (hsame (congrArg World.videos hw))
          · exact .inr ⟨i, f, t, call, videoId, expected, fields, rfl, h.get, htask, hupdate,
              (World.answer_updateVideo hx).1⟩
      | stamp _ affected => exact .inl (hsame (World.exec_videos h.exec rfl))
      | cache _ affected key value => exact .inl (hsame (World.exec_videos h.exec rfl))

theorem status_tasks_step {a : Step} (hstep : (system config).step s a = some s')
    (hact : StatusAct a)
    (hconf : ∀ t ∈ s.threads, Machine.Conforms callProtocol CallStage.init CallStage.Ends t)
    (htasks : ∀ t ∈ s.threads, ∃ call : ServiceCall, t.task = .service call ∧ call.OnStatus) :
    ∀ t ∈ s'.threads, ∃ call : ServiceCall, t.task = .service call ∧ call.OnStatus := by
  intro u hu
  cases a with
  | invoke task =>
      obtain rfl := Option.some.inj hstep
      rcases List.mem_append.mp hu with hu | hu
      · exact htasks u hu
      · obtain rfl := List.mem_singleton.mp hu
        cases task with
        | service call => exact ⟨call, rfl, hact⟩
        | _ => exact hact.elim
  | crash i =>
      obtain ⟨t, ht, rfl⟩ := (system config).step_crash_cases hstep
      rcases List.mem_or_eq_of_mem_set hu with hu | rfl
      · exact htasks u hu
      · exact htasks t (List.mem_of_getElem? ht)
  | env l =>
      obtain ⟨w, tasks, henv, rfl⟩ := (system config).step_env_cases hstep
      have hnil : tasks = [] := by
        refine envStep_no_tasks henv ?_
        rintro jobId rfl
        exact hact
      subst hnil
      exact htasks u (by simpa using hu)
  | call i f =>
      obtain ⟨t, t', c, r, h⟩ :=
        Machine.answered_of_step callProtocol CallStage.init CallStage.Ends hstep hconf
      obtain ⟨call, htask, hcall⟩ := htasks t (List.mem_of_getElem? h.get)
      obtain ⟨phase, hphase⟩ := callStageOf_status htask hcall
      have hallows : CallAllows (callStageOf t) c := h.allows
      rw [hphase] at hallows
      have hforks : listeners c = [] := by cases hallows <;> rfl
      obtain ⟨j, hj⟩ := List.getElem?_of_mem hu
      rcases h.get_cases hj with ⟨-, rfl⟩ | ⟨-, hj⟩ | ⟨-, task, htask', -⟩
      · exact ⟨call, h.task_eq.trans htask, hcall⟩
      · exact htasks u (List.mem_of_getElem? hj)
      · change task ∈ listeners c at htask'
        rw [hforks] at htask'
        simp at htask'

theorem StatusUpdate.allowed {call : ServiceCall} {videoId : String} {expected : VideoStatus}
    {fields : VideoFields} (h : StatusUpdate call videoId expected fields) :
    fields.status.getD expected = expected ∨ Allowed expected (fields.status.getD expected) := by
  cases h with
  | transition _ _ _ _ hallowed => exact .inr hallowed
  | progress percent message additionalMeta => exact .inl rfl

theorem StatusUpdate.not_terminal {call : ServiceCall} {videoId : String}
    {expected : VideoStatus} {fields : VideoFields}
    (h : StatusUpdate call videoId expected fields) : ¬expected.Terminal := by
  cases h with
  | transition _ _ newStatus _ hallowed =>
      obtain ⟨targets, htargets, -⟩ := hallowed
      cases expected <;> first | exact id | cases htargets
  | progress percent message additionalMeta => exact id

theorem StatusUpdate.videoId_eq {call : ServiceCall} {videoId : String}
    {expected : VideoStatus} {fields : VideoFields}
    (h : StatusUpdate call videoId expected fields) : call.videoId? = some videoId := by
  cases h <;> rfl

section Contract

variable (hrun : Run (system config).step ⟨w, []⟩ ts s) (hacts : ∀ t ∈ ts, StatusAct t.act)

include hrun hacts

theorem status_step_of_mem {t : Transition State Step} (ht : t ∈ ts) :
    SameRows t ∨ ∃ i f u call videoId expected fields, t.act = .call i f ∧
      t.before.threads[i]? = some u ∧ u.task = .service call ∧
      StatusUpdate call videoId expected fields ∧
      t.after.state = (t.before.state.updateVideo videoId (some expected) fields).1 := by
  obtain ⟨pre, post, hts, hpre, hstep⟩ := hrun.exists_prefix ht
  refine status_step hstep (call_conforming hpre) ?_
  refine hpre.invariant (fun s ↦ ∀ t ∈ s.threads,
    ∃ call : ServiceCall, t.task = .service call ∧ call.OnStatus) (by simp) ?_
  intro u hu hstep htasks
  obtain ⟨pre', post', rfl, hpre', -⟩ := hpre.exists_prefix hu
  exact status_tasks_step hstep (hacts u (by simp [hts])) (call_conforming hpre') htasks

theorem followsTable : FollowsTable ts := by
  intro t ht videoId status hstatus
  rcases status_step_of_mem hrun hacts ht with hsame | ⟨i, f, u, call, id, expected, fields, -,
    -, -, hupdate, hw⟩
  · refine ⟨status, ?_, .inl rfl⟩
    rw [World.statusOf, hsame]
    exact hstatus
  · rw [hw, World.statusOf_updateVideo]
    by_cases hid : videoId = id
    · subst hid
      rw [if_pos rfl, hstatus, Option.map_some]
      by_cases hguard : expected = status
      · subst hguard
        exact ⟨fields.status.getD expected, by simp, hupdate.allowed⟩
      · exact ⟨status, by simp [hguard], .inl rfl⟩
    · rw [if_neg hid]
      exact ⟨status, hstatus, .inl rfl⟩

theorem confined : Confined ts := by
  intro t ht
  rcases status_step_of_mem hrun hacts ht with hsame | ⟨i, f, u, call, id, expected, fields,
    hact, hget, htask, hupdate, hw⟩
  · exact ⟨fun k row hrow _ ↦ (hsame k).trans hrow, .inl hsame⟩
  · refine ⟨?_, .inr ⟨i, f, u, call, id, hact, hget, htask, hupdate.videoId_eq, ?_⟩⟩
    · intro k row hrow hterminal
      rw [hw, World.find?_updateVideo]
      by_cases hk : k = id
      · subst hk
        rw [if_pos rfl, hrow, Option.map_some, if_neg]
        intro hguard
        rw [World.status_of_guard hguard] at hterminal
        exact hupdate.not_terminal hterminal
      · rw [if_neg hk]
        exact hrow
    · intro k hk
      rw [hw, World.find?_updateVideo, if_neg hk]

end Contract

/-! ## Statuses are left once -/

def VideoStatus.rank : VideoStatus → ℕ
  | .pending => 0
  | .processing => 1
  | _ => 2

theorem rank_lt_of_allowed {status status' : VideoStatus} (h : Allowed status status')
    (hne : status' ≠ status) : status.rank < status'.rank := by
  obtain ⟨targets, htargets, hmem⟩ := h
  cases status <;> simp only [validTransitions, Option.some.injEq, reduceCtorEq] at htargets <;>
    subst htargets <;> simp only [List.mem_cons, List.not_mem_nil, or_false] at hmem <;>
    rcases hmem with rfl | rfl | rfl <;> simp_all [VideoStatus.rank]

/-- Along a run that follows the table the rank of a row's status does not fall. -/
theorem rank_mono {start : State} (hrun : Run (system config).step start ts s)
    (hfollows : FollowsTable ts) {videoId : String} {status : VideoStatus}
    (hstatus : start.state.statusOf videoId = some status) :
    ∃ status', s.state.statusOf videoId = some status' ∧ status.rank ≤ status'.rank := by
  induction hrun with
  | nil => exact ⟨status, hstatus, Nat.le_refl _⟩
  | @snoc ts s s' a head last ih =>
      obtain ⟨status₁, h₁, hle⟩ := ih fun t ht ↦ hfollows t (by simp [ht])
      obtain ⟨status₂, h₂, hstep⟩ := hfollows ⟨s, a, s'⟩ (by simp) videoId status₁ h₁
      refine ⟨status₂, h₂, ?_⟩
      by_cases hne : status₂ = status₁
      · rw [hne]
        exact hle
      · rcases hstep with heq | hallowed
        · exact absurd heq hne
        · have hlt := rank_lt_of_allowed hallowed hne
          omega

theorem not_moved_again {start : State} {pre post : List (Transition State Step)}
    {u u' : Transition State Step} (hrun : Run (system config).step start (pre ++ u :: post) s)
    (hfollows : FollowsTable (pre ++ u :: post)) {i j : ℕ} {videoId : String}
    {expected new new' : VideoStatus} {extra extra' : TransitionExtra}
    (hmoves : Moves u i videoId expected new extra) (hne : new ≠ expected)
    (hu' : u' ∈ post) (hmoves' : Moves u' j videoId expected new' extra') : False := by
  obtain ⟨hallowed, -, row, -, -, hafter⟩ := hmoves
  obtain ⟨-, -, row', hrow', hstatus', -⟩ := hmoves'
  obtain ⟨-, -, hpost⟩ := hrun.at_append_cons
  obtain ⟨pre', post', rfl, hpre', -⟩ := hpost.exists_prefix hu'
  have hnew : u.after.state.statusOf videoId = some new :=
    World.statusOf_eq_some_iff.mpr ⟨_, hafter, rfl⟩
  obtain ⟨status, hstatus, hle⟩ := rank_mono hpre'
    (fun t ht ↦ hfollows t (by simp [ht])) hnew
  have hexpected : u'.before.state.statusOf videoId = some expected :=
    World.statusOf_eq_some_iff.mpr ⟨row', hrow', hstatus'⟩
  obtain rfl := Option.some.inj (hstatus.symm.trans hexpected)
  have hlt := rank_lt_of_allowed hallowed hne
  omega

theorem leftOnce (hrun : Run (system config).step ⟨w, []⟩ ts s) (hfollows : FollowsTable ts) :
    LeftOnce s := by
  intro i j t t' videoId expected new new' extra extra' ht ht' htask htask' hne hne' hprog hprog'
  obtain ⟨u, hu, hmoves⟩ := (linearizable hrun i t _ _ _ _ _ ht htask hprog).1.mp rfl
  obtain ⟨u', hu', hmoves'⟩ := (linearizable hrun j t' _ _ _ _ _ ht' htask' hprog').1.mp rfl
  obtain ⟨pre, post, rfl⟩ := List.append_of_mem hu
  rcases List.mem_append.mp hu' with hpre | hpost
  · obtain ⟨pre', post', rfl⟩ := List.append_of_mem hpre
    rw [List.append_assoc, List.cons_append] at hrun hfollows
    exact (not_moved_again hrun hfollows hmoves' hne' (by simp) hmoves).elim
  · rcases List.mem_cons.mp hpost with rfl | hpost
    · exact (hmoves.2.1.executes.unique hmoves'.2.1.executes).1
    · exact (not_moved_again hrun hfollows hmoves hne hpost hmoves').elim

/-- The contract of `transitionStatus` in every run of status calls, from any
tables. -/
theorem transitionStatus_contract (hrun : Run (system config).step ⟨w, []⟩ ts s)
    (hacts : ∀ t ∈ ts, StatusAct t.act) :
    FollowsTable ts ∧ Linearizable ts s ∧ Confined ts ∧ LeftOnce s ∧ Responds ts s ∧
      GoesOn config s :=
  ⟨followsTable hrun hacts, linearizable hrun, confined hrun hacts,
    leftOnce hrun (followsTable hrun hacts), responds hrun, goesOn hrun⟩

end System

def returned (t : Worker) : Option Bool :=
  match t.prog with
  | .done (.ok (.bool b)) => some b
  | _ => none

/-- Two calls compete for the start of a pending row. -/
def competingActs : List Step :=
  let start : Step :=
    .invoke (.service (.transitionStatus "video" .pending .processing { videoUrl := none }))
  [start, start, okStep 1, okStep 0, okStep 1, okStep 1]

theorem transitionStatus_contract_competing :
    ∃ (ts : List (Transition State Step)) (s : State),
      Run (system ⟨"bucket", none, "region"⟩).step
        ⟨{ World.empty with videos := Table.single (Video.create "video" {} 0) }, []⟩ ts s ∧
      (∀ t ∈ ts, StatusAct t.act) ∧
      s.threads.map returned = [some false, some true] ∧
      s.state.statusOf "video" = some .processing ∧
      FollowsTable ts ∧ Linearizable ts s ∧ Confined ts ∧ LeftOnce s ∧ Responds ts s ∧
      GoesOn ⟨"bucket", none, "region"⟩ s := by
  obtain ⟨ts, s, hrun, hacts, hobs⟩ := Run.exists_of_follow
    (system ⟨"bucket", none, "region"⟩).step
    ⟨{ World.empty with videos := Table.single (Video.create "video" {} 0) }, []⟩ competingActs
    (fun p ↦ (p.2.threads.map returned, p.2.state.statusOf "video"))
    ([some false, some true], some .processing) (by decide +kernel)
  obtain ⟨hreturned, hstatus⟩ := Prod.mk.inj hobs
  have hstatusActs : ∀ t ∈ ts, StatusAct t.act := by
    intro t ht
    have hmem : t.act ∈ competingActs := hacts ▸ List.mem_map_of_mem ht
    simp only [competingActs, okStep, List.mem_cons, List.not_mem_nil, or_false] at hmem
    rcases hmem with h | h | h | h | h | h <;> rw [h] <;> trivial
  exact ⟨ts, s, hrun, hstatusActs, hreturned, hstatus,
    transitionStatus_contract hrun hstatusActs⟩

end VideoGen
