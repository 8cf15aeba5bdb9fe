import VideoGen.ChatRooms

/-!
# What a client that joins a room is shown

`join_room` makes the client a member, reads the latest messages and sends
them; `send_message` saves a message and then broadcasts it.  A message whose
broadcast comes before the membership was saved before the query, any other
broadcast finds the client in the room.
-/

namespace VideoGen

variable {maxLength : ℕ → String → Bool} {s s' s₀ : Chat} {a : ChatStep} {ts : List ChatMove}
  {i : ℕ} {client room : String} {payload : MessagePayload} {message : Message}

/-! ## Rows -/

theorem rows_of_insertMessage {w w' : ChatState} (h : w.insertMessage message = some w') :
    w'.messages.rows = w.messages.rows ++ [message] := by
  obtain ⟨messages, hinsert, rfl⟩ := Option.map_eq_some_iff.mp h
  obtain ⟨hkey, rfl⟩ := Table.insert?_eq_some_iff.mp hinsert
  rfl

theorem kept_of_effect {w w' : ChatState} {c : ChatCall} {x : Except ChatError c.Reply}
    (h : w.Effect w' c x) (hm : message ∈ w.messages.rows) : message ∈ w'.messages.rows := by
  cases c with
  | join client room =>
      obtain ⟨rfl, -⟩ := h
      unfold ChatState.join
      split <;> exact hm
  | leave client room =>
      obtain ⟨rfl, -⟩ := h
      exact hm
  | hasRoom client room =>
      obtain ⟨rfl, -⟩ := h
      exact hm
  | insertMessage senderId senderEmail room content =>
      rcases h with ⟨id, createdAt, error, hinsert, -⟩ | ⟨rfl, -⟩
      · rw [rows_of_insertMessage hinsert]
        exact List.mem_append_left _ hm
      · exact hm
  | selectMessages room limit =>
      obtain ⟨rfl, -⟩ := h
      exact hm
  | emitHistory client messages =>
      obtain ⟨rfl, -⟩ := h
      unfold ChatState.emit
      split <;> exact hm
  | broadcast room payload =>
      obtain ⟨rfl, -⟩ := h
      exact hm

theorem kept_of_step (hstep : (chat maxLength).step s a = some s')
    (hm : message ∈ s.state.messages.rows) : message ∈ s'.state.messages.rows := by
  cases a with
  | invoke task =>
      obtain rfl := Option.some.inj hstep
      exact hm
  | crash i =>
      obtain ⟨t, -, rfl⟩ := Machine.step_crash_cases _ hstep
      exact hm
  | call i f =>
      obtain ⟨t, c, next, x, -, h⟩ := Machine.called_of_step hstep
      exact kept_of_effect (ChatState.effect_of_exec h.exec) hm
  | env event =>
      obtain ⟨w, tasks, hnext, rfl⟩ := Machine.step_env_cases _ hstep
      rcases ChatState.next_cases hnext with ⟨socket, rfl, -, rfl, rfl⟩ | ⟨task, rfl, rfl, rfl⟩ |
        ⟨client, rfl, -, rfl, rfl⟩
      · unfold ChatState.join
        split <;> exact hm
      · exact hm
      · exact hm

theorem kept_of_run (hrun : Run (chat maxLength).step s₀ ts s)
    (hm : message ∈ s₀.state.messages.rows) : message ∈ s.state.messages.rows :=
  hrun.invariant (fun s ↦ message ∈ s.state.messages.rows) hm
    fun _ _ hstep ↦ kept_of_step hstep

theorem kept_of_mem (hrun : Run (chat maxLength).step s₀ ts s) {t : ChatMove} (ht : t ∈ ts)
    (hm : message ∈ t.after.state.messages.rows) : message ∈ s.state.messages.rows := by
  obtain ⟨pre, post, rfl⟩ := List.append_of_mem ht
  obtain ⟨-, -, hpost⟩ := hrun.at_append_cons
  exact kept_of_run hpost hm

/-! ## Saving before broadcasting -/

theorem saved_of_broadcast {t : ChatMove}
    (hrun : Run (chat maxLength).step ⟨ChatState.empty, []⟩ ts t.before)
    (hstep : (chat maxLength).step t.before t.act = some t.after)
    (hasks : asks t = some (i, .broadcast room payload)) :
    ∃ message ∈ t.before.state.messages.rows, message.payload = payload ∧
      message.room = room := by
  obtain ⟨f, u, next, x, -, -, hcall⟩ := called_of_asks hstep hasks
  have hclient : clientOf t.before i = some u.task.client := by simp [clientOf, hcall.get]
  obtain ⟨u', message, hget, rfl, content, hlog⟩ := log_of_broadcast hrun hstep ⟨hclient, hasks⟩
  have hmem : (⟨.insertMessage u.task.client.user.sub u.task.client.user.email room content,
      .ok message⟩ : Exchange chatInterface) ∈ u'.log := by simp [hlog]
  obtain ⟨v, hv, f', u₀, -, -, -, hexec⟩ := (Machine.mem_log_iff hrun rfl hget _).mp hmem
  rcases ChatState.effect_of_exec hexec with ⟨id, createdAt, error, hinsert, hok | herror⟩ |
    ⟨-, error, herror⟩
  · have hmessage := Except.ok.inj hok
    have hrows := rows_of_insertMessage hinsert
    rw [← hmessage] at hrows
    refine ⟨message, kept_of_mem hrun hv ?_, rfl, ?_⟩
    · rw [hrows]
      exact List.mem_append_right _ (List.mem_singleton_self _)
    · rw [hmessage]
  · cases herror
  · cases herror

/-! ## Joining -/

section Join

variable {u : ChatThread} {history : List Message}
  (hrun : Run (chat maxLength).step ⟨ChatState.empty, []⟩ ts s) (hget : s.threads[i]? = some u)

include hrun hget

theorem waits_join (hpending : u.pending? = some (.join client room)) : u.log = [] ∧
    ∃ dto socket, u.task = .joinRoom dto socket ∧ socket.id = client ∧ dto.room = room := by
  have hwaits := waits_of_run hrun hget hpending
  cases htask : u.task with
  | joinRoom dto socket =>
      rw [htask] at hwaits
      rcases hwaits with ⟨hlog, hc⟩ | ⟨-, hc⟩ | ⟨messages, -, hc⟩
      · obtain ⟨rfl, rfl⟩ := ChatCall.join.inj hc
        exact ⟨hlog, dto, socket, rfl, rfl, rfl⟩
      · cases hc
      · cases hc
  | leaveRoom dto socket =>
      rw [htask] at hwaits
      obtain ⟨-, hc⟩ := hwaits
      cases hc
  | sendMessage dto socket =>
      rw [htask] at hwaits
      rcases hwaits with ⟨-, hc⟩ | ⟨-, hc⟩ | ⟨message, -, hc⟩ <;> cases hc

theorem waits_emit (hpending : u.pending? = some (.emitHistory client history)) :
    ∃ dto socket messages, u.task = .joinRoom dto socket ∧ socket.id = client ∧
      history = messages.reverse ∧
      u.log = [⟨.join socket.id dto.room, .ok ()⟩,
        ⟨.selectMessages dto.room 50, .ok messages⟩] := by
  have hwaits := waits_of_run hrun hget hpending
  cases htask : u.task with
  | joinRoom dto socket =>
      rw [htask] at hwaits
      rcases hwaits with ⟨-, hc⟩ | ⟨-, hc⟩ | ⟨messages, hlog, hc⟩
      · cases hc
      · cases hc
      · obtain ⟨rfl, rfl⟩ := ChatCall.emitHistory.inj hc
        exact ⟨dto, socket, messages, rfl, rfl, rfl, hlog⟩
  | leaveRoom dto socket =>
      rw [htask] at hwaits
      obtain ⟨-, hc⟩ := hwaits
      cases hc
  | sendMessage dto socket =>
      rw [htask] at hwaits
      rcases hwaits with ⟨-, hc⟩ | ⟨-, hc⟩ | ⟨message, -, hc⟩ <;> cases hc

end Join

/-! ## The history -/

/-- The history shows the message, or it is full of others that are not older. -/
def Covers (history : List Message) (payload : MessagePayload) : Prop :=
  (∃ m ∈ history, m.payload = payload) ∨
    (history.length = 50 ∧
      ∀ m ∈ history, m.payload ≠ payload ∧ payload.createdAt ≤ m.createdAt)

/-- A client that is a member between `past` and `live` misses nothing. -/
structure Gapless (past live : List ChatMove) (client room : String) (history : List Message) :
    Prop where
  chronological : history.Pairwise fun m m' ↦ m.createdAt ≤ m'.createdAt
  distinct : (history.map Message.id).Nodup
  ofRoom : ∀ m ∈ history, m.room = room
  past : ∀ t ∈ past, ∀ i payload, asks t = some (i, .broadcast room payload) →
    Covers history payload
  live : ∀ t ∈ live, ∀ i payload, asks t = some (i, .broadcast room payload) →
    t.after.state.received client = t.before.state.received client ++ [.message payload]

section Query

variable (w : ChatState) (plan : QueryPlan Message ℕ) (room : String)

theorem mem_selectMessages {n : ℕ} (hm : message ∈ w.selectMessages plan room n) :
    message ∈ w.messages.rows ∧ message.room = room := by
  have hsorted := List.mem_of_mem_take hm
  have hrows := (plan.ordered Message.createdAt _).perm.mem_iff.mp hsorted
  simpa using hrows

theorem chronological_selectMessages (n : ℕ) :
    (w.selectMessages plan room n).reverse.Pairwise fun m m' ↦ m.createdAt ≤ m'.createdAt := by
  rw [List.pairwise_reverse]
  exact (plan.ordered Message.createdAt _).sorted.sublist (List.take_sublist _ _)

theorem distinct_selectMessages (n : ℕ) :
    ((w.selectMessages plan room n).reverse.map Message.id).Nodup := by
  rw [List.map_reverse, List.nodup_reverse]
  have hrows : ((w.messages.rows.filter fun message ↦ message.room = room).map
      Message.key).Nodup := w.messages.nodup.sublist (List.filter_sublist.map _)
  have hperm := (plan.ordered Message.createdAt
    (w.messages.rows.filter fun message ↦ message.room = room)).perm.map Message.key
  exact (hperm.nodup_iff.mpr hrows).sublist ((List.take_sublist _ _).map _)

theorem covers_selectMessages (hm : message ∈ w.messages.rows) (hroom : message.room = room) :
    Covers (w.selectMessages plan room 50).reverse message.payload := by
  have hmem : message ∈ w.messages.rows.filter fun message ↦ message.room = room := by
    simpa using ⟨hm, hroom⟩
  by_cases hshown : ∃ m ∈ (w.selectMessages plan room 50).reverse, m.payload = message.payload
  · exact .inl hshown
  · right
    have hordered := plan.ordered Message.createdAt
      (w.messages.rows.filter fun message ↦ message.room = room)
    rcases hordered.mem_take_or (n := 50) hmem with htake | ⟨hlength, hnewer⟩
    · exact absurd ⟨message, List.mem_reverse.mpr htake, rfl⟩ hshown
    · refine ⟨by rw [List.length_reverse]; exact hlength, fun m hm' ↦ ⟨?_, ?_⟩⟩
      · intro heq
        exact hshown ⟨m, hm', heq⟩
      · exact hnewer m (List.mem_reverse.mp hm')

end Query

section Gap

variable {pre mid post : List ChatMove} {join emit : ChatMove} {client' : String}
  {history : List Message}

theorem queried_of_emit
    (hrun : Run (chat maxLength).step ⟨ChatState.empty, []⟩
      (pre ++ join :: (mid ++ emit :: post)) s)
    (hjoin : asks join = some (i, .join client room))
    (hemit : asks emit = some (i, .emitHistory client' history)) :
    client' = client ∧ ∃ v ∈ mid, ∃ plan,
      history = (v.before.state.selectMessages plan room 50).reverse := by
  obtain ⟨hpre, hjoined, -⟩ := hrun.at_append_cons
  have hrun' : Run (chat maxLength).step ⟨ChatState.empty, []⟩
      ((pre ++ join :: mid) ++ emit :: post) s := by
    simpa using hrun
  obtain ⟨hmid, hemitted, -⟩ := hrun'.at_append_cons
  obtain ⟨f, u, next, x, hact, -, hcall⟩ := called_of_asks hjoined hjoin
  obtain ⟨f', u', next', x', -, -, hcall'⟩ := called_of_asks hemitted hemit
  obtain ⟨hlog, dto, socket, htask, hclient, hroom⟩ :=
    waits_join hpre hcall.get hcall.pending
  obtain ⟨dto', socket', messages, htask', hclient', hhistory, hlog'⟩ :=
    waits_emit hmid hcall'.get hcall'.pending
  have hsame := Machine.task_eq_of_mem hmid (v := join) (by simp) hcall.get hcall'.get
  rw [htask, htask'] at hsame
  obtain ⟨rfl, rfl⟩ := ChatTask.joinRoom.inj hsame
  refine ⟨hclient'.symm.trans hclient, ?_⟩
  have hmem : (⟨.selectMessages dto.room 50, .ok messages⟩ : Exchange chatInterface) ∈ u'.log := by
    simp [hlog']
  obtain ⟨v, hv, g, u₀, hvact, hget₀, hpending₀, hexec⟩ :=
    (Machine.mem_log_iff hmid rfl hcall'.get _).mp hmem
  -- The query comes after the membership: before it the thread had called nothing.
  have hvmid : v ∈ mid := by
    rcases List.mem_append.mp hv with hv | hv
    · have hearly := (Machine.mem_log_iff hpre rfl hcall.get
        ⟨.selectMessages dto.room 50, .ok messages⟩).mpr
        ⟨v, hv, g, u₀, hvact, hget₀, hpending₀, hexec⟩
      simp [hlog] at hearly
    · rcases List.mem_cons.mp hv with rfl | hv
      · obtain rfl := Option.some.inj (hget₀.symm.trans hcall.get)
        cases hpending₀.symm.trans hcall.pending
      · exact hv
  obtain ⟨-, ⟨plan, hok⟩ | ⟨error, herror⟩⟩ := ChatState.effect_of_exec hexec
  · obtain rfl := Except.ok.inj hok
    exact ⟨v, hvmid, plan, by rw [hhistory, hroom]⟩
  · cases herror

theorem member_of_stays (hrun : Run (chat maxLength).step s₀ ts s)
    (hroom : s₀.state.rooms client room = true) (hstays : ∀ t ∈ ts, ¬LeavesRoom client room t) :
    s.state.rooms client room = true :=
  hrun.invariant (fun s ↦ s.state.rooms client room = true) hroom
    fun t ht hstep hold ↦ (rooms_step hstep).mpr (.inr ⟨hold, hstays t ht⟩)

/-- However the handlers are interleaved, a client that joins a room and stays is shown every
message of the room: in the history, unless this is full of messages that are not older, if
it was broadcast before the membership, and live if it was broadcast afterwards. -/
theorem history_gapless
    (hrun : Run (chat maxLength).step ⟨ChatState.empty, []⟩
      (pre ++ join :: (mid ++ emit :: post)) s)
    (hconnected : join.before.state.connected client = true)
    (hjoin : asks join = some (i, .join client room))
    (hemit : asks emit = some (i, .emitHistory client' history))
    (hstays : ∀ t ∈ mid ++ emit :: post, ¬LeavesRoom client room t) :
    (client' = client ∧
      emit.after.state.received client = emit.before.state.received client ++ [.history history]) ∧
    Gapless pre (mid ++ emit :: post) client room history ∧
    ∀ t ∈ pre ++ join :: (mid ++ emit :: post), ∀ i payload,
      asks t = some (i, .broadcast room payload) → Covers history payload ∨
        t.after.state.received client = t.before.state.received client ++ [.message payload] := by
  obtain ⟨rfl, v, hv, plan, hhistory⟩ := queried_of_emit hrun hjoin hemit
  obtain ⟨hpre, hjoined, hlive⟩ := hrun.at_append_cons
  have hmember : join.after.state.rooms client' room = true :=
    (rooms_step hjoined).mpr (.inl (.inl ⟨hconnected, i, hjoin⟩))
  have hlater {before after : List ChatMove} {t : ChatMove}
      (heq : mid ++ emit :: post = before ++ t :: after) :
      t.before.state.rooms client' room = true ∧
        (chat maxLength).step t.before t.act = some t.after := by
    rw [heq] at hlive hstays
    obtain ⟨hbefore, hstep, -⟩ := hlive.at_append_cons
    exact ⟨member_of_stays hbefore hmember fun u hu ↦ hstays u (by simp [hu]), hstep⟩
  have hgapless : Gapless pre (mid ++ emit :: post) client' room history := by
    rw [hhistory]
    constructor
    · exact chronological_selectMessages _ plan room 50
    · exact distinct_selectMessages _ plan room 50
    · intro m hm
      exact (mem_selectMessages _ plan room (List.mem_reverse.mp hm)).2
    · intro t ht i payload hasks
      obtain ⟨before, after, rfl⟩ := List.append_of_mem ht
      obtain ⟨hbefore, hstep, hafter⟩ := hpre.at_append_cons
      obtain ⟨m, hm, rfl, hroom⟩ := saved_of_broadcast hbefore hstep hasks
      -- The row is in the table from the broadcast to the membership and to the query.
      have hmembership := kept_of_run hafter (kept_of_step hstep hm)
      obtain ⟨mid₁, mid₂, rfl⟩ := List.append_of_mem hv
      rw [List.append_assoc, List.cons_append] at hlive
      have hquery := kept_of_run hlive.at_append_cons.1 (kept_of_step hjoined hmembership)
      exact covers_selectMessages _ plan room hquery hroom
    · intro t ht i payload hasks
      obtain ⟨before, after, heq⟩ := List.append_of_mem ht
      obtain ⟨hroom, hstep⟩ := hlater heq
      rw [received_of_broadcast hstep hasks, if_pos hroom]
  refine ⟨⟨rfl, ?_⟩, hgapless, ?_⟩
  · obtain ⟨hroom, hstep⟩ := hlater rfl
    have hreached := hrun.invariant_before (fun s ↦ Attached s.state)
      ⟨by simp [ChatState.empty], by simp [ChatState.empty]⟩ (fun _ _ h ↦ attached_step h)
      (t := emit) (by simp)
    obtain ⟨f, u, next, x, -, -, hcall⟩ := called_of_asks hstep hemit
    obtain ⟨hstate, -⟩ := ChatState.effect_of_exec hcall.exec
    rw [hstate]
    simp [ChatState.emit, hreached.rooms client' room hroom]
  · intro t ht i payload hasks
    rcases List.mem_append.mp ht with ht | ht
    · exact .inl (hgapless.past t ht i payload hasks)
    · rcases List.mem_cons.mp ht with rfl | ht
      · cases hjoin.symm.trans hasks
      · exact .inr (hgapless.live t ht i payload hasks)

end Gap

/-! ## A late membership -/

def leavesAny (t : ChatMove) : Bool :=
  match t.act with
  | .env (.disconnect _) => true
  | _ =>
      match asks t with
      | some (_, .leave _ _) => true
      | _ => false

theorem not_leavesRoom {t : ChatMove} (h : leavesAny t = false) : ¬LeavesRoom client room t := by
  rintro (⟨i, hleave⟩ | hdisconnect)
  · unfold leavesAny at h
    split at h
    · cases h
    · simp [hleave] at h
  · simp [leavesAny, hdisconnect] at h

def helloMessage (client : Socket) (room id : String) : Message :=
  ⟨id, "hello", client.user.sub, client.user.email, room, 0⟩

/-- Bob has sent one message and begins to send a second one when alice joins. -/
def lateActs : List ChatStep :=
  meetActs "general" ++ sendActs 1 bobSocket "general" "m1" ++ [.call 1 .ok] ++
    [.env (.packet (.joinRoom ⟨"general"⟩ aliceSocket)),
      .env (.packet (.sendMessage ⟨"general", "hello"⟩ bobSocket)), .call 3 .ok]

/-- The second message is saved and broadcast between alice's query and the emission. -/
theorem history_gapless_late : ∃ (pre mid : List ChatMove) (join emit : ChatMove) (s : Chat),
    Run (chat countChars).step ⟨ChatState.empty, []⟩ (pre ++ join :: (mid ++ emit :: [])) s ∧
      s.state.received aliceSocket.id = [.message (helloPayload bobSocket "general" "m2"),
        .history [helloMessage bobSocket "general" "m1"]] ∧
      Gapless pre (mid ++ emit :: []) aliceSocket.id "general"
        [helloMessage bobSocket "general" "m1"] := by
  obtain ⟨ts, s, hrun, hacts, hobs⟩ := Run.exists_of_follow (chat countChars).step
    ⟨ChatState.empty, []⟩
    (lateActs ++ .call 2 .ok ::
      ([.call 2 (.sorted .stable), .call 3 (.saved "m2" 0), .call 3 .ok] ++ .call 2 .ok :: []))
    (fun p ↦ decide ((∀ t ∈ p.1, leavesAny t = false) ∧
      (∀ t ∈ p.1, t.before.state.connected aliceSocket.id = true ∨
        joinerOf t ≠ some aliceSocket.id) ∧
      (p.1.map asks)[lateActs.length]? = some (some (2, .join aliceSocket.id "general")) ∧
      p.1.getLast?.map asks = some (some (2, .emitHistory aliceSocket.id
        [helloMessage bobSocket "general" "m1"])) ∧
      p.2.state.received aliceSocket.id = [.message (helloPayload bobSocket "general" "m2"),
        .history [helloMessage bobSocket "general" "m1"]])) true (by decide +kernel)
  obtain ⟨hleaves, hconnected, hjoin, hemit, hreceived⟩ := of_decide_eq_true hobs
  obtain ⟨pre, rest, rfl, hpre, hrest⟩ := List.map_eq_append_iff.mp hacts
  obtain ⟨join, rest, rfl, -, hrest⟩ := List.map_eq_cons_iff.mp hrest
  obtain ⟨mid, last, rfl, -, hlast⟩ := List.map_eq_append_iff.mp hrest
  obtain ⟨emit, last, rfl, -, hlast⟩ := List.map_eq_cons_iff.mp hlast
  obtain rfl := List.map_eq_nil_iff.mp hlast
  have hlength : pre.length = lateActs.length := by rw [← hpre, List.length_map]
  have hjoined : asks join = some (2, .join aliceSocket.id "general") := by
    simpa [← hlength] using hjoin
  have hemitted : asks emit = some (2, .emitHistory aliceSocket.id
      [helloMessage bobSocket "general" "m1"]) := by
    have hlist : pre ++ join :: (mid ++ [emit]) = (pre ++ join :: mid) ++ [emit] := by simp
    rw [hlist, List.getLast?_concat] at hemit
    exact Option.some.inj hemit
  have halive : join.before.state.connected aliceSocket.id = true := by
    rcases hconnected join (by simp) with h | h
    · exact h
    · simp [joinerOf, hjoined] at h
  obtain ⟨-, hgapless, -⟩ := history_gapless hrun halive hjoined hemitted
    fun t ht ↦ not_leavesRoom (hleaves t (List.mem_append_right _ (List.mem_cons_of_mem _ ht)))
  exact ⟨pre, mid, join, emit, s, hrun, hreceived, hgapless⟩

end VideoGen
