import VideoGen.Chat

/-!
# Who is in a chat room

A socket is in a room because it has joined it and not left it since, or,
in the room named by its own id, because it has connected.  The gateway looks
at the rooms of the transport alone: a message that is addressed to the id of
a socket is accepted from that socket, and reaches it, without `join_room`.
-/

namespace VideoGen

/-! ## Histories -/

abbrev ChatMove := Transition Chat ChatStep

def asks (t : ChatMove) : Option (ℕ × ChatCall) :=
  match t.act with
  | .call i _ => (t.before.threads[i]?.bind Thread.pending?).map fun c ↦ (i, c)
  | _ => none

def JoinsRoom (client room : String) (t : ChatMove) : Prop :=
  t.before.state.connected client = true ∧ ∃ i, asks t = some (i, .join client room)

def LeavesRoom (client room : String) (t : ChatMove) : Prop :=
  (∃ i, asks t = some (i, .leave client room)) ∨ t.act = .env (.disconnect client)

def Connects (client : String) (t : ChatMove) : Prop :=
  ∃ user, t.act = .env (.connect ⟨client, user⟩)

/-- The client has joined the room with `join_room` and not left it since. -/
def JoinedSince (client room : String) (ts : List ChatMove) : Prop :=
  Since (JoinsRoom client room) (LeavesRoom client room) ts

/-- The client is in the room named by its own id only because it has connected. -/
def OnlyOwn (client : String) (ts : List ChatMove) : Prop :=
  Since (Connects client) (fun t ↦ JoinsRoom client client t ∨ LeavesRoom client client t) ts

variable {maxLength : ℕ → String → Bool} {s s' : Chat} {a : ChatStep} {ts : List ChatMove}
  {i : ℕ} {client room k r : String} {payload : MessagePayload}

theorem asks_of_call {f : ChatFate} {t : ChatThread} {c : ChatCall}
    (hget : s.threads[i]? = some t) (hpending : t.pending? = some c) :
    asks ⟨s, .call i f, s'⟩ = some (i, c) := by
  simp [asks, hget, hpending]

theorem called_of_asks {t : ChatMove} {c : ChatCall}
    (hstep : (chat maxLength).step t.before t.act = some t.after) (h : asks t = some (i, c)) :
    ∃ f u next x, t.act = .call i f ∧ u.prog = .call c next ∧
      Machine.Called (chat maxLength) t.before t.after i f u (u.resume c next x) c x := by
  obtain ⟨s, a, s'⟩ := t
  cases a with
  | call j f =>
      obtain ⟨u, c', next, x, hprog, hcall⟩ := Machine.called_of_step hstep
      rw [asks_of_call hcall.get hcall.pending] at h
      obtain ⟨rfl, rfl⟩ := Prod.mk.inj (Option.some.inj h)
      exact ⟨f, u, next, x, rfl, hprog, hcall⟩
  | _ => cases h

/-! ## The rooms -/

theorem rooms_setRoom (s : ChatState) (member : Bool) :
    (s.setRoom client room member).rooms k r = true ↔
      (k = client ∧ r = room ∧ member = true) ∨
        s.rooms k r = true ∧ ¬(k = client ∧ r = room) := by
  unfold ChatState.setRoom
  by_cases h : k = client ∧ r = room
  · simp [h]
  · simp only [if_neg h]
    tauto

theorem rooms_join (s : ChatState) : (s.join client room).rooms k r = true ↔
    (s.connected client = true ∧ k = client ∧ r = room) ∨ s.rooms k r = true := by
  unfold ChatState.join
  split
  · rw [rooms_setRoom]
    tauto
  · tauto

theorem rooms_exec {w w' : ChatState} {c : ChatCall} {x : Except ChatError c.Reply}
    (h : w.Effect w' c x) : w'.rooms k r = true ↔
      (w.connected k = true ∧ c = .join k r) ∨ w.rooms k r = true ∧ c ≠ .leave k r := by
  have hsame (hrooms : w'.rooms = w.rooms) (hjoin : c ≠ .join k r) (hleave : c ≠ .leave k r) :
      w'.rooms k r = true ↔
        (w.connected k = true ∧ c = .join k r) ∨ w.rooms k r = true ∧ c ≠ .leave k r := by
    rw [hrooms]
    tauto
  cases c with
  | join client room =>
      obtain ⟨rfl, -⟩ := h
      rw [rooms_join, ChatCall.join.injEq]
      constructor
      · rintro (⟨hconnected, rfl, rfl⟩ | hold)
        · exact .inl ⟨hconnected, rfl, rfl⟩
        · exact .inr ⟨hold, by simp⟩
      · rintro (⟨hconnected, rfl, rfl⟩ | ⟨hold, -⟩)
        · exact .inl ⟨hconnected, rfl, rfl⟩
        · exact .inr hold
  | leave client room =>
      obtain ⟨rfl, -⟩ := h
      rw [rooms_setRoom]
      have hroom : (ChatCall.leave client room ≠ .leave k r) ↔ ¬(k = client ∧ r = room) := by
        rw [ne_eq, ChatCall.leave.injEq, eq_comm, @eq_comm _ r]
      rw [hroom]
      simp
  | hasRoom client room =>
      obtain ⟨rfl, -⟩ := h
      exact hsame rfl (by simp) (by simp)
  | insertMessage senderId senderEmail room content =>
      refine hsame ?_ (by simp) (by simp)
      rcases h with ⟨id, createdAt, error, hinsert, -⟩ | ⟨rfl, -⟩
      · obtain ⟨messages, -, rfl⟩ := Option.map_eq_some_iff.mp hinsert
        rfl
      · rfl
  | selectMessages room limit =>
      obtain ⟨rfl, -⟩ := h
      exact hsame rfl (by simp) (by simp)
  | emitHistory client messages =>
      obtain ⟨rfl, -⟩ := h
      refine hsame ?_ (by simp) (by simp)
      unfold ChatState.emit
      split <;> rfl
  | broadcast room payload =>
      obtain ⟨rfl, -⟩ := h
      exact hsame rfl (by simp) (by simp)

theorem rooms_step {t : ChatMove} (hstep : (chat maxLength).step t.before t.act = some t.after) :
    t.after.state.rooms k r = true ↔
      (JoinsRoom k r t ∨ (r = k ∧ Connects k t)) ∨
        t.before.state.rooms k r = true ∧ ¬LeavesRoom k r t := by
  obtain ⟨s, a, s'⟩ := t
  change (chat maxLength).step s a = some s' at hstep
  have hquiet (hrooms : s'.state.rooms = s.state.rooms) (hasks : asks ⟨s, a, s'⟩ = none)
      (hconnect : ¬Connects k ⟨s, a, s'⟩) (hleave : a ≠ .env (.disconnect k)) :
      s'.state.rooms k r = true ↔
        (JoinsRoom k r ⟨s, a, s'⟩ ∨ (r = k ∧ Connects k ⟨s, a, s'⟩)) ∨
          s.state.rooms k r = true ∧ ¬LeavesRoom k r ⟨s, a, s'⟩ := by
    have hjoins : ¬JoinsRoom k r ⟨s, a, s'⟩ := by
      rintro ⟨-, i, h⟩
      rw [hasks] at h
      cases h
    have hleaves : ¬LeavesRoom k r ⟨s, a, s'⟩ := by
      rintro (⟨i, h⟩ | h)
      · rw [hasks] at h
        cases h
      · exact hleave h
    rw [hrooms]
    tauto
  cases a with
  | invoke task =>
      obtain rfl := Option.some.inj hstep
      exact hquiet rfl rfl (by simp [Connects]) (by simp)
  | crash i =>
      obtain ⟨t, -, rfl⟩ := Machine.step_crash_cases _ hstep
      exact hquiet rfl rfl (by simp [Connects]) (by simp)
  | call i f =>
      obtain ⟨t, c, next, x, hprog, h⟩ := Machine.called_of_step hstep
      have hasks : asks ⟨s, .call i f, s'⟩ = some (i, c) := asks_of_call h.get h.pending
      rw [rooms_exec (ChatState.effect_of_exec h.exec)]
      simp [JoinsRoom, LeavesRoom, Connects, hasks]
  | env event =>
      obtain ⟨w, tasks, hnext, rfl⟩ := Machine.step_env_cases _ hstep
      rcases ChatState.next_cases hnext with ⟨socket, rfl, -, rfl, rfl⟩ | ⟨task, rfl, rfl, rfl⟩ |
        ⟨client, rfl, -, rfl, rfl⟩
      · rw [rooms_join]
        simp only [JoinsRoom, LeavesRoom, Connects, asks]
        constructor
        · rintro (⟨-, rfl, rfl⟩ | hold)
          · exact .inl (.inr ⟨rfl, socket.user, rfl⟩)
          · exact .inr ⟨hold, by simp⟩
        · rintro ((⟨-, i, h⟩ | ⟨rfl, user, h⟩) | ⟨hold, -⟩)
          · cases h
          · obtain rfl := ChatEvent.connect.inj (Act.env.inj h)
            exact .inl ⟨by simp [ChatState.opened], rfl, rfl⟩
          · exact .inr hold
      · exact hquiet rfl rfl (by simp [Connects]) (by simp)
      · by_cases hk : k = client
        · subst hk
          simp [JoinsRoom, LeavesRoom, Connects, asks, ChatState.closed]
        · have hk' : client ≠ k := fun h ↦ hk h.symm
          simp [JoinsRoom, LeavesRoom, Connects, asks, ChatState.closed, hk, hk']

/-- A client is in a room because it has joined it, or in its own because it has connected. -/
theorem rooms_iff (hrun : Run (chat maxLength).step ⟨ChatState.empty, []⟩ ts s) :
    s.state.rooms k r = true ↔ JoinedSince k r ts ∨ (r = k ∧ OnlyOwn k ts) := by
  have hsince := hrun.since_iff (P := fun t ↦ JoinsRoom k r t ∨ (r = k ∧ Connects k t))
    (Q := LeavesRoom k r) (fun s ↦ s.state.rooms k r = true) (by simp [ChatState.empty])
    fun t ht hstep ↦ rooms_step hstep
  rw [hsince, since_or]
  by_cases hr : r = k
  · subst hr
    simp [JoinedSince, OnlyOwn]
  · have hnever : ¬Since (fun t ↦ r = k ∧ Connects k t)
        (fun t ↦ JoinsRoom k r t ∨ LeavesRoom k r t) ts := by
      rintro ⟨pre, t, post, -, ⟨h, -⟩, -⟩
      exact hr h
    constructor
    · rintro (hjoined | hown)
      · exact .inl hjoined
      · exact absurd hown hnever
    · rintro (hjoined | ⟨h, -⟩)
      · exact .inl hjoined
      · exact absurd h hr

/-- Only connected sockets are in rooms, and sockets are connected once. -/
structure Attached (s : ChatState) : Prop where
  rooms : ∀ k r, s.rooms k r = true → s.connected k = true
  sockets : ∀ k, s.connected k = true → k ∈ s.sockets.map Socket.id

theorem attached_effect {w w' : ChatState} {c : ChatCall} {x : Except ChatError c.Reply}
    (h : w.Effect w' c x) (hw : Attached w) : Attached w' := by
  have hkeeps : w'.connected = w.connected ∧ w'.sockets = w.sockets := by
    cases c with
    | join client room =>
        obtain ⟨rfl, -⟩ := h
        unfold ChatState.join
        split <;> exact ⟨rfl, rfl⟩
    | leave client room =>
        obtain ⟨rfl, -⟩ := h
        exact ⟨rfl, rfl⟩
    | hasRoom client room =>
        obtain ⟨rfl, -⟩ := h
        exact ⟨rfl, rfl⟩
    | insertMessage senderId senderEmail room content =>
        rcases h with ⟨id, createdAt, error, hinsert, -⟩ | ⟨rfl, -⟩
        · obtain ⟨messages, -, rfl⟩ := Option.map_eq_some_iff.mp hinsert
          exact ⟨rfl, rfl⟩
        · exact ⟨rfl, rfl⟩
    | selectMessages room limit =>
        obtain ⟨rfl, -⟩ := h
        exact ⟨rfl, rfl⟩
    | emitHistory client messages =>
        obtain ⟨rfl, -⟩ := h
        unfold ChatState.emit
        split <;> exact ⟨rfl, rfl⟩
    | broadcast room payload =>
        obtain ⟨rfl, -⟩ := h
        exact ⟨rfl, rfl⟩
  obtain ⟨hconnected, hsockets⟩ := hkeeps
  constructor
  · intro k r hroom
    rw [hconnected]
    rcases (rooms_exec h).mp hroom with ⟨hjoin, -⟩ | ⟨hold, -⟩
    · exact hjoin
    · exact hw.rooms k r hold
  · rw [hconnected, hsockets]
    exact hw.sockets

theorem attached_step (hstep : (chat maxLength).step s a = some s') (hs : Attached s.state) :
    Attached s'.state := by
  cases a with
  | invoke task =>
      obtain rfl := Option.some.inj hstep
      exact hs
  | crash i =>
      obtain ⟨t, -, rfl⟩ := Machine.step_crash_cases _ hstep
      exact hs
  | call i f =>
      obtain ⟨t, c, next, x, -, h⟩ := Machine.called_of_step hstep
      exact attached_effect (ChatState.effect_of_exec h.exec) hs
  | env event =>
      obtain ⟨w, tasks, hnext, rfl⟩ := Machine.step_env_cases _ hstep
      rcases ChatState.next_cases hnext with ⟨socket, rfl, -, rfl, rfl⟩ | ⟨task, rfl, rfl, rfl⟩ |
        ⟨client, rfl, -, rfl, rfl⟩
      · have hopened : Attached (s.state.opened socket) := by
          constructor
          · intro k r hroom
            simp only [ChatState.opened]
            split
            · rfl
            · exact hs.rooms k r hroom
          · intro k hk
            simp only [ChatState.opened] at hk ⊢
            by_cases hsocket : k = socket.id
            · simp [hsocket]
            · rw [if_neg hsocket] at hk
              simpa using .inl (List.mem_map.mp (hs.sockets k hk))
        exact attached_effect (c := .join socket.id socket.id) ⟨rfl, rfl⟩ hopened
      · exact hs
      · constructor
        · intro k r hroom
          simp only [ChatState.closed] at hroom ⊢
          by_cases hk : k = client
          · simp [hk] at hroom
          · rw [if_neg hk] at hroom ⊢
            exact hs.rooms k r hroom
        · intro k hk
          simp only [ChatState.closed] at hk ⊢
          by_cases hclient : k = client
          · simp [hclient] at hk
          · rw [if_neg hclient] at hk
            exact hs.sockets k hk

theorem attached_of_run (hrun : Run (chat maxLength).step ⟨ChatState.empty, []⟩ ts s) :
    Attached s.state :=
  hrun.invariant (fun s ↦ Attached s.state)
    ⟨by simp [ChatState.empty], by simp [ChatState.empty]⟩ fun _ _ hstep ↦ attached_step hstep

theorem not_onlyOwn_of_joinedSince
    (hrun : Run (chat maxLength).step ⟨ChatState.empty, []⟩ ts s)
    (hjoined : JoinedSince k k ts) : ¬OnlyOwn k ts := by
  induction hrun with
  | nil => exact absurd hjoined since_nil
  | @snoc ts s s' a head last ih =>
      intro hown
      unfold JoinedSince at hjoined
      unfold OnlyOwn at hown
      rw [since_snoc] at hjoined hown
      rcases hjoined with hjoin | ⟨hjoined, hstays⟩
      · rcases hown with ⟨user, hconnect⟩ | ⟨-, hnot⟩
        · obtain ⟨-, i, hasks⟩ := hjoin
          change a = _ at hconnect
          subst hconnect
          cases hasks
        · exact hnot (.inl hjoin)
      · rcases hown with ⟨user, hconnect⟩ | ⟨hown, -⟩
        · change a = _ at hconnect
          subst hconnect
          have hroom : s.state.rooms k k = true := (rooms_iff head).mpr (.inl hjoined)
          have hattached := attached_of_run head
          have hold := hattached.sockets k (hattached.rooms k k hroom)
          obtain ⟨w, tasks, hnext, -⟩ := Machine.step_env_cases _ last
          have hconnect : s.state.next (.connect ⟨k, user⟩) = some (w, tasks) := hnext
          rcases ChatState.next_cases hconnect with ⟨socket, heq, hnew, -⟩ | ⟨task, heq, -⟩ |
            ⟨client, heq, -⟩
          · obtain rfl := ChatEvent.connect.inj heq
            exact hnew hold
          · cases heq
          · cases heq
        · exact ih hjoined hown

/-! ## Messages -/

def clientOf (s : Chat) (i : ℕ) : Option Socket := s.threads[i]?.map fun t ↦ t.task.client

def Broadcasts (t : ChatMove) (i : ℕ) (client : Socket) (room : String)
    (payload : MessagePayload) : Prop :=
  clientOf t.before i = some client ∧ asks t = some (i, .broadcast room payload)

/-- The gateway has asked, after the history `earlier`, if the client is in the room. -/
def CheckedAt (ts : List ChatMove) (i : ℕ) (client room : String) (earlier : List ChatMove) :
    Prop :=
  ∃ check later, ts = earlier ++ check :: later ∧ asks check = some (i, .hasRoom client room)

/-- The message comes from a member of the room and goes to its members, as `join_room` has
made them. -/
structure MembersOnly (ts : List ChatMove) (t : ChatMove) (i : ℕ) (client : Socket)
    (room : String) (payload : MessagePayload) : Prop where
  checked : ∃ earlier, CheckedAt ts i client.id room earlier
  sender : ∀ earlier, CheckedAt ts i client.id room earlier → JoinedSince client.id room earlier
  members : ∀ k, JoinedSince k room ts →
    t.after.state.received k = t.before.state.received k ++ [.message payload]
  others : ∀ k, ¬JoinedSince k room ts → t.after.state.received k = t.before.state.received k

theorem chat_follows (hrun : Run (chat maxLength).step ⟨ChatState.empty, []⟩ ts s) :
    ∀ t ∈ s.threads, (t.task.body maxLength).Follows t.log t.prog :=
  hrun.invariant (fun s ↦ ∀ t ∈ s.threads, (t.task.body maxLength).Follows t.log t.prog)
    (by simp) fun _ _ hstep hs ↦ Machine.step_follows hstep hs

theorem follows_handler {task : ChatTask} {log : List (Exchange chatInterface)} {c : ChatCall}
    {next} (h : (task.body maxLength).Follows log (.call c next)) :
    (match task with
      | .joinRoom dto client => ChatGateway.handleJoinRoom dto client
      | .leaveRoom dto client => ChatGateway.handleLeaveRoom dto client
      | .sendMessage dto client => ChatGateway.handleSendMessage dto client).Follows log
        (.call c next) := by
  have hvalid {b : Bool} {p : ChatProg WsResponse}
      (h : (if b = true then p else reject .badRequest).Follows log (.call c next)) :
      p.Follows log (.call c next) := by
    cases b with
    | true => exact h
    | false => exact absurd h Program.not_follows_done
  cases task with
  | _ => exact hvalid h

/-- Where the handler of a packet can wait: for which call, and after which exchanges. -/
def ChatTask.Waits : ChatTask → List (Exchange chatInterface) → ChatCall → Prop
  | .joinRoom dto client, log, c =>
      (log = [] ∧ c = .join client.id dto.room) ∨
      (log = [⟨.join client.id dto.room, .ok ()⟩] ∧ c = .selectMessages dto.room 50) ∨
      ∃ messages, log = [⟨.join client.id dto.room, .ok ()⟩,
          ⟨.selectMessages dto.room 50, .ok messages⟩] ∧
        c = .emitHistory client.id messages.reverse
  | .leaveRoom dto client, log, c => log = [] ∧ c = .leave client.id dto.room
  | .sendMessage dto client, log, c =>
      (log = [] ∧ c = .hasRoom client.id dto.room) ∨
      (log = [⟨.hasRoom client.id dto.room, .ok true⟩] ∧
        c = .insertMessage client.user.sub client.user.email dto.room dto.content) ∨
      ∃ message, log = [⟨.hasRoom client.id dto.room, .ok true⟩,
          ⟨.insertMessage client.user.sub client.user.email dto.room dto.content,
            .ok message⟩] ∧
        c = .broadcast dto.room message.payload

theorem waits_of_follows {task : ChatTask} {log : List (Exchange chatInterface)} {c : ChatCall}
    {next} (h : (task.body maxLength).Follows log (.call c next)) : task.Waits log c := by
  have hbody := follows_handler h
  clear h
  cases task with
  | joinRoom dto client =>
      rcases hbody.of_perform_bind with ⟨hlog, hc⟩ | ⟨y, rest, rfl, hjoined⟩
      · exact .inl ⟨hlog, hc.symm⟩
      rcases hjoined.of_perform_bind with ⟨rfl, hc⟩ | ⟨messages, rest', rfl, hread⟩
      · exact .inr (.inl ⟨rfl, hc.symm⟩)
      rcases hread.of_perform_bind with ⟨rfl, hc⟩ | ⟨y', rest, rfl, hdone⟩
      · exact .inr (.inr ⟨messages, rfl, hc.symm⟩)
      · exact absurd hdone Program.not_follows_done
  | leaveRoom dto client =>
      rcases hbody.of_perform_bind with ⟨hlog, hc⟩ | ⟨y, rest, -, hdone⟩
      · exact ⟨hlog, hc.symm⟩
      · exact absurd hdone Program.not_follows_done
  | sendMessage dto client =>
      rcases hbody.of_perform_bind with ⟨hlog, hc⟩ | ⟨member, rest, rfl, hchecked⟩
      · exact .inl ⟨hlog, hc.symm⟩
      cases member with
      | false => exact absurd hchecked Program.not_follows_done
      | true =>
          have hsave : (ChatService.saveMessage client.user.sub client.user.email dto.room
              dto.content >>= fun message : Message ↦
                perform (.broadcast dto.room message.payload) >>= fun _ ↦
                  pure (.messageSent message.id)).Follows rest (.call c next) := hchecked
          rcases hsave.of_perform_bind with ⟨rfl, hc⟩ | ⟨message, rest', rfl, hsaved⟩
          · exact .inr (.inl ⟨rfl, hc.symm⟩)
          rcases hsaved.of_perform_bind with ⟨rfl, hc⟩ | ⟨y, rest, -, hdone⟩
          · exact .inr (.inr ⟨message, rfl, hc.symm⟩)
          · exact absurd hdone Program.not_follows_done

theorem waits_of_run (hrun : Run (chat maxLength).step ⟨ChatState.empty, []⟩ ts s)
    {u : ChatThread} {c : ChatCall} (hget : s.threads[i]? = some u)
    (hpending : u.pending? = some c) : u.task.Waits u.log c := by
  have hfollows := chat_follows hrun u (List.mem_of_getElem? hget)
  obtain ⟨next, hprog⟩ := Thread.pending?_eq_some_iff.mp hpending
  rw [hprog] at hfollows
  exact waits_of_follows hfollows

section Broadcast

variable {t : ChatMove} {sender : Socket}

theorem received_of_broadcast (hstep : (chat maxLength).step t.before t.act = some t.after)
    (hasks : asks t = some (i, .broadcast room payload)) (k : String) :
    t.after.state.received k =
      if t.before.state.rooms k room = true then t.before.state.received k ++ [.message payload]
      else t.before.state.received k := by
  obtain ⟨f, u, next, x, -, -, hcall⟩ := called_of_asks hstep hasks
  obtain ⟨hstate, -⟩ := ChatState.effect_of_exec hcall.exec
  rw [hstate]
  rfl

theorem log_of_broadcast (hrun : Run (chat maxLength).step ⟨ChatState.empty, []⟩ ts t.before)
    (hstep : (chat maxLength).step t.before t.act = some t.after)
    (h : Broadcasts t i sender room payload) : ∃ u message, t.before.threads[i]? = some u ∧
      payload = message.payload ∧
      (∃ content, u.log = [⟨.hasRoom sender.id room, .ok true⟩,
        ⟨.insertMessage sender.user.sub sender.user.email room content, .ok message⟩]) := by
  obtain ⟨f, u, next, x, -, -, hcall⟩ := called_of_asks hstep h.2
  have hwaits := waits_of_run hrun hcall.get hcall.pending
  have hclient : clientOf t.before i = some u.task.client := by simp [clientOf, hcall.get]
  obtain rfl := Option.some.inj (hclient.symm.trans h.1)
  cases htask : u.task with
  | joinRoom dto client =>
      rw [htask] at hwaits
      rcases hwaits with ⟨-, hc⟩ | ⟨-, hc⟩ | ⟨messages, -, hc⟩ <;> cases hc
  | leaveRoom dto client =>
      rw [htask] at hwaits
      obtain ⟨-, hc⟩ := hwaits
      cases hc
  | sendMessage dto client =>
      rw [htask] at hwaits
      rcases hwaits with ⟨-, hc⟩ | ⟨-, hc⟩ | ⟨message, hlog, hc⟩
      · cases hc
      · cases hc
      · obtain ⟨rfl, rfl⟩ := ChatCall.broadcast.inj hc
        exact ⟨u, message, hcall.get, rfl, dto.content, hlog⟩

theorem checked_of_broadcast
    (hrun : Run (chat maxLength).step ⟨ChatState.empty, []⟩ ts t.before)
    (hstep : (chat maxLength).step t.before t.act = some t.after)
    (h : Broadcasts t i sender room payload) :
    ∃ earlier, CheckedAt ts i sender.id room earlier := by
  obtain ⟨u, message, hget, -, content, hlog⟩ := log_of_broadcast hrun hstep h
  have hmem : (⟨.hasRoom sender.id room, .ok true⟩ : Exchange chatInterface) ∈ u.log := by
    simp [hlog]
  obtain ⟨v, hv, f, u₀, hact, hget₀, hpending, -⟩ :=
    (Machine.mem_log_iff hrun rfl hget _).mp hmem
  obtain ⟨earlier, later, rfl⟩ := List.append_of_mem hv
  refine ⟨earlier, v, later, rfl, ?_⟩
  obtain ⟨s₁, a, s₂⟩ := v
  change a = _ at hact
  subst hact
  exact asks_of_call hget₀ hpending

theorem joined_or_own_of_checkedAt
    (hrun : Run (chat maxLength).step ⟨ChatState.empty, []⟩ ts t.before)
    (hstep : (chat maxLength).step t.before t.act = some t.after)
    (h : Broadcasts t i sender room payload) {earlier : List ChatMove}
    (hcheck : CheckedAt ts i sender.id room earlier) :
    JoinedSince sender.id room earlier ∨ (room = sender.id ∧ OnlyOwn sender.id earlier) := by
  obtain ⟨u, message, hget, -, content, hlog⟩ := log_of_broadcast hrun hstep h
  obtain ⟨check, later, rfl, hasks⟩ := hcheck
  obtain ⟨hbefore, hchecked, -⟩ := hrun.at_append_cons
  rw [← rooms_iff hbefore]
  obtain ⟨f, u₀, next, x, hact, -, hcall⟩ := called_of_asks hchecked hasks
  have hmem : (⟨.hasRoom sender.id room, x⟩ : Exchange chatInterface) ∈ u.log :=
    (Machine.mem_log_iff hrun rfl hget _).mpr
      ⟨check, by simp, f, u₀, hact, hcall.get, hcall.pending, hcall.exec⟩
  obtain ⟨-, rfl⟩ := ChatState.effect_of_exec hcall.exec
  simpa [hlog] using hmem

end Broadcast

/-- Every accepted message comes from a member and goes to the members exactly if none is
addressed to a socket that is in its own room only because it has connected: not to the
sender itself when it is checked, and not to any socket when it is broadcast. -/
theorem membersOnly_iff (hrun : Run (chat maxLength).step ⟨ChatState.empty, []⟩ ts s) :
    (∀ pre t post i client room payload, ts = pre ++ t :: post →
      Broadcasts t i client room payload → MembersOnly pre t i client room payload) ↔
    ∀ pre t post i client room payload, ts = pre ++ t :: post →
      Broadcasts t i client room payload → ¬OnlyOwn room pre ∧
        ∀ earlier, CheckedAt pre i client.id room earlier →
          ¬(room = client.id ∧ OnlyOwn client.id earlier) := by
  constructor
  · rintro hmembers pre t post i client room payload rfl h
    have hall := hmembers pre t post i client room payload rfl h
    obtain ⟨hbefore, hstep, -⟩ := hrun.at_append_cons
    constructor
    · intro hown
      have hroom : t.before.state.rooms room room = true :=
        (rooms_iff hbefore).mpr (.inr ⟨rfl, hown⟩)
      have hnot : ¬JoinedSince room room pre := fun hjoined ↦
        not_onlyOwn_of_joinedSince hbefore hjoined hown
      have hreceived := received_of_broadcast hstep h.2 room
      rw [if_pos hroom, hall.others room hnot] at hreceived
      simp at hreceived
    · rintro earlier hcheck ⟨rfl, hown⟩
      have hjoined := hall.sender earlier hcheck
      obtain ⟨check, later, rfl, -⟩ := hcheck
      exact not_onlyOwn_of_joinedSince hbefore.at_append_cons.1 hjoined hown
  · rintro hnot pre t post i client room payload rfl h
    obtain ⟨hown, hcheck⟩ := hnot pre t post i client room payload rfl h
    obtain ⟨hbefore, hstep, -⟩ := hrun.at_append_cons
    have hreceived := received_of_broadcast hstep h.2
    constructor
    · exact checked_of_broadcast hbefore hstep h
    · intro earlier hearlier
      rcases joined_or_own_of_checkedAt hbefore hstep h hearlier with hjoined | hself
      · exact hjoined
      · exact absurd hself (hcheck earlier hearlier)
    · intro k hjoined
      have hroom : t.before.state.rooms k room = true := (rooms_iff hbefore).mpr (.inl hjoined)
      rw [hreceived, if_pos hroom]
    · intro k hjoined
      have hroom : ¬t.before.state.rooms k room = true := by
        intro hroom
        rcases (rooms_iff hbefore).mp hroom with h' | ⟨rfl, h'⟩
        · exact hjoined h'
        · exact hown h'
      rw [hreceived, if_neg hroom]

/-! ## Two clients -/

def aliceSocket : Socket := ⟨"a", "user-a", "alice@example.com", .user⟩

def bobSocket : Socket := ⟨"b", "user-b", "bob@example.com", .user⟩

/-- Lengths in code points. -/
def countChars (n : ℕ) (text : String) : Bool := text.length ≤ n

def helloPayload (client : Socket) (room id : String) : MessagePayload :=
  ⟨id, room, "hello", client.user.sub, client.user.email, 0⟩

def sendActs (i : ℕ) (client : Socket) (room id : String) : List ChatStep :=
  [.env (.packet (.sendMessage ⟨room, "hello"⟩ client)), .call i .ok, .call i (.saved id 0)]

def joinActs (i : ℕ) (client : Socket) (room : String) : List ChatStep :=
  [.env (.packet (.joinRoom ⟨room⟩ client)), .call i .ok, .call i (.sorted .stable), .call i .ok]

def meetActs (room : String) : List ChatStep :=
  [.env (.connect aliceSocket), .env (.connect bobSocket)] ++ joinActs 0 bobSocket room

def broadcastOf (t : ChatMove) : Option (ℕ × String × MessagePayload) :=
  match asks t with
  | some (i, .broadcast room payload) => some (i, room, payload)
  | _ => none

def joinerOf (t : ChatMove) : Option String :=
  match asks t with
  | some (_, .join client _) => some client
  | _ => none

def connectsTo (t : ChatMove) : Option String :=
  match t.act with
  | .env (.connect socket) => some socket.id
  | _ => none

theorem broadcastOf_eq {t : ChatMove} (h : asks t = some (i, .broadcast room payload)) :
    broadcastOf t = some (i, room, payload) := by
  simp [broadcastOf, h]

theorem not_onlyOwn_of_unconnected (h : ∀ t ∈ ts, connectsTo t ≠ some k) : ¬OnlyOwn k ts := by
  rintro ⟨pre, t, post, rfl, ⟨user, hconnect⟩, -⟩
  exact h t (by simp) (by simp [connectsTo, hconnect])

theorem not_joinedSince_of_no_joiner (h : ∀ t ∈ ts, joinerOf t ≠ some k) :
    ¬JoinedSince k r ts := by
  rintro ⟨pre, t, post, rfl, ⟨-, i, hjoin⟩, -⟩
  exact h t (by simp) (by simp [joinerOf, hjoin])

/-- The room is nobody's id: bob's message goes to the members, that is to bob. -/
theorem membersOnly_general : ∃ (pre : List ChatMove) (t : ChatMove),
    Run (chat countChars).step ⟨ChatState.empty, []⟩ (pre ++ [t]) t.after ∧
      Broadcasts t 1 bobSocket "general" (helloPayload bobSocket "general" "m1") ∧
      MembersOnly pre t 1 bobSocket "general" (helloPayload bobSocket "general" "m1") := by
  obtain ⟨ts, s, hrun, hacts, hobs⟩ := Run.exists_of_follow (chat countChars).step
    ⟨ChatState.empty, []⟩
    (meetActs "general" ++ sendActs 1 bobSocket "general" "m1" ++ [.call 1 .ok])
    (fun p ↦ decide ((∀ t ∈ p.1, connectsTo t ≠ some "general") ∧
      (∀ t ∈ p.1, ∀ b ∈ broadcastOf t, b.2.1 = "general") ∧
      p.1.getLast?.map asks =
        some (some (1, .broadcast "general" (helloPayload bobSocket "general" "m1"))) ∧
      p.1.getLast?.map (fun t ↦ clientOf t.before 1) = some (some bobSocket))) true
      (by decide +kernel)
  obtain ⟨hconnects, hrooms, hlast, hclient⟩ := of_decide_eq_true hobs
  rcases List.eq_nil_or_concat ts with rfl | ⟨pre, t, rfl⟩
  · simp at hlast
  rw [List.concat_eq_append] at *
  have hbroadcast : Broadcasts t 1 bobSocket "general" (helloPayload bobSocket "general" "m1") :=
    ⟨by simpa using hclient, by simpa using hlast⟩
  obtain ⟨hpre, hstep, -⟩ := hrun.at_append_cons
  refine ⟨pre, t, hpre.snoc t.act hstep, hbroadcast, ?_⟩
  refine (membersOnly_iff hrun).mpr ?_ pre t [] 1 bobSocket "general" _ rfl hbroadcast
  intro pre' t' post' i client room payload heq h
  obtain rfl : room = "general" := hrooms t' (by simp [heq]) _ (broadcastOf_eq h.2)
  have hnone (earlier : List ChatMove) (hsub : ∀ u ∈ earlier, u ∈ pre ++ [t]) :
      ¬OnlyOwn "general" earlier :=
    not_onlyOwn_of_unconnected fun u hu ↦ hconnects u (hsub u hu)
  refine ⟨hnone pre' fun u hu ↦ by simp [heq, hu], ?_⟩
  rintro earlier ⟨check, later, rfl, -⟩ ⟨hid, hown⟩
  rw [← hid] at hown
  exact hnone earlier (fun u hu ↦ by simp [heq, hu]) hown

/-- The room is alice's id: bob's message reaches alice, and alice can send to it, although
alice joins no room. -/
theorem own_room_open : ∃ (ts : List ChatMove) (s : Chat),
    Run (chat countChars).step ⟨ChatState.empty, []⟩ ts s ∧
      (∀ t ∈ ts, joinerOf t ≠ some aliceSocket.id) ∧
      s.state.received aliceSocket.id =
        [.message (helloPayload bobSocket aliceSocket.id "m1"),
          .message (helloPayload aliceSocket aliceSocket.id "m2")] ∧
      ¬∀ pre t post i client room payload, ts = pre ++ t :: post →
        Broadcasts t i client room payload → MembersOnly pre t i client room payload := by
  obtain ⟨ts, s, hrun, hacts, hobs⟩ := Run.exists_of_follow (chat countChars).step
    ⟨ChatState.empty, []⟩
    (meetActs aliceSocket.id ++ sendActs 1 bobSocket aliceSocket.id "m1" ++ [.call 1 .ok] ++
      sendActs 2 aliceSocket aliceSocket.id "m2" ++ [.call 2 .ok])
    (fun p ↦ decide ((∀ t ∈ p.1, joinerOf t ≠ some aliceSocket.id) ∧
      p.2.state.received aliceSocket.id =
        [.message (helloPayload bobSocket aliceSocket.id "m1"),
          .message (helloPayload aliceSocket aliceSocket.id "m2")] ∧
      p.1.getLast?.map asks =
        some (some
          (2, .broadcast aliceSocket.id (helloPayload aliceSocket aliceSocket.id "m2"))) ∧
      p.1.getLast?.map (fun t ↦ clientOf t.before 2) = some (some aliceSocket))) true
      (by decide +kernel)
  obtain ⟨hjoins, hreceived, hlast, hclient⟩ := of_decide_eq_true hobs
  refine ⟨ts, s, hrun, hjoins, hreceived, fun hall ↦ ?_⟩
  rcases List.eq_nil_or_concat ts with rfl | ⟨pre, t, rfl⟩
  · simp at hlast
  rw [List.concat_eq_append] at *
  have hmembers := hall pre t [] 2 aliceSocket aliceSocket.id _ rfl
    ⟨by simpa using hclient, by simpa using hlast⟩
  obtain ⟨earlier, hcheck⟩ := hmembers.checked
  refine not_joinedSince_of_no_joiner ?_ (hmembers.sender earlier hcheck)
  obtain ⟨check, later, rfl, -⟩ := hcheck
  intro u hu
  exact hjoins u (by simp [hu])

end VideoGen
