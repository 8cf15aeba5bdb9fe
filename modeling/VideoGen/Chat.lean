import Mathlib.Data.Nat.Basic
import VideoGen.Accounts
import VideoGen.Lib.Paging
import VideoGen.Lib.Pool

/-!
# The chat

The chat gateway and its service.  A handler starts when a packet of a
connected client arrives and is interleaved with the others between its calls:
the room set of the socket and the broadcast are synchronous calls of the
transport, saving and reading messages are queries.  Every socket is from the
start in the room named by its own id.
-/

namespace VideoGen

/-! ## Data -/

structure Message where
  id : String
  content : String
  senderId : String
  senderEmail : String
  room : String
  createdAt : ℕ
  deriving DecidableEq, Repr

def Message.key (message : Message) : String := message.id

structure MessagePayload where
  id : String
  room : String
  content : String
  senderId : String
  senderEmail : String
  createdAt : ℕ
  deriving DecidableEq, Repr

structure JoinRoomDto where
  room : String

structure SendMessageDto where
  room : String
  content : String

section Dto

-- What `MaxLength` of the validation library accepts.
variable (maxLength : ℕ → String → Bool)

def JoinRoomDto.Valid (dto : JoinRoomDto) : Bool := dto.room != "" && maxLength 100 dto.room

def SendMessageDto.Valid (dto : SendMessageDto) : Bool :=
  (dto.room != "" && maxLength 100 dto.room) &&
    (dto.content != "" && maxLength 1000 dto.content)

end Dto

/-- A socket with the identity that the middleware has attached to it. -/
structure Socket where
  id : String
  user : JwtPayload
  deriving DecidableEq

inductive Frame where
  | message (payload : MessagePayload)
  | history (messages : List Message)
  deriving DecidableEq, Repr

/-! ## Calls -/

inductive ChatCall where
  | join (client room : String)
  | leave (client room : String)
  | hasRoom (client room : String)
  | insertMessage (senderId senderEmail room content : String)
  | selectMessages (room : String) (limit : ℕ)
  | emitHistory (client : String) (messages : List Message)
  | broadcast (room : String) (payload : MessagePayload)
  deriving DecidableEq

namespace ChatCall

abbrev Reply : ChatCall → Type
  | .join _ _ => Unit
  | .leave _ _ => Unit
  | .hasRoom _ _ => Bool
  | .insertMessage _ _ _ _ => Message
  | .selectMessages _ _ => List Message
  | .emitHistory _ _ => Unit
  | .broadcast _ _ => Unit

end ChatCall

inductive ChatError where
  | badRequest
  | ws (message : String)
  | database (message : String)
  deriving DecidableEq, Repr

abbrev chatInterface : Interface where
  Call := ChatCall
  Reply := ChatCall.Reply
  Error := ChatError

abbrev ChatProg (α : Type) := Program chatInterface α

def perform (c : ChatCall) : ChatProg c.Reply := Program.perform (I := chatInterface) c

def reject {α : Type} (e : ChatError) : ChatProg α := Program.throw (I := chatInterface) e

/-! ## The service -/

namespace ChatService

def saveMessage (senderId senderEmail room content : String) : ChatProg Message :=
  perform (.insertMessage senderId senderEmail room content)

def getRoomHistory (room : String) (limit : ℕ) : ChatProg (List Message) :=
  perform (.selectMessages room limit)

end ChatService

/-! ## The gateway -/

/-- `{ event, data }`, which the framework sends back to the client. -/
inductive WsResponse where
  | joined (room : String)
  | left (room : String)
  | messageSent (id : String)
  deriving DecidableEq, Repr

def Message.payload (message : Message) : MessagePayload where
  id := message.id
  room := message.room
  content := message.content
  senderId := message.senderId
  senderEmail := message.senderEmail
  createdAt := message.createdAt

namespace ChatGateway

def handleJoinRoom (dto : JoinRoomDto) (client : Socket) : ChatProg WsResponse := do
  let _ ← perform (.join client.id dto.room)
  let history : List Message ← ChatService.getRoomHistory dto.room 50
  let _ ← perform (.emitHistory client.id history.reverse)
  pure (.joined dto.room)

def handleLeaveRoom (dto : JoinRoomDto) (client : Socket) : ChatProg WsResponse := do
  let _ ← perform (.leave client.id dto.room)
  pure (.left dto.room)

def handleSendMessage (dto : SendMessageDto) (client : Socket) : ChatProg WsResponse := do
  let user := client.user
  let member : Bool ← perform (.hasRoom client.id dto.room)
  if member then do
    let message : Message ← ChatService.saveMessage user.sub user.email dto.room dto.content
    let _ ← perform (.broadcast dto.room message.payload)
    pure (.messageSent message.id)
  else reject (.ws "You must join the room before sending messages")

end ChatGateway

/-! ## The server -/

/-- The sockets that have connected so far, which of them are connected, the rooms of the
transport, the `messages` table and what each client has been sent. -/
structure ChatState where
  sockets : List Socket
  connected : String → Bool
  rooms : String → String → Bool
  messages : Table Message.key
  received : String → List Frame

/-- How a call is settled: a new row gets its id and its date from the database, a query
sorts rows with equal dates as it likes, and a query can fail. -/
inductive ChatFate where
  | ok
  | saved (id : String) (createdAt : ℕ)
  | sorted (plan : QueryPlan Message ℕ)
  | rejected (message : String)
  | lost (id : String) (createdAt : ℕ) (message : String)

namespace ChatState

def empty : ChatState where
  sockets := []
  connected _ := false
  rooms _ _ := false
  messages := Table.empty
  received _ := []

def setRoom (s : ChatState) (client room : String) (member : Bool) : ChatState :=
  { s with rooms := fun k r ↦ if k = client ∧ r = room then member else s.rooms k r }

/-- A socket that is disconnected joins no room. -/
def join (s : ChatState) (client room : String) : ChatState :=
  if s.connected client = true then s.setRoom client room true else s

def emit (s : ChatState) (client : String) (frame : Frame) : ChatState :=
  if s.connected client = true then
    { s with received := fun k ↦ if k = client then s.received k ++ [frame] else s.received k }
  else s

def broadcast (s : ChatState) (room : String) (frame : Frame) : ChatState :=
  { s with received := fun k ↦
      if s.rooms k room = true then s.received k ++ [frame] else s.received k }

def insertMessage (s : ChatState) (message : Message) : Option ChatState :=
  (s.messages.insert? message).map fun messages ↦ { s with messages := messages }

/-- `SELECT ... WHERE room = :room ORDER BY "createdAt" DESC LIMIT :limit` -/
def selectMessages (s : ChatState) (plan : QueryPlan Message ℕ) (room : String) (limit : ℕ) :
    List Message :=
  (plan.sort Message.createdAt (s.messages.rows.filter fun message ↦ message.room = room)).take
    limit

def exec (s : ChatState) : (c : ChatCall) → ChatFate → Option (ChatState × Except ChatError c.Reply)
  | .join client room, .ok => some (s.join client room, .ok ())
  | .leave client room, .ok => some (s.setRoom client room false, .ok ())
  | .hasRoom client room, .ok => some (s, .ok (s.rooms client room))
  | .insertMessage senderId senderEmail room content, .saved id createdAt =>
      let message : Message :=
        { id := id, content := content, senderId := senderId, senderEmail := senderEmail
          room := room, createdAt := createdAt }
      (s.insertMessage message).map fun s' ↦ (s', .ok message)
  | .insertMessage senderId senderEmail room content, .lost id createdAt error =>
      let message : Message :=
        { id := id, content := content, senderId := senderId, senderEmail := senderEmail
          room := room, createdAt := createdAt }
      (s.insertMessage message).map fun s' ↦ (s', .error (.database error))
  | .insertMessage _ _ _ _, .rejected error => some (s, .error (.database error))
  | .selectMessages room limit, .sorted plan =>
      some (s, .ok (s.selectMessages plan room limit))
  | .selectMessages _ _, .rejected error => some (s, .error (.database error))
  | .emitHistory client messages, .ok => some (s.emit client (.history messages), .ok ())
  | .broadcast room payload, .ok => some (s.broadcast room (.message payload), .ok ())
  | _, _ => none

def Effect (s s' : ChatState) : (c : ChatCall) → Except ChatError c.Reply → Prop
  | .join client room, x => s' = s.join client room ∧ x = .ok ()
  | .leave client room, x => s' = s.setRoom client room false ∧ x = .ok ()
  | .hasRoom client room, x => s' = s ∧ x = .ok (s.rooms client room)
  | .insertMessage senderId senderEmail room content, x =>
      (∃ id createdAt error, let message : Message := ⟨id, content, senderId, senderEmail, room,
        createdAt⟩
        s.insertMessage message = some s' ∧ (x = .ok message ∨ x = .error error)) ∨
      (s' = s ∧ ∃ error, x = .error error)
  | .selectMessages room limit, x =>
      s' = s ∧ ((∃ plan, x = .ok (s.selectMessages plan room limit)) ∨ ∃ error, x = .error error)
  | .emitHistory client messages, x => s' = s.emit client (.history messages) ∧ x = .ok ()
  | .broadcast room payload, x => s' = s.broadcast room (.message payload) ∧ x = .ok ()

theorem effect_of_exec {s s' : ChatState} {c : ChatCall} {f : ChatFate}
    {x : Except ChatError c.Reply} (h : s.exec c f = some (s', x)) : s.Effect s' c x := by
  cases c with
  | insertMessage senderId senderEmail room content =>
      cases f with
      | saved id createdAt =>
          obtain ⟨s₁, hinsert, heq⟩ := Option.map_eq_some_iff.mp h
          obtain ⟨rfl, rfl⟩ := Prod.mk.inj heq
          exact .inl ⟨id, createdAt, .badRequest, hinsert, .inl rfl⟩
      | lost id createdAt error =>
          obtain ⟨s₁, hinsert, heq⟩ := Option.map_eq_some_iff.mp h
          obtain ⟨rfl, rfl⟩ := Prod.mk.inj heq
          exact .inl ⟨id, createdAt, .database error, hinsert, .inr rfl⟩
      | rejected error =>
          obtain ⟨rfl, rfl⟩ := Prod.mk.inj (Option.some.inj h)
          exact .inr ⟨rfl, _, rfl⟩
      | _ => cases h
  | selectMessages room limit =>
      cases f with
      | sorted plan =>
          obtain ⟨rfl, rfl⟩ := Prod.mk.inj (Option.some.inj h)
          exact ⟨rfl, .inl ⟨plan, rfl⟩⟩
      | rejected error =>
          obtain ⟨rfl, rfl⟩ := Prod.mk.inj (Option.some.inj h)
          exact ⟨rfl, .inr ⟨_, rfl⟩⟩
      | _ => cases h
  | _ =>
      -- The calls of the transport are synchronous and do not fail.
      cases f with
      | ok =>
          obtain ⟨rfl, rfl⟩ := Prod.mk.inj (Option.some.inj h)
          exact ⟨rfl, rfl⟩
      | _ => cases h

def opened (s : ChatState) (client : Socket) : ChatState :=
  { s with
    sockets := s.sockets ++ [client]
    connected := fun k ↦ if k = client.id then true else s.connected k }

def closed (s : ChatState) (client : String) : ChatState :=
  { s with
    connected := fun k ↦ if k = client then false else s.connected k
    rooms := fun k r ↦ if k = client then false else s.rooms k r }

/-- The socket is new; it joins the room named by its id. -/
def connect (s : ChatState) (client : Socket) : Option ChatState :=
  if client.id ∈ s.sockets.map Socket.id then none
  else some ((s.opened client).join client.id client.id)

def disconnect (s : ChatState) (client : String) : Option ChatState :=
  if s.connected client = true then some (s.closed client) else none

end ChatState

inductive ChatTask where
  | joinRoom (dto : JoinRoomDto) (client : Socket)
  | leaveRoom (dto : JoinRoomDto) (client : Socket)
  | sendMessage (dto : SendMessageDto) (client : Socket)

def ChatTask.client : ChatTask → Socket
  | .joinRoom _ client => client
  | .leaveRoom _ client => client
  | .sendMessage _ client => client

/-- `connect`: the middleware has verified the token of the handshake. -/
inductive ChatEvent where
  | connect (client : Socket)
  | packet (task : ChatTask)
  | disconnect (client : String)

section Server

variable (maxLength : ℕ → String → Bool)

def ChatTask.body : ChatTask → ChatProg WsResponse
  | .joinRoom dto client =>
      if dto.Valid maxLength then ChatGateway.handleJoinRoom dto client
      else reject .badRequest
  | .leaveRoom dto client =>
      if dto.Valid maxLength then ChatGateway.handleLeaveRoom dto client
      else reject .badRequest
  | .sendMessage dto client =>
      if dto.Valid maxLength then ChatGateway.handleSendMessage dto client
      else reject .badRequest

def ChatState.next (s : ChatState) : ChatEvent → Option (ChatState × List ChatTask)
  | .connect client => (s.connect client).map fun s' ↦ (s', [])
  | .packet task =>
      if task.client ∈ s.sockets ∧ s.connected task.client.id = true then some (s, [task])
      else none
  | .disconnect client => (s.disconnect client).map fun s' ↦ (s', [])

theorem ChatState.next_cases {s s' : ChatState} {event : ChatEvent} {tasks : List ChatTask}
    (h : s.next event = some (s', tasks)) :
    (∃ client, event = .connect client ∧ client.id ∉ s.sockets.map Socket.id ∧
      s' = (s.opened client).join client.id client.id ∧ tasks = []) ∨
    (∃ task, event = .packet task ∧ s' = s ∧ tasks = [task]) ∨
    ∃ client, event = .disconnect client ∧ s.connected client = true ∧ s' = s.closed client ∧
      tasks = [] := by
  cases event with
  | connect client =>
      obtain ⟨w, hw, heq⟩ := Option.map_eq_some_iff.mp h
      obtain ⟨hnew, hw⟩ := Option.ite_none_left_eq_some.mp hw
      obtain ⟨rfl, rfl⟩ := Prod.mk.inj heq
      exact .inl ⟨client, rfl, hnew, (Option.some.inj hw).symm, rfl⟩
  | packet task =>
      obtain ⟨-, hw⟩ := Option.ite_none_right_eq_some.mp h
      obtain ⟨rfl, rfl⟩ := Prod.mk.inj (Option.some.inj hw)
      exact .inr (.inl ⟨task, rfl, rfl, rfl⟩)
  | disconnect client =>
      obtain ⟨w, hw, heq⟩ := Option.map_eq_some_iff.mp h
      obtain ⟨hconnected, hw⟩ := Option.ite_none_right_eq_some.mp hw
      obtain ⟨rfl, rfl⟩ := Prod.mk.inj heq
      exact .inr (.inr ⟨client, rfl, hconnected, (Option.some.inj hw).symm, rfl⟩)

abbrev ChatThread := Thread chatInterface ChatTask WsResponse

abbrev Chat := Config chatInterface ChatTask WsResponse ChatState

abbrev ChatStep := Act ChatTask ChatFate ChatEvent

def chat : Machine chatInterface ChatTask WsResponse ChatState ChatFate ChatEvent where
  body := ChatTask.body maxLength
  exec := ChatState.exec
  forks _ := []
  env s _ event := s.next event

end Server

end VideoGen
