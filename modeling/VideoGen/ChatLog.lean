import VideoGen.ChatHistory

/-!
# One log of the chat

Handlers of all clients interleave, but every message that is broadcast was saved
by its own handler under a new id.  So the broadcasts of a run form one log without
repetition, and what a client is shown live is a part of that log, in its order.
-/

namespace VideoGen

variable {maxLength : ℕ → String → Bool} {s s' : Chat} {a : ChatStep} {ts : List ChatMove}
  {i j : ℕ} {client room : String} {p q : MessagePayload} {u : ChatThread}

def broadcasts (ts : List ChatMove) : List MessagePayload :=
  ts.filterMap fun t ↦ (broadcastOf t).map fun b ↦ b.2.2

def Frame.live? : Frame → Option MessagePayload
  | .message payload => some payload
  | .history _ => none

def live (frames : List Frame) : List MessagePayload := frames.filterMap Frame.live?

/-- The handler has saved the message and is about to broadcast it. -/
def Posting (u : ChatThread) (p : MessagePayload) : Prop :=
  ∃ room, u.pending? = some (.broadcast room p)

def ChatTask.Authors (maxLength : ℕ → String → Bool) : ChatTask → MessagePayload → Prop
  | .sendMessage dto client, p => dto.Valid maxLength = true ∧ p.room = dto.room ∧
      p.content = dto.content ∧ p.senderId = client.user.sub ∧ p.senderEmail = client.user.email
  | _, _ => False

theorem broadcasts_snoc (ts : List ChatMove) (t : ChatMove) :
    broadcasts (ts ++ [t]) =
      broadcasts ts ++ ((broadcastOf t).map fun b ↦ b.2.2).toList := by
  rw [broadcasts, List.filterMap_append, ← broadcasts]
  cases h : broadcastOf t <;> simp [h]

@[simp] theorem live_append (l l' : List Frame) : live (l ++ l') = live l ++ live l' :=
  List.filterMap_append

/-! ## What a handler posts -/

theorem log_of_posting (hrun : Run (chat maxLength).step ⟨ChatState.empty, []⟩ ts s)
    (hget : s.threads[i]? = some u) (h : Posting u p) :
    ∃ dto client message, u.task = .sendMessage dto client ∧ p = message.payload ∧
      u.log = [⟨.hasRoom client.id dto.room, .ok true⟩,
        ⟨.insertMessage client.user.sub client.user.email dto.room dto.content,
          .ok message⟩] := by
  obtain ⟨room, hpending⟩ := h
  have hwaits := waits_of_run hrun hget hpending
  cases htask : u.task with
  | joinRoom dto client =>
      rw [htask] at hwaits
      rcases hwaits with ⟨-, hc⟩ | ⟨-, hc⟩ | ⟨messages, -, hc⟩ <;> cases hc
  | leaveRoom dto client =>
      rw [htask] at hwaits
      cases hwaits.2
  | sendMessage dto client =>
      rw [htask] at hwaits
      rcases hwaits with ⟨-, hc⟩ | ⟨-, hc⟩ | ⟨message, hlog, hc⟩
      · cases hc
      · cases hc
      · exact ⟨dto, client, message, rfl, (ChatCall.broadcast.inj hc).2, hlog⟩

theorem valid_of_pending (hrun : Run (chat maxLength).step ⟨ChatState.empty, []⟩ ts s)
    (hget : s.threads[i]? = some u) {c : ChatCall} (hpending : u.pending? = some c)
    {dto : SendMessageDto} {client : Socket} (htask : u.task = .sendMessage dto client) :
    dto.Valid maxLength = true := by
  have hfollows := chat_follows hrun u (List.mem_of_getElem? hget)
  obtain ⟨next, hprog⟩ := Thread.pending?_eq_some_iff.mp hpending
  rw [hprog, htask, ChatTask.body] at hfollows
  cases hvalid : dto.Valid maxLength with
  | true => rfl
  | false =>
      rw [hvalid] at hfollows
      exact absurd hfollows Program.not_follows_done

theorem posting_cases (hrun : Run (chat maxLength).step ⟨ChatState.empty, []⟩ ts s)
    (hstep : (chat maxLength).step s a = some s') (hget : s'.threads[j]? = some u)
    (h : Posting u p) :
    (∃ v, s.threads[j]? = some v ∧ Posting v p ∧ v.task = u.task ∧
      ∀ c, asks ⟨s, a, s'⟩ ≠ some (j, c)) ∨
    ∃ message, p = message.payload ∧ s.state.insertMessage message = some s'.state ∧
      u.task.Authors maxLength p ∧ broadcastOf ⟨s, a, s'⟩ = none ∧
      ∃ c, asks ⟨s, a, s'⟩ = some (j, c) := by
  obtain ⟨dto, client, message, htask, hp, hlog⟩ :=
    log_of_posting (hrun.snoc a hstep) hget h
  have hstarted {task : ChatTask} (heq : u = (chat maxLength).start task) : False := by
    rw [heq] at hlog
    cases hlog
  cases a with
  | invoke task =>
      obtain rfl := Option.some.inj hstep
      rcases Machine.get_append_cases hget with hold | ⟨-, hnew⟩
      · exact .inl ⟨u, hold, h, rfl, fun c ↦ nofun⟩
      · exact (hstarted (List.mem_singleton.mp hnew)).elim
  | crash i =>
      obtain ⟨t, ht, rfl⟩ := Machine.step_crash_cases _ hstep
      by_cases hj : i = j
      · subst hj
        rw [List.getElem?_set_self (List.getElem?_eq_some_iff.mp ht).1] at hget
        obtain rfl := Option.some.inj hget
        exact .inl ⟨t, ht, h, rfl, fun c ↦ nofun⟩
      · rw [List.getElem?_set_ne hj] at hget
        exact .inl ⟨u, hget, h, rfl, fun c ↦ nofun⟩
  | env event =>
      obtain ⟨w, tasks, -, rfl⟩ := Machine.step_env_cases _ hstep
      rcases Machine.get_append_cases hget with hold | ⟨-, hnew⟩
      · exact .inl ⟨u, hold, h, rfl, fun c ↦ nofun⟩
      · obtain ⟨task, -, heq⟩ := List.mem_map.mp hnew
        exact (hstarted heq.symm).elim
  | call i f =>
      obtain ⟨t, c, next, x, -, hcall⟩ := Machine.called_of_step hstep
      have hasks : asks ⟨s, .call i f, s'⟩ = some (i, c) := asks_of_call hcall.get hcall.pending
      rcases hcall.get_cases hget with ⟨rfl, rfl⟩ | ⟨hne, hold⟩ | ⟨-, task, -, heq⟩
      · rw [hcall.log_eq] at hlog
        have hlast : (⟨c, x⟩ : Exchange chatInterface) =
            ⟨.insertMessage client.user.sub client.user.email dto.room dto.content,
              .ok message⟩ := by
          have hlast := congrArg List.getLast? hlog
          simpa using hlast
        cases hlast
        rcases ChatState.effect_of_exec hcall.exec with
          ⟨id, createdAt, error, hinsert, hok | herror⟩ | ⟨-, error, herror⟩
        · obtain rfl := Except.ok.inj hok
          refine .inr ⟨_, hp, hinsert, ?_, ?_, _, hasks⟩
          · obtain ⟨room, hpending⟩ := h
            rw [htask, hp]
            exact ⟨valid_of_pending (hrun.snoc _ hstep) hget hpending htask, rfl, rfl, rfl, rfl⟩
          · rw [broadcastOf, hasks]
        · cases herror
        · cases herror
      · refine .inl ⟨u, hold, h, rfl, ?_⟩
        intro c' hc'
        rw [hasks] at hc'
        exact hne (Prod.mk.inj (Option.some.inj hc')).1.symm
      · exact (hstarted heq).elim

/-! ## What a client is shown -/

theorem live_effect {w w' : ChatState} {c : ChatCall} {x : Except ChatError c.Reply}
    (h : w.Effect w' c x) (k : String) : live (w'.received k) = live (w.received k) ∨
      ∃ room p, c = .broadcast room p ∧
        live (w'.received k) = live (w.received k) ++ [p] := by
  cases c with
  | join client room =>
      obtain ⟨rfl, -⟩ := h
      unfold ChatState.join
      split <;> exact .inl rfl
  | leave client room =>
      obtain ⟨rfl, -⟩ := h
      exact .inl rfl
  | hasRoom client room =>
      obtain ⟨rfl, -⟩ := h
      exact .inl rfl
  | insertMessage senderId senderEmail room content =>
      rcases h with ⟨id, createdAt, error, hinsert, -⟩ | ⟨rfl, -⟩
      · obtain ⟨messages, -, rfl⟩ := Option.map_eq_some_iff.mp hinsert
        exact .inl rfl
      · exact .inl rfl
  | selectMessages room limit =>
      obtain ⟨rfl, -⟩ := h
      exact .inl rfl
  | emitHistory client messages =>
      obtain ⟨rfl, -⟩ := h
      apply Or.inl
      unfold ChatState.emit
      by_cases hconnected : w.connected client = true
      · by_cases hk : k = client
        · simp only [if_pos hconnected, if_pos hk, live_append]
          exact List.append_nil _
        · simp only [if_pos hconnected, if_neg hk]
      · rw [if_neg hconnected]
  | broadcast room payload =>
      obtain ⟨rfl, -⟩ := h
      by_cases hroom : w.rooms k room = true
      · refine .inr ⟨room, payload, rfl, ?_⟩
        simp only [ChatState.broadcast, if_pos hroom, live_append]
        rfl
      · apply Or.inl
        simp only [ChatState.broadcast, if_neg hroom]

theorem live_step (hstep : (chat maxLength).step s a = some s') (k : String) :
    live (s'.state.received k) = live (s.state.received k) ∨
      ∃ b, broadcastOf ⟨s, a, s'⟩ = some b ∧
        live (s'.state.received k) = live (s.state.received k) ++ [b.2.2] := by
  cases a with
  | invoke task =>
      obtain rfl := Option.some.inj hstep
      exact .inl rfl
  | crash i =>
      obtain ⟨t, -, rfl⟩ := Machine.step_crash_cases _ hstep
      exact .inl rfl
  | env event =>
      obtain ⟨w, tasks, hnext, rfl⟩ := Machine.step_env_cases _ hstep
      rcases ChatState.next_cases hnext with ⟨socket, rfl, -, rfl, rfl⟩ | ⟨task, rfl, rfl, rfl⟩ |
        ⟨client, rfl, -, rfl, rfl⟩
      · unfold ChatState.join
        split <;> exact .inl rfl
      · exact .inl rfl
      · exact .inl rfl
  | call i f =>
      obtain ⟨t, c, next, x, -, hcall⟩ := Machine.called_of_step hstep
      rcases live_effect (ChatState.effect_of_exec hcall.exec) k with hsame | ⟨room, p, rfl, hnew⟩
      · exact .inl hsame
      · exact .inr ⟨(i, room, p), broadcastOf_eq (asks_of_call hcall.get hcall.pending), hnew⟩

/-! ## The log -/

/-- What the broadcasts so far have in common with the table, with the handlers that are about to
broadcast and with the clients. -/
structure ChatLog (maxLength : ℕ → String → Bool) (ts : List ChatMove) (s : Chat) : Prop where
  distinct : ((broadcasts ts).map MessagePayload.id).Nodup
  stored : ∀ p ∈ broadcasts ts, ∃ message ∈ s.state.messages.rows, message.payload = p
  authored : ∀ p ∈ broadcasts ts, ∃ u ∈ s.threads, u.task.Authors maxLength p
  saved : ∀ (i : ℕ) u p, s.threads[i]? = some u → Posting u p →
    ∃ message ∈ s.state.messages.rows, message.payload = p
  named : ∀ (i : ℕ) u p, s.threads[i]? = some u → Posting u p → u.task.Authors maxLength p
  unsent : ∀ (i : ℕ) u p, s.threads[i]? = some u → Posting u p → ∀ q ∈ broadcasts ts, q.id ≠ p.id
  apart : ∀ (i j : ℕ) u v p q, i ≠ j → s.threads[i]? = some u → s.threads[j]? = some v →
    Posting u p → Posting v q → p.id ≠ q.id
  shown : ∀ client, (live (s.state.received client)).Sublist (broadcasts ts)

theorem chatLog_start : ChatLog maxLength [] ⟨ChatState.empty, []⟩ where
  distinct := List.nodup_nil
  stored _ := nofun
  authored _ := nofun
  saved _ _ _ := nofun
  named _ _ _ := nofun
  unsent _ _ _ := nofun
  apart _ _ _ _ _ _ _ := nofun
  shown _ := List.Sublist.refl _

theorem fresh_of_insertMessage {w w' : ChatState} {message m : Message}
    (h : w.insertMessage message = some w') (hm : m ∈ w.messages.rows) : m.id ≠ message.id := by
  obtain ⟨messages, hinsert, -⟩ := Option.map_eq_some_iff.mp h
  obtain ⟨hkey, -⟩ := Table.insert?_eq_some_iff.mp hinsert
  intro heq
  exact hkey (List.mem_map.mpr ⟨m, hm, heq⟩)

theorem authors_kept (hstep : (chat maxLength).step s a = some s')
    (h : ∃ u ∈ s.threads, u.task.Authors maxLength p) :
    ∃ u ∈ s'.threads, u.task.Authors maxLength p := by
  obtain ⟨u, hu, hauthors⟩ := h
  obtain ⟨i, hget⟩ := List.getElem?_of_mem hu
  obtain ⟨v, hv, (rfl | ⟨-, rfl⟩) | ⟨f, c, next, x, -, -, rfl, -⟩⟩ :=
    Machine.called_or_kept hstep hget
  · exact ⟨v, List.mem_of_getElem? hv, hauthors⟩
  · exact ⟨_, List.mem_of_getElem? hv, hauthors⟩
  · exact ⟨_, List.mem_of_getElem? hv, hauthors⟩

theorem posting_of_broadcast (hstep : (chat maxLength).step s a = some s')
    {b : ℕ × String × MessagePayload} (h : broadcastOf ⟨s, a, s'⟩ = some b) :
    ∃ u, s.threads[b.1]? = some u ∧ Posting u b.2.2 ∧
      asks ⟨s, a, s'⟩ = some (b.1, .broadcast b.2.1 b.2.2) := by
  unfold broadcastOf at h
  split at h
  · rename_i i room payload hasks
    obtain rfl := Option.some.inj h
    obtain ⟨f, u, next, x, -, -, hcall⟩ := called_of_asks hstep hasks
    exact ⟨u, hcall.get, ⟨room, hcall.pending⟩, hasks⟩
  · cases h

theorem ChatLog.new (h : ChatLog maxLength ts s) (hstep : (chat maxLength).step s a = some s')
    (hq : q ∈ ((broadcastOf ⟨s, a, s'⟩).map fun b ↦ b.2.2).toList) :
    (∀ p ∈ broadcasts ts, p.id ≠ q.id) ∧ ∃ i u, s.threads[i]? = some u ∧ Posting u q ∧
      ∃ room, asks ⟨s, a, s'⟩ = some (i, .broadcast room q) := by
  cases hb : broadcastOf ⟨s, a, s'⟩ with
  | none =>
      rw [hb] at hq
      cases hq
  | some b =>
      rw [hb] at hq
      obtain rfl : q = b.2.2 := List.mem_singleton.mp hq
      obtain ⟨u, hget, hposting, hasks⟩ := posting_of_broadcast hstep hb
      exact ⟨h.unsent b.1 u b.2.2 hget hposting, b.1, u, hget, hposting, b.2.1, hasks⟩

theorem ChatLog.step (hrun : Run (chat maxLength).step ⟨ChatState.empty, []⟩ ts s)
    (h : ChatLog maxLength ts s) (hstep : (chat maxLength).step s a = some s') :
    ChatLog maxLength (ts ++ [⟨s, a, s'⟩]) s' := by
  have hsplit {q : MessagePayload} (hq : q ∈ broadcasts (ts ++ [⟨s, a, s'⟩])) :
      q ∈ broadcasts ts ∨ q ∈ ((broadcastOf ⟨s, a, s'⟩).map fun b ↦ b.2.2).toList := by
    rw [broadcasts_snoc] at hq
    exact List.mem_append.mp hq
  have hkept {p : MessagePayload} (hp : ∃ message ∈ s.state.messages.rows, message.payload = p) :
      ∃ message ∈ s'.state.messages.rows, message.payload = p := by
    obtain ⟨message, hm, heq⟩ := hp
    exact ⟨message, kept_of_step hstep hm, heq⟩
  have hold {message : Message} (hinsert : s.state.insertMessage message = some s'.state)
      {p : MessagePayload} (hp : ∃ m ∈ s.state.messages.rows, m.payload = p) :
      p.id ≠ message.id := by
    obtain ⟨m, hm, rfl⟩ := hp
    exact fresh_of_insertMessage hinsert hm
  constructor
  · rw [broadcasts_snoc, List.map_append, List.nodup_append]
    refine ⟨h.distinct, ?_, ?_⟩
    · cases (broadcastOf ⟨s, a, s'⟩).map fun b ↦ b.2.2 with
      | none => exact List.nodup_nil
      | some p => exact List.nodup_singleton _
    · intro x hx y hy
      obtain ⟨p, hp, rfl⟩ := List.mem_map.mp hx
      obtain ⟨q, hq, rfl⟩ := List.mem_map.mp hy
      exact (h.new hstep hq).1 p hp
  · intro p hp
    rcases hsplit hp with hp | hp
    · exact hkept (h.stored p hp)
    · obtain ⟨-, i, u, hget, hposting, -⟩ := h.new hstep hp
      exact hkept (h.saved i u p hget hposting)
  · intro p hp
    apply authors_kept hstep
    rcases hsplit hp with hp | hp
    · exact h.authored p hp
    · obtain ⟨-, i, u, hget, hposting, -⟩ := h.new hstep hp
      exact ⟨u, List.mem_of_getElem? hget, h.named i u p hget hposting⟩
  · intro i u p hget hposting
    rcases posting_cases hrun hstep hget hposting with ⟨v, hv, hbefore, -⟩ |
      ⟨message, rfl, hinsert, -⟩
    · exact hkept (h.saved i v p hv hbefore)
    · refine ⟨message, ?_, rfl⟩
      rw [rows_of_insertMessage hinsert]
      exact List.mem_append_right _ (List.mem_singleton_self _)
  · intro i u p hget hposting
    rcases posting_cases hrun hstep hget hposting with ⟨v, hv, hbefore, htask, -⟩ |
      ⟨message, -, -, hauthors, -⟩
    · exact htask ▸ h.named i v p hv hbefore
    · exact hauthors
  · intro i u p hget hposting q hq
    rcases posting_cases hrun hstep hget hposting with ⟨v, hv, hbefore, -, hother⟩ |
      ⟨message, rfl, hinsert, -, hnone, -⟩
    · rcases hsplit hq with hq | hq
      · exact h.unsent i v p hv hbefore q hq
      · obtain ⟨-, j, w, hw, hposting', room, hasks⟩ := h.new hstep hq
        refine h.apart j i w v q p ?_ hw hv hposting' hbefore
        rintro rfl
        exact hother _ hasks
    · rcases hsplit hq with hq | hq
      · exact hold hinsert (h.stored q hq)
      · rw [hnone] at hq
        cases hq
  · intro i j u v p q hne hu hv hp hq
    rcases posting_cases hrun hstep hu hp with ⟨u₀, hu₀, hp₀, -⟩ |
      ⟨m, rfl, hm, -, -, c, hc⟩
    · rcases posting_cases hrun hstep hv hq with ⟨v₀, hv₀, hq₀, -⟩ | ⟨n, rfl, hn, -⟩
      · exact h.apart i j u₀ v₀ p q hne hu₀ hv₀ hp₀ hq₀
      · exact hold hn (h.saved i u₀ p hu₀ hp₀)
    · rcases posting_cases hrun hstep hv hq with ⟨v₀, hv₀, hq₀, -⟩ |
        ⟨n, -, -, -, -, c', hc'⟩
      · exact (hold hm (h.saved j v₀ q hv₀ hq₀)).symm
      · rw [hc] at hc'
        exact absurd (Prod.mk.inj (Option.some.inj hc')).1 hne
  · intro client
    rw [broadcasts_snoc]
    rcases live_step hstep client with hsame | ⟨b, hb, hnew⟩
    · rw [hsame]
      exact (h.shown client).trans (List.sublist_append_left _ _)
    · rw [hnew, hb]
      exact (h.shown client).append (List.Sublist.refl _)

theorem chatLog_of_run (hrun : Run (chat maxLength).step ⟨ChatState.empty, []⟩ ts s) :
    ChatLog maxLength ts s := by
  induction hrun with
  | nil => exact chatLog_start
  | snoc a head last ih => exact ih.step head last

/-- In every run of the chat, however clients connect, join, send, leave and disconnect and
however queries fail: the broadcasts form one log in which no message id occurs twice; each entry
is a row of the table, with a content that passed validation and the sender that the token of the
sending socket names; and what any client was shown live is a part of the log, in its order.  So
nobody is shown a message twice, and all clients agree on the order. -/
theorem chat_is_one_log (hrun : Run (chat maxLength).step ⟨ChatState.empty, []⟩ ts s) :
    ((broadcasts ts).map MessagePayload.id).Nodup ∧
    (∀ p ∈ broadcasts ts, (∃ message ∈ s.state.messages.rows, message.payload = p) ∧
      ∃ u ∈ s.threads, u.task.Authors maxLength p) ∧
    ∀ client, (live (s.state.received client)).Sublist (broadcasts ts) := by
  have h := chatLog_of_run hrun
  exact ⟨h.distinct, fun p hp ↦ ⟨h.stored p hp, h.authored p hp⟩, h.shown⟩

/-- Two messages are saved in one order and broadcast in the other. -/
theorem chat_is_one_log_crossed : ∃ (ts : List ChatMove) (s : Chat),
    Run (chat countChars).step ⟨ChatState.empty, []⟩ ts s ∧
      live (s.state.received "b") =
        [helloPayload bobSocket "general" "m2", helloPayload bobSocket "general" "m1"] ∧
      ((broadcasts ts).map MessagePayload.id).Nodup ∧
      (live (s.state.received "b")).Sublist (broadcasts ts) := by
  obtain ⟨ts, s, hrun, -, hobs⟩ := Run.exists_of_follow (chat countChars).step
    ⟨ChatState.empty, []⟩
    (meetActs "general" ++ sendActs 1 bobSocket "general" "m1" ++
      sendActs 2 bobSocket "general" "m2" ++ [.call 2 .ok, .call 1 .ok])
    (fun p ↦ live (p.2.state.received "b"))
    [helloPayload bobSocket "general" "m2", helloPayload bobSocket "general" "m1"]
    (by decide +kernel)
  obtain ⟨hdistinct, -, hshown⟩ := chat_is_one_log hrun
  exact ⟨ts, s, hrun, hobs, hdistinct, hshown "b"⟩

end VideoGen
