import VideoGen.VideoGateway

/-!
# Who hears of a video

The namespace of the status gateway has no middleware: a socket is admitted
without a token, and `subscribe` puts it into the room of any video.  Whom a
socket belongs to is therefore no part of the system; it is a parameter here.
-/

namespace VideoGen

abbrev ClusterMove := Transition Cluster ClusterStep

def Cluster.start : Cluster where
  system := ⟨World.empty, []⟩
  rooms _ _ := false
  received _ := []

def emittedBy (t : ClusterMove) : Option (ℕ × DomainEvent) :=
  match t.act with
  | .system a => emission t.before.system a
  | _ => none

def OwnedBy (s : State) (videoId userId : String) : Prop :=
  ∃ video, s.state.videos.find? videoId = some video ∧ video.userId = userId

/-- The socket has subscribed to the video and not left its room since. -/
def SubscribedSince (socket : ℕ) (videoId : String) (ts : List ClusterMove) : Prop :=
  Since (fun t ↦ t.act = .subscribe socket videoId) (fun t ↦ t.act.Leaves socket videoId) ts

section Privacy

variable (identity : ℕ → Option String)

/-- What a step sends to a socket is the message of an event about a video that the user of the
socket owns. -/
def OwnersOnly (t : ClusterMove) : Prop :=
  ∀ socket, t.after.received socket ≠ t.before.received socket →
    ∃ i event userId, emittedBy t = some (i, event) ∧
      t.after.received socket = t.before.received socket ++ [event.payload] ∧
      identity socket = some userId ∧ OwnedBy t.before.system event.videoId userId

end Privacy

section Moves

variable {config : StorageConfig} {kind : ℕ → AppKind} {place home : ℕ → ℕ} {c c' : Cluster}
  {socket : ℕ} {videoId : String} {ts : List ClusterMove} {t : ClusterMove}

theorem member_step (hstep : t.before.step config kind place home t.act = some t.after) :
    t.after.rooms socket (roomName videoId) = true ↔ t.act = .subscribe socket videoId ∨
      t.before.rooms socket (roomName videoId) = true ∧ ¬t.act.Leaves socket videoId := by
  obtain ⟨c, a, c'⟩ := t
  change c.step config kind place home a = some c' at hstep
  cases a with
  | system a =>
      obtain ⟨s, -, rfl⟩ := Option.map_eq_some_iff.mp hstep
      simp [ClusterStep.Leaves]
  | subscribe k v =>
      simp only [Cluster.step, Option.ite_none_right_eq_some] at hstep
      obtain ⟨-, hc⟩ := hstep
      obtain rfl := Option.some.inj hc
      have hroom : (socket = k ∧ roomName videoId = roomName v) ↔ k = socket ∧ v = videoId := by
        rw [roomName_inj, eq_comm, @eq_comm _ videoId]
      simp only [Cluster.join, hroom, ClusterStep.Leaves, ClusterStep.subscribe.injEq]
      split <;> simp_all
  | unsubscribe k v =>
      obtain rfl := Option.some.inj hstep
      have hroom : (socket = k ∧ roomName videoId = roomName v) ↔ k = socket ∧ v = videoId := by
        rw [roomName_inj, eq_comm, @eq_comm _ videoId]
      simp only [Cluster.join, hroom, ClusterStep.Leaves]
      split <;> simp_all
  | disconnect k =>
      obtain rfl := Option.some.inj hstep
      simp only [ClusterStep.Leaves]
      by_cases hk : socket = k
      · simp [hk]
      · have hk' : k ≠ socket := fun h ↦ hk h.symm
        simp [hk, hk']

/-- A socket is in the room of a video because it has subscribed and not left since. -/
theorem member_iff (hrun : Run (Cluster.step config kind place home) Cluster.start ts c) :
    c.rooms socket (roomName videoId) = true ↔ SubscribedSince socket videoId ts :=
  hrun.since_iff (fun c ↦ c.rooms socket (roomName videoId) = true) (by simp [Cluster.start])
    fun _ _ hstep ↦ member_step hstep

theorem received_step (hstep : t.before.step config kind place home t.act = some t.after) :
    t.after.received = match emittedBy t with
      | some (i, event) => t.before.forward kind home (place i) event
      | none => t.before.received := by
  obtain ⟨c, a, c'⟩ := t
  change c.step config kind place home a = some c' at hstep
  cases a with
  | system a =>
      obtain ⟨s, -, rfl⟩ := Option.map_eq_some_iff.mp hstep
      rfl
  | subscribe k v =>
      simp only [Cluster.step, Option.ite_none_right_eq_some] at hstep
      obtain ⟨-, hc⟩ := hstep
      obtain rfl := Option.some.inj hc
      rfl
  | unsubscribe k v =>
      obtain rfl := Option.some.inj hstep
      rfl
  | disconnect k =>
      obtain rfl := Option.some.inj hstep
      rfl

theorem forward_ne_iff {process : ℕ} {event : DomainEvent} :
    c.forward kind home process event socket ≠ c.received socket ↔
      (kind process).HasGateway ∧ home socket = process ∧
        c.rooms socket (roomName event.videoId) = true := by
  unfold Cluster.forward
  split
  · rename_i h
    simp [h]
  · rename_i h
    simp [h]

/-- Only owners are sent messages, and a socket without an identity is sent nothing, exactly
if at every emission in a process with a gateway all subscribers of its server have the
identity of the owner. -/
theorem ownersOnly_iff (identity : ℕ → Option String)
    (hrun : Run (Cluster.step config kind place home) Cluster.start ts c) :
    ((∀ t ∈ ts, OwnersOnly identity t) ∧
      ∀ socket, identity socket = none → c.received socket = []) ↔
    ∀ pre t post i event, ts = pre ++ t :: post → emittedBy t = some (i, event) →
      (kind (place i)).HasGateway → ∀ socket, home socket = place i →
        SubscribedSince socket event.videoId pre →
        ∃ userId, identity socket = some userId ∧
          OwnedBy t.before.system event.videoId userId := by
  constructor
  · rintro ⟨hall, -⟩ pre t post i event rfl hemitted hgateway socket hhome hsince
    obtain ⟨hpre, hstep, -⟩ := hrun.at_append_cons
    have hreceived := received_step hstep
    rw [hemitted] at hreceived
    have hmember := (member_iff hpre).mpr hsince
    have hsent : t.after.received socket ≠ t.before.received socket := by
      rw [hreceived]
      exact forward_ne_iff.mpr ⟨hgateway, hhome, hmember⟩
    obtain ⟨j, event', userId, hemitted', -, hidentity, howned⟩ := hall t (by simp) socket hsent
    obtain ⟨-, rfl⟩ := Prod.mk.inj (Option.some.inj (hemitted.symm.trans hemitted'))
    exact ⟨userId, hidentity, howned⟩
  · intro hsubscribers
    have hall : ∀ t ∈ ts, OwnersOnly identity t := by
      intro t ht socket hsent
      obtain ⟨pre, post, rfl⟩ := List.append_of_mem ht
      obtain ⟨hpre, hstep, -⟩ := hrun.at_append_cons
      have hreceived := received_step hstep
      cases hemitted : emittedBy t with
      | none =>
          rw [hemitted] at hreceived
          exact absurd (congrFun hreceived socket) hsent
      | some e =>
          obtain ⟨i, event⟩ := e
          rw [hemitted] at hreceived
          rw [hreceived] at hsent
          obtain ⟨hgateway, hhome, hmember⟩ := forward_ne_iff.mp hsent
          obtain ⟨userId, hidentity, howned⟩ := hsubscribers pre t post i event rfl hemitted
            hgateway socket hhome ((member_iff hpre).mp hmember)
          refine ⟨i, event, userId, rfl, ?_, hidentity, howned⟩
          rw [hreceived]
          exact if_pos ⟨hgateway, hhome, hmember⟩
    refine ⟨hall, fun socket hnone ↦ ?_⟩
    apply hrun.invariant (fun c ↦ c.received socket = []) rfl
    intro t ht _ hbefore
    by_contra hafter
    have hsent : t.after.received socket ≠ t.before.received socket := by
      rw [hbefore]
      exact hafter
    obtain ⟨i, event, userId, -, -, hidentity, -⟩ := hall t ht socket hsent
    rw [hnone] at hidentity
    cases hidentity

end Moves

/-! ## Three sockets -/

/-- The owner of the video, a socket without a token, and the socket of another user. -/
def threeSockets : ℕ → Option String
  | 0 => some "user"
  | 1 => none
  | _ => some "intruder"

def watchActs (socket : ℕ) : List ClusterStep :=
  .subscribe socket "video" :: (createActs 0 "video").map .system

/-- Only the owner has subscribed. -/
theorem ownersOnly_owner : ∃ (ts : List ClusterMove) (c : Cluster),
    Run (Cluster.step ⟨"bucket", none, "region"⟩ oneApi (fun _ ↦ 0) fun _ ↦ 0) Cluster.start
        ts c ∧
      c.received 0 = [.created "video" "1"] ∧
      (∀ t ∈ ts, OwnersOnly threeSockets t) ∧
        ∀ socket, threeSockets socket = none → c.received socket = [] := by
  obtain ⟨ts, c, hrun, hacts, hobs⟩ := Run.exists_of_follow
    (Cluster.step ⟨"bucket", none, "region"⟩ oneApi (fun _ ↦ 0) fun _ ↦ 0) Cluster.start
    (watchActs 0) (fun p ↦ decide (p.2.received 0 = [.created "video" "1"] ∧
      ∀ t ∈ p.1, ∀ e ∈ emittedBy t,
        (t.before.system.state.videos.find? e.2.videoId).map Video.userId = some "user"))
    true (by decide +kernel)
  obtain ⟨hreceived, howned⟩ := of_decide_eq_true hobs
  refine ⟨ts, c, hrun, hreceived, (ownersOnly_iff threeSockets hrun).mpr ?_⟩
  intro pre t post i event heq hemitted _ socket _ hsince
  have hsubscribed : ClusterStep.subscribe socket event.videoId ∈ watchActs 0 := by
    obtain ⟨before, u, after, rfl, hu, -⟩ := hsince
    rw [← hacts, heq, ← hu]
    simp
  obtain rfl : socket = 0 := by
    rcases List.mem_cons.mp hsubscribed with h | h
    · exact (ClusterStep.subscribe.inj h).1
    · simp at h
  obtain ⟨video, hvideo, huser⟩ := Option.map_eq_some_iff.mp
    (howned t (by simp [heq]) (i, event) hemitted)
  exact ⟨"user", rfl, video, hvideo, huser⟩

/-- Anybody who knows the id of a video subscribes and hears of it. -/
theorem strangers_hear : ∃ (ts : List ClusterMove) (c : Cluster),
    Run (Cluster.step ⟨"bucket", none, "region"⟩ oneApi (fun _ ↦ 0) fun _ ↦ 0) Cluster.start
        ts c ∧
      c.system.state.videos.rows.map (fun video ↦ (video.id, video.userId)) =
        [("video", "user")] ∧
      threeSockets 1 = none ∧ c.received 1 = [.created "video" "1"] ∧
      threeSockets 2 = some "intruder" ∧ c.received 2 = [.created "video" "1"] ∧
      ¬((∀ t ∈ ts, OwnersOnly threeSockets t) ∧
        ∀ socket, threeSockets socket = none → c.received socket = []) := by
  obtain ⟨ts, c, hrun, -, hobs⟩ := Run.exists_of_follow
    (Cluster.step ⟨"bucket", none, "region"⟩ oneApi (fun _ ↦ 0) fun _ ↦ 0) Cluster.start
    (.subscribe 2 "video" :: watchActs 1)
    (fun p ↦ decide (p.2.system.state.videos.rows.map (fun video ↦ (video.id, video.userId)) =
      [("video", "user")] ∧ p.2.received 1 = [.created "video" "1"] ∧
      p.2.received 2 = [.created "video" "1"])) true (by decide +kernel)
  obtain ⟨hrows, hanonymous, hintruder⟩ := of_decide_eq_true hobs
  refine ⟨ts, c, hrun, hrows, rfl, hanonymous, rfl, hintruder, ?_⟩
  rintro ⟨-, hsilent⟩
  have hnothing := hsilent 1 rfl
  rw [hanonymous] at hnothing
  cases hnothing

end VideoGen
