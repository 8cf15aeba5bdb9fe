import VideoGen.Ownership

/-!
# The status gateway

Every process has its own event emitter, and every process that runs
`AppModule` its own gateway and Socket.IO server.  An event is forwarded by the
gateway of the process that emits it, to the sockets of that server that are
in the room of the video.  `WorkerAppModule` has no gateway, but it consumes
jobs like `AppModule`.
-/

namespace VideoGen

/-! ## Processes -/

inductive FeatureModule where
  | auth
  | users
  | videos
  | ai
  | queue
  | storage
  | health
  | gateway
  | monitoring
  | chat
  deriving DecidableEq, Repr

inductive AppKind where
  | appModule
  | workerAppModule
  deriving DecidableEq, Repr

/-- The feature modules that the root module imports. -/
def AppKind.imports : AppKind → List FeatureModule
  | .appModule =>
      [.auth, .users, .videos, .ai, .queue, .storage, .health, .gateway, .monitoring, .chat]
  | .workerAppModule => [.videos, .ai, .queue, .storage]

def AppKind.HasGateway (kind : AppKind) : Prop := .gateway ∈ kind.imports

instance (kind : AppKind) : Decidable kind.HasGateway :=
  inferInstanceAs (Decidable (_ ∈ _))

/-! ## Messages -/

inductive StatusMessage where
  | created (videoId queueJobId : String)
  | processingStarted (videoId : String) (attempt : ℕ)
  | progressUpdated (videoId : String) (percent : ℤ) (message : String)
  | completed (videoId videoUrl : String) (thumbnailUrl : Option String)
  | failed (videoId errorMessage : String) (attemptsMade : ℕ)
  deriving DecidableEq, Repr

def DomainEvent.videoId : DomainEvent → String
  | .created videoId _ _ _ => videoId
  | .processingStarted videoId _ => videoId
  | .progressUpdated videoId _ _ => videoId
  | .completed event => event.videoId
  | .failed event => event.videoId

/-- What the listeners of the gateway make of an event. -/
def DomainEvent.payload : DomainEvent → StatusMessage
  | .created videoId _ _ queueJobId => .created videoId queueJobId
  | .processingStarted videoId jobAttempt => .processingStarted videoId jobAttempt
  | .progressUpdated videoId percent message => .progressUpdated videoId percent message
  | .completed event => .completed event.videoId event.videoUrl event.thumbnailUrl
  | .failed event => .failed event.videoId event.errorMessage event.attemptsMade

def roomName (videoId : String) : String := "video:" ++ videoId

/-- A message about the processing of the video: every kind but `created`. -/
def StatusMessage.IsAbout (videoId : String) : StatusMessage → Bool
  | .created _ _ => false
  | .processingStarted id _ => id = videoId
  | .progressUpdated id _ _ => id = videoId
  | .completed id _ _ => id = videoId
  | .failed id _ _ => id = videoId

/-! ## The cluster -/

/-- The running system, the rooms each socket is in, and what each socket was sent. -/
structure Cluster where
  system : State
  rooms : ℕ → String → Bool
  received : ℕ → List StatusMessage

inductive ClusterStep where
  | system (a : Step)
  | subscribe (socket : ℕ) (videoId : String)
  | unsubscribe (socket : ℕ) (videoId : String)
  | disconnect (socket : ℕ)

def emission (s : State) : Step → Option (ℕ × DomainEvent)
  | .call i _ =>
      match s.threads[i]?.bind Thread.pending? with
      | some (.emit event) => some (i, event)
      | _ => none
  | _ => none

section Cluster

variable (config : StorageConfig)
  -- What each process runs, which process runs a thread and which one a socket is connected to.
  (kind : ℕ → AppKind) (place home : ℕ → ℕ)

/-- The gateway of a process, if there is one, sends the payload to the sockets of its
server that are in the room. -/
def Cluster.forward (c : Cluster) (process : ℕ) (event : DomainEvent) : ℕ → List StatusMessage :=
  fun socket ↦
    if (kind process).HasGateway ∧ home socket = process ∧
      c.rooms socket (roomName event.videoId) = true
    then c.received socket ++ [event.payload] else c.received socket

def Cluster.join (c : Cluster) (socket : ℕ) (room : String) (member : Bool) : Cluster :=
  { c with rooms := fun k r ↦ if k = socket ∧ r = room then member else c.rooms k r }

def Cluster.step (c : Cluster) : ClusterStep → Option Cluster
  | .system a =>
      ((VideoGen.system config).step c.system a).map fun s ↦
        { c with
          system := s
          received := match emission c.system a with
            | some (i, event) => c.forward kind home (place i) event
            | none => c.received }
  | .subscribe socket videoId =>
      if (kind (home socket)).HasGateway then some (c.join socket (roomName videoId) true)
      else none
  | .unsubscribe socket videoId => some (c.join socket (roomName videoId) false)
  | .disconnect socket =>
      some { c with rooms := fun k r ↦ if k = socket then false else c.rooms k r }

end Cluster

def emissions (ts : List (Transition Cluster ClusterStep)) : List (ℕ × DomainEvent) :=
  ts.filterMap fun t ↦ match t.act with
    | .system a => emission t.before.system a
    | _ => none

/-- The messages about the processing of the video that the socket was sent. -/
def Cluster.heard (c : Cluster) (socket : ℕ) (videoId : String) : List StatusMessage :=
  (c.received socket).filter (StatusMessage.IsAbout videoId)

def DomainEvent.IsAbout (videoId : String) (event : DomainEvent) : Bool :=
  event.payload.IsAbout videoId

def ClusterStep.Leaves (socket : ℕ) (videoId : String) : ClusterStep → Prop
  | .unsubscribe k v => k = socket ∧ v = videoId
  | .disconnect k => k = socket
  | _ => False

/-! ## What a subscriber hears -/

theorem roomName_inj {v v' : String} : roomName v = roomName v' ↔ v = v' :=
  String.append_right_inj "video:"

theorem DomainEvent.videoId_of_isAbout {event : DomainEvent} {videoId : String}
    (h : event.IsAbout videoId = true) : event.videoId = videoId := by
  cases event with
  | created id userId prompt queueJobId => cases h
  | _ => exact of_decide_eq_true h

section Subscriber

variable {config : StorageConfig} {kind : ℕ → AppKind} {place home : ℕ → ℕ} {c c' : Cluster}
  {socket : ℕ} {videoId : String} {a : ClusterStep}

theorem emission_events {s s' : State} {a : Step} (hstep : (system config).step s a = some s') :
    s'.state.events = s.state.events ++ ((emission s a).map Prod.snd).toList := by
  cases a with
  | call i f =>
      obtain ⟨t, c, next, r, -, hcall⟩ := Machine.called_of_step hstep
      have hpending : s.threads[i]?.bind Thread.pending? = some c := by
        rw [hcall.get]
        exact hcall.pending
      by_cases hc : c.Emits = false
      · have hnone : emission s (.call i f) = none := by
          cases c <;> simp_all [emission, Call.Emits]
        rw [World.exec_events hcall.exec hc, hnone]
        simp
      · cases c with
        | emit event =>
            have hsome : emission s (.call i f) = some (i, event) := by
              simp [emission, hpending]
            rw [hsome]
            rcases World.exec_effect hcall.exec with ⟨-, -, e, rfl⟩ | ⟨-, b, x, hx, -⟩
            · exact absurd (World.possible_of_exec hcall.exec) Bool.false_ne_true
            · exact World.answer_emit hx
        | _ => exact absurd rfl hc
  | invoke task =>
      obtain rfl := Option.some.inj hstep
      simp [emission]
  | crash i =>
      obtain ⟨t, -, rfl⟩ := Machine.step_crash_cases _ hstep
      simp [emission]
  | env l =>
      obtain ⟨w, tasks, henv, rfl⟩ := Machine.step_env_cases _ hstep
      simp [emission, (envStep_frame henv).2.2]

theorem step_member (hstep : c.step config kind place home a = some c')
    (hleaves : ¬a.Leaves socket videoId) (h : c.rooms socket (roomName videoId) = true) :
    c'.rooms socket (roomName videoId) = true := by
  cases a with
  | system a =>
      obtain ⟨s, -, rfl⟩ := Option.map_eq_some_iff.mp hstep
      exact h
  | subscribe k v =>
      simp only [Cluster.step, Option.ite_none_right_eq_some] at hstep
      obtain ⟨-, hc⟩ := hstep
      obtain rfl := Option.some.inj hc
      simp [Cluster.join, h]
  | unsubscribe k v =>
      obtain rfl := Option.some.inj hstep
      have hother : ¬(socket = k ∧ roomName videoId = roomName v) := by
        rintro ⟨rfl, hroom⟩
        exact hleaves ⟨rfl, (roomName_inj.mp hroom).symm⟩
      change (if _ then _ else _) = true
      rw [if_neg hother]
      exact h
  | disconnect k =>
      obtain rfl := Option.some.inj hstep
      have hother : socket ≠ k := by
        rintro rfl
        exact hleaves rfl
      simp [hother, h]

/-- The emissions about the video that the gateway of the subscriber sees. -/
def seen (place home : ℕ → ℕ) (socket : ℕ) (videoId : String)
    (es : List (ℕ × DomainEvent)) : List StatusMessage :=
  (es.filter fun e ↦ e.2.IsAbout videoId && decide (place e.1 = home socket)).map
    fun e ↦ e.2.payload

theorem step_heard (hkind : (kind (home socket)).HasGateway)
    (hstep : c.step config kind place home a = some c')
    (h : c.rooms socket (roomName videoId) = true) :
    c'.heard socket videoId = c.heard socket videoId ++
      seen place home socket videoId (emissions [⟨c, a, c'⟩]) := by
  cases a with
  | system a =>
      obtain ⟨s, -, rfl⟩ := Option.map_eq_some_iff.mp hstep
      cases hemission : emission c.system a with
      | none => simp [Cluster.heard, emissions, hemission, seen]
      | some e =>
          obtain ⟨i, event⟩ := e
          by_cases habout : event.IsAbout videoId = true
          · have hid := DomainEvent.videoId_of_isAbout habout
            by_cases hplace : place i = home socket
            · have hpayload : event.payload.IsAbout videoId = true := habout
              simp [Cluster.heard, emissions, hemission, seen, Cluster.forward, habout, hplace,
                hkind, hid, h, hpayload]
            · have hplace' : ¬home socket = place i := fun heq ↦ hplace heq.symm
              simp [Cluster.heard, emissions, hemission, seen, Cluster.forward, hplace, hplace']
          · have hpayload : event.payload.IsAbout videoId = false :=
              Bool.eq_false_of_not_eq_true habout
            simp only [Cluster.heard, emissions, seen, Cluster.forward]
            split <;> simp [hemission, habout, hpayload]
  | subscribe k v =>
      simp only [Cluster.step, Option.ite_none_right_eq_some] at hstep
      obtain ⟨-, hc⟩ := hstep
      obtain rfl := Option.some.inj hc
      simp [Cluster.heard, Cluster.join, emissions, seen]
  | unsubscribe k v =>
      obtain rfl := Option.some.inj hstep
      simp [Cluster.heard, Cluster.join, emissions, seen]
  | disconnect k =>
      obtain rfl := Option.some.inj hstep
      simp [Cluster.heard, emissions, seen]

theorem emissions_append (ts us : List (Transition Cluster ClusterStep)) :
    emissions (ts ++ us) = emissions ts ++ emissions us :=
  List.filterMap_append

theorem seen_append (es es' : List (ℕ × DomainEvent)) :
    seen place home socket videoId (es ++ es') =
      seen place home socket videoId es ++ seen place home socket videoId es' := by
  simp [seen]

theorem run_events {ts : List (Transition Cluster ClusterStep)}
    (hrun : Run (Cluster.step config kind place home) c ts c') :
    c'.system.state.events = c.system.state.events ++ (emissions ts).map Prod.snd := by
  induction hrun with
  | nil => simp [emissions]
  | @snoc ts c₁ c₂ a head last ih =>
      rw [emissions_append, List.map_append, ← List.append_assoc, ← ih]
      cases a with
      | system a =>
          obtain ⟨s, hstep, rfl⟩ := Option.map_eq_some_iff.mp last
          rw [emission_events hstep]
          cases hemission : emission c₁.system a <;> simp [emissions, hemission]
      | subscribe k v =>
          simp only [Cluster.step, Option.ite_none_right_eq_some] at last
          obtain ⟨-, hc⟩ := last
          obtain rfl := Option.some.inj hc
          simp [emissions, Cluster.join]
      | unsubscribe k v =>
          obtain rfl := Option.some.inj last
          simp [emissions, Cluster.join]
      | disconnect k =>
          obtain rfl := Option.some.inj last
          simp [emissions]

section Run

variable {ts : List (Transition Cluster ClusterStep)}
  (hrun : Run (Cluster.step config kind place home) c ts c')
  (hkind : (kind (home socket)).HasGateway)
  (hmember : c.rooms socket (roomName videoId) = true)
  (hstays : ∀ t ∈ ts, ¬t.act.Leaves socket videoId)

include hrun hmember hstays

theorem run_member : c'.rooms socket (roomName videoId) = true :=
  hrun.invariant (fun c ↦ c.rooms socket (roomName videoId) = true) hmember
    fun t ht hstep h ↦ step_member hstep (hstays t ht) h

include hkind

/-- A subscriber hears what its own process emits, in the order of emission. -/
theorem run_heard : c'.heard socket videoId =
    c.heard socket videoId ++ seen place home socket videoId (emissions ts) := by
  induction hrun with
  | nil => simp [emissions, seen]
  | @snoc ts c₁ c₂ a head last ih =>
      have hstays₁ : ∀ t ∈ ts, ¬t.act.Leaves socket videoId := fun t ht ↦
        hstays t (List.mem_append_left _ ht)
      rw [step_heard hkind last (run_member head hmember hstays₁), ih hstays₁,
        emissions_append, seen_append, List.append_assoc]

/-- A subscriber that stays hears exactly the events about the video, in the order of their
emission, exactly when every thread that emits one runs in the process of its gateway. -/
theorem heard_iff :
    c'.heard socket videoId = c.heard socket videoId ++
        ((emissions ts).filter fun e ↦ e.2.IsAbout videoId).map (fun e ↦ e.2.payload) ↔
      ∀ e ∈ emissions ts, e.2.IsAbout videoId = true → place e.1 = home socket := by
  rw [run_heard hrun hkind hmember hstays, List.append_cancel_left_eq]
  have hseen : seen place home socket videoId (emissions ts) =
      (((emissions ts).filter fun e ↦ e.2.IsAbout videoId).filter
        fun e ↦ decide (place e.1 = home socket)).map fun e ↦ e.2.payload := by
    rw [List.filter_filter]
    unfold seen
    congr 1
    apply List.filter_congr
    intro e _
    exact Bool.and_comm _ _
  rw [hseen]
  constructor
  · intro heq e he habout
    have hlength := congrArg List.length heq
    rw [List.length_map, List.length_map, List.length_filter_eq_length_iff] at hlength
    exact of_decide_eq_true (hlength e (List.mem_filter.mpr ⟨he, habout⟩))
  · intro h
    congr 1
    apply List.filter_eq_self.mpr
    intro e he
    obtain ⟨he, habout⟩ := List.mem_filter.mp he
    exact decide_eq_true (h e he habout)

end Run

end Subscriber

/-! ## Two processes -/

/-- Process 0 serves the API, the others are workers. -/
def oneApi : ℕ → AppKind
  | 0 => .appModule
  | _ => .workerAppModule

def watchedCluster : Cluster where
  system := ⟨World.empty, []⟩
  rooms socket room := socket = 0 ∧ room = roomName "video"
  received _ := []

def startActs : List ClusterStep :=
  (createActs 0 "video" ++ .env (.take 1) :: List.replicate 6 (okStep 1)).map .system

theorem stays_of_startActs {ts : List (Transition Cluster ClusterStep)}
    (hacts : ts.map Transition.act = startActs) : ∀ t ∈ ts, ¬t.act.Leaves 0 "video" := by
  intro t ht hleaves
  have hmem : t.act ∈ startActs := hacts ▸ List.mem_map_of_mem ht
  obtain ⟨a, -, ha⟩ := List.mem_map.mp hmem
  rw [← ha] at hleaves
  exact hleaves

/-- The API process runs the job itself: the subscriber hears of the start. -/
theorem heard_from_api : ∃ (ts : List (Transition Cluster ClusterStep)) (c : Cluster),
    Run (Cluster.step ⟨"bucket", none, "region"⟩ oneApi (fun _ ↦ 0) fun _ ↦ 0) watchedCluster
        ts c ∧
      ts.map Transition.act = startActs ∧
      c.heard 0 "video" = [.processingStarted "video" 1] ∧
      c.heard 0 "video" = watchedCluster.heard 0 "video" ++
        ((emissions ts).filter fun e ↦ e.2.IsAbout "video").map (fun e ↦ e.2.payload) := by
  obtain ⟨ts, c, hrun, hacts, hheard⟩ := Run.exists_of_follow
    (Cluster.step ⟨"bucket", none, "region"⟩ oneApi (fun _ ↦ 0) fun _ ↦ 0) watchedCluster
    startActs (fun p ↦ p.2.heard 0 "video") [.processingStarted "video" 1] (by decide +kernel)
  refine ⟨ts, c, hrun, hacts, hheard,
    (heard_iff hrun (by decide) (by decide) (stays_of_startActs hacts)).mpr fun _ _ _ ↦ rfl⟩

/-- A worker process runs the job: the start is emitted, and the subscriber hears nothing. -/
theorem unheard_from_worker : ∃ (ts : List (Transition Cluster ClusterStep)) (c : Cluster),
    Run (Cluster.step ⟨"bucket", none, "region"⟩ oneApi (fun i ↦ i) fun _ ↦ 0) watchedCluster
        ts c ∧
      ts.map Transition.act = startActs ∧
      (oneApi 0).HasGateway ∧ watchedCluster.rooms 0 (roomName "video") = true ∧
      (∀ t ∈ ts, ¬t.act.Leaves 0 "video") ∧
      ((emissions ts).filter fun e ↦ e.2.IsAbout "video") =
        [(1, .processingStarted "video" 1)] ∧
      c.received 0 = [.created "video" "1"] ∧
      c.heard 0 "video" = watchedCluster.heard 0 "video" := by
  obtain ⟨ts, c, hrun, hacts, hobs⟩ := Run.exists_of_follow
    (Cluster.step ⟨"bucket", none, "region"⟩ oneApi (fun i ↦ i) fun _ ↦ 0) watchedCluster
    startActs (fun p ↦ decide (((emissions p.1).filter fun e ↦ e.2.IsAbout "video") =
        [(1, .processingStarted "video" 1)] ∧ p.2.received 0 = [.created "video" "1"] ∧
      p.2.heard 0 "video" = watchedCluster.heard 0 "video")) true (by decide +kernel)
  obtain ⟨hemitted, hreceived, hheard⟩ := of_decide_eq_true hobs
  exact ⟨ts, c, hrun, hacts, by decide, by decide, stays_of_startActs hacts, hemitted, hreceived,
    hheard⟩

end VideoGen
