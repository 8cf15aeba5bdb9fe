import VideoGen.Delivery

/-!
# Records of failures

Every failure event of a video starts a listener, and every listener saves one
record.  While no listener is lost, the records and the listeners that have
not saved yet account for all failure events.
-/

namespace VideoGen

/-! ## What is counted -/

def Task.Listens (videoId : String) : Task → Prop
  | .onVideoFailed event => event.videoId = videoId
  | _ => False

def Stage.unsaved (videoId : String) : Stage → Bool
  | .listening event .reading => event.videoId = videoId
  | .listening event (.saving _) => event.videoId = videoId
  | _ => false

def unsaved (videoId : String) (t : Worker) : Bool := (stageOf t).unsaved videoId

def DomainEvent.isFailure (videoId : String) : DomainEvent → Bool
  | .failed event => event.videoId = videoId
  | _ => false

def Call.recordsOf (videoId : String) : Call → ℕ
  | .insertFailedJob fields => if fields.videoId = videoId then 1 else 0
  | _ => 0

def Call.failuresOf (videoId : String) : Call → ℕ
  | .emit event => if event.isFailure videoId then 1 else 0
  | _ => 0

namespace World

def recordsOf (w : World) (videoId : String) : ℕ :=
  w.failedJobs.count fun r ↦ r.videoId = videoId

def failuresOf (w : World) (videoId : String) : ℕ :=
  w.events.countP (DomainEvent.isFailure videoId)

variable {w w' : World} {c : Call} {a : Answer}

theorem recordsOf_of_answer {x : c.Reply} (h : w.answer c a = some (w', x))
    (videoId : String) : w'.recordsOf videoId = w.recordsOf videoId + c.recordsOf videoId := by
  by_cases hc : c.WritesFailedJobs = false
  · unfold recordsOf
    rw [(answer_frame h).2.1 hc]
    cases c <;> first | rfl | cases hc
  · cases c with
    | insertFailedJob fields =>
        obtain ⟨id, rfl, hid, hw⟩ := answer_insertFailedJob h
        unfold recordsOf
        rw [hw, Table.count_insert]
        by_cases hvideo : fields.videoId = videoId <;>
          simp [FailedJob.create, Call.recordsOf, hvideo]
    | markRetried id retriedAt retryJobId =>
        unfold recordsOf
        rw [answer_markRetried h]
        exact Table.count_modify_eq _ _ _ _ (FailedJob.markRetried_id · retriedAt retryJobId)
          fun _ ↦ rfl
    | _ => exact absurd rfl hc

theorem failuresOf_of_answer {x : c.Reply} (h : w.answer c a = some (w', x))
    (videoId : String) : w'.failuresOf videoId = w.failuresOf videoId + c.failuresOf videoId := by
  unfold failuresOf
  by_cases hc : c.Emits = false
  · rw [(answer_frame h).2.2.2 hc]
    cases c <;> first | rfl | cases hc
  · cases c with
    | emit event =>
        rw [answer_emit h, List.countP_append, List.countP_singleton]
        rfl
    | _ => exact absurd rfl hc

end World

/-! ## Steps that lose no listener -/

/-- No listener of the video is lost in the step, and only listeners record failures of
the video. -/
structure KeepsListeners (videoId : String) (s : State) (a : Step) : Prop where
  starts : a.InvokesOnly fun task ↦ ¬task.Listens videoId
  reads : ∀ (i : ℕ) (f : Fate) (t : Worker) (id : String), a = .call i f →
    s.threads[i]? = some t → t.task.Listens videoId → t.pending? = some (.selectVideo id) →
    ∃ b, f = .ok b
  saves : ∀ (i : ℕ) (f : Fate) (t : Worker) (fields : FailedJobFields), a = .call i f →
    s.threads[i]? = some t → t.task.Listens videoId →
    t.pending? = some (.insertFailedJob fields) → f.TakesEffect = true
  recorders : ∀ (i : ℕ) (f : Fate) (t : Worker) (fields : FailedJobFields), a = .call i f →
    f.TakesEffect = true → s.threads[i]? = some t →
    t.pending? = some (.insertFailedJob fields) → fields.videoId = videoId →
    t.task.Listens videoId
  listens : ∀ (i : ℕ) (t : Worker), a = .crash i → s.threads[i]? = some t →
    t.task.Listens videoId → t.Ended

section System

variable {config : StorageConfig} {s s' : State} {a : Step} {videoId : String}

theorem not_unsaved {t : Worker} (h : ¬t.task.Listens videoId) :
    unsaved videoId t = false := by
  rw [← task_stageOf] at h
  unfold unsaved
  generalize stageOf t = stage at h
  cases stage with
  | listening event recording =>
      have hne : event.videoId ≠ videoId := h
      cases recording <;> simp [Stage.unsaved, hne]
  | _ => rfl

theorem failuresOf_of_call (videoId : String) {i : ℕ} {f : Fate} {t t' : Worker} {c : Call}
    {r : Except Thrown c.Reply} (h : Machine.Called (system config) s s' i f t t' c r) :
    s'.state.failuresOf videoId = s.state.failuresOf videoId +
      ((listeners c).map (system config).start).countP (unsaved videoId) := by
  by_cases hc : c.Emits = true
  · cases c with
    | emit event =>
        rcases World.exec_effect h.exec with ⟨-, -, e, rfl⟩ | ⟨-, b, x, hx, -⟩
        · exact absurd (World.possible_of_exec h.exec) Bool.false_ne_true
        · rw [World.failuresOf_of_answer hx]
          cases event with
          | failed event => simp [listeners, unsaved, Stage.init, Stage.unsaved,
              Call.failuresOf, DomainEvent.isFailure, List.countP_singleton]
          | _ => rfl
    | _ => cases hc
  · have hnil : listeners c = [] := by
      cases c <;> first | rfl | exact absurd rfl hc
    unfold World.failuresOf
    rw [World.exec_events h.exec (by simpa using hc), hnil]
    rfl

theorem recordsOf_of_call {i : ℕ} {f : Fate} {t t' : Worker} {c : Call}
    {r : Except Thrown c.Reply} (hk : KeepsListeners videoId s (.call i f))
    (h : Answered config s s' i f t t' c r) :
    s'.state.recordsOf videoId + (if unsaved videoId t' then 1 else 0) =
      s.state.recordsOf videoId + if unsaved videoId t then 1 else 0 := by
  by_cases hlistens : t.task.Listens videoId
  · have hallows := allows_of_answered h
    have hnext := stageOf_of_answered h
    have hreads := hk.reads i f t
    have hsaves := hk.saves i f t
    have hpending := h.pending
    unfold unsaved
    rw [hnext]
    rw [← task_stageOf] at hlistens hreads hsaves
    generalize stageOf t = stage at hallows hlistens hreads hsaves
    cases hallows with
    | @listening event recording _ hallows =>
        have hvideo : event.videoId = videoId := hlistens
        cases hallows with
        | read =>
            obtain ⟨b, rfl⟩ := hreads _ rfl h.get hlistens hpending
            have hexec : s.state.exec (.selectVideo event.videoId) (.ok b) =
              some (s'.state, r) := h.exec
            rcases World.exec_cases hexec with ⟨b', x, -, hx, rfl⟩ | ⟨e, hf, -⟩ |
              ⟨b', e, x, hf, -⟩
            · rw [World.recordsOf_of_answer hx]
              simp [Stage.next, Recording.next, Stage.unsaved, Call.recordsOf, hvideo]
            · cases hf
            · cases hf
        | save video =>
            have hf := hsaves _ rfl h.get hlistens hpending
            rcases World.exec_effect h.exec with ⟨hf', -⟩ | ⟨-, b, x, hx, hreply⟩
            · rw [hf] at hf'
              cases hf'
            · have hsaved : Stage.unsaved videoId (Stage.next
                  (.listening event (.saving video)) (.insertFailedJob
                    (failedJobFields event video)) r) = false := by
                rcases hreply with rfl | ⟨e, rfl⟩ <;> rfl
              rw [World.recordsOf_of_answer hx, hsaved]
              simp [Stage.unsaved, Call.recordsOf, failedJobFields, hvideo]
    | worker hallows => exact hlistens.elim
    | creating hallows => exact hlistens.elim
    | retrying hallows => exact hlistens.elim
    | removing hallows => exact hlistens.elim
    | service call => exact hlistens.elim
  · have htask : t'.task = t.task := h.task_eq
    rw [not_unsaved hlistens, not_unsaved (htask ▸ hlistens)]
    rcases World.exec_effect h.exec with ⟨-, hw, -⟩ | ⟨hf, b, x, hx, -⟩
    · rw [hw]
    · rw [World.recordsOf_of_answer hx]
      cases c with
      | insertFailedJob fields =>
          have hne : fields.videoId ≠ videoId := fun hvideo ↦
            hlistens (hk.recorders i f t fields rfl hf h.get h.pending hvideo)
          simp [Call.recordsOf, hne]
      | _ => rfl

/-- Records and listeners at work account for the failures. -/
theorem records_step (hs : Conforming s) (hk : KeepsListeners videoId s a)
    (hstep : (system config).step s a = some s') :
    s'.state.recordsOf videoId + s'.threads.countP (unsaved videoId) +
        s.state.failuresOf videoId =
      s.state.recordsOf videoId + s.threads.countP (unsaved videoId) +
        s'.state.failuresOf videoId := by
  cases a with
  | invoke task =>
      obtain rfl := Option.some.inj hstep
      have hnot : unsaved videoId ((system config).start task) = false := not_unsaved hk.starts
      simp [List.countP_append, hnot]
  | crash i =>
      obtain ⟨t, hget, rfl⟩ := (system config).step_crash_cases hstep
      obtain ⟨hlt, hget⟩ := List.getElem?_eq_some_iff.mp hget
      have hle := List.boole_getElem_le_countP (p := unsaved videoId) hlt
      have hsame : unsaved videoId { t with crashed := true } = unsaved videoId t := rfl
      rw [hget] at hle
      simp only
      rw [List.countP_set hlt, hget, hsame]
      omega
  | env l =>
      obtain ⟨w, tasks, henv, rfl⟩ := (system config).step_env_cases hstep
      obtain ⟨-, hfailedJobs, hevents⟩ := envStep_frame henv
      have hnone : (tasks.map (system config).start).countP (unsaved videoId) = 0 := by
        rw [List.countP_eq_zero]
        intro t ht
        obtain ⟨task, htask, rfl⟩ := List.mem_map.mp ht
        obtain ⟨job, rfl⟩ := envStep_tasks henv task htask
        rw [not_unsaved id]
        exact Bool.false_ne_true
      unfold World.recordsOf World.failuresOf
      simp only
      rw [hfailedJobs, hevents, List.countP_append, hnone]
      rfl
  | call i f =>
      obtain ⟨t, t', c, r, h⟩ := answered_of_step hstep hs
      have hcount := h.countP_threads (unsaved videoId)
      have hfailures := failuresOf_of_call videoId h.toCalled
      have hrecords := recordsOf_of_call hk h
      change _ = _ + ((listeners c).map (system config).start).countP (unsaved videoId) at hcount
      omega

theorem unsaved_alive (hs : Conforming s) {t : Worker} (ht : t ∈ s.threads)
    (halive : t.crashed = false) (h : unsaved videoId t = true) : ¬t.Ended := by
  have hends (r : Except Thrown Value) : ¬Stage.Ends (stageOf t) r := by
    unfold unsaved at h
    generalize stageOf t = stage at h
    cases stage with
    | listening event recording =>
        cases recording with
        | reading => exact id
        | saving video => exact id
        | saved => cases h
        | dropped => cases h
    | _ => cases h
  obtain ⟨c, hpending, -⟩ := pending_of_stage (hs t ht) hends
  obtain ⟨next, hprog⟩ := Thread.pending?_eq_some_iff.mp hpending
  rintro (hcrashed | hfinished)
  · rw [halive] at hcrashed
    cases hcrashed
  · rw [hprog] at hfinished
    exact hfinished

end System

end VideoGen
