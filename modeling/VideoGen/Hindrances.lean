import VideoGen.Origins
import VideoGen.SimulatedExecutions

/-!
# Failures with the simulated provider

A failure that the system reports goes back to an execution of the very video that
the stores have hindered: a call to PostgreSQL, Redis or the queue was rejected, or
the row was gone.  The simulator and the other executions are never the cause.
-/

namespace VideoGen

/-- The task is not a listener and not a method that is called on its own. -/
def Task.Offered : Task → Prop
  | .onVideoFailed _ => False
  | .service _ => False
  | _ => True

instance : DecidablePred Task.Offered
  | .process _ => isTrue trivial
  | .createAndQueue _ _ => isTrue trivial
  | .retryFailedJob _ => isTrue trivial
  | .onVideoFailed _ => isFalse id
  | .remove _ _ => isTrue trivial
  | .service _ => isFalse id

theorem Task.Offered.managed {task : Task} (h : task.Offered) : task.Managed := by
  cases task with
  | service call => exact h
  | _ => trivial

/-- The stores have hindered an execution for the video. -/
def Hindered (s : DeployedState) (videoId : String) : Prop :=
  ∃ (i : ℕ) (t : Worker) (job : Job), s.threads[i]? = some t ∧ t.task = .process job ∧
    job.data.videoId = videoId ∧ ∃ e ∈ t.log, Hinders e

def Call.Fails (videoId : String) : Call → Prop
  | .updateVideo id _ fields => id = videoId ∧ fields.status = some .failed
  | .emit (.failed event) => event.videoId = videoId
  | _ => False

section Calls

variable {stage : Stage} {c : Call} {videoId : String}

theorem Report.fails {expected : Option VideoStatus} {fields : VideoFields}
    (h : Report expected fields) (hfailed : fields.status = some .failed) :
    ∃ message, fields = failedFields message := by
  cases h with
  | fail message => exact ⟨message, rfl⟩
  | _ => cases hfailed

theorem StageAllows.fails (h : StageAllows stage c) (hmanaged : stage.task.Managed)
    (hc : c.Fails videoId) : ∃ job phase, stage = .worker job phase := by
  cases c with
  | updateVideo id expected fields =>
      have hwrite := h.rowWrite hmanaged rfl
      cases hwrite with
      | report job phase hreport => exact ⟨job, phase, rfl⟩
      | _ => cases hc.2
  | emit event =>
      cases event with
      | failed event =>
          obtain ⟨job, message, hstage, -⟩ := announces_failure h hmanaged
          exact ⟨job, _, hstage⟩
      | _ => exact hc.elim
  | _ => exact hc.elim

theorem failed_row_cases {w w' : World} {f : Fate} {r : Except Thrown c.Reply}
    (h : StageAllows stage c) (hmanaged : stage.task.Managed)
    (hexec : w.exec c f = some (w', r)) (hfailed : w'.statusOf videoId = some .failed) :
    w.statusOf videoId = some .failed ∨ c.Fails videoId := by
  obtain ⟨row', hrow', hstatus⟩ := World.statusOf_eq_some_iff.mp hfailed
  rcases World.row_cases hexec hrow' with hrow | ⟨expected, fields, row, rfl, hrow, -, rfl⟩ |
    ⟨newId, fields, rfl, -, -, rfl⟩
  · exact .inl (World.statusOf_eq_some_iff.mpr ⟨row', hrow, hstatus⟩)
  · rw [Video.assign_status] at hstatus
    cases hfields : fields.status with
    | none =>
        rw [hfields] at hstatus
        exact .inl (World.statusOf_eq_some_iff.mpr ⟨row, hrow, hstatus⟩)
    | some status =>
        rw [hfields] at hstatus
        obtain rfl : status = .failed := hstatus
        exact .inr ⟨rfl, hfields⟩
  · have hwrite := h.rowWrite hmanaged rfl
    cases hwrite with
    | insert userId dto => cases hstatus

end Calls

section Step

variable {config : StorageConfig} {delay : ℤ} {ts : List (Transition DeployedState DeployedStep)}
  {s s' : DeployedState} {a : DeployedStep} {videoId : String}

theorem Hindered.step (h : Hindered s videoId) (hstep : (deployed config).step s a = some s') :
    Hindered s' videoId := by
  obtain ⟨i, t, job, hget, htask, hvideo, e, hmem, hhinders⟩ := h
  obtain ⟨u, hget', ⟨rfl | ⟨-, rfl⟩⟩ | ⟨o, c, next, r, -, -, rfl, hcalled⟩⟩ :=
    Machine.called_or_kept hstep hget
  · exact ⟨i, u, job, hget', htask, hvideo, e, hmem, hhinders⟩
  · exact ⟨i, _, job, hget', htask, hvideo, e, hmem, hhinders⟩
  · refine ⟨i, _, job, hget', hcalled.task_eq.trans htask, hvideo, e, ?_, hhinders⟩
    rw [hcalled.log_eq]
    exact List.mem_append_left _ hmem

theorem Serving.blames (h : Serving delay ts s) {i : ℕ} {t : Worker} {c : Call} {job : Job}
    (hget : s.threads[i]? = some t) (htask : t.task = .process job)
    (hpending : t.pending? = some c) (hc : c.Fails videoId) : Hindered s videoId := by
  have hadmits := (h.threads i t job hget htask).admits hpending
  have hhindered : videoId = job.data.videoId ∧ (courseOf t).hindered = true := by
    cases c with
    | updateVideo id expected fields =>
        obtain ⟨rfl, hfailed⟩ := hc
        exact hadmits hfailed
    | emit event =>
        cases event with
        | failed event => exact ⟨hc.symm.trans hadmits.1, hadmits.2⟩
        | _ => exact hc.elim
    | _ => exact hc.elim
  exact ⟨i, t, job, hget, htask, hhindered.1.symm, (hindered_iff t).mp hhindered.2⟩

/-- Everything that speaks of a failure, and the execution that is behind it. -/
structure Blamed (s : DeployedState) : Prop where
  managed : ∀ t ∈ s.threads, t.task.Managed
  rows : ∀ videoId, s.state.world.statusOf videoId = some .failed → Hindered s videoId
  events : ∀ event, DomainEvent.failed event ∈ s.state.world.events → Hindered s event.videoId
  listeners : ∀ t ∈ s.threads, ∀ event, t.task = .onVideoFailed event → Hindered s event.videoId
  records : ∀ id record, s.state.world.failedJobs.find? id = some record →
    Hindered s record.videoId

theorem deployed_managed (hstep : (deployed config).step s a = some s')
    (hinvoke : a.InvokesOnly Task.Offered) (hs : ∀ t ∈ s.threads, t.task.Managed) :
    ∀ t ∈ s'.threads, t.task.Managed := by
  refine Machine.step_forall_tasks ?_ ?_ hstep (hinvoke.mono fun _ ↦ Task.Offered.managed) hs
  · intro c task htask
    obtain ⟨event, rfl⟩ := listeners_tasks c task htask
    trivial
  · intro w threads l w' tasks henv task htask
    obtain ⟨job, rfl⟩ := envStep_tasks (deployed_env config henv).1 task htask
    trivial

theorem call_of_listener {c : Call} {event : VideoFailedEvent}
    (h : Task.onVideoFailed event ∈ listeners c) : c = .emit (.failed event) := by
  unfold listeners at h
  split at h
  · obtain rfl := Task.onVideoFailed.inj (List.mem_singleton.mp h)
    rfl
  · cases h

theorem listener_cases (hstep : (deployed config).step s a = some s')
    (hinvoke : a.InvokesOnly Task.Offered) {u : Worker} (hu : u ∈ s'.threads)
    {event : VideoFailedEvent} (htask : u.task = .onVideoFailed event) :
    (∃ t ∈ s.threads, t.task = .onVideoFailed event) ∨ ∃ i o t t' r, a = .call i o ∧
      Machine.Called (deployed config) s s' i o t t' (.emit (.failed event)) r := by
  cases a with
  | invoke task =>
      obtain rfl := Option.some.inj hstep
      rcases List.mem_append.mp hu with hu | hu
      · exact .inl ⟨u, hu, htask⟩
      · obtain rfl := List.mem_singleton.mp hu
        obtain rfl : task = .onVideoFailed event := htask
        exact hinvoke.elim
  | crash i =>
      obtain ⟨t, ht, rfl⟩ := (deployed config).step_crash_cases hstep
      rcases List.mem_or_eq_of_mem_set hu with hu | rfl
      · exact .inl ⟨u, hu, htask⟩
      · exact .inl ⟨t, List.mem_of_getElem? ht, htask⟩
  | env l =>
      obtain ⟨w, tasks, henv, rfl⟩ := (deployed config).step_env_cases hstep
      rcases List.mem_append.mp hu with hu | hu
      · exact .inl ⟨u, hu, htask⟩
      · obtain ⟨task, hmem, rfl⟩ := List.mem_map.mp hu
        obtain ⟨job, rfl⟩ := envStep_tasks (deployed_env config henv).1 task hmem
        cases htask
  | call i o =>
      obtain ⟨t, c, next, r, -, h⟩ := Machine.called_of_step hstep
      obtain ⟨j, hj⟩ := List.getElem?_of_mem hu
      rcases h.get_cases hj with ⟨rfl, rfl⟩ | ⟨-, hj⟩ | ⟨-, task, hmem, rfl⟩
      · exact .inl ⟨t, List.mem_of_getElem? h.get, htask⟩
      · exact .inl ⟨u, List.mem_of_getElem? hj, htask⟩
      · obtain rfl : task = .onVideoFailed event := htask
        obtain rfl : c = .emit (.failed event) := call_of_listener hmem
        exact .inr ⟨i, o, t, _, r, rfl, h⟩

theorem exec_of_called {i : ℕ} {o : Reaction} {t u : Worker} {c : Call} {r : Except Thrown c.Reply}
    (h : Machine.Called (deployed config) s s' i o t u c r) :
    ∃ f, s.state.world.exec c f = some (s'.state.world, r) :=
  ⟨_, (opened config).exec _ _ _ _ _ h.exec⟩

theorem allows_of_called (hconforming : Conforming ⟨s.state.world, s.threads⟩) {i : ℕ}
    {o : Reaction} {t u : Worker} {c : Call} {r : Except Thrown c.Reply}
    (h : Machine.Called (deployed config) s s' i o t u c r) : StageAllows (stageOf t) c := by
  obtain ⟨next, hprog⟩ := Thread.pending?_eq_some_iff.mp h.pending
  exact Machine.Conforms.allows stageProtocol Stage.init Stage.Ends
    (hconforming t (List.mem_of_getElem? h.get)) hprog

theorem event_cases (hstep : (deployed config).step s a = some s') {event : DomainEvent}
    (hevent : event ∈ s'.state.world.events) :
    event ∈ s.state.world.events ∨ ∃ i o t t' r, a = .call i o ∧
      Machine.Called (deployed config) s s' i o t t' (.emit event) r := by
  cases a with
  | invoke task =>
      obtain rfl := Option.some.inj hstep
      exact .inl hevent
  | crash i =>
      obtain ⟨t, -, rfl⟩ := (deployed config).step_crash_cases hstep
      exact .inl hevent
  | env l =>
      obtain ⟨w, tasks, henv, rfl⟩ := (deployed config).step_env_cases hstep
      rw [(envStep_frame (deployed_env config henv).1).2.2] at hevent
      exact .inl hevent
  | call i o =>
      obtain ⟨t, c, next, r, -, h⟩ := Machine.called_of_step hstep
      obtain ⟨f, hexec⟩ := exec_of_called h
      rcases World.exec_effect hexec with ⟨-, hw, -⟩ | ⟨-, b, x, hx, -⟩
      · rw [hw] at hevent
        exact .inl hevent
      by_cases hemits : c.Emits = false
      · rw [(World.answer_frame hx).2.2.2 hemits] at hevent
        exact .inl hevent
      cases c with
      | emit event' =>
          rw [World.answer_emit hx] at hevent
          rcases List.mem_append.mp hevent with hold | hnew
          · exact .inl hold
          · obtain rfl := List.mem_singleton.mp hnew
            exact .inr ⟨i, o, t, _, r, rfl, h⟩
      | _ => exact absurd rfl hemits

theorem Blamed.step (h : Blamed s) (hserving : Serving delay ts s)
    (hconforming : Conforming ⟨s.state.world, s.threads⟩)
    (hinvoke : a.InvokesOnly Task.Offered) (hstep : (deployed config).step s a = some s') :
    Blamed s' := by
  obtain ⟨a', -, -, hfree⟩ := (opened config).transition?_of_step hstep
  have hblames {i : ℕ} {o : Reaction} {t u : Worker} {c : Call} {r : Except Thrown c.Reply}
      {v : String} (hcalled : Machine.Called (deployed config) s s' i o t u c r)
      (hc : c.Fails v) : Hindered s v := by
    have htask := h.managed t (List.mem_of_getElem? hcalled.get)
    rw [← task_stageOf t] at htask
    obtain ⟨job, phase, hstage⟩ := (allows_of_called hconforming hcalled).fails htask hc
    have hprocess := task_stageOf t
    rw [hstage] at hprocess
    exact hserving.blames hcalled.get hprocess.symm hcalled.pending hc
  constructor
  · exact deployed_managed hstep hinvoke h.managed
  · intro v hfailed
    suffices hbefore : Hindered s v from hbefore.step hstep
    cases a with
    | invoke task =>
        obtain rfl := Option.some.inj hstep
        exact h.rows v hfailed
    | crash i =>
        obtain ⟨t, -, rfl⟩ := (deployed config).step_crash_cases hstep
        exact h.rows v hfailed
    | env l =>
        obtain ⟨w, tasks, henv, rfl⟩ := (deployed config).step_env_cases hstep
        rw [World.statusOf, (envStep_frame (deployed_env config henv).1).1] at hfailed
        exact h.rows v hfailed
    | call i o =>
        obtain ⟨t, c, next, r, -, hcalled⟩ := Machine.called_of_step hstep
        obtain ⟨f, hexec⟩ := exec_of_called hcalled
        have htask := h.managed t (List.mem_of_getElem? hcalled.get)
        rw [← task_stageOf t] at htask
        rcases failed_row_cases (allows_of_called hconforming hcalled) htask hexec hfailed with
          hold | hc
        · exact h.rows v hold
        · exact hblames hcalled hc
  · intro event hevent
    suffices hbefore : Hindered s event.videoId from hbefore.step hstep
    rcases event_cases hstep hevent with hold | ⟨i, o, t, t', r, -, hcalled⟩
    · exact h.events event hold
    · exact hblames hcalled rfl
  · intro u hu event htask
    suffices hbefore : Hindered s event.videoId from hbefore.step hstep
    rcases listener_cases hstep hinvoke hu htask with ⟨t, ht, hlistens⟩ |
      ⟨i, o, t, t', r, -, hcalled⟩
    · exact h.listeners t ht event hlistens
    · exact hblames hcalled rfl
  · intro id record hrecord
    suffices hbefore : Hindered s record.videoId from hbefore.step hstep
    rcases record_cases hfree hconforming h.managed hrecord with ⟨record₀, hrecord₀, hvideo⟩ |
      ⟨t, ht, event, recording, hstage, hvideo⟩
    · rw [hvideo]
      exact h.records id record₀ hrecord₀
    · have hlistens := task_stageOf t
      rw [hstage] at hlistens
      rw [hvideo]
      exact h.listeners t ht event hlistens.symm

end Step

theorem blamed_of_run {config : StorageConfig} {simulationDelayMs : Option ℤ}
    {ts : List (Transition DeployedState DeployedStep)} {s : DeployedState}
    (hrun : Run (deployed config).step
      ⟨⟨World.empty, FakeVideoProvider.create simulationDelayMs⟩, []⟩ ts s)
    (htimely : Timely ts) (hapart : (submissions ts).Nodup)
    (hswift : Swift (simulationDelayMs.getD 5000) ts)
    (hinvoke : ∀ t ∈ ts, t.act.InvokesOnly Task.Offered) : Blamed s := by
  induction hrun with
  | nil =>
      constructor
      · simp
      · intro videoId hfailed
        cases hfailed
      · simp [World.empty]
      · simp
      · simp [World.empty]
  | @snoc ts s s' a head last ih =>
      have hapart' := nodup_head hapart
      have hswift' : Swift (simulationDelayMs.getD 5000) ts :=
        fun t ht ↦ hswift t (List.mem_append_left _ ht)
      have hblamed := ih htimely.head hapart' hswift' fun t ht ↦
        hinvoke t (List.mem_append_left _ ht)
      exact hblamed.step (serving_of_run head htimely.head hapart' hswift')
        (run_conforming ((opened config).run head).2)
        (hinvoke ⟨s, a, s'⟩ (List.mem_append_right _ (List.mem_singleton_self _))) last

/-- In every run of the deployed system in which no timer fires early, no video is submitted
twice in one millisecond and the simulator is due within five minutes: whenever a row is failed,
`video.failed` is published or a failure is recorded for a video, the stores have hindered an
execution of that very video. -/
theorem simulated_failures_hindered {config : StorageConfig} {simulationDelayMs : Option ℤ}
    {ts : List (Transition DeployedState DeployedStep)} {s : DeployedState}
    (hrun : Run (deployed config).step
      ⟨⟨World.empty, FakeVideoProvider.create simulationDelayMs⟩, []⟩ ts s)
    (htimely : Timely ts) (hapart : (submissions ts).Nodup)
    (hswift : Swift (simulationDelayMs.getD 5000) ts)
    (hinvoke : ∀ t ∈ ts, t.act.InvokesOnly Task.Offered) :
    (∀ videoId, s.state.world.statusOf videoId = some .failed → Hindered s videoId) ∧
    (∀ event, DomainEvent.failed event ∈ s.state.world.events → Hindered s event.videoId) ∧
    ∀ id record, s.state.world.failedJobs.find? id = some record →
      Hindered s record.videoId := by
  have hblamed := blamed_of_run hrun htimely hapart hswift hinvoke
  exact ⟨hblamed.rows, hblamed.events, hblamed.records⟩

/-! ### A hindered execution -/

/-- PostgreSQL rejects the first query of the execution; the failure is recorded. -/
def hinderedActs : List DeployedStep :=
  [.invoke (.createAndQueue "user" ⟨"title", "prompt", none, none, none, none, none⟩),
    .call 0 (.fate (.ok (.uuid "video")))] ++ answered 0 3 ++ [.env (.take 1),
    .call 1 (.fate (.rejected (.instance .error "Connection terminated")))] ++ answered 1 3 ++
    answered 2 1 ++ [.call 2 (.fate (.ok (.uuid "record")))]

theorem simulated_failures_hindered_recorded :
    ∃ (ts : List (Transition DeployedState DeployedStep)) (s : DeployedState),
      Run (deployed ⟨"bucket", none, "region"⟩).step
        ⟨⟨World.empty, FakeVideoProvider.create none⟩, []⟩ ts s ∧
      (s.state.world.failedJobs.find? "record").map FailedJob.videoId = some "video" ∧
      Hindered s "video" := by
  obtain ⟨ts, s, hrun, hacts, hobs⟩ := Run.exists_of_follow
    (deployed ⟨"bucket", none, "region"⟩).step
    ⟨⟨World.empty, FakeVideoProvider.create none⟩, []⟩ hinderedActs
    (fun p ↦ (inTime [] p.1, submissions p.1, p.1.all (isSwift 5000),
      (p.2.state.world.failedJobs.find? "record").map FailedJob.videoId))
    (true, [], true, some "video") (by decide +kernel)
  obtain ⟨htime, hobs⟩ := Prod.mk.inj hobs
  obtain ⟨hsubmissions, hobs⟩ := Prod.mk.inj hobs
  obtain ⟨hswift, hvideo⟩ := Prod.mk.inj hobs
  have hapart : (submissions ts).Nodup := by
    have hnone : submissions ts = [] := hsubmissions
    rw [hnone]
    exact List.nodup_nil
  have hoffered : ∀ a ∈ hinderedActs, a.InvokesOnly Task.Offered := by decide
  obtain ⟨record, hrecord, hsame⟩ := Option.map_eq_some_iff.mp hvideo
  have hhindered := (simulated_failures_hindered hrun (timely_of_inTime htime) hapart
    (swift_of_isSwift hswift) fun t ht ↦ hoffered t.act (hacts ▸ List.mem_map_of_mem ht)).2.2
    "record" record hrecord
  rw [hsame] at hhindered
  exact ⟨ts, s, hrun, hvideo, hhindered⟩

end VideoGen
