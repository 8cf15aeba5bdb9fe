import VideoGen.Creations
import VideoGen.Hindrances
import VideoGen.Responsibility
import VideoGen.Resurrections

/-!
# Runs in which the stores work

Users create videos and try to retry failures while PostgreSQL, Redis and the queue
answer and no worker dies.  Then no execution is hindered, so nothing fails, and
what the life cycle says of a video at rest leaves one alternative: its one job is
still to be worked on, or it is completed and shows the simulator's file.
-/

namespace VideoGen

open FakeVideoProvider (buildVideoUrl)
open Ledger (claims)

/-- Users create and retry, no worker crashes, and PostgreSQL, Redis and the queue answer. -/
structure Healthy (s : DeployedState) (a : DeployedStep) : Prop where
  invokes : a.InvokesOnly Task.Requested
  no_crash : ∀ i, a ≠ .crash i
  answers : ∀ i f t c, a = .call i (.fate f) → s.threads[i]? = some t → t.pending? = some c →
    c.Infrastructure = true → ∃ b, f = .ok b

def Unhindered (s : DeployedState) : Prop :=
  ∀ t ∈ s.threads, ∀ job, t.task = .process job → ∀ e ∈ t.log, ¬Hinders e

section Step

variable {config : StorageConfig} {s s' : DeployedState} {a : DeployedStep} {videoId : String}

theorem Unhindered.not_hindered (h : Unhindered s) : ¬Hindered s videoId := by
  rintro ⟨i, t, job, hget, htask, -, e, hmem, hhinders⟩
  exact h t (List.mem_of_getElem? hget) job htask e hmem hhinders

theorem loads_own {t : Worker} {job : Job} {id : String} (htask : t.task = .process job)
    (hallows : StageAllows (stageOf t) (.selectVideo id)) : id = job.data.videoId := by
  obtain ⟨phase, hstage⟩ := stageOf_process htask
  rw [hstage] at hallows
  cases hallows with
  | worker hallows =>
      cases hallows with
      | load => rfl
      | quiet _ hquiet => cases hquiet

theorem Healthy.not_hinders {past : List (Transition State Step)}
    (horigins : Origins past ⟨s.state.world, s.threads⟩) {i : ℕ} {o : Reaction} {t u : Worker}
    {c : Call} {r : Except Thrown c.Reply} {job : Job} (h : Healthy s (.call i o))
    (hcalled : Machine.Called (deployed config) s s' i o t u c r)
    (htask : t.task = .process job) : ¬Hinders ⟨c, r⟩ := by
  have ht := List.mem_of_getElem? hcalled.get
  rcases Installation.exec_cases hcalled.exec with ⟨lag, params, id, rfl, rfl, -, hexec⟩ |
    ⟨lag, jobId, rfl, rfl, -, hexec⟩ | ⟨f, hc, rfl, hexec, -⟩
  · obtain rfl := (Prod.mk.inj (Option.some.inj hexec)).2
    exact fun h ↦ h
  · obtain rfl := (Prod.mk.inj (Option.some.inj hexec)).2
    exact fun h ↦ h
  · cases r with
    | error e =>
        have hinfrastructure : Hinders ⟨c, .error e⟩ → c.Infrastructure = true := by
          cases c <;> exact id
        intro hhinders
        obtain ⟨b, rfl⟩ := h.answers i f t c rfl hcalled.get hcalled.pending
          (hinfrastructure hhinders)
        obtain ⟨p, -, heq⟩ := Option.map_eq_some_iff.mp hexec
        cases (Prod.mk.inj heq).2
    | ok x =>
        cases c with
        | selectVideo id =>
            cases x with
            | some video => exact fun h ↦ h
            | none =>
                obtain rfl := loads_own htask (allows_of_called horigins.conforming hcalled)
                obtain ⟨phase, hstage⟩ := stageOf_process htask
                obtain ⟨row, hrow⟩ :=
                  horigins.threads t ht job.data.videoId (by rw [hstage]; rfl)
                rcases World.exec_cases hexec with ⟨b, y, -, hanswer, hy⟩ | ⟨e, -, -, -, hy⟩ |
                  ⟨b, e, y, -, -, -, hy⟩
                · obtain rfl := Except.ok.inj hy
                  rw [← (World.answer_selectVideo hanswer).2] at hrow
                  cases hrow
                · cases hy
                · cases hy
        | _ => exact fun h ↦ h

theorem Unhindered.step {past : List (Transition State Step)} (h : Unhindered s)
    (horigins : Origins past ⟨s.state.world, s.threads⟩) (hhealthy : Healthy s a)
    (hstep : (deployed config).step s a = some s') : Unhindered s' := by
  intro u hu job htask e hmem
  obtain ⟨j, hj⟩ := List.getElem?_of_mem hu
  rcases Machine.called_cases hstep hj with ⟨t, ht, rfl | ⟨-, rfl⟩⟩ | ⟨-, task, rfl⟩ |
    ⟨o, t, c, next, r, rfl, -, -, hcalled⟩
  · exact h u (List.mem_of_getElem? ht) job htask e hmem
  · exact h t (List.mem_of_getElem? ht) job htask e hmem
  · cases hmem
  · have htask' := hcalled.task_eq.symm.trans htask
    rw [hcalled.log_eq] at hmem
    rcases List.mem_append.mp hmem with hold | hnew
    · exact h t (List.mem_of_getElem? hcalled.get) job htask' e hold
    · obtain rfl := List.mem_singleton.mp hnew
      exact hhealthy.not_hinders horigins hcalled htask'

theorem Healthy.orderly (h : Healthy s a) {a' : Step} (hact : (opened config).act? s a = some a') :
    Orderly Task.Keeps ⟨s.state.world, s.threads⟩ a' ∧ a'.InvokesOnly Task.Requested := by
  cases a with
  | invoke task =>
      obtain rfl := Option.some.inj hact
      have hrequested : task.Requested := h.invokes
      refine ⟨⟨?_, fun _ ↦ nofun, fun _ _ _ _ ↦ nofun⟩, hrequested⟩
      cases task with
      | createAndQueue userId dto => exact ⟨trivial, trivial⟩
      | retryFailedJob id => exact ⟨trivial, trivial⟩
      | _ => exact hrequested.elim
  | crash i => exact absurd rfl (h.no_crash i)
  | env l =>
      obtain rfl := Option.some.inj hact
      exact ⟨⟨trivial, fun _ ↦ nofun, fun _ _ _ _ ↦ nofun⟩, trivial⟩
  | call i o =>
      obtain ⟨c, hc, rfl⟩ := Option.map_eq_some_iff.mp hact
      refine ⟨⟨trivial, fun _ ↦ nofun, ?_⟩, trivial⟩
      intro i' f t c' heq hget hpending hinfrastructure
      obtain ⟨rfl, rfl⟩ := Act.call.inj heq
      have hget : s.threads[i]? = some t := hget
      obtain rfl : c = c' := by
        rw [hget] at hc
        exact Option.some.inj (hc.symm.trans hpending)
      cases o with
      | fate f => exact h.answers i f t c rfl hget hpending hinfrastructure
      | served lag =>
          change ∃ b, ((s.state.serve lag c).map fun p ↦ Fate.ok (.generation p.2)).getD
            (.ok .unit) = .ok b
          cases s.state.serve lag c with
          | none => exact ⟨_, rfl⟩
          | some p => exact ⟨_, rfl⟩

theorem Task.Requested.offered {task : Task} (h : task.Requested) : task.Offered := by
  cases task <;> trivial

theorem retriesApart_of_none {s : State} (h : ∀ id, s.state.failedJobs.find? id = none)
    (a : Step) : RetriesApart videoId s a := by
  intro i f t id record _ _ _ _ hrecord
  rw [h id] at hrecord
  cases hrecord

end Step

/-! ## Runs -/

section Runs

variable {config : StorageConfig} {simulationDelayMs : Option ℤ}
  {ts : List (Transition DeployedState DeployedStep)} {s : DeployedState} {videoId : String}

theorem unhindered_of_run (hrun : Run (deployed config).step
    ⟨⟨World.empty, FakeVideoProvider.create simulationDelayMs⟩, []⟩ ts s)
    (hhealthy : ∀ t ∈ ts, Healthy t.before t.act) :
    Unhindered s ∧ Origins ((opened config).views ts) ⟨s.state.world, s.threads⟩ := by
  induction hrun with
  | nil =>
      refine ⟨?_, Origins.start⟩
      intro t ht
      cases ht
  | @snoc ts s s' a head last ih =>
      obtain ⟨hunhindered, horigins⟩ := ih fun t ht ↦ hhealthy t (List.mem_append_left _ ht)
      have hstep := hhealthy ⟨s, a, s'⟩ (List.mem_append_right _ (List.mem_singleton_self _))
      obtain ⟨a', hview, hact, hfree⟩ := (opened config).transition?_of_step last
      rw [(opened config).views_snoc ts hview]
      exact ⟨hunhindered.step horigins hstep last,
        horigins.step (circulates_of_requested (hstep.orderly hact).2) hfree⟩

structure Flawless (w : World) : Prop where
  rows : ∀ videoId, w.statusOf videoId ≠ some .failed
  events : ∀ event, DomainEvent.failed event ∉ w.events
  records : ∀ id, w.failedJobs.find? id = none

theorem flawless_of_run (hrun : Run (deployed config).step
    ⟨⟨World.empty, FakeVideoProvider.create simulationDelayMs⟩, []⟩ ts s)
    (htimely : Timely ts) (hapart : (submissions ts).Nodup)
    (hswift : Swift (simulationDelayMs.getD 5000) ts)
    (hhealthy : ∀ t ∈ ts, Healthy t.before t.act) : Flawless s.state.world := by
  have hblamed := blamed_of_run hrun htimely hapart hswift fun t ht ↦
    (hhealthy t ht).invokes.mono fun _ ↦ Task.Requested.offered
  have hunhindered := (unhindered_of_run hrun hhealthy).1
  constructor
  · intro videoId hfailed
    exact hunhindered.not_hindered (hblamed.rows videoId hfailed)
  · intro event hevent
    exact hunhindered.not_hindered (hblamed.events event hevent)
  · intro id
    cases hrecord : s.state.world.failedJobs.find? id with
    | none => rfl
    | some record => exact absurd (hblamed.records id record hrecord) hunhindered.not_hindered

theorem undivided_of_run (hrun : Run (deployed config).step
    ⟨⟨World.empty, FakeVideoProvider.create simulationDelayMs⟩, []⟩ ts s)
    (htimely : Timely ts) (hapart : (submissions ts).Nodup)
    (hswift : Swift (simulationDelayMs.getD 5000) ts)
    (hhealthy : ∀ t ∈ ts, Healthy t.before t.act) :
    Undivided videoId ((opened config).views ts) := by
  induction hrun with
  | nil =>
      intro t ht
      cases ht
  | @snoc ts s s' a head last ih =>
      have hhealthy' : ∀ t ∈ ts, Healthy t.before t.act :=
        fun t ht ↦ hhealthy t (List.mem_append_left _ ht)
      have hswift' : Swift (simulationDelayMs.getD 5000) ts :=
        fun t ht ↦ hswift t (List.mem_append_left _ ht)
      have hstep := hhealthy ⟨s, a, s'⟩ (List.mem_append_right _ (List.mem_singleton_self _))
      obtain ⟨a', hview, hact, -⟩ := (opened config).transition?_of_step last
      have hflawless := flawless_of_run head htimely.head (nodup_head hapart) hswift' hhealthy'
      rw [(opened config).views_snoc ts hview]
      intro t ht
      rcases List.mem_append.mp ht with ht | ht
      · exact ih htimely.head (nodup_head hapart) hswift' hhealthy' t ht
      · obtain rfl := List.mem_singleton.mp ht
        exact ⟨(hstep.orderly hact).1, retriesApart_of_none hflawless.records a'⟩

theorem rowOk_of_run {ts : List (Transition State Step)} {s : State}
    (hrun : Run (system config).step ⟨World.empty, []⟩ ts s)
    (hinvoke : ∀ t ∈ ts, t.act.InvokesOnly Task.Managed) {row : Video}
    (hrow : s.state.videos.find? videoId = some row) : RowOk row := by
  induction hrun generalizing row with
  | nil => cases hrow
  | @snoc ts s s' a head last ih =>
      have hmanaged : ∀ t ∈ ts, t.act.InvokesOnly Task.Managed :=
        fun t ht ↦ hinvoke t (List.mem_append_left _ ht)
      rcases step_row last (run_conforming head) (managed_of_run head hmanaged) hrow with
        hsame | ⟨userId, dto, rfl⟩ | ⟨old, expected, fields, hold, hupdate, hguard, rfl⟩
      · exact ih hmanaged hsame
      · exact rowOk_create _ _ _ _
      · exact (ih hmanaged hold).assign hupdate hguard _

theorem Task.Requested.managed {task : Task} (h : task.Requested) : task.Managed := by
  cases task <;> trivial

/-- The video is completed with the simulator's file, and no job of it is left. -/
def Finished (videoId : String) (row : Video) (w : World) : Prop :=
  row.status = .completed ∧ row.videoUrl = some (buildVideoUrl videoId) ∧ w.liveJobsOf videoId = 0

/-- One job of the video is waiting or at work. -/
def InProgress (videoId : String) (row : Video) (w : World) : Prop :=
  (row.status = .pending ∨ row.status = .processing) ∧ w.liveJobsOf videoId = 1

theorem AtRest.open_or_completed {s : State} (h : AtRest videoId s) (hc : Custody videoId s)
    (hflawless : s.state.statusOf videoId ≠ some .failed) {row : Video}
    (hrow : s.state.videos.find? videoId = some row) :
    (row.status = .completed ∧ s.state.liveJobsOf videoId = 0) ∨
      InProgress videoId row s.state := by
  have hd := hc.calm.delivered
  have hcreating := h.no_calls (p := .creating) rfl
  have hunsaved := h.no_calls (p := .unsaved) rfl
  have hresetting := h.no_calls (p := .resetting) rfl
  have hreadding := h.no_calls (p := .readding) rfl
  have hpassed := h.no_calls (p := .passed) rfl
  have hmarked := h.no_jobs hd (.inr (.inl rfl))
  have hreported := h.no_jobs hd (.inr (.inr rfl))
  have hclaims : claims (ledgerOf videoId s).tokens = 0 := by
    unfold claims
    omega
  have hstatus : s.state.statusOf videoId = some row.status := by
    rw [World.statusOf, hrow]
    rfl
  have hledger : (ledgerOf videoId s).status = some row.status := hstatus
  have hlive := h.liveJobs hd
  have hsettled := hc.sound.settled (by omega) hmarked hclaims (by simp [hledger])
  rw [hledger] at hsettled
  rw [InProgress, hlive]
  rcases hsettled with ⟨hopen, hone, -⟩ | ⟨hclosed, hnone, -⟩ | ⟨hfailed, -⟩
  · exact .inr ⟨hopen.imp Option.some.inj Option.some.inj, hone⟩
  · exact .inl ⟨Option.some.inj hclosed, hnone⟩
  · exact absurd (hstatus.trans hfailed) hflawless

theorem finished_or_inProgress
    (hrun : Run (deployed config).step
      ⟨⟨World.empty, FakeVideoProvider.create simulationDelayMs⟩, []⟩ ts s)
    (htimely : Timely ts) (hapart : (submissions ts).Nodup)
    (hswift : Swift (simulationDelayMs.getD 5000) ts)
    (hhealthy : ∀ t ∈ ts, Healthy t.before t.act) {row : Video}
    (hrow : s.state.world.videos.find? videoId = some row)
    (hrest : AtRest videoId ⟨s.state.world, s.threads⟩) :
    Finished videoId row s.state.world ∨ InProgress videoId row s.state.world := by
  have hflawless := flawless_of_run hrun htimely hapart hswift hhealthy
  have hopened := ((opened config).run hrun).2
  have hcustody : Custody videoId ⟨s.state.world, s.threads⟩ :=
    custody_of_run hopened (undivided_of_run hrun htimely hapart hswift hhealthy)
  refine (hrest.open_or_completed hcustody (hflawless.rows videoId) hrow).imp_left ?_
  rintro ⟨hstatus, hlive⟩
  have hmanaged : ∀ t ∈ ts, t.act.InvokesOnly Task.Managed :=
    fun t ht ↦ (hhealthy t ht).invokes.mono fun _ ↦ Task.Requested.managed
  have hok := rowOk_of_run hopened ((opened config).invokesOnly hmanaged) hrow
  obtain ⟨⟨url, hurl, -⟩, -⟩ := hok.completed hstatus
  have hsourced := sourced_of_deployed hrun fun t ht ↦
    (hmanaged t ht).mono fun _ ↦ Task.Managed.givesNoUrl
  have hplace := (honest_of_run hrun).rendered ((hsourced.rows videoId row hrow).rendered url hurl)
  exact ⟨hstatus, hplace ▸ hurl, hlive⟩

/-- In every run of the deployed system in which users create and retry, the stores answer, no
worker dies, no timer fires early, no video is submitted twice in one millisecond and the
simulator is due within five minutes: nothing ever fails, is announced as failed or is
recorded, and every video at rest either has one job that is still to end, or is completed
with the simulator's file and has none. -/
theorem healthy_videos_complete
    (hrun : Run (deployed config).step
      ⟨⟨World.empty, FakeVideoProvider.create simulationDelayMs⟩, []⟩ ts s)
    (htimely : Timely ts) (hapart : (submissions ts).Nodup)
    (hswift : Swift (simulationDelayMs.getD 5000) ts)
    (hhealthy : ∀ t ∈ ts, Healthy t.before t.act) :
    Flawless s.state.world ∧
    ∀ videoId row, s.state.world.videos.find? videoId = some row →
      AtRest videoId ⟨s.state.world, s.threads⟩ →
        Finished videoId row s.state.world ∨ InProgress videoId row s.state.world := by
  refine ⟨flawless_of_run hrun htimely hapart hswift hhealthy, ?_⟩
  intro videoId row hrow hrest
  exact finished_or_inProgress hrun htimely hapart hswift hhealthy hrow hrest

end Runs

/-! ### A run that ends well -/

def isHealthy (t : Transition DeployedState DeployedStep) : Bool :=
  match t.act with
  | .invoke task => task.Requested
  | .crash _ => false
  | .call _ (.served _) => true
  | .call _ (.fate (.ok _)) => true
  | .call _ (.fate _) => (calling? t).all fun c ↦ !c.Infrastructure
  | .env _ => true

theorem healthy_of_isHealthy {t : Transition DeployedState DeployedStep}
    (h : isHealthy t = true) : Healthy t.before t.act := by
  obtain ⟨s, a, s'⟩ := t
  unfold isHealthy at h
  constructor
  · cases a with
    | invoke task => exact of_decide_eq_true h
    | _ => trivial
  · rintro i rfl
    cases h
  · rintro i f u c rfl hget hpending hinfrastructure
    have hcalling : calling? ⟨s, .call i (.fate f), s'⟩ = some c := by
      simp [calling?, hget, hpending]
    cases f with
    | ok b => exact ⟨b, rfl⟩
    | _ =>
        rw [hcalling] at h
        simp [hinfrastructure] at h

theorem healthy_videos_complete_simulated :
    ∃ (ts : List (Transition DeployedState DeployedStep)) (s : DeployedState) (row : Video),
      Run (deployed ⟨"bucket", none, "region"⟩).step
        ⟨⟨World.empty, FakeVideoProvider.create none⟩, []⟩ ts s ∧
      s.state.world.videos.find? "video" = some row ∧ row.status = .completed ∧
      Flawless s.state.world ∧
      (Finished "video" row s.state.world ∨ InProgress "video" row s.state.world) := by
  obtain ⟨ts, s, hrun, -, hobs⟩ := Run.exists_of_follow (deployed ⟨"bucket", none, "region"⟩).step
    ⟨⟨World.empty, FakeVideoProvider.create none⟩, []⟩ (simulatedActs ++ [.env (.settle 1)])
    (fun p ↦ (inTime [] p.1 && p.1.all fun t ↦ isSwift 5000 t && isHealthy t, submissions p.1,
      restsAt "video" ⟨p.2.state.world, p.2.threads⟩, p.2.state.world.statusOf "video"))
    (true, [("video", 0)], true, some .completed) (by decide +kernel)
  obtain ⟨hchecked, hobs⟩ := Prod.mk.inj hobs
  obtain ⟨htime, hchecked⟩ := Bool.and_eq_true_iff.mp hchecked
  have hchecked : ∀ t ∈ ts, isSwift 5000 t = true ∧ isHealthy t = true := by
    simpa using hchecked
  obtain ⟨hsubmissions, hobs⟩ := Prod.mk.inj hobs
  obtain ⟨hrests, hstatus⟩ := Prod.mk.inj hobs
  obtain ⟨row, hrow, hcompleted⟩ := World.statusOf_eq_some_iff.mp hstatus
  have hapart : (submissions ts).Nodup := by
    have hall : submissions ts = [("video", 0)] := hsubmissions
    rw [hall]
    exact List.nodup_singleton _
  obtain ⟨hflawless, hvideos⟩ := healthy_videos_complete hrun (timely_of_inTime htime) hapart
    (swift_of_isSwift (List.all_eq_true.mpr fun t ht ↦ (hchecked t ht).1))
    fun t ht ↦ healthy_of_isHealthy (hchecked t ht).2
  exact ⟨ts, s, row, hrun, hrow, hcompleted, hflawless,
    hvideos "video" row hrow (atRest_of_restsAt hrests)⟩

end VideoGen
