import Mathlib.Data.List.Induction
import VideoGen.ProgressReports
import VideoGen.TerminalEvents

/-!
# The event stream of one job

A job with its row to itself, run one attempt at a time, emits one block of
events for each attempt and at most one event that announces the end.  The
blocks are those of the executions, in the order of the attempts; what the
executions report along the way agrees with the row.
-/

namespace VideoGen

/-! ## The reports of a log -/

def track (log : List (Exchange interface)) : Track := log.foldl (fun t x ↦ t.next x.1 x.2) {}

@[simp] theorem track_nil : track [] = {} := rfl

@[simp] theorem track_append_singleton (log : List (Exchange interface))
    (x : Exchange interface) : track (log ++ [x]) = (track log).next x.1 x.2 := by
  simp [track]

def Reports (job : Job) (log : List (Exchange interface)) : Prop :=
  ∀ before x after, log = before ++ x :: after → (track before).Admits job x.1

theorem reports_nil (job : Job) : Reports job [] := by
  intro before x after h
  simp at h

theorem Reports.snoc {job : Job} {log : List (Exchange interface)} (h : Reports job log)
    {x : Exchange interface} (hx : (track log).Admits job x.1) : Reports job (log ++ [x]) := by
  intro before y after heq
  rcases List.eq_nil_or_concat after with rfl | ⟨after, z, rfl⟩
  · obtain ⟨rfl, hxy⟩ := List.append_inj' heq rfl
    obtain rfl := List.singleton_inj.mp hxy
    exact hx
  · rw [List.concat_eq_append, ← List.cons_append, ← List.append_assoc] at heq
    obtain ⟨rfl, -⟩ := List.append_inj' heq rfl
    exact h before y after rfl

theorem Track.next_events (t : Track) (c : Call) (r : Except Thrown c.Reply) :
    (t.next c r).events = t.events ++ match c with
      | .emit event => [event]
      | _ => [] := by
  cases c with
  | generateVideo params videoId => cases r <;> simp [Track.next]
  | getGenerationStatus jobId => cases r <;> simp [Track.next]
  | _ => simp [Track.next]

theorem Reports.isAttempt {job : Job} {log : List (Exchange interface)} (h : Reports job log) :
    IsAttempt job (track log).events := by
  induction log using List.reverseRecOn with
  | nil =>
      apply IsBlock.isAttempt
      exact .inl rfl
  | append_singleton log x ih =>
      have hx := h log x [] rfl
      have hlog : Reports job log := by
        intro before y after heq
        exact h before y (after ++ [x]) (by rw [heq]; simp)
      obtain ⟨c, r⟩ := x
      rw [track_append_singleton, Track.next_events]
      cases c with
      | emit event => exact hx.1
      | _ =>
          rw [List.append_nil]
          exact ih hlog

/-- The log of an execution, and what is left of its program, conform to the automaton. -/
def Tracked (config : StorageConfig) (t : Worker) : Prop :=
  ∀ job, t.task = .process job → Reports job t.log ∧
    t.prog.Keeps (trackProtocol job).spec (fun tr r ↦ tr.Ends config job (r.map fun _ ↦ ()))
      (track t.log)

section System

variable {config : StorageConfig} {s s' : State} {job : Job}

theorem step_tracked {a : Step} (hstep : (system config).step s a = some s')
    (hs : ∀ t ∈ s.threads, Tracked config t) : ∀ t ∈ s'.threads, Tracked config t := by
  refine Machine.step_forall_threads hstep (fun task ↦ ?_) ?_ (fun t h ↦ h) hs
  · rintro job ⟨⟩
    refine ⟨reports_nil job, Program.keeps_map.mpr ?_⟩
    refine Program.Keeps.mono ?_ tracks_process
    rintro tr (e | x) h
    · exact h
    · exact h
  · intro t c next f w r _ hprog hexec h job htask
    obtain ⟨hreports, hkeeps⟩ := h job htask
    rw [hprog] at hkeeps
    refine ⟨hreports.snoc hkeeps.1, ?_⟩
    rw [Thread.resume_log, track_append_singleton]
    exact hkeeps.2 r _ ⟨World.possible_of_exec hexec, rfl⟩

/-! ## The events of a run -/

def Transition.jobEvent? (id : ℕ) (t : Transition State Step) : Option DomainEvent :=
  match t.act with
  | .call i _ => t.before.threads[i]?.bind fun u ↦
      if u.task.Executes id then
        match u.pending? with
        | some (.emit event) => some event
        | _ => none
      else none
  | _ => none

def jobEvents (id : ℕ) (ts : List (Transition State Step)) : List DomainEvent :=
  ts.filterMap (Transition.jobEvent? id)

/-- The blocks of the attempts with the given numbers, which increase. -/
structure IsBlocks (job : Job) (blocks : List (ℕ × List DomainEvent)) : Prop where
  increasing : (blocks.map Prod.fst).Pairwise (· < ·)
  block : ∀ b ∈ blocks, IsBlock (job.attempt b.1) b.2

/-- Blocks of attempts one after the other, and at most one announcement at the end. -/
def Grammar (job : Job) (events : List DomainEvent) : Prop :=
  ∃ blocks last, events = (blocks.map Prod.snd).flatten ++ last ∧ IsBlocks job blocks ∧
    IsLast job last

/-- The events of the attempts before the given one, none of which announced an end. -/
def Earlier (job : Job) (n : ℕ) (events : List DomainEvent) : Prop :=
  ∃ blocks, events = (blocks.map Prod.snd).flatten ∧ IsBlocks job blocks ∧
    ∀ b ∈ blocks, b.1 < n

theorem Earlier.grammar {n : ℕ} {events : List DomainEvent} (h : Earlier job n events) :
    Grammar job events := by
  obtain ⟨blocks, rfl, hblocks, -⟩ := h
  exact ⟨blocks, [], by simp, hblocks, .inl rfl⟩

theorem Earlier.succ {n : ℕ} {events block : List DomainEvent} (h : Earlier job n events)
    (hblock : IsBlock (job.attempt n) block) : Earlier job (n + 1) (events ++ block) := by
  obtain ⟨blocks, rfl, hblocks, hlt⟩ := h
  refine ⟨blocks ++ [(n, block)], by simp, ?_, ?_⟩
  · constructor
    · rw [List.map_append, List.pairwise_append]
      refine ⟨hblocks.increasing, by simp, ?_⟩
      intro m hm k hk
      obtain ⟨b, hb, rfl⟩ := List.mem_map.mp hm
      obtain rfl : k = n := by simpa using hk
      exact hlt b hb
    · intro b hb
      rcases List.mem_append.mp hb with hb | hb
      · exact hblocks.block b hb
      · obtain rfl := List.mem_singleton.mp hb
        exact hblock
  · intro b hb
    rcases List.mem_append.mp hb with hb | hb
    · have hbefore := hlt b hb
      omega
    · obtain rfl := List.mem_singleton.mp hb
      exact Nat.lt_succ_self n

theorem Earlier.grammar_append {n : ℕ} {past events : List DomainEvent}
    (h : Earlier job n past) (hattempt : IsAttempt (job.attempt n) events) :
    Grammar job (past ++ events) := by
  obtain ⟨block, last, rfl, hblock, hlast⟩ := hattempt
  obtain ⟨blocks, hblocks, hisBlocks, -⟩ := h.succ hblock
  exact ⟨blocks, last, by rw [← List.append_assoc, hblocks], hisBlocks, hlast⟩

/-- What the events of the job tell in each of its states. -/
def Streams (job : Job) (s : State) (q : QueuedJob) (events : List DomainEvent) : Prop :=
  match q.state with
  | .waiting => Earlier job q.job.attemptsMade events
  | .delayed => Earlier job q.job.attemptsMade events
  | .active i => ∃ t past, s.threads[i]? = some t ∧ t.task = .process q.job ∧
      events = past ++ (track t.log).events ∧ Earlier job q.job.attemptsMade past
  | .completed => Grammar job events
  | .failed => Grammar job events

theorem jobEvent?_env (id : ℕ) (s s' : State) (l : EnvStep) :
    Transition.jobEvent? id ⟨s, .env l, s'⟩ = none := rfl

theorem jobEvent?_none {a : Step} (hs : Conforming s)
    (hstep : (system config).step s a = some s')
    (hkept : ∀ i t, s.threads[i]? = some t → t.task.Executes job.id →
      s'.threads[i]? = some t ∨
        (a = .crash i ∧ s'.threads[i]? = some { t with crashed := true })) :
    Transition.jobEvent? job.id ⟨s, a, s'⟩ = none := by
  cases a with
  | call i f =>
      obtain ⟨t, t', c, r, h⟩ := answered_of_step hstep hs
      have hnot : ¬t.task.Executes job.id := by
        intro hexec
        rcases hkept i t h.get hexec with hsame | ⟨ha, -⟩
        · have hlog : t'.log = t.log ++ [⟨c, r⟩] := h.log_eq
          obtain rfl := Option.some.inj (hsame.symm.trans h.get_self)
          simpa using congrArg List.length hlog
        · cases ha
      simp [Transition.jobEvent?, h.get, hnot]
  | _ => rfl

theorem jobEvent?_answered {i : ℕ} {f : Fate} {t t' : Worker} {c : Call}
    {r : Except Thrown c.Reply} (h : Answered config s s' i f t t' c r)
    (hexec : t.task.Executes job.id) : (track t'.log).events = (track t.log).events ++
      (Transition.jobEvent? job.id ⟨s, .call i f, s'⟩).toList := by
  have hlog : t'.log = t.log ++ [⟨c, r⟩] := h.log_eq
  have hpending : t.pending? = some c := h.pending
  rw [hlog, track_append_singleton, Track.next_events]
  cases c <;> simp [Transition.jobEvent?, h.get, hexec, hpending]

theorem streams_settle {q : QueuedJob} {events : List DomainEvent} {i : ℕ} {t : Worker}
    {r : Except Thrown Value} (hisOf : q.IsOf job) (htracked : ∀ t ∈ s.threads, Tracked config t)
    (hactive : q.state = .active i) (hget : s.threads[i]? = some t)
    (hprog : t.prog = .done r) (h : Streams job s q events) :
    Streams job s' (q.settle r) events := by
  unfold Streams at h
  simp only [hactive] at h
  obtain ⟨t₀, past, hget₀, htask, rfl, hpast⟩ := h
  obtain rfl := Option.some.inj (hget.symm.trans hget₀)
  obtain ⟨hreports, hkeeps⟩ := htracked t (List.mem_of_getElem? hget) q.job htask
  have hattempt : IsAttempt (job.attempt q.job.attemptsMade) (track t.log).events := by
    have hsame : q.job = job.attempt q.job.attemptsMade := hisOf
    rw [← hsame]
    exact hreports.isAttempt
  cases r with
  | ok x => exact hpast.grammar_append hattempt
  | error e =>
      by_cases hagain : q.job.Retryable
      · rw [hprog] at hkeeps
        rcases hkeeps with hfinal | hblock
        · exact absurd hagain ((isFinalAttempt_iff_not_retryable _).mp hfinal)
        · have hsame : q.job = job.attempt q.job.attemptsMade := hisOf
          rw [hsame] at hblock
          have hnext := hpast.succ hblock
          unfold Streams
          simp only [QueuedJob.settle, if_pos hagain]
          split_ifs <;> exact hnext
      · unfold Streams
        simp only [QueuedJob.settle, if_neg hagain]
        exact hpast.grammar_append hattempt

theorem streams_step {a : Step} {q : QueuedJob} {events : List DomainEvent}
    (hs : Conforming s) (hd : Delivered job.id s) (htracked : ∀ t ∈ s.threads, Tracked config t)
    (hu : Undisturbed job s a) (honce : a ≠ .env (.stall job.id))
    (hstep : (system config).step s a = some s') (hq : s.state.queue.find? job.id = some q)
    (hisOf : q.IsOf job) (h : Streams job s q events) :
    ∃ q', s'.state.queue.find? job.id = some q' ∧ q'.IsOf job ∧
      Streams job s' q' (events ++ (Transition.jobEvent? job.id ⟨s, a, s'⟩).toList) := by
  rcases solo_cases hs hd hu hstep hq with ⟨hq', -, hkept⟩ |
    ⟨l, tasks, q', rfl, hmove, hq', -, hthreads⟩ |
    ⟨i, f, t, t', c, r, phase, rfl, hcall, hactive, hq', hstage, -, -⟩
  · refine ⟨q, hq', hisOf, ?_⟩
    rw [jobEvent?_none hs hstep hkept, Option.toList_none, List.append_nil]
    unfold Streams at h ⊢
    cases hstate : q.state with
    | active i =>
        simp only [hstate] at h ⊢
        obtain ⟨t, past, hget, htask, hevents, hpast⟩ := h
        have hexec : t.task.Executes job.id := by
          rw [htask]
          exact executes_of_find? hq
        rcases hkept i t hget hexec with hget' | ⟨-, hget'⟩
        · exact ⟨t, past, hget', htask, hevents, hpast⟩
        · exact ⟨_, past, hget', htask, hevents, hpast⟩
    | _ => simpa only [hstate] using h
  · refine ⟨q', hq', hmove.isOf hisOf, ?_⟩
    rw [jobEvent?_env, Option.toList_none, List.append_nil]
    cases hmove with
    | take hwaiting =>
        unfold Streams at h
        simp only [hwaiting] at h
        refine ⟨(system config).start (.process q.job), events, ?_, rfl, by simp, h⟩
        rw [hthreads]
        simp
    | promote hdelayed =>
        unfold Streams at h
        simp only [hdelayed] at h
        exact h
    | settle hactive hget halive hprog =>
        exact streams_settle hisOf htracked hactive hget hprog h
    | stall hactive hget hcrashed => exact absurd rfl honce
  · refine ⟨q, hq', hisOf, ?_⟩
    unfold Streams at h ⊢
    simp only [hactive] at h ⊢
    obtain ⟨t₀, past, hget₀, htask, rfl, hpast⟩ := h
    obtain rfl := Option.some.inj (hcall.get.symm.trans hget₀)
    refine ⟨t', past, hcall.get_self, hcall.task_eq.trans htask, ?_, hpast⟩
    have hexec : t.task.Executes job.id := by
      rw [htask]
      exact executes_of_find? hq
    rw [List.append_assoc, jobEvent?_answered hcall hexec]

/-! ## The row behind the reports -/

/-- While the attempt renders, and after its completing transition, the row shows the
percentage that was written last. -/
def Told (job : Job) (w : World) (log : List (Exchange interface)) : Phase → Prop
  | .working => ∃ row percent, w.videos.find? job.data.videoId = some row ∧
      row.status = .processing ∧ (track log).written = some percent ∧
      row.metadataAt "progressPercent" = .number percent
  | .completed _ _ => ∃ row percent, w.videos.find? job.data.videoId = some row ∧
      (track log).written = some percent ∧ row.metadataAt "progressPercent" = .number percent
  | _ => True

theorem metadataAt_assign {fields : VideoFields} {key : String} {n : ℤ}
    (h : fields.storedNumber? key = some n) (row : Video) (now : ℕ) :
    (row.assign fields now).metadataAt key = .number n := by
  unfold VideoFields.storedNumber? at h
  split at h
  · rename_i metadata hmetadata
    split at h
    · rename_i m hm
      obtain rfl := Option.some.inj h
      simp [Video.metadataAt, Video.assign, hmetadata, hm]
    · cases h
  · cases h

theorem Told.mono {w w' : World} {log : List (Exchange interface)} {phase : Phase}
    (h : Told job w log phase)
    (hrow : ∀ row, w.videos.find? job.data.videoId = some row →
      w'.videos.find? job.data.videoId = some row) : Told job w' log phase := by
  cases phase with
  | working =>
      obtain ⟨row, percent, hfind, hrest⟩ := h
      exact ⟨row, percent, hrow row hfind, hrest⟩
  | completed applied event =>
      obtain ⟨row, percent, hfind, hrest⟩ := h
      exact ⟨row, percent, hrow row hfind, hrest⟩
  | _ => trivial

theorem track_written {log : List (Exchange interface)} {id : String}
    {expected : Option VideoStatus} {fields : VideoFields} {percent : ℤ}
    (h : fields.storedNumber? "progressPercent" = some percent) (r : Except Thrown ℕ) :
    (track (log ++ [⟨.updateVideo id expected fields, r⟩])).written = some percent := by
  rw [track_append_singleton]
  change (fields.storedNumber? "progressPercent" <|> _) = _
  rw [h]
  rfl

theorem track_unwritten (log : List (Exchange interface)) {c : Call}
    (hc : c.WritesVideos = false) (r : Except Thrown c.Reply) :
    (track (log ++ [⟨c, r⟩])).written = (track log).written := by
  rw [track_append_singleton]
  cases c with
  | updateVideo id expected fields => cases hc
  | generateVideo params videoId => cases r <;> rfl
  | getGenerationStatus id => cases r <;> rfl
  | _ => rfl

theorem row_of_affected {w w' : World} {b : Answer} {id : String}
    {expected : Option VideoStatus} {fields : VideoFields} {n : ℕ}
    (h : w.answer (.updateVideo id expected fields) b = some (w', n)) (hn : n ≠ 0) :
    ∃ row : Video, w'.videos.find? id = some (row.assign fields w.now) := by
  obtain ⟨-, hcount⟩ := World.answer_updateVideo h
  obtain ⟨row, hrow, hguard⟩ := (World.updateVideo_affected _ _ _ _).mp (hcount ▸ hn)
  rcases World.row_of_update h hrow with ⟨-, -, hfind⟩ | ⟨hmiss, -⟩
  · exact ⟨row, hfind⟩
  · rw [hmiss] at hguard
    cases hguard

theorem told_answered {i : ℕ} {f : Fate} {t t' : Worker} {c : Call} {r : Except Thrown c.Reply}
    {phase : Phase} {n : ℕ} (h : Answered config s s' i f t t' c r)
    (hallows : WorkerAllows (job.attempt n) phase c) (htold : Told job s.state t.log phase) :
    Told job s'.state t'.log (phase.next c r) := by
  have hlog : t'.log = t.log ++ [⟨c, r⟩] := h.log_eq
  rw [hlog]
  have hkeeps (hc : c.WritesVideos = false) : Told job s'.state (t.log ++ [⟨c, r⟩]) phase := by
    have hsame : Told job s'.state t.log phase := htold.mono fun row hrow ↦ by
      rw [World.exec_videos h.exec hc]
      exact hrow
    have hwritten := track_unwritten t.log hc r
    unfold Told at hsame ⊢
    cases phase <;> simp only [hwritten] at hsame ⊢ <;> exact hsame
  cases hallows with
  | load => rcases r with e | _ | video <;> trivial
  | start status hallowed =>
      rcases r with e | affected
      · trivial
      change Told job _ _ (if (affected : ℕ) = 0 then Phase.skipped else Phase.working)
      split
      · trivial
      · rename_i hne
        obtain ⟨-, b, hx⟩ := World.exec_ok h.exec
        obtain ⟨row, hrow⟩ := row_of_affected hx hne
        exact ⟨_, 10, hrow, rfl, track_written storedNumber?_startExtra _,
          metadataAt_assign storedNumber?_startExtra row _⟩
  | quiet _ hquiet =>
      have hworking := hkeeps (by cases c <;> first | rfl | cases hquiet)
      rw [Phase.next_quiet hquiet]
      rcases r with e | x
      · by_cases hcaught : c.Caught = true
        · simpa [hcaught] using hworking
        · simp [hcaught, Told]
      · exact hworking
  | progress u =>
      rcases r with e | affected
      · trivial
      obtain ⟨row, percent, hrow, hprocessing, -⟩ := htold
      obtain ⟨-, b, hx⟩ := World.exec_ok h.exec
      have hfields : u.fields.storedNumber? "progressPercent" = some u.percent :=
        storedNumber?_progressFields u.percent u.message u.keeps_percent
      rcases World.row_of_update hx hrow with ⟨-, -, hfind⟩ | ⟨hmiss, -⟩
      · exact ⟨_, u.percent, hfind, hprocessing, track_written hfields _,
          metadataAt_assign hfields row _⟩
      · simp [hprocessing] at hmiss
  | complete url thumbnail hurl =>
      rcases r with e | affected
      · trivial
      obtain ⟨row, percent, hrow, hprocessing, -⟩ := htold
      obtain ⟨-, b, hx⟩ := World.exec_ok h.exec
      have hfields := storedNumber?_completeExtra url thumbnail
      rcases World.row_of_update hx hrow with ⟨-, -, hfind⟩ | ⟨hmiss, -⟩
      · exact ⟨_, 100, hfind, track_written hfields _, metadataAt_assign hfields row _⟩
      · simp [hprocessing] at hmiss
  | stamp applied event => exact hkeeps rfl
  | cache applied event key value => exact hkeeps rfl
  | record applied event => cases r <;> trivial
  | announce applied event => trivial
  | mark _ hphase hfinal message =>
      rw [next_mark hphase]
      cases r <;> trivial
  | evict message key => trivial
  | report message => trivial

def TellsRow (job : Job) (s : State) (q : QueuedJob) : Prop :=
  ∀ i t phase, q.state = .active i → s.threads[i]? = some t →
    stageOf t = .worker q.job phase → Told job s.state t.log phase

theorem tellsRow_step {a : Step} {q q' : QueuedJob} (hs : Conforming s)
    (hd : Delivered job.id s) (hu : Undisturbed job s a)
    (hstep : (system config).step s a = some s') (hq : s.state.queue.find? job.id = some q)
    (hisOf : q.IsOf job) (hq' : s'.state.queue.find? job.id = some q')
    (h : TellsRow job s q) : TellsRow job s' q' := by
  intro j u phase' hactive' hget' hstage'
  rcases solo_cases hs hd hu hstep hq with ⟨hsame, hunchanged, hkept⟩ |
    ⟨l, tasks, q'', rfl, hmove, hq'', hunchanged, hthreads⟩ |
    ⟨i, f, t, t', c, r, phase, rfl, hcall, hactive, hsame, hstage, hallows, hnext⟩
  · obtain rfl := Option.some.inj (hsame.symm.trans hq')
    obtain ⟨t, hget, htask⟩ := hd.held q j hq hactive'
    have hexec : t.task.Executes job.id := by
      rw [htask]
      exact executes_of_find? hq
    rcases hkept j t hget hexec with hgot | ⟨-, hgot⟩
    · obtain rfl := Option.some.inj (hgot.symm.trans hget')
      exact (h j t phase' hactive' hget hstage').mono hunchanged.row
    · obtain rfl := Option.some.inj (hgot.symm.trans hget')
      exact (h j t phase' hactive' hget hstage').mono hunchanged.row
  · obtain rfl := Option.some.inj (hq''.symm.trans hq')
    obtain ⟨rfl, -, -, rfl⟩ := hmove.not_active hactive'
    rw [hthreads] at hget'
    simp only [List.map_cons, List.map_nil, List.getElem?_concat_length,
      Option.some.injEq] at hget'
    obtain rfl := hget'
    obtain rfl := fresh_of_start hstage'
    trivial
  · obtain rfl := Option.some.inj (hsame.symm.trans hq')
    obtain rfl := JobState.active.inj (hactive.symm.trans hactive')
    obtain rfl := Option.some.inj (hcall.get_self.symm.trans hget')
    obtain ⟨-, rfl⟩ := Stage.worker.inj (hnext.symm.trans hstage')
    have hattempt : q.job = job.attempt q.job.attemptsMade := hisOf
    rw [hattempt] at hallows
    exact told_answered hcall hallows (h i t phase hactive hcall.get hstage)

/-! ## The whole run -/

structure Observed (config : StorageConfig) (job : Job) (ts : List (Transition State Step)) (s : State)
    (q : QueuedJob) : Prop where
  conforming : Conforming s
  delivered : Delivered job.id s
  tracked : ∀ t ∈ s.threads, Tracked config t
  found : s.state.queue.find? job.id = some q
  isOf : q.IsOf job
  streams : Streams job s q (jobEvents job.id ts)
  tells : TellsRow job s q

theorem observed_start {w : World} (hw : Awaits job w) : ∃ q, Observed config job [] ⟨w, []⟩ q := by
  obtain ⟨q, hq, hjob, hwaiting⟩ := hw.queued
  refine ⟨q, ?_⟩
  constructor
  · simp [Conforming]
  · apply delivered_start
    intro q' i hq' hactive
    obtain rfl := Option.some.inj (hq.symm.trans hq')
    rw [hwaiting] at hactive
    cases hactive
  · simp
  · exact hq
  · change q.job = _
    rw [hjob]
    rfl
  · unfold Streams
    simp only [hwaiting]
    exact ⟨[], rfl, ⟨List.Pairwise.nil, by simp⟩, by simp⟩
  · intro i t phase hactive
    rw [hwaiting] at hactive
    cases hactive

theorem run_observed {w : World} {ts : List (Transition State Step)} (hw : Awaits job w)
    (hrun : Run (system config).step ⟨w, []⟩ ts s)
    (hundisturbed : ∀ t ∈ ts, Undisturbed job t.before t.act)
    (honce : ∀ t ∈ ts, t.act ≠ .env (.stall job.id)) : ∃ q, Observed config job ts s q := by
  induction hrun with
  | nil => exact observed_start hw
  | @snoc ts s s' a head last ih =>
      obtain ⟨q, h⟩ := ih (fun t ht ↦ hundisturbed t (List.mem_append_left _ ht))
        fun t ht ↦ honce t (List.mem_append_left _ ht)
      have hu : Undisturbed job s a := hundisturbed ⟨s, a, s'⟩ (by simp)
      obtain ⟨q', hq', hisOf', hstreams'⟩ := streams_step h.conforming h.delivered h.tracked hu
        (honce ⟨s, a, s'⟩ (by simp)) last h.found h.isOf h.streams
      refine ⟨q', step_conforming last h.conforming,
        step_delivered last h.conforming hu.invokes h.delivered, step_tracked last h.tracked,
        hq', hisOf', ?_, tellsRow_step h.conforming h.delivered hu last h.found h.isOf hq'
          h.tells⟩
      have hevents : jobEvents job.id (ts ++ [⟨s, a, s'⟩]) = jobEvents job.id ts ++
          (Transition.jobEvent? job.id ⟨s, a, s'⟩).toList := by
        unfold jobEvents
        rw [List.filterMap_append]
        cases hevent : Transition.jobEvent? job.id ⟨s, a, s'⟩ <;> simp [hevent]
      rw [hevents]
      exact hstreams'

theorem Observed.grammar {ts : List (Transition State Step)} {q : QueuedJob}
    (h : Observed config job ts s q) : Grammar job (jobEvents job.id ts) := by
  have hstreams := h.streams
  unfold Streams at hstreams
  cases hstate : q.state with
  | waiting =>
      simp only [hstate] at hstreams
      exact hstreams.grammar
  | delayed =>
      simp only [hstate] at hstreams
      exact hstreams.grammar
  | active i =>
      simp only [hstate] at hstreams
      obtain ⟨t, past, hget, htask, hevents, hpast⟩ := hstreams
      obtain ⟨hreports, -⟩ := h.tracked t (List.mem_of_getElem? hget) q.job htask
      have hattempt : q.job = job.attempt q.job.attemptsMade := h.isOf
      rw [hattempt] at hreports
      rw [hevents]
      exact hpast.grammar_append hreports.isAttempt
  | completed =>
      simp only [hstate] at hstreams
      exact hstreams
  | failed =>
      simp only [hstate] at hstreams
      exact hstreams

def Passes (job : Job) (percent : ℤ) (t : Transition State Step) : Prop :=
  ∃ i f u jobId, t.act = .call i f ∧ t.before.threads[i]? = some u ∧ u.task.Executes job.id ∧
    u.pending? = some (.jobUpdateProgress jobId percent)

theorem Observed.row_of_passes {ts : List (Transition State Step)} {q : QueuedJob}
    {t : Transition State Step} (h : Observed config job ts t.before q)
    (hstep : (system config).step t.before t.act = some t.after) {percent : ℤ}
    (hpasses : Passes job percent t) :
    ∃ row, t.before.state.videos.find? job.data.videoId = some row ∧
      row.metadataAt "progressPercent" = .number percent := by
  obtain ⟨i, f, u, jobId, hact, hget, hexec, hpending⟩ := hpasses
  rw [hact] at hstep
  obtain ⟨u₀, u', c, r, hcall⟩ := answered_of_step hstep h.conforming
  obtain rfl : u = u₀ := Option.some.inj (hget.symm.trans hcall.get)
  obtain rfl : .jobUpdateProgress jobId percent = c :=
    Option.some.inj (hpending.symm.trans hcall.pending)
  obtain ⟨q₀, hq₀, hactive, htask⟩ :=
    h.delivered.running i u hget hexec (not_ended_of_answered hcall)
  obtain rfl := Option.some.inj (h.found.symm.trans hq₀)
  obtain ⟨phase, hphase⟩ := stageOf_process htask
  have htold := h.tells i u phase hactive hget hphase
  obtain ⟨next, hprog⟩ := Thread.pending?_eq_some_iff.mp hpending
  obtain ⟨-, hkeeps⟩ := h.tracked u (List.mem_of_getElem? hget) q.job htask
  rw [hprog] at hkeeps
  have hwritten : (track u.log).written = some percent := hkeeps.1.1
  have hallows := allows_of_answered hcall
  rw [hphase] at hallows
  cases hallows with
  | worker hallows =>
      cases hallows with
      | quiet _ _ =>
          obtain ⟨row, p, hrow, -, hp, hpercent⟩ := htold
          obtain rfl := Option.some.inj (hp.symm.trans hwritten)
          exact ⟨row, hrow, hpercent⟩
      | record applied event =>
          obtain ⟨row, p, hrow, hp, hpercent⟩ := htold
          obtain rfl := Option.some.inj (hp.symm.trans hwritten)
          exact ⟨row, hrow, hpercent⟩

/-- The events of the job form the blocks of its attempts with at most one announcement
at the end; every execution reports as its automaton admits; and what is passed to
`job.updateProgress` is what the row shows. -/
theorem job_reports {w : World} {ts : List (Transition State Step)} (hw : Awaits job w)
    (hrun : Run (system config).step ⟨w, []⟩ ts s)
    (hundisturbed : ∀ t ∈ ts, Undisturbed job t.before t.act)
    (honce : ∀ t ∈ ts, t.act ≠ .env (.stall job.id)) :
    Grammar job (jobEvents job.id ts) ∧
    (∀ t ∈ s.threads, ∀ attempt, t.task = .process attempt → Reports attempt t.log) ∧
    ∀ t ∈ ts, ∀ percent, Passes job percent t →
      ∃ row, t.before.state.videos.find? job.data.videoId = some row ∧
        row.metadataAt "progressPercent" = .number percent := by
  obtain ⟨q, h⟩ := run_observed hw hrun hundisturbed honce
  refine ⟨h.grammar, fun t ht attempt htask ↦ (h.tracked t ht attempt htask).1, ?_⟩
  intro t ht percent hpasses
  obtain ⟨pre, post, rfl, hpre, hstep⟩ := hrun.exists_prefix ht
  obtain ⟨q₀, h₀⟩ := run_observed hw hpre (fun u hu ↦ hundisturbed u (by simp [hu]))
    fun u hu ↦ honce u (by simp [hu])
  exact h₀.row_of_passes hstep hpasses

end System

/-! ## Two runs -/

/-- The first attempt cannot read the row; the last one starts, cannot report its start
and marks the row as failed. -/
def givenUpActs : List Step :=
  [.env (.take 1), .call 0 (.rejected (.instance .error "first")), .env (.settle 1),
    .env (.take 1)] ++ List.replicate 4 (okStep 1) ++
    [.call 1 (.rejected (.instance .error "second")), okStep 1]

/-- No step gives the job of a dead worker back. -/
def noStall (t : Transition State Step) : Bool :=
  match t.act with
  | .env (.stall _) => false
  | _ => true

theorem ne_stall {t : Transition State Step} (h : noStall t = true) (jobId : ℕ) :
    t.act ≠ .env (.stall jobId) := by
  intro hact
  simp [noStall, hact] at h

theorem job_reports_second_attempt :
    ∃ (ts : List (Transition State Step)) (s : State),
      Run (system ⟨"bucket", none, "region"⟩).step ⟨soloWorld, []⟩ ts s ∧
      jobEvents 1 ts = [.processingStarted "video" 2, .progressUpdated "video" 42
        "Rendering... (poll 1/30)", .completed ⟨"video", "url", none⟩] ∧
      Grammar soloJob (jobEvents 1 ts) := by
  obtain ⟨ts, s, hrun, -, hobs⟩ := Run.exists_of_follow
    (system ⟨"bucket", none, "region"⟩).step ⟨soloWorld, []⟩ secondAttemptActs
    (fun p ↦ decide (p.1.all (regular soloJob) = true ∧ p.1.all noStall = true ∧
      jobEvents 1 p.1 = [.processingStarted "video" 2, .progressUpdated "video" 42
        "Rendering... (poll 1/30)", .completed ⟨"video", "url", none⟩])) true
    (by decide +kernel)
  obtain ⟨hregular, hstall, hevents⟩ := of_decide_eq_true hobs
  refine ⟨ts, s, hrun, hevents, (job_reports soloWorld_awaits hrun ?_ ?_).1⟩
  · intro t ht
    exact (regular_of_regular (List.all_eq_true.mp hregular t ht)).toUndisturbed
  · intro t ht
    exact ne_stall (List.all_eq_true.mp hstall t ht) 1

/-- Whether the last exchange of the log writes the percentage, without a completing
transition before it. -/
def endsWriting (percent : ℤ) (log : List (Exchange interface)) : Bool :=
  match log.getLast? with
  | some ⟨.updateVideo _ _ fields, _⟩ => !(track log.dropLast).completed &&
      decide (fields.status ≠ some .completed ∧
        fields.storedNumber? "progressPercent" = some percent)
  | _ => false

theorem not_rises_of_endsWriting {percent : ℤ} {log : List (Exchange interface)}
    (h : endsWriting percent log = true) (hlow : percent < 10) :
    ∃ before id expected fields r after,
      log = before ++ ⟨.updateVideo id expected fields, r⟩ :: after ∧
        ¬(track before).Rises fields := by
  unfold endsWriting at h
  split at h
  · rename_i id expected fields r hlast
    simp only [Bool.and_eq_true, Bool.not_eq_true', decide_eq_true_eq] at h
    obtain ⟨hcompleted, hstatus, hpercent⟩ := h
    refine ⟨log.dropLast, id, expected, fields, r, [],
      (List.dropLast_append_getLast? _ hlast).symm, ?_⟩
    intro hrises
    have hten := (hrises percent hpercent hstatus hcompleted).1
    omega
  · cases h

/-- The last attempt writes 0 to its row, although no completing transition came. -/
theorem progress_falls : ∃ (ts : List (Transition State Step)) (s : State),
    Run (system ⟨"bucket", none, "region"⟩).step ⟨soloWorld, []⟩ ts s ∧
      Awaits soloJob soloWorld ∧ (∀ t ∈ ts, Undisturbed soloJob t.before t.act) ∧
      (∀ t ∈ ts, t.act ≠ .env (.stall soloJob.id)) ∧
      ∃ t ∈ s.threads, t.task.Executes soloJob.id ∧
        ∃ before id expected fields r after,
          t.log = before ++ ⟨.updateVideo id expected fields, r⟩ :: after ∧
            ¬(track before).Rises fields := by
  obtain ⟨ts, s, hrun, -, hobs⟩ := Run.exists_of_follow
    (system ⟨"bucket", none, "region"⟩).step ⟨soloWorld, []⟩ givenUpActs
    (fun p ↦ decide (p.1.all (regular soloJob) = true ∧ p.1.all noStall = true ∧
      p.2.threads.any (fun t ↦ decide (t.task.Executes 1) && endsWriting 0 t.log) = true)) true
    (by decide +kernel)
  obtain ⟨hregular, hstall, hany⟩ := of_decide_eq_true hobs
  obtain ⟨t, ht, hwrites⟩ := List.any_eq_true.mp hany
  obtain ⟨hexec, hends⟩ := (Bool.and_eq_true _ _).mp hwrites
  refine ⟨ts, s, hrun, soloWorld_awaits, ?_, ?_, t, ht, of_decide_eq_true hexec,
    not_rises_of_endsWriting hends (by omega)⟩
  · intro u hu
    exact (regular_of_regular (List.all_eq_true.mp hregular u hu)).toUndisturbed
  · intro u hu
    exact ne_stall (List.all_eq_true.mp hstall u hu) 1

end VideoGen
