import VideoGen.Ownership
import VideoGen.SoloJob

/-!
# How a job settles

A job with its row to itself is attempted one execution after the other.
Every attempt before the current one threw; the row never becomes failed
before the last attempt; and when the queue settles the job, the row, the
error message and the announced events agree with it.
-/

namespace VideoGen

/-- The job is undisturbed, none of its executions crashes, and the update of
`markFailed` is answered. -/
structure Regular (job : Job) (s : State) (a : Step) : Prop extends Undisturbed job s a where
  no_crash : ∀ (i : ℕ) (t : Worker), a = .crash i → s.threads[i]? = some t → ¬t.task.Executes job.id
  marks : ∀ (i : ℕ) (f : Fate) (t : Worker) (message : String), a = .call i f → s.threads[i]? = some t → t.task.Executes job.id →
    t.pending? = some (.updateVideo job.data.videoId none (failedFields message)) →
    ∃ b, f = .ok b

/-! ## The attempts -/

/-- `attemptsMade` counts the attempts that threw; besides them there is only the
current one. -/
structure Attempts (job : Job) (s : State) (q : QueuedJob) : Prop where
  isOf : q.IsOf job
  alive : ∀ t ∈ s.threads, t.task.Executes job.id → t.crashed = false
  number : ∀ (i : ℕ) (t : Worker), s.threads[i]? = some t → t.task.Executes job.id →
    ∃ n, t.task = .process (job.attempt n) ∧
      ((n < q.job.attemptsMade ∧ ∃ e, t.prog = .done (.error e)) ∨
        (n = q.job.attemptsMade ∧ (q.state = .active i ∨ q.state = .completed)))
  distinct : ∀ (i j : ℕ) (t u : Worker) (n : ℕ), s.threads[i]? = some t → s.threads[j]? = some u →
    t.task = .process (job.attempt n) → u.task = .process (job.attempt n) → i = j
  earlier : ∀ n < q.job.attemptsMade, ∃ t ∈ s.threads, t.task = .process (job.attempt n)

theorem Job.attempt_inj {job : Job} {m n : ℕ}
    (h : Task.process (job.attempt m) = .process (job.attempt n)) : m = n :=
  congrArg Job.attemptsMade (Task.process.inj h)

section System

variable {config : StorageConfig} {s s' : State} {a : Step} {job : Job}

theorem attempt_kept (hr : Regular job s a) {q : QueuedJob} (h : Attempts job s q) {j : ℕ}
    {t u : Worker} (hget : s.threads[j]? = some t) (hexec : t.task.Executes job.id)
    (hcases : (u = t ∨ a = .crash j) ∨
      ∃ f c r, a = .call j f ∧ Answered config s s' j f t u c r) :
    u.crashed = false ∧ ∀ e, t.prog = .done (.error e) → u.prog = .done (.error e) := by
  have halive := h.alive t (List.mem_of_getElem? hget) hexec
  rcases hcases with (rfl | ha) | ⟨f, c, r, -, hcall⟩
  · exact ⟨halive, fun e he ↦ he⟩
  · exact absurd hexec (hr.no_crash j t ha hget)
  · refine ⟨hcall.still_alive, ?_⟩
    intro e he
    obtain ⟨next, hprog⟩ := Thread.pending?_eq_some_iff.mp hcall.pending
    rw [hprog] at he
    cases he

theorem Attempts.kept (hs : Conforming s) (hd : Delivered job.id s) (hr : Regular job s a)
    (hstep : (system config).step s a = some s') {q : QueuedJob}
    (hq : s.state.queue.find? job.id = some q) (hq' : s'.state.queue.find? job.id = some q)
    (h : Attempts job s q) : Attempts job s' q := by
  have hold {j : ℕ} {u : Worker} (hu : s'.threads[j]? = some u)
      (hexec : u.task.Executes job.id) : ∃ t, s.threads[j]? = some t ∧ t.task = u.task ∧
        u.crashed = false ∧ ∀ e, t.prog = .done (.error e) → u.prog = .done (.error e) := by
    rcases execution_cases hs hr.invokes hstep hu hexec with ⟨t, hget, htask, hcases⟩ |
      ⟨q₀, -, hj, hq₀, hq₀', -⟩
    · exact ⟨t, hget, htask, attempt_kept hr h hget (htask ▸ hexec) hcases⟩
    · exfalso
      obtain rfl := Option.some.inj (hq.symm.trans hq₀)
      have heq := Option.some.inj (hq'.symm.trans hq₀')
      have hstate : q.state = .active j := by
        rw [heq]
        rfl
      obtain ⟨t, hget, -⟩ := hd.held q j hq hstate
      have hlt := (List.getElem?_eq_some_iff.mp hget).1
      omega
  constructor
  · exact h.isOf
  · intro u hu hexec
    obtain ⟨j, hget⟩ := List.getElem?_of_mem hu
    obtain ⟨t, -, -, halive, -⟩ := hold hget hexec
    exact halive
  · intro j u hu hexec
    obtain ⟨t, hget, htask, -, hdone⟩ := hold hu hexec
    obtain ⟨n, hn, hcases⟩ := h.number j t hget (htask ▸ hexec)
    refine ⟨n, htask ▸ hn, ?_⟩
    rcases hcases with ⟨hlt, e, he⟩ | hcurrent
    · exact .inl ⟨hlt, e, hdone e he⟩
    · exact .inr hcurrent
  · intro i j t u n ht hu htask hutask
    obtain ⟨t₀, ht₀, htask₀, -⟩ := hold ht (by rw [htask]; rfl)
    obtain ⟨u₀, hu₀, hutask₀, -⟩ := hold hu (by rw [hutask]; rfl)
    exact h.distinct i j t₀ u₀ n ht₀ hu₀ (htask₀.trans htask) (hutask₀.trans hutask)
  · intro n hn
    obtain ⟨t, ht, htask⟩ := h.earlier n hn
    obtain ⟨j, hget⟩ := List.getElem?_of_mem ht
    obtain ⟨t', hget', (rfl | ⟨-, rfl⟩) | ⟨f, c, r, -, hcall⟩⟩ := thread_step hstep hs hget
    · exact ⟨t', List.mem_of_getElem? hget', htask⟩
    · exact ⟨_, List.mem_of_getElem? hget', htask⟩
    · exact ⟨t', List.mem_of_getElem? hget', hcall.task_eq.trans htask⟩

theorem Attempts.moved (hd : Delivered job.id s) {q q' : QueuedJob} {l : EnvStep}
    {tasks : List Task} (hq : s.state.queue.find? job.id = some q)
    (hmove : JobMove s.threads job.id q l q' tasks)
    (hthreads : s'.threads = s.threads ++ tasks.map (system config).start)
    (h : Attempts job s q) : Attempts job s' q' := by
  have hisOf := hmove.isOf h.isOf
  cases hmove with
  | take hwaiting =>
      have hearlier (i : ℕ) (t : Worker) (hget : s.threads[i]? = some t)
          (hexec : t.task.Executes job.id) : ∃ n, t.task = .process (job.attempt n) ∧
            n < q.job.attemptsMade ∧ ∃ e, t.prog = .done (.error e) := by
        obtain ⟨n, hn, ⟨hlt, hdone⟩ | ⟨-, hstate | hstate⟩⟩ := h.number i t hget hexec
        · exact ⟨n, hn, hlt, hdone⟩
        · rw [hwaiting] at hstate
          cases hstate
        · rw [hwaiting] at hstate
          cases hstate
      have hcurrent : Task.process q.job = .process (job.attempt q.job.attemptsMade) :=
        congrArg Task.process h.isOf
      have hcases {i : ℕ} {t : Worker} (hget : s'.threads[i]? = some t) :
          s.threads[i]? = some t ∨
            (i = s.threads.length ∧ t = (system config).start (.process q.job)) := by
        rw [hthreads] at hget
        rcases Machine.get_append_cases hget with hget | ⟨hle, hmem⟩
        · exact .inl hget
        · have hlt := (List.getElem?_eq_some_iff.mp hget).1
          simp only [List.map_cons, List.map_nil, List.length_append, List.length_singleton]
            at hlt
          exact .inr ⟨by omega, List.mem_singleton.mp hmem⟩
      constructor
      · exact hisOf
      · intro t ht hexec
        obtain ⟨i, hget⟩ := List.getElem?_of_mem ht
        rcases hcases hget with hget | ⟨-, rfl⟩
        · exact h.alive t (List.mem_of_getElem? hget) hexec
        · rfl
      · intro i t hget hexec
        rcases hcases hget with hget | ⟨rfl, rfl⟩
        · obtain ⟨n, hn, hlt, hdone⟩ := hearlier i t hget hexec
          exact ⟨n, hn, .inl ⟨hlt, hdone⟩⟩
        · exact ⟨q.job.attemptsMade, hcurrent, .inr ⟨rfl, .inl rfl⟩⟩
      · intro i j t u n ht hu htask hutask
        have hnew {k : ℕ} {v : Worker} (hv : s.threads[k]? = some v)
            (hvtask : v.task = .process (job.attempt n)) : n < q.job.attemptsMade := by
          obtain ⟨m, hm, hlt, -⟩ := hearlier k v hv (by rw [hvtask]; rfl)
          rw [Job.attempt_inj (hvtask.symm.trans hm)]
          exact hlt
        rcases hcases ht with ht | ⟨rfl, rfl⟩
        · rcases hcases hu with hu | ⟨rfl, rfl⟩
          · exact h.distinct i j t u n ht hu htask hutask
          · have hlt := hnew ht htask
            have heq := Job.attempt_inj (hcurrent.symm.trans hutask)
            omega
        · rcases hcases hu with hu | ⟨rfl, rfl⟩
          · have hlt := hnew hu hutask
            have heq := Job.attempt_inj (hcurrent.symm.trans htask)
            omega
          · rfl
      · intro n hn
        obtain ⟨t, ht, htask⟩ := h.earlier n hn
        refine ⟨t, ?_, htask⟩
        rw [hthreads]
        exact List.mem_append_left _ ht
  | promote hdelayed =>
      have hsame : s'.threads = s.threads := by simpa using hthreads
      refine ⟨hisOf, hsame ▸ h.alive, ?_, hsame ▸ h.distinct, hsame ▸ h.earlier⟩
      rw [hsame]
      intro i t hget hexec
      obtain ⟨n, hn, hearlier | ⟨-, hstate | hstate⟩⟩ := h.number i t hget hexec
      · exact ⟨n, hn, .inl hearlier⟩
      · rw [hdelayed] at hstate
        cases hstate
      · rw [hdelayed] at hstate
        cases hstate
  | @settle i t r hactive hget halive hprog =>
      have hsame : s'.threads = s.threads := by simpa using hthreads
      have hcurrent {j : ℕ} {u : Worker} (hu : s.threads[j]? = some u)
          (hstate : q.state = .active j ∨ q.state = .completed) : u = t := by
        rcases hstate with hstate | hstate
        · obtain rfl := JobState.active.inj (hstate.symm.trans hactive)
          exact Option.some.inj (hu.symm.trans hget)
        · rw [hactive] at hstate
          cases hstate
      refine ⟨hisOf, hsame ▸ h.alive, ?_, hsame ▸ h.distinct, ?_⟩
      · rw [hsame]
        intro j u hu hexec
        obtain ⟨n, hn, ⟨hlt, hdone⟩ | ⟨heq, hstate⟩⟩ := h.number j u hu hexec
        · refine ⟨n, hn, .inl ⟨?_, hdone⟩⟩
          cases r with
          | ok x => exact hlt
          | error e => exact Nat.lt_succ_of_lt hlt
        · obtain rfl := hcurrent hu hstate
          cases r with
          | ok x => exact ⟨n, hn, .inr ⟨heq, .inr rfl⟩⟩
          | error e => exact ⟨n, hn, .inl ⟨heq ▸ Nat.lt_succ_self n, e, hprog⟩⟩
      · rw [hsame]
        intro n hn
        by_cases hlt : n < q.job.attemptsMade
        · exact h.earlier n hlt
        · obtain ⟨u, hu, htask⟩ := hd.held q i hq hactive
          refine ⟨u, List.mem_of_getElem? hu, ?_⟩
          have heq : n = q.job.attemptsMade := by
            cases r with
            | ok x => exact absurd hn hlt
            | error e =>
                have hle : n < q.job.attemptsMade + 1 := hn
                omega
          rw [htask, heq]
          exact congrArg Task.process h.isOf
  | @stall i t hactive hget hcrashed =>
      obtain ⟨u, hu, htask⟩ := hd.held q i hq hactive
      obtain rfl := Option.some.inj (hu.symm.trans hget)
      have hexec : u.task.Executes job.id := by
        rw [htask]
        exact executes_of_find? hq
      rw [h.alive u (List.mem_of_getElem? hget) hexec] at hcrashed
      cases hcrashed

end System

/-! ## The row during an attempt -/

def Unfailed (status : VideoStatus) : Prop :=
  status = .pending ∨ status = .processing ∨ status = .completed

/-- The row, and the final events since the job was added, in each phase of an attempt. -/
def Phase.Fits (job : Job) (row : Video) (news : List DomainEvent) : Phase → Prop
  | .fresh => Unfailed row.status ∧ news = []
  | .loaded status => row.status = status ∧ Unfailed row.status ∧ news = []
  | .working => row.status = .processing ∧ news = []
  | .failing => Unfailed row.status ∧ news = []
  | .completed _ event => row.status = .completed ∧ row.videoUrl = some event.videoUrl ∧
      event.videoId = job.data.videoId ∧ news = []
  | .recorded _ event => row.status = .completed ∧ row.videoUrl = some event.videoUrl ∧
      event.videoId = job.data.videoId ∧ news = []
  | .announced _ event => row.status = .completed ∧ row.videoUrl = some event.videoUrl ∧
      event.videoId = job.data.videoId ∧ news = [.completed event]
  | .marked message => row.status = .failed ∧ row.errorMessage = some message ∧
      IsFinalAttempt job ∧ news = []
  | .reported message => row.status = .failed ∧ row.errorMessage = some message ∧
      IsFinalAttempt job ∧
      news = [.failed ⟨job.data.videoId, message, job.attemptsMade + 1⟩]
  | .skipped => False
  | .broken => False

theorem Phase.Fits.of_ended {job : Job} {row : Video} {news : List DomainEvent} {phase : Phase}
    (h : phase.Fits job row news) (hphase : phase = .working ∨ phase = .failing) :
    Unfailed row.status ∧ news = [] := by
  rcases hphase with rfl | rfl
  · exact ⟨.inr (.inl h.1), h.2⟩
  · exact h

section System

variable {config : StorageConfig} {s s' : State} {job : Job}

theorem fits_of_call {i : ℕ} {f : Fate} {t t' : Worker} {c : Call} {r : Except Thrown c.Reply}
    {n : ℕ} {phase : Phase} {row : Video} {base news : List DomainEvent}
    (hr : Regular job s (.call i f)) (h : Answered config s s' i f t t' c r)
    (htask : t.task = .process (job.attempt n))
    (hallows : WorkerAllows (job.attempt n) phase c)
    (hrow : s.state.videos.find? job.data.videoId = some row)
    (hevents : s.state.finalEvents job.data.videoId = base ++ news)
    (hfits : phase.Fits (job.attempt n) row news) :
    ∃ row' news', s'.state.videos.find? job.data.videoId = some row' ∧
      s'.state.finalEvents job.data.videoId = base ++ news' ∧
      (phase.next c r).Fits (job.attempt n) row' news' := by
  have hquiet (hc : ¬c.Disturbs job.data.videoId)
      (hnext : (phase.next c r).Fits (job.attempt n) row news) :
      ∃ row' news', s'.state.videos.find? job.data.videoId = some row' ∧
        s'.state.finalEvents job.data.videoId = base ++ news' ∧
        (phase.next c r).Fits (job.attempt n) row' news' := by
    have hunchanged : Unchanged job s s' := unchanged_of_call h fun _ ↦ hc
    exact ⟨row, news, hunchanged.row row hrow, hunchanged.events.trans hevents, hnext⟩
  have hupdate {row' : Video} (hc : c.Emits = false)
      (hrow' : s'.state.videos.find? job.data.videoId = some row')
      (hnext : (phase.next c r).Fits (job.attempt n) row' news) :
      ∃ row' news', s'.state.videos.find? job.data.videoId = some row' ∧
        s'.state.finalEvents job.data.videoId = base ++ news' ∧
        (phase.next c r).Fits (job.attempt n) row' news' :=
    ⟨row', news, hrow',
      (World.finalEvents_of_events (World.exec_events h.exec hc)).trans hevents, hnext⟩
  cases hallows with
  | load =>
      apply hquiet id
      rcases r with e | (_ | video)
      · exact hfits
      · exact hfits
      · obtain ⟨-, b, hx⟩ := World.exec_ok h.exec
        have hvideo := (World.answer_selectVideo hx).2
        rw [show (job.attempt n).data.videoId = job.data.videoId from rfl, hrow] at hvideo
        obtain rfl := Option.some.inj hvideo
        exact ⟨rfl, hfits⟩
  | start expected hallowed =>
      obtain ⟨hstatus, hunfailed, rfl⟩ := hfits
      rcases World.exec_effect h.exec with ⟨-, hw, e, rfl⟩ | ⟨-, b, x, hx, hreply⟩
      · exact hupdate rfl (congrArg World.videos hw ▸ hrow) ⟨hunfailed, rfl⟩
      · rcases World.row_of_update hx hrow with ⟨-, hn, hrow'⟩ | ⟨hguard, -⟩
        · apply hupdate rfl hrow'
          rcases hreply with rfl | ⟨e, rfl⟩
          · have hphase : Phase.next (.loaded expected) (.updateVideo (job.attempt n).data.videoId
                (some expected) (startExtra.fields .processing)) (.ok x) = .working := if_neg hn
            rw [hphase]
            exact ⟨rfl, rfl⟩
          · exact ⟨.inr (.inl rfl), rfl⟩
        · simp [hstatus] at hguard
  | quiet _ hquietCall =>
      apply hquiet (Call.not_disturbs_of_quiet hquietCall _)
      rw [Phase.next_quiet hquietCall]
      have hfailing : Phase.failing.Fits (job.attempt n) row news :=
        ⟨.inr (.inl hfits.1), hfits.2⟩
      rcases r with e | x
      · by_cases hcaught : c.Caught = true
        · simpa [hcaught] using hfits
        · simpa [hcaught] using hfailing
      · exact hfits
  | progress u =>
      obtain ⟨hstatus, rfl⟩ := hfits
      have hnext {row' : Video} (hstatus' : row'.status = .processing) :
          (Phase.next .working (.updateVideo (job.attempt n).data.videoId (some .processing)
            u.fields) r).Fits (job.attempt n) row' [] := by
        rcases r with e | x
        · exact ⟨.inr (.inl hstatus'), rfl⟩
        · exact ⟨hstatus', rfl⟩
      rcases World.exec_effect h.exec with ⟨-, hw, -⟩ | ⟨-, b, x, hx, -⟩
      · exact hupdate rfl (congrArg World.videos hw ▸ hrow) (hnext hstatus)
      · rcases World.row_of_update hx hrow with ⟨-, -, hrow'⟩ | ⟨-, hrow'⟩
        · exact hupdate rfl hrow' (hnext hstatus)
        · exact hupdate rfl hrow' (hnext hstatus)
  | complete url thumbnail hurl =>
      obtain ⟨hstatus, rfl⟩ := hfits
      rcases World.exec_effect h.exec with ⟨-, hw, e, rfl⟩ | ⟨-, b, x, hx, hreply⟩
      · exact hupdate rfl (congrArg World.videos hw ▸ hrow) ⟨.inr (.inl hstatus), rfl⟩
      · rcases World.row_of_update hx hrow with ⟨-, -, hrow'⟩ | ⟨hguard, -⟩
        · apply hupdate rfl hrow'
          rcases hreply with rfl | ⟨e, rfl⟩
          · have hphase : Phase.next .working (.updateVideo (job.attempt n).data.videoId
                (some .processing) ((completeExtra url thumbnail).fields .completed)) (.ok x) =
                .completed (x ≠ 0) ⟨job.data.videoId, url, thumbnail⟩ := by
              rw [← completionOf_complete]
              rfl
            rw [hphase]
            exact ⟨rfl, rfl, rfl, rfl⟩
          · exact ⟨.inr (.inr rfl), rfl⟩
        · simp [hstatus] at hguard
  | stamp applied event => exact hquiet id (by rcases r with e | x <;> exact hfits)
  | cache applied event key value => exact hquiet id (by rcases r with e | x <;> exact hfits)
  | record applied event =>
      apply hquiet id
      rcases r with e | x
      · exact ⟨.inr (.inr hfits.1), hfits.2.2.2⟩
      · exact hfits
  | announce applied event =>
      obtain ⟨hstatus, hurl, hvideo, rfl⟩ := hfits
      rcases World.exec_effect h.exec with ⟨-, -, e, rfl⟩ | ⟨-, b, x, hx, -⟩
      · exact absurd (World.possible_of_exec h.exec) Bool.false_ne_true
      · refine ⟨row, [.completed event], ?_, ?_, hstatus, hurl, hvideo, rfl⟩
        · rw [World.exec_videos h.exec rfl]
          exact hrow
        · rw [World.finalEvents_of_emit hx, hevents]
          simp [DomainEvent.isFinal, hvideo]
  | mark _ hphase hfinal message =>
      obtain ⟨-, rfl⟩ := hfits.of_ended hphase
      obtain ⟨b, rfl⟩ := hr.marks i f t message rfl h.get (by rw [htask]; rfl) h.pending
      have hexec : s.state.exec (.updateVideo job.data.videoId none (failedFields message))
        (.ok b) = some (s'.state, r) := h.exec
      rcases World.exec_cases hexec with ⟨b', x, -, hx, rfl⟩ | ⟨e, hf, -⟩ | ⟨b', e, x, hf, -⟩
      · rcases World.row_of_update hx hrow with ⟨-, -, hrow'⟩ | ⟨hguard, -⟩
        · apply hupdate rfl hrow'
          rw [next_mark hphase]
          exact ⟨rfl, rfl, hfinal, rfl⟩
        · cases hguard
      · cases hf
      · cases hf
  | evict message key => exact hquiet id (by rcases r with e | x <;> exact hfits)
  | report message =>
      obtain ⟨hstatus, hmessage, hfinal, rfl⟩ := hfits
      rcases World.exec_effect h.exec with ⟨-, -, e, rfl⟩ | ⟨-, b, x, hx, -⟩
      · exact absurd (World.possible_of_exec h.exec) Bool.false_ne_true
      · refine ⟨row, [.failed ⟨job.data.videoId, message, n + 1⟩], ?_, ?_, hstatus, hmessage,
          hfinal, rfl⟩
        · rw [World.exec_videos h.exec rfl]
          exact hrow
        · rw [World.finalEvents_of_emit hx, hevents]
          simp [DomainEvent.isFinal]

/-! ## The row between the attempts -/

def Agrees (job : Job) (s : State) (q : QueuedJob) (row : Video) (news : List DomainEvent) :
    Prop :=
  match q.state with
  | .waiting => Unfailed row.status ∧ news = []
  | .delayed => Unfailed row.status ∧ news = []
  | .active i => ∃ t phase, s.threads[i]? = some t ∧ stageOf t = .worker q.job phase ∧
      phase.Fits q.job row news
  | .completed => ∃ t ∈ s.threads, ∃ phase, stageOf t = .worker q.job phase ∧
      phase.Fits q.job row news ∧
      (phase = .loaded .completed ∨ ∃ applied event, phase = .announced applied event)
  | .failed => ∃ t ∈ s.threads, ∃ n e, t.task = .process (job.attempt n) ∧
      t.prog = .done (.error e) ∧ n + 1 = q.job.attemptsMade ∧ n = job.maxAttempts - 1 ∧
      row.status = .failed ∧ row.errorMessage = some e.errorMessage ∧
      news = [.failed ⟨job.data.videoId, e.errorMessage, n + 1⟩]

/-- The job in a state of a regular run; `base` are the final events before the run. -/
structure Progresses (job : Job) (base : List DomainEvent) (s : State) (q : QueuedJob)
    (row : Video) (news : List DomainEvent) : Prop where
  found : s.state.queue.find? job.id = some q
  stored : s.state.videos.find? job.data.videoId = some row
  events : s.state.finalEvents job.data.videoId = base ++ news
  attempts : Attempts job s q
  remaining : q.state.Live → q.job.attemptsMade ≤ job.maxAttempts - 1
  agrees : Agrees job s q row news

theorem agrees_start {w : World} (h : Awaits job w) : ∃ q row,
    Progresses job (w.finalEvents job.data.videoId) ⟨w, []⟩ q row [] := by
  obtain ⟨row, hrow, hpending⟩ := h.row
  obtain ⟨q, hq, hjob, hwaiting⟩ := h.queued
  have hzero : q.job.attemptsMade = 0 := by
    rw [hjob]
    exact h.attemptsMade
  refine ⟨q, row, ?_⟩
  constructor
  · exact hq
  · exact hrow
  · simp
  · constructor
    · change q.job = _
      rw [hjob]
      rfl
    · simp
    · simp
    · simp
    · intro n hn
      omega
  · intro _
    omega
  · unfold Agrees
    rw [hwaiting]
    exact ⟨.inl hpending, rfl⟩

theorem Agrees.kept {a : Step} {q : QueuedJob} {row : Video} {news : List DomainEvent}
    (h : Agrees job s q row news) (hq : s.state.queue.find? job.id = some q)
    (hkept : ∀ i t, s.threads[i]? = some t → t.task.Executes job.id →
      s'.threads[i]? = some t ∨
        (a = .crash i ∧ s'.threads[i]? = some { t with crashed := true }))
    (hr : Regular job s a) : Agrees job s' q row news := by
  have hthread {i : ℕ} {t : Worker} (hget : s.threads[i]? = some t)
      (hexec : t.task.Executes job.id) : s'.threads[i]? = some t := by
    rcases hkept i t hget hexec with hget' | ⟨ha, -⟩
    · exact hget'
    · exact absurd hexec (hr.no_crash i t ha hget)
  have hexec {t : Worker} {phase : Phase} (hstage : stageOf t = .worker q.job phase) :
      t.task.Executes job.id := by
    rw [← task_stageOf, hstage]
    exact executes_of_find? hq
  unfold Agrees at h ⊢
  cases hstate : q.state with
  | waiting => simpa only [hstate] using h
  | delayed => simpa only [hstate] using h
  | active i =>
      simp only [hstate] at h ⊢
      obtain ⟨t, phase, hget, hstage, hfits⟩ := h
      exact ⟨t, phase, hthread hget (hexec hstage), hstage, hfits⟩
  | completed =>
      simp only [hstate] at h ⊢
      obtain ⟨t, ht, phase, hstage, hrest⟩ := h
      obtain ⟨i, hget⟩ := List.getElem?_of_mem ht
      exact ⟨t, List.mem_of_getElem? (hthread hget (hexec hstage)), phase, hstage, hrest⟩
  | failed =>
      simp only [hstate] at h ⊢
      obtain ⟨t, ht, n, e, htask, hrest⟩ := h
      obtain ⟨i, hget⟩ := List.getElem?_of_mem ht
      have hexec : t.task.Executes job.id := by
        rw [htask]
        rfl
      exact ⟨t, List.mem_of_getElem? (hthread hget hexec), n, e, htask, hrest⟩

theorem Agrees.settled {i : ℕ} {t : Worker} {q : QueuedJob} {row : Video}
    {news : List DomainEvent} {value : Except Thrown Value} (hs : Conforming s)
    (hname : job.name = videoGenerationJob) (hisOf : q.IsOf job)
    (hremaining : q.job.attemptsMade ≤ job.maxAttempts - 1) (hactive : q.state = .active i)
    (hget : s.threads[i]? = some t) (hprog : t.prog = .done value)
    (hthreads : s'.threads = s.threads) (h : Agrees job s q row news) :
    Agrees job s' (q.settle value) row news ∧
      ((q.settle value).state.Live →
        (q.settle value).job.attemptsMade ≤ job.maxAttempts - 1) := by
  unfold Agrees at h
  simp only [hactive] at h
  obtain ⟨t', phase, hget', hstage, hfits⟩ := h
  obtain rfl := Option.some.inj (hget.symm.trans hget')
  have hmem : t ∈ s'.threads := hthreads ▸ List.mem_of_getElem? hget
  have hends : Stage.Ends (stageOf t) value :=
    (hs t (List.mem_of_getElem? hget)).post stageProtocol Stage.init Stage.Ends hprog
  rw [hstage] at hends
  have hmax : q.job.maxAttempts = job.maxAttempts := by
    rw [hisOf]
    rfl
  have hagain {e : Thrown} (hfinal : ¬IsFinalAttempt q.job) (hunfailed : Unfailed row.status)
      (hnews : news = []) :
      Agrees job s' (q.settle (.error e : Except Thrown Value)) row news ∧
        ((q.settle (.error e : Except Thrown Value)).state.Live →
          (q.settle (.error e : Except Thrown Value)).job.attemptsMade ≤
            job.maxAttempts - 1) := by
    rw [isFinalAttempt_iff_not_retryable, not_not] at hfinal
    constructor
    · unfold Agrees
      simp only [QueuedJob.settle, if_pos hfinal]
      split_ifs <;> exact ⟨hunfailed, hnews⟩
    · intro _
      have hlt : q.job.attemptsMade + 1 < q.job.maxAttempts := hfinal
      change q.job.attemptsMade + 1 ≤ _
      omega
  cases phase with
  | fresh =>
      rcases value with e | x
      · exact hends.elim
      · refine absurd ?_ hends
        rw [hisOf]
        exact hname
  | loaded status =>
      rcases value with e | x
      · exact hends.elim
      · refine ⟨⟨t, hmem, .loaded status, hstage, hfits, .inl ?_⟩, fun hlive ↦ hlive.elim⟩
        obtain ⟨rfl, hunfailed, -⟩ := hfits
        rcases hunfailed with hstatus | hstatus | hstatus
        · refine absurd ?_ hends
          rw [hstatus]
          decide
        · refine absurd ?_ hends
          rw [hstatus]
          decide
        · rw [hstatus]
  | working =>
      rcases value with e | x
      · exact hagain hends (.inr (.inl hfits.1)) hfits.2
      · exact hends.elim
  | failing =>
      rcases value with e | x
      · exact hagain hends hfits.1 hfits.2
      · exact hends.elim
  | announced applied event =>
      rcases value with e | x
      · exact hends.elim
      · exact ⟨⟨t, hmem, _, hstage, hfits, .inr ⟨applied, event, rfl⟩⟩, fun hlive ↦ hlive.elim⟩
  | reported message =>
      rcases value with e | x
      · obtain ⟨hstatus, hmessage, hfinal, hnews⟩ := hfits
        have heq : e.errorMessage = message := hends
        have hnot : ¬q.job.Retryable := (isFinalAttempt_iff_not_retryable q.job).mp hfinal
        have hlast : q.job.maxAttempts - 1 ≤ q.job.attemptsMade := hfinal
        have hstate : (q.settle (.error e : Except Thrown Value)).state = .failed := by
          simp [QueuedJob.settle, hnot]
        constructor
        · unfold Agrees
          simp only [hstate]
          have htask : t.task = .process (job.attempt q.job.attemptsMade) := by
            rw [← task_stageOf, hstage]
            exact congrArg Task.process hisOf
          have hvideo : q.job.data.videoId = job.data.videoId := by
            rw [hisOf]
            rfl
          refine ⟨t, hmem, q.job.attemptsMade, e, htask, hprog, rfl, by omega, hstatus, ?_, ?_⟩
          · rw [heq]
            exact hmessage
          · rw [heq, hnews, hvideo]
        · intro hlive
          rw [hstate] at hlive
          exact hlive.elim
      · exact hends.elim
  | skipped => exact hfits.elim
  | completed applied event => rcases value with e | x <;> exact hends.elim
  | recorded applied event => rcases value with e | x <;> exact hends.elim
  | marked message => rcases value with e | x <;> exact hends.elim
  | broken => exact hfits.elim

theorem progresses_step {a : Step} {base news : List DomainEvent} {q : QueuedJob} {row : Video}
    (hs : Conforming s) (hd : Delivered job.id s) (hname : job.name = videoGenerationJob)
    (hr : Regular job s a) (hstep : (system config).step s a = some s')
    (h : Progresses job base s q row news) :
    ∃ q' row' news', Progresses job base s' q' row' news' := by
  rcases solo_cases hs hd hr.toUndisturbed hstep h.found with ⟨hq', hunchanged, hkept⟩ |
    ⟨l, tasks, q', rfl, hmove, hq', hunchanged, hthreads⟩ |
    ⟨i, f, t, t', c, r, phase, rfl, hcall, hactive, hq', hstage, hallows, hnext⟩
  · refine ⟨q, row, news, hq', hunchanged.row row h.stored, hunchanged.events.trans h.events,
      h.attempts.kept hs hd hr hstep h.found hq', h.remaining, ?_⟩
    exact h.agrees.kept h.found hkept hr
  · have hattempts := h.attempts.moved hd h.found hmove hthreads
    have hagrees : Agrees job s' q' row news ∧
        (q'.state.Live → q'.job.attemptsMade ≤ job.maxAttempts - 1) := by
      have hold := h.agrees
      have hlive {state : JobState} (hstate : q.state = state) (hl : state.Live) :
          q.job.attemptsMade ≤ job.maxAttempts - 1 :=
        h.remaining (hstate ▸ hl)
      cases hmove with
      | take hwaiting =>
          unfold Agrees at hold
          simp only [hwaiting] at hold
          refine ⟨⟨(system config).start (.process q.job), .fresh, ?_, rfl, hold⟩,
            fun _ ↦ hlive hwaiting trivial⟩
          rw [hthreads]
          simp
      | promote hdelayed =>
          unfold Agrees at hold
          simp only [hdelayed] at hold
          exact ⟨hold, fun _ ↦ hlive hdelayed trivial⟩
      | settle hactive hget halive hprog =>
          have hsame : s'.threads = s.threads := by simpa using hthreads
          exact hold.settled hs hname h.attempts.isOf (hlive hactive trivial) hactive hget hprog
            hsame
      | @stall i t hactive hget hcrashed =>
          obtain ⟨u, hu, htask⟩ := hd.held q i h.found hactive
          obtain rfl := Option.some.inj (hu.symm.trans hget)
          have hexec : u.task.Executes job.id := by
            rw [htask]
            exact executes_of_find? h.found
          rw [h.attempts.alive u (List.mem_of_getElem? hget) hexec] at hcrashed
          cases hcrashed
    exact ⟨q', row, news, hq', hunchanged.row row h.stored, hunchanged.events.trans h.events,
      hattempts, hagrees.2, hagrees.1⟩
  · have hagrees := h.agrees
    unfold Agrees at hagrees
    simp only [hactive] at hagrees
    obtain ⟨t₀, phase₀, hget₀, hstage₀, hfits⟩ := hagrees
    obtain rfl := Option.some.inj (hcall.get.symm.trans hget₀)
    obtain ⟨-, rfl⟩ := Stage.worker.inj (hstage.symm.trans hstage₀)
    have hisOf : q.job = job.attempt q.job.attemptsMade := h.attempts.isOf
    have htask : t.task = .process (job.attempt q.job.attemptsMade) := by
      rw [← task_stageOf, hstage]
      exact congrArg Task.process hisOf
    rw [hisOf] at hallows hfits
    obtain ⟨row', news', hrow', hevents', hfits'⟩ :=
      fits_of_call hr hcall htask hallows h.stored h.events hfits
    refine ⟨q, row', news', hq', hrow', hevents',
      h.attempts.kept hs hd hr hstep h.found hq', h.remaining, ?_⟩
    unfold Agrees
    simp only [hactive]
    refine ⟨t', _, hcall.get_self, hnext, ?_⟩
    rw [hisOf]
    exact hfits'

theorem run_progresses {w : World} {ts : List (Transition State Step)} (hw : Awaits job w)
    (hrun : Run (system config).step ⟨w, []⟩ ts s)
    (hregular : ∀ t ∈ ts, Regular job t.before t.act) :
    ∃ q row news, Progresses job (w.finalEvents job.data.videoId) s q row news := by
  have hidle : ∀ q i, w.queue.find? job.id = some q → q.state ≠ .active i := by
    intro q i hq hactive
    obtain ⟨q₀, hq₀, -, hwaiting⟩ := hw.queued
    obtain rfl := Option.some.inj (hq.symm.trans hq₀)
    rw [hwaiting] at hactive
    cases hactive
  obtain ⟨q, row, hstart⟩ := agrees_start hw
  refine (hrun.invariant (fun s ↦ Conforming s ∧ Delivered job.id s ∧
    ∃ q row news, Progresses job (w.finalEvents job.data.videoId) s q row news)
    ⟨by simp [Conforming], delivered_start hidle, q, row, [], hstart⟩ ?_).2.2
  rintro t ht hstep ⟨hs, hd, q, row, news, h⟩
  have hr := hregular t ht
  exact ⟨step_conforming hstep hs, step_delivered hstep hs hr.invokes hd,
    progresses_step hs hd hw.name hr hstep h⟩

/-! ## Settlement -/

def QueuedJob.AttemptsLeft (q : QueuedJob) : Prop :=
  match q.state with
  | .waiting => True
  | .delayed => True
  | .active _ => q.job.Retryable
  | _ => False

/-- Every attempt of the job threw, and the last one threw `e`. -/
structure ThrewLast (job : Job) (s : State) (e : Thrown) : Prop where
  every : ∀ n < job.maxAttempts, ∃ t ∈ s.threads, t.task = .process (job.attempt n) ∧
    ∃ e, t.prog = .done (.error e)
  last : ∀ t ∈ s.threads, t.task = .process (job.attempt (job.maxAttempts - 1)) →
    t.prog = .done (.error e)

theorem Attempts.threwLast {q : QueuedJob} (h : Attempts job s q) {t : Worker} {e : Thrown}
    (ht : t ∈ s.threads) (htask : t.task = .process (job.attempt (job.maxAttempts - 1)))
    (hprog : t.prog = .done (.error e)) (hmade : job.maxAttempts ≤ q.job.attemptsMade) :
    ThrewLast job s e := by
  constructor
  · intro n hn
    obtain ⟨u, hu, hutask⟩ := h.earlier n (by omega)
    obtain ⟨i, hget⟩ := List.getElem?_of_mem hu
    obtain ⟨m, hm, ⟨-, e', he'⟩ | ⟨hcurrent, -⟩⟩ := h.number i u hget (by rw [hutask]; rfl)
    · exact ⟨u, hu, hutask, e', he'⟩
    · have heq := Job.attempt_inj (hutask.symm.trans hm)
      omega
  · intro u hu hutask
    obtain ⟨i, hget⟩ := List.getElem?_of_mem ht
    obtain ⟨j, hget'⟩ := List.getElem?_of_mem hu
    obtain rfl := h.distinct i j t u _ hget hget' htask hutask
    obtain rfl := Option.some.inj (hget.symm.trans hget')
    exact hprog

theorem not_failed_of_fits {job : Job} {row : Video} {news : List DomainEvent} {phase : Phase}
    (h : phase.Fits job row news) (hretryable : job.Retryable) : row.status ≠ .failed := by
  have hunfailed {status : VideoStatus} (hs : Unfailed status) : status ≠ .failed := by
    rcases hs with rfl | rfl | rfl <;> decide
  have hfinal : ¬IsFinalAttempt job := by
    rw [isFinalAttempt_iff_not_retryable, not_not]
    exact hretryable
  cases phase with
  | fresh => exact hunfailed h.1
  | loaded status => exact hunfailed h.2.1
  | working => exact hunfailed (.inr (.inl h.1))
  | failing => exact hunfailed h.1
  | completed applied event => exact hunfailed (.inr (.inr h.1))
  | recorded applied event => exact hunfailed (.inr (.inr h.1))
  | announced applied event => exact hunfailed (.inr (.inr h.1))
  | marked message => exact absurd h.2.2.1 hfinal
  | reported message => exact absurd h.2.2.1 hfinal
  | skipped => exact h.elim
  | broken => exact h.elim

/-- For every attempts option, every pattern of throws outside the update of
`markFailed` and every provider: the row is not failed before the attempts are used
up, and once the queue has settled the job, the row agrees with it. -/
theorem settlement_agrees {w : World} {ts : List (Transition State Step)} (hw : Awaits job w)
    (hattempts : job.opts.attempts ≠ some 0)
    (hrun : Run (system config).step ⟨w, []⟩ ts s)
    (hregular : ∀ t ∈ ts, Regular job t.before t.act) :
    ∃ q row, s.state.queue.find? job.id = some q ∧
      s.state.videos.find? job.data.videoId = some row ∧
      (q.AttemptsLeft → row.status ≠ .failed) ∧
      (q.state = .completed → row.status = .completed) ∧
      (q.state = .failed → row.status = .failed ∧ ∃ e, ThrewLast job s e ∧
        row.errorMessage = some e.errorMessage ∧
        s.state.finalEvents job.data.videoId = w.finalEvents job.data.videoId ++
          [.failed ⟨job.data.videoId, e.errorMessage, job.maxAttempts⟩]) := by
  obtain ⟨q, row, news, h⟩ := run_progresses hw hrun hregular
  have hagrees := h.agrees
  unfold Agrees at hagrees
  have hpositive : 0 < job.maxAttempts := by
    unfold Job.maxAttempts
    cases hoption : job.opts.attempts with
    | none => simp
    | some n =>
        have hn : n ≠ 0 := fun hzero ↦ hattempts (hzero ▸ hoption)
        exact Nat.pos_of_ne_zero hn
  refine ⟨q, row, h.found, h.stored, ?_, ?_, ?_⟩
  · intro hleft
    unfold QueuedJob.AttemptsLeft at hleft
    cases hstate : q.state with
    | waiting =>
        simp only [hstate] at hagrees
        rcases hagrees.1 with hs | hs | hs <;> rw [hs] <;> decide
    | delayed =>
        simp only [hstate] at hagrees
        rcases hagrees.1 with hs | hs | hs <;> rw [hs] <;> decide
    | active i =>
        simp only [hstate] at hagrees hleft
        obtain ⟨t, phase, -, -, hfits⟩ := hagrees
        exact not_failed_of_fits hfits hleft
    | completed => simp only [hstate] at hleft
    | failed => simp only [hstate] at hleft
  · intro hstate
    simp only [hstate] at hagrees
    obtain ⟨t, -, phase, -, hfits, rfl | ⟨applied, event, rfl⟩⟩ := hagrees
    · exact hfits.1
    · exact hfits.1
  · intro hstate
    simp only [hstate] at hagrees
    obtain ⟨t, ht, n, e, htask, hprog, hmade, rfl, hfailed, hmessage, rfl⟩ := hagrees
    refine ⟨hfailed, e, h.attempts.threwLast ht htask hprog (by omega), hmessage, ?_⟩
    rw [h.events, Nat.sub_add_cancel hpositive]

end System

/-! ## A job with two attempts -/

def twoAttempts : JobOptions := { attempts := some 2 }

def soloJob : Job := ⟨1, videoGenerationJob, ⟨"video"⟩, twoAttempts, 0⟩

def soloWorld : World :=
  { pendingWorld with
    queue := Queue.empty.add videoGenerationJob ⟨"video"⟩ twoAttempts }

theorem soloWorld_awaits : Awaits soloJob soloWorld where
  row := ⟨Video.create "video" {} 0, by decide +kernel, rfl⟩
  queued := ⟨⟨soloJob, .waiting, 0⟩, by decide +kernel, rfl, rfl⟩
  name := rfl
  attemptsMade := rfl

theorem Call.disturbs_writes {c : Call} {videoId : String} (h : c.Disturbs videoId) :
    c.WritesVideos = true ∨ c.Emits = true := by
  cases c with
  | updateVideo id expected fields => exact .inl rfl
  | deleteVideo id => exact .inl rfl
  | emit event => exact .inr rfl
  | _ => exact h.elim

def regular (job : Job) (t : Transition State Step) : Bool :=
  match t.act with
  | .invoke _ => false
  | .crash _ => false
  | .env _ => true
  | .call i f =>
      match t.before.threads[i]? with
      | none => true
      | some u =>
          (decide (u.task.Executes job.id) ||
            u.pending?.all fun c ↦ !c.WritesVideos && !c.Emits) &&
          (match f with
            | .ok _ => true
            | _ => u.pending?.all fun c ↦
                match c with
                | .updateVideo _ none _ => false
                | _ => true)

theorem regular_of_regular {job : Job} {t : Transition State Step} (h : regular job t = true) :
    Regular job t.before t.act := by
  obtain ⟨s, a, s'⟩ := t
  unfold regular at h
  cases a with
  | invoke task => cases h
  | crash i => cases h
  | env l => exact ⟨⟨trivial, by rintro i f u c ⟨⟩⟩, by rintro i u ⟨⟩, by rintro i f u m ⟨⟩⟩
  | call i f =>
      constructor
      · constructor
        · trivial
        · rintro j f' u c ⟨rfl, rfl⟩ - hget hpending hdisturbs
          simp only [hget, hpending, Option.all_some, Bool.and_eq_true, Bool.or_eq_true,
            decide_eq_true_eq, Bool.not_eq_true'] at h
          rcases h.1 with hexec | ⟨hwrites, hemits⟩
          · exact hexec
          · rcases Call.disturbs_writes hdisturbs with hc | hc
            · exact absurd (hwrites.symm.trans hc) Bool.false_ne_true
            · exact absurd (hemits.symm.trans hc) Bool.false_ne_true
      · rintro j u ⟨⟩
      · rintro j f' u message ⟨rfl, rfl⟩ hget - hpending
        simp only [hget, hpending, Option.all_some, Bool.and_eq_true] at h
        cases f with
        | ok b => exact ⟨b, rfl⟩
        | rejected e => cases h.2
        | lost b e => cases h.2

/-- Neither attempt can read the row. -/
def unreadableActs : List Step :=
  [.env (.take 1), .call 0 (.rejected (.instance .error "first")), .env (.settle 1),
    .env (.take 1), .call 1 (.rejected (.instance .error "second"))] ++
    List.replicate 3 (okStep 1) ++ [.env (.settle 1)]

theorem settlement_agrees_unreadable : ∃ (ts : List (Transition State Step)) (s : State),
    Run (system ⟨"bucket", none, "region"⟩).step ⟨soloWorld, []⟩ ts s ∧
    (s.state.queue.find? 1).map QueuedJob.state = some .failed ∧
    ∃ q row, s.state.queue.find? soloJob.id = some q ∧
      s.state.videos.find? "video" = some row ∧
      (q.AttemptsLeft → row.status ≠ .failed) ∧
      (q.state = .completed → row.status = .completed) ∧
      (q.state = .failed → row.status = .failed ∧ ∃ e, ThrewLast soloJob s e ∧
        row.errorMessage = some e.errorMessage ∧
        s.state.finalEvents "video" = soloWorld.finalEvents "video" ++
          [.failed ⟨"video", e.errorMessage, 2⟩]) := by
  obtain ⟨ts, s, hrun, -, hobs⟩ := Run.exists_of_follow
    (system ⟨"bucket", none, "region"⟩).step ⟨soloWorld, []⟩ unreadableActs
    (fun p ↦ (p.1.all (regular soloJob), (p.2.state.queue.find? 1).map QueuedJob.state))
    (true, some .failed) (by decide +kernel)
  obtain ⟨hregular, hfailed⟩ := Prod.mk.inj hobs
  refine ⟨ts, s, hrun, hfailed, settlement_agrees soloWorld_awaits (by decide) hrun ?_⟩
  intro t ht
  exact regular_of_regular (List.all_eq_true.mp hregular t ht)

end VideoGen
