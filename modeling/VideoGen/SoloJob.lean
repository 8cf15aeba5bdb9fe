import VideoGen.Delivery

/-!
# A job with its row to itself

One job works on one video, and nobody else writes the row or announces the
end of the video.  Whatever else the system does then happens beside it: a
step concerns the job only when the queue moves it or when its one
execution that has not ended receives an answer.
-/

namespace VideoGen

/-! ## Attempts -/

/-- The job as the given attempt receives it; attempts count from zero. -/
def Job.attempt (job : Job) (n : ℕ) : Job := { job with attemptsMade := n }

@[simp] theorem Job.attempt_id (job : Job) (n : ℕ) : (job.attempt n).id = job.id := rfl

@[simp] theorem Job.attempt_data (job : Job) (n : ℕ) : (job.attempt n).data = job.data := rfl

@[simp] theorem Job.attempt_attemptsMade (job : Job) (n : ℕ) :
    (job.attempt n).attemptsMade = n := rfl

@[simp] theorem Job.maxAttempts_attempt (job : Job) (n : ℕ) :
    (job.attempt n).maxAttempts = job.maxAttempts := rfl

theorem Job.attempt_self (job : Job) : job.attempt job.attemptsMade = job := rfl

def QueuedJob.IsOf (job : Job) (q : QueuedJob) : Prop := q.job = job.attempt q.job.attemptsMade

theorem QueuedJob.isOf_settle {job : Job} {q : QueuedJob} (h : q.IsOf job)
    (r : Except Thrown Value) : (q.settle r).IsOf job := by
  unfold IsOf at h ⊢
  cases r with
  | ok x => exact h
  | error e =>
      change { q.job with attemptsMade := q.job.attemptsMade + 1 } = _
      rw [h]
      rfl

theorem JobMove.isOf {threads : List Worker} {id : ℕ} {q q' : QueuedJob} {l : EnvStep}
    {tasks : List Task} {job : Job} (h : JobMove threads id q l q' tasks) (hq : q.IsOf job) :
    q'.IsOf job := by
  cases h with
  | settle hstate hget halive hprog => exact QueuedJob.isOf_settle hq _
  | _ => exact hq

/-! ## Calls beside the job -/

/-- The call can change the row of the video or announces its end. -/
def Call.Disturbs (videoId : String) : Call → Prop
  | .updateVideo id _ _ => id = videoId
  | .deleteVideo id => id = videoId
  | .emit (.completed event) => event.videoId = videoId
  | .emit (.failed event) => event.videoId = videoId
  | _ => False

theorem Call.not_disturbs_of_quiet {c : Call} (hc : c.Quiet = true) (videoId : String) :
    ¬c.Disturbs videoId := by
  intro hdisturbs
  cases c with
  | emit event => cases event <;> first | exact hdisturbs | cases hc
  | _ => first | exact hdisturbs | cases hc

def DomainEvent.isFinal (videoId : String) : DomainEvent → Bool
  | .completed event => event.videoId = videoId
  | .failed event => event.videoId = videoId
  | _ => false

def World.finalEvents (w : World) (videoId : String) : List DomainEvent :=
  w.events.filter (DomainEvent.isFinal videoId)

section Frames

variable {w w' : World} {c : Call} {a : Answer} {videoId : String}

theorem World.finalEvents_of_events (h : w'.events = w.events) :
    w'.finalEvents videoId = w.finalEvents videoId := by
  unfold finalEvents
  rw [h]

theorem World.finalEvents_of_emit {event : DomainEvent} {x : Unit}
    (h : w.answer (.emit event) a = some (w', x)) : w'.finalEvents videoId =
      w.finalEvents videoId ++ if event.isFinal videoId then [event] else [] := by
  unfold finalEvents
  rw [answer_emit h, List.filter_append]
  congr 1
  by_cases hfinal : event.isFinal videoId = true <;> simp [hfinal]

theorem World.row_of_answer {x : c.Reply} (h : w.answer c a = some (w', x))
    (hc : ¬c.Disturbs videoId) {row : Video} (hrow : w.videos.find? videoId = some row) :
    w'.videos.find? videoId = some row := by
  by_cases hwrites : c.WritesVideos = false
  · rw [(answer_frame h).1 hwrites]
    exact hrow
  · cases c with
    | insertVideo id fields =>
        have hinsert : ∃ r videos, w.videos.insert? r = some videos ∧ w'.videos = videos := by
          cases id <;> cases a <;>
            simp only [answer, reduceCtorEq, Option.map_eq_some_iff, Prod.mk.injEq] at h
          all_goals
            obtain ⟨videos, hvideos, rfl, -⟩ := h
            exact ⟨_, videos, hvideos, rfl⟩
        obtain ⟨r, videos, hvideos, hw⟩ := hinsert
        have hfresh := Table.find?_fresh_of_insert? hvideos
        have hne : videoId ≠ r.id := by
          rintro rfl
          rw [hrow] at hfresh
          cases hfresh
        rw [hw, Table.find?_of_insert? hvideos, if_neg hne]
        exact hrow
    | updateVideo id expected fields =>
        have hne : videoId ≠ id := fun hid ↦ hc hid.symm
        rw [(answer_updateVideo h).1, find?_updateVideo, if_neg hne]
        exact hrow
    | deleteVideo id =>
        have hne : videoId ≠ id := fun hid ↦ hc hid.symm
        rw [answer_deleteVideo h, if_neg hne]
        exact hrow
    | _ => exact absurd rfl hwrites

theorem World.row_of_update {expected : Option VideoStatus} {fields : VideoFields} {n : ℕ}
    (h : w.answer (.updateVideo videoId expected fields) a = some (w', n)) {row : Video}
    (hrow : w.videos.find? videoId = some row) :
    (expected.all (· = row.status) = true ∧ n ≠ 0 ∧
      w'.videos.find? videoId = some (row.assign fields w.now)) ∨
    (expected.all (· = row.status) = false ∧ w'.videos.find? videoId = some row) := by
  obtain ⟨hw, hn⟩ := answer_updateVideo h
  have hfind := find?_updateVideo w videoId expected fields videoId
  rw [if_pos rfl, hrow, Option.map_some] at hfind
  by_cases hguard : expected.all (· = row.status) = true
  · left
    have haffected := (updateVideo_affected w videoId expected fields).mpr ⟨row, hrow, hguard⟩
    rw [if_pos hguard] at hfind
    exact ⟨hguard, hn ▸ haffected, hw ▸ hfind⟩
  · right
    rw [if_neg hguard] at hfind
    exact ⟨by simpa using hguard, hw ▸ hfind⟩

theorem World.finalEvents_of_answer {x : c.Reply} (h : w.answer c a = some (w', x))
    (hc : ¬c.Disturbs videoId) : w'.finalEvents videoId = w.finalEvents videoId := by
  by_cases hemits : c.Emits = false
  · exact finalEvents_of_events ((answer_frame h).2.2.2 hemits)
  · cases c with
    | emit event =>
        have hfinal : event.isFinal videoId = false := by
          cases event with
          | completed event => exact decide_eq_false hc
          | failed event => exact decide_eq_false hc
          | _ => rfl
        rw [finalEvents_of_emit h, hfinal]
        simp
    | _ => exact absurd rfl hemits

end Frames

/-! ## Undisturbed runs -/

/-- Executions of the job are started by the queue, and only they write the row or
announce the end of the video. -/
structure Undisturbed (job : Job) (s : State) (a : Step) : Prop where
  invokes : a.InvokesOnly fun task ↦ ¬task.Executes job.id
  others : ∀ i f t c, a = .call i f → f.TakesEffect = true → s.threads[i]? = some t →
    t.pending? = some c → c.Disturbs job.data.videoId → t.task.Executes job.id

/-- The video is pending and its job waits for the first attempt. -/
structure Awaits (job : Job) (w : World) : Prop where
  row : ∃ row, w.videos.find? job.data.videoId = some row ∧ row.status = .pending
  queued : ∃ q, w.queue.find? job.id = some q ∧ q.job = job ∧ q.state = .waiting
  name : job.name = videoGenerationJob
  attemptsMade : job.attemptsMade = 0

section System

variable {config : StorageConfig} {s s' : State} {a : Step} {job : Job}

structure Unchanged (job : Job) (s s' : State) : Prop where
  row : ∀ row, s.state.videos.find? job.data.videoId = some row →
    s'.state.videos.find? job.data.videoId = some row
  events : s'.state.finalEvents job.data.videoId = s.state.finalEvents job.data.videoId

theorem unchanged_of_frame (hvideos : s'.state.videos = s.state.videos)
    (hevents : s'.state.events = s.state.events) : Unchanged job s s' := by
  constructor
  · intro row hrow
    rw [hvideos]
    exact hrow
  · exact World.finalEvents_of_events hevents

theorem unchanged_of_call {i : ℕ} {f : Fate} {t t' : Worker} {c : Call}
    {r : Except Thrown c.Reply} (h : Answered config s s' i f t t' c r)
    (hc : f.TakesEffect = true → ¬c.Disturbs job.data.videoId) : Unchanged job s s' := by
  rcases World.exec_effect h.exec with ⟨-, hw, -⟩ | ⟨hf, b, x, hx, -⟩
  · exact unchanged_of_frame (congrArg World.videos hw) (congrArg World.events hw)
  · constructor
    · intro row hrow
      exact World.row_of_answer hx (hc hf) hrow
    · exact World.finalEvents_of_answer hx (hc hf)

/-- Beside its executions and the moves of the queue nothing concerns the job. -/
theorem solo_cases (hs : Conforming s) (hd : Delivered job.id s) (hu : Undisturbed job s a)
    (hstep : (system config).step s a = some s') {q : QueuedJob}
    (hq : s.state.queue.find? job.id = some q) :
    (s'.state.queue.find? job.id = some q ∧ Unchanged job s s' ∧
      ∀ i t, s.threads[i]? = some t → t.task.Executes job.id →
        s'.threads[i]? = some t ∨
          (a = .crash i ∧ s'.threads[i]? = some { t with crashed := true })) ∨
    (∃ l tasks q', a = .env l ∧ JobMove s.threads job.id q l q' tasks ∧
      s'.state.queue.find? job.id = some q' ∧ Unchanged job s s' ∧
      s'.threads = s.threads ++ tasks.map (system config).start) ∨
    ∃ i f t t' c r phase, a = .call i f ∧ Answered config s s' i f t t' c r ∧
      q.state = .active i ∧ s'.state.queue.find? job.id = some q ∧
      stageOf t = .worker q.job phase ∧ WorkerAllows q.job phase c ∧
      stageOf t' = .worker q.job (phase.next c r) := by
  by_cases hworks : ∃ i f t, a = .call i f ∧ s.threads[i]? = some t ∧ t.task.Executes job.id
  · obtain ⟨i, f, t, rfl, hget, hexec⟩ := hworks
    obtain ⟨t₀, t', c, r, h⟩ := answered_of_step hstep hs
    obtain rfl : t = t₀ := Option.some.inj (hget.symm.trans h.get)
    have hended := not_ended_of_answered h
    obtain ⟨q₀, hq₀, hstate, htask⟩ := hd.running i t hget hexec hended
    obtain rfl := Option.some.inj (hq.symm.trans hq₀)
    obtain ⟨phase, hphase⟩ := stageOf_process htask
    have hallows := allows_of_answered h
    have hnext := stageOf_of_answered h
    rw [hphase] at hallows hnext
    cases hallows with
    | worker hallows =>
        exact .inr (.inr ⟨i, f, t, t', c, r, phase, rfl, h, hstate,
          job_kept hstep hq hstate hget hended, hphase, hallows, hnext⟩)
  · have hunchanged : Unchanged job s s' := by
      cases a with
      | invoke task =>
          obtain rfl := Option.some.inj hstep
          exact unchanged_of_frame rfl rfl
      | crash i =>
          obtain ⟨t, -, rfl⟩ := (system config).step_crash_cases hstep
          exact unchanged_of_frame rfl rfl
      | env l =>
          obtain ⟨w, tasks, henv, rfl⟩ := (system config).step_env_cases hstep
          obtain ⟨hvideos, -, hevents⟩ := envStep_frame henv
          exact unchanged_of_frame hvideos hevents
      | call i f =>
          obtain ⟨t, t', c, r, h⟩ := answered_of_step hstep hs
          apply unchanged_of_call h
          intro hf hc
          have hexec := hu.others i f t c rfl hf h.get h.pending hc
          exact hworks ⟨i, f, t, rfl, h.get, hexec⟩
    obtain ⟨q', hq', rfl | ⟨l, tasks, ha, hmove, hthreads⟩⟩ := job_step hstep hq
    · left
      refine ⟨hq', hunchanged, ?_⟩
      intro i t hget hexec
      obtain ⟨t', hget', (rfl | ⟨ha, rfl⟩) | ⟨f, c, r, ha, -⟩⟩ := thread_step hstep hs hget
      · exact .inl hget'
      · exact .inr ⟨ha, hget'⟩
      · exact absurd ⟨i, f, t, ha, hget, hexec⟩ hworks
    · exact .inr (.inl ⟨l, tasks, q', ha, hmove, hq', hunchanged, hthreads⟩)

theorem execution_cases {id : ℕ} (hs : Conforming s)
    (hinvoke : a.InvokesOnly fun task ↦ ¬task.Executes id)
    (hstep : (system config).step s a = some s') {j : ℕ} {u : Worker}
    (hu : s'.threads[j]? = some u) (hexec : u.task.Executes id) :
    (∃ t, s.threads[j]? = some t ∧ t.task = u.task ∧
      ((u = t ∨ a = .crash j) ∨ ∃ f c r, a = .call j f ∧ Answered config s s' j f t u c r)) ∨
    ∃ q, a = .env (.take id) ∧ j = s.threads.length ∧ s.state.queue.find? id = some q ∧
      s'.state.queue.find? id = some (setState (.active j) q) ∧
      u = (system config).start (.process q.job) := by
  by_cases hlt : j < s.threads.length
  · left
    have hget := List.getElem?_eq_getElem hlt
    obtain ⟨u', hu', hcases⟩ := thread_step hstep hs hget
    obtain rfl := Option.some.inj (hu.symm.trans hu')
    refine ⟨_, hget, ?_⟩
    rcases hcases with (heq | ⟨ha, heq⟩) | ⟨f, c, r, ha, hcall⟩
    · exact ⟨by rw [heq], .inl (.inl heq)⟩
    · exact ⟨by rw [heq], .inl (.inr ha)⟩
    · exact ⟨hcall.task_eq.symm, .inr ⟨f, c, r, ha, hcall⟩⟩
  · right
    obtain ⟨hj, ⟨task, rfl, rfl⟩ | ⟨id', q, rfl, hq, hq', rfl⟩ |
      ⟨i, f, t, t', event, r, -, -, rfl⟩⟩ := started_cases hstep hs hu (by omega)
    · exact absurd hexec hinvoke
    · obtain rfl : id' = id := (executes_of_find? hq).symm.trans hexec
      exact ⟨q, rfl, hj, hq, hq', rfl⟩
    · exact hexec.elim

end System

end VideoGen
