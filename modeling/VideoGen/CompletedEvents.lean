import VideoGen.CompletedRows

/-!
# Completed events

An execution announces completion after its completing update was
answered, whatever the answer was.  The history of a run shows, for every
announcement, the update of the same execution that precedes it; the
announcement is true when that update found the row `processing`.
-/

namespace VideoGen

def completingCall (event : VideoCompletedEvent) : Call :=
  .updateVideo event.videoId (some .processing)
    ((completeExtra event.videoUrl event.thumbnailUrl).fields .completed)

/-- The completing update of thread `i`, answered. -/
def Completes (t : Transition State Step) (i : ℕ) (event : VideoCompletedEvent) : Prop :=
  ∃ job, Receives t i (.process job) (completingCall event)

def Announces (t : Transition State Step) (i : ℕ) (event : VideoCompletedEvent) : Prop :=
  ∃ job, Executes t i (.process job) (.emit (.completed event))

/-- The step makes the row `completed` with exactly the announced files. -/
def AppliedBy (t : Transition State Step) (event : VideoCompletedEvent) : Prop :=
  t.before.state.statusOf event.videoId = some .processing ∧
    ∃ row, t.after.state.videos.find? event.videoId = some row ∧ row.status = .completed ∧
      row.videoUrl = some event.videoUrl

/-- Every announcement of the run follows the applied completing update of the same
execution, and no execution whose update was not applied announces anything. -/
def Truthful (ts : List (Transition State Step)) : Prop :=
  ∀ pre t post i event, ts = pre ++ t :: post → Announces t i event →
    (∃ u ∈ pre, Completes u i event ∧ AppliedBy u event) ∧
      ∀ u ∈ pre, ∀ event', Completes u i event' → AppliedBy u event'

/-! ## The announced completion in the phases -/

def Phase.completion? : Phase → Option VideoCompletedEvent
  | .completed _ event => some event
  | .recorded _ event => some event
  | .announced _ event => some event
  | _ => none

theorem completion?_next {job : Job} {phase : Phase} {c : Call} {r : Except Thrown c.Reply}
    (hallows : WorkerAllows job phase c) {event : VideoCompletedEvent}
    (h : (phase.next c r).completion? = some event) :
    phase.completion? = some event ∨ (c = completingCall event ∧ ∃ x, r = .ok x) := by
  cases hallows with
  | load => rcases r with e | (_ | video) <;> cases h
  | start status hallowed =>
      rcases r with e | n
      · cases h
      · change (if (n : ℕ) = 0 then Phase.skipped else Phase.working).completion? = _ at h
        split at h <;> cases h
  | quiet _ hquiet =>
      rw [Phase.next_quiet hquiet] at h
      rcases r with e | x
      · by_cases hcaught : c.Caught = true <;> simp [hcaught, Phase.completion?] at h
      · cases h
  | progress u => rcases r with e | n <;> cases h
  | complete url thumbnail hurl =>
      rcases r with e | n
      · cases h
      · have hevent : completionOf job.data.videoId
            ((completeExtra url thumbnail).fields .completed) = event := Option.some.inj h
        rw [completionOf_complete] at hevent
        subst hevent
        exact .inr ⟨rfl, n, rfl⟩
  | stamp applied event' => rcases r with e | n <;> exact .inl h
  | cache applied event' key value => rcases r with e | n <;> exact .inl h
  | record applied event' =>
      rcases r with e | x
      · cases h
      · exact .inl h
  | announce applied event' => exact .inl h
  | mark _ hphase hfinal message =>
      have hnext := next_mark hphase job.data.videoId none message r
      rw [hnext] at h
      rcases r with e | n <;> cases h
  | evict message key => rcases r with e | x <;> cases h
  | report message => rcases r with e | x <;> cases h

section System

variable {config : StorageConfig} {s s' : State}

/-- Every execution that stands behind its completing update received the answer to
it at some earlier moment. -/
theorem completes_of_completion {w : World} {ts : List (Transition State Step)}
    (hrun : Run (system config).step ⟨w, []⟩ ts s) {i : ℕ} {t : Worker} {job : Job}
    {phase : Phase} {event : VideoCompletedEvent} (hget : s.threads[i]? = some t)
    (hstage : stageOf t = .worker job phase) (hphase : phase.completion? = some event) :
    ∃ u ∈ ts, Completes u i event := by
  induction hrun generalizing i t job phase event with
  | nil => simp at hget
  | @snoc ts s s' a head last ih =>
      rcases thread_cases last (run_conforming head) hget with
        ⟨t₀, ht₀, -, -, -, hstage₀, -⟩ | ⟨-, task, rfl⟩ | ⟨f, t₀, c, r, rfl, h⟩
      · obtain ⟨u, hu, hcompletes⟩ := ih ht₀ (hstage₀ ▸ hstage) hphase
        exact ⟨u, List.mem_append_left _ hu, hcompletes⟩
      · rw [fresh_of_start hstage] at hphase
        cases hphase
      · obtain ⟨phase₀, hstage₀, hallows, rfl⟩ := worker_of_answered h hstage
        rcases completion?_next hallows hphase with hphase₀ | ⟨rfl, x, rfl⟩
        · obtain ⟨u, hu, hcompletes⟩ := ih h.get hstage₀ hphase₀
          exact ⟨u, List.mem_append_left _ hu, hcompletes⟩
        · refine ⟨⟨s, .call i f, s'⟩, by simp, job, ?_⟩
          have htask := task_stageOf t₀
          rw [hstage₀] at htask
          rcases World.exec_cases h.exec with ⟨a, y, rfl, -, -⟩ | ⟨e, -, -, -, he⟩ |
            ⟨a, e, y, -, -, -, he⟩
          · exact ⟨a, t₀, rfl, h.get, htask.symm, h.pending⟩
          · cases he
          · cases he

theorem appliedBy_of_processing {t : Transition State Step} {i : ℕ}
    {event : VideoCompletedEvent} (hs : Conforming t.before)
    (hstep : (system config).step t.before t.act = some t.after)
    (hcompletes : Completes t i event)
    (hprocessing : t.before.state.statusOf event.videoId = some .processing) :
    AppliedBy t event := by
  refine ⟨hprocessing, ?_⟩
  obtain ⟨row, hrow, hstatus⟩ := World.statusOf_eq_some_iff.mp hprocessing
  obtain ⟨job, hreceives⟩ := hcompletes
  obtain ⟨a, x, hx⟩ := hreceives.executes.answer hs hstep
  obtain ⟨hw, -⟩ := World.answer_updateVideo hx
  refine ⟨row.assign ((completeExtra event.videoUrl event.thumbnailUrl).fields .completed)
    t.before.state.now, ?_, rfl, rfl⟩
  rw [hw, World.find?_updateVideo, if_pos rfl, hrow, Option.map_some, if_pos]
  simp [hstatus]

/-- When every completing update of the run meets a row that is `processing`, no
announcement of the run is false. -/
theorem truthful_of_processing {w : World} {ts : List (Transition State Step)}
    (hrun : Run (system config).step ⟨w, []⟩ ts s)
    (hmeets : ∀ t ∈ ts, ∀ i event, Completes t i event →
      t.before.state.statusOf event.videoId = some .processing) : Truthful ts := by
  rintro pre t post i event rfl ⟨job, hexec⟩
  obtain ⟨hpre, hstep, -⟩ := hrun.at_append_cons
  have happlied : ∀ u ∈ pre, ∀ event', Completes u i event' → AppliedBy u event' := by
    intro u hu event' hcompletes
    obtain ⟨pre', post', rfl, hpre', hstep'⟩ := hpre.exists_prefix hu
    exact appliedBy_of_processing (run_conforming hpre') hstep' hcompletes
      (hmeets u (by simp) i event' hcompletes)
  refine ⟨?_, happlied⟩
  obtain ⟨t₀, hget, htask, hallows⟩ := hexec.allows (run_conforming hpre) hstep
  have hstage : ∃ applied, stageOf t₀ = .worker job (.recorded applied event) := by
    generalize stageOf t₀ = stage at htask hallows
    cases hallows with
    | worker hallows =>
        obtain rfl := Task.process.inj htask
        cases hallows with
        | quiet _ hquiet => simp [Call.Quiet] at hquiet
        | announce applied => exact ⟨applied, rfl⟩
    | creating hallows => cases htask
    | retrying hallows => cases htask
    | listening hallows => cases htask
    | removing hallows => cases htask
    | service call => cases htask
  obtain ⟨applied, hstage⟩ := hstage
  obtain ⟨u, hu, hcompletes⟩ := completes_of_completion hpre hget hstage rfl
  exact ⟨u, hu, hcompletes, happlied u hu event hcompletes⟩

end System

/-! ## True and false announcements -/

def announcingActs : List Step :=
  createActs 0 "video" ++ [.env (.take 1), okStep 1, okStep 1] ++ renderActs 1 "url" ++
    List.replicate 5 (okStep 1)

/-- The owner removes the video while it is rendered: the completing update affects
no row, and the execution announces it all the same. -/
def removedActs : List Step :=
  createActs 0 "video" ++ [.env (.take 1), okStep 1, okStep 1] ++ renderActs 1 "url" ++
    [.invoke (.remove "video" "user"), okStep 2, okStep 2] ++ List.replicate 3 (okStep 1)

def Transition.completing? (t : Transition State Step) : Option String :=
  match t.call? with
  | some (.updateVideo id _ fields) =>
      if fields.status = some .completed then some id else none
  | _ => none

theorem completing?_of_completes {t : Transition State Step} {i : ℕ}
    {event : VideoCompletedEvent} (h : Completes t i event) :
    t.completing? = some event.videoId := by
  obtain ⟨job, hreceives⟩ := h
  simp [Transition.completing?, call?_of_executes hreceives.executes, completingCall,
    TransitionExtra.fields]

theorem truthful_of_processing_announced : ∃ (ts : List (Transition State Step)) (s : State),
    Run (system ⟨"bucket", none, "region"⟩).step ⟨World.empty, []⟩ ts s ∧
      DomainEvent.completed ⟨"video", "url", none⟩ ∈ s.state.events ∧ Truthful ts := by
  obtain ⟨ts, s, hrun, -, hobs⟩ := Run.exists_of_follow
    (system ⟨"bucket", none, "region"⟩).step ⟨World.empty, []⟩ announcingActs
    (fun p ↦ (p.1.all fun t ↦ t.completing?.all fun id ↦
        decide (t.before.state.statusOf id = some .processing),
      decide (DomainEvent.completed ⟨"video", "url", none⟩ ∈ p.2.state.events)))
    (true, true) (by decide +kernel)
  obtain ⟨hall, hevent⟩ := Prod.mk.inj hobs
  refine ⟨ts, s, hrun, of_decide_eq_true hevent, truthful_of_processing hrun ?_⟩
  intro t ht i event hcompletes
  have hmeets := List.all_eq_true.mp hall t ht
  simpa [completing?_of_completes hcompletes] using hmeets

def announcesAt (i : ℕ) (event : VideoCompletedEvent) (t : Transition State Step) : Bool :=
  match t.act, t.before.threads[i]? with
  | .call j (.ok _), some u =>
      match u.task, u.pending? with
      | .process _, some (.emit (.completed event')) => j = i && event' = event
      | _, _ => false
  | _, _ => false

theorem announces_of_announcesAt {i : ℕ} {event : VideoCompletedEvent}
    {t : Transition State Step} (h : announcesAt i event t = true) : Announces t i event := by
  unfold announcesAt at h
  split at h
  · rename_i j a u hact hget
    split at h
    · rename_i job event' htask hpending
      simp only [Bool.and_eq_true, decide_eq_true_eq] at h
      obtain ⟨rfl, rfl⟩ := h
      exact ⟨job, .ok a, u, hact, rfl, hget, htask, hpending⟩
    · cases h
  · cases h

theorem false_announcement : ∃ (ts : List (Transition State Step)) (s : State),
    Run (system ⟨"bucket", none, "region"⟩).step ⟨World.empty, []⟩ ts s ∧
      (∀ t ∈ ts, t.act.InvokesOnly Task.Managed) ∧ ¬Truthful ts := by
  obtain ⟨ts, s, hrun, hacts, hobs⟩ := Run.exists_of_follow
    (system ⟨"bucket", none, "region"⟩).step ⟨World.empty, []⟩ removedActs
    (fun p ↦ (p.1.any (announcesAt 1 ⟨"video", "url", none⟩),
      p.1.all fun t ↦ t.completing?.all fun id ↦ decide (t.before.state.statusOf id = none)))
    (true, true) (by decide +kernel)
  have hinvoke : ∀ a ∈ removedActs, a.InvokesOnly Task.Managed := by decide
  obtain ⟨hany, hall⟩ := Prod.mk.inj hobs
  refine ⟨ts, s, hrun, fun t ht ↦ hinvoke _ (hacts ▸ List.mem_map_of_mem ht), fun htrue ↦ ?_⟩
  obtain ⟨t, ht, hannounces⟩ := List.any_eq_true.mp hany
  obtain ⟨pre, post, rfl⟩ := List.append_of_mem ht
  obtain ⟨⟨u, hu, hcompletes, hprocessing, -⟩, -⟩ :=
    htrue pre t post 1 _ rfl (announces_of_announcesAt hannounces)
  have hmissing := List.all_eq_true.mp hall u (by simp [hu])
  simp [completing?_of_completes hcompletes, hprocessing] at hmissing

end VideoGen
