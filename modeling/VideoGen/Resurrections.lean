import VideoGen.Attendance
import VideoGen.Origins

/-!
# What a retry resurrects

`retryFailedJob` looks at the record only.  The row is failed when it is
reset exactly if a failure was written after the last reset: every failure
can be retried once, and a second retry of it resurrects whatever the row
has become.
-/

namespace VideoGen

def Call.Revives (videoId : String) : Call → Prop
  | .queueAdd _ data _ => data.videoId = videoId
  | .updateVideo id _ _ => id = videoId
  | _ => False

/-- Every retry of the run resets only failed rows, and writes to a row or enqueues a job for
it only after it found the row failed. -/
structure ResurrectsFailed (ts : List (Transition State Step)) : Prop where
  resets : ∀ pre u post v, ts = pre ++ u :: post → Resets v u →
    u.before.state.statusOf v = some .failed
  revives : ∀ pre u post i id v c, ts = pre ++ u :: post →
    Executes u i (.retryFailedJob id) c → c.Revives v →
    ∃ g ∈ pre ++ [u], Executes g i (.retryFailedJob id) (.updateVideo v none resetFields) ∧
      g.before.state.statusOf v = some .failed

/-- Between two resets of a row lies a failure. -/
def FailsBetween (ts : List (Transition State Step)) : Prop :=
  ∀ pre g mid u post v, ts = pre ++ g :: (mid ++ u :: post) → Resets v g → Resets v u →
    ∃ f ∈ mid, Fails v f

section System

variable {config : StorageConfig} {s s' : State} {a : Step} {v : String}
  {past : List (Transition State Step)}

theorem statusOf_forced {w w' : World} {b : Answer} {id : String} {fields : VideoFields}
    {status : VideoStatus} {n : ℕ} (h : w.answer (.updateVideo id none fields) b = some (w', n))
    (hfields : fields.status = some status) :
    w'.statusOf id = (w.statusOf id).map fun _ ↦ status := by
  rw [(World.answer_updateVideo h).1, World.statusOf_updateVideo, if_pos rfl]
  simp [hfields]

theorem failed_of_fails (h : Origins past s) (hstep : (system config).step s a = some s')
    (hfails : Fails v ⟨s, a, s'⟩) : s'.state.statusOf v = some .failed := by
  obtain ⟨⟨row, hrow⟩, i, task, message, hexec⟩ := hfails
  obtain ⟨b, x, hx⟩ := hexec.answer h.conforming hstep
  rw [statusOf_forced hx rfl]
  change ((s.state.videos.find? v).map Video.status).map _ = _
  rw [hrow]
  rfl

theorem not_failed_of_resets (h : Origins past s) (hstep : (system config).step s a = some s')
    (hresets : Resets v ⟨s, a, s'⟩) : s'.state.statusOf v ≠ some .failed := by
  obtain ⟨i, task, hexec⟩ := hresets
  obtain ⟨b, x, hx⟩ := hexec.answer h.conforming hstep
  rw [statusOf_forced hx rfl]
  cases s.state.statusOf v <;> simp

theorem failed_of_report {w w' : World} {b : Answer} {id : String} {n : ℕ}
    {expected : Option VideoStatus} {fields : VideoFields} (hreport : Report expected fields)
    (hx : w.answer (.updateVideo id expected fields) b = some (w', n))
    (hquiet : v = id → fields.status = some .failed → w.statusOf v = none) :
    w'.statusOf v = some .failed ↔ w.statusOf v = some .failed := by
  rcases World.statusOf_of_update hx v with hsame | ⟨status, hid, hbefore, hguard, -, hafter⟩
  · rw [hsame]
  · rw [hafter, hbefore]
    cases hreport with
    | start expected hallowed =>
        obtain rfl : expected = status := by simpa using hguard
        have hne : expected ≠ .failed := by
          rintro rfl
          exact absurd hallowed (by decide)
        simp [TransitionExtra.fields, hne]
    | progress u => rfl
    | complete url thumbnail =>
        obtain rfl : VideoStatus.processing = status := by simpa using hguard
        simp [TransitionExtra.fields]
    | fail message =>
        rw [hquiet hid rfl] at hbefore
        cases hbefore

theorem statusOf_of_silent {w w' : World} {b : Answer} {id : String} {n : ℕ}
    {expected : Option VideoStatus} {fields : VideoFields} (hfields : fields.status = none)
    (hx : w.answer (.updateVideo id expected fields) b = some (w', n)) :
    w'.statusOf v = w.statusOf v := by
  rcases World.statusOf_of_update hx v with hsame | ⟨status, -, hbefore, -, -, hafter⟩
  · exact hsame
  · rw [hafter, hbefore, hfields, Option.getD_none]

/-- A row is failed after a step exactly if the step fails it, or it was failed before and
the step does not reset it. -/
theorem failed_step (h : Origins past s) (hstep : (system config).step s a = some s') :
    s'.state.statusOf v = some .failed ↔ Fails v ⟨s, a, s'⟩ ∨
      s.state.statusOf v = some .failed ∧ ¬Resets v ⟨s, a, s'⟩ := by
  by_cases hfails : Fails v ⟨s, a, s'⟩
  · exact iff_of_true (failed_of_fails h hstep hfails) (.inl hfails)
  by_cases hresets : Resets v ⟨s, a, s'⟩
  · apply iff_of_false (not_failed_of_resets h hstep hresets)
    rintro (hf | ⟨-, hr⟩)
    · exact hfails hf
    · exact hr hresets
  suffices hsame : s'.state.statusOf v = some .failed ↔ s.state.statusOf v = some .failed by
    simp [hsame, hfails, hresets]
  rcases rowWrite_of_step hstep h.conforming h.managed with hvideos |
    ⟨i, f, t, c, b, x, rfl, hf, hget, hpending, hwrite, hx⟩
  · rw [World.statusOf, World.statusOf, hvideos]
  have hexec := executes_of_pending (t := ⟨s, .call i f, s'⟩) rfl hf hget hpending
  have hcirculating := h.circulating t (List.mem_of_getElem? hget)
  rw [← task_stageOf t] at hcirculating
  generalize stageOf t = stage at hwrite hexec hcirculating
  cases hwrite with
  | report job phase hreport =>
      apply failed_of_report hreport hx
      rintro rfl hstatus
      cases hreport with
      | fail message =>
          by_contra hrow
          obtain ⟨row, hrow⟩ : s.state.HasRow job.data.videoId := by
            simpa [World.HasRow, World.statusOf, Option.eq_none_iff_forall_ne_some] using hrow
          exact hfails ⟨⟨row, hrow⟩, i, _, message, hexec⟩
      | start status hallowed => cases hstatus
      | progress u => cases hstatus
      | complete url thumbnail => cases hstatus
  | insert userId dto =>
      obtain ⟨id, rfl, hfresh, hrows⟩ := World.answer_insertVideo hx
      rw [World.statusOf, World.statusOf, hrows]
      by_cases hid : v = id
      · rw [if_pos hid, hid, hfresh]
        simp [Video.create, CreateVideoDto.fields]
      · rw [if_neg hid]
  | link userId dto videoId jobId => rw [statusOf_of_silent rfl hx]
  | reset id record =>
      have hne : v ≠ record.videoId := by
        rintro rfl
        exact hresets ⟨i, _, hexec⟩
      rcases World.statusOf_of_update hx v with hsame | ⟨status, hid, -⟩
      · rw [hsame]
      · exact absurd hid hne
  | relink id record jobId now => rw [statusOf_of_silent rfl hx]
  | delete id userId videoId => exact hcirculating.elim

/-! ## Histories of failures and resets -/

theorem failed_iff_since {ts : List (Transition State Step)}
    (hrun : Run (system config).step ⟨World.empty, []⟩ ts s)
    (hcirculates : ∀ t ∈ ts, Circulates t.before t.act) (v : String) :
    s.state.statusOf v = some .failed ↔ Since (Fails v) (Resets v) ts := by
  apply hrun.since_iff fun s ↦ s.state.statusOf v = some .failed
  · simp [World.statusOf, World.empty]
  · intro t ht hstep
    obtain ⟨pre, post, rfl, hpre, -⟩ := hrun.exists_prefix ht
    have h := Origins.run hpre fun u hu ↦ hcirculates u (by simp [hu])
    exact failed_step h hstep

theorem not_resets_of_fails {t : Transition State Step} (h : Fails v t) : ¬Resets v t := by
  obtain ⟨-, i, task, message, hexec⟩ := h
  rintro ⟨i', task', hexec'⟩
  have hcall := (call?_of_executes hexec).symm.trans (call?_of_executes hexec')
  simp [failedFields, resetFields] at hcall

/-- Only retries reset rows, and only of videos whose records say that they have failed. -/
theorem failed_before_reset (h : Origins past s) (hstep : (system config).step s a = some s')
    (hresets : Resets v ⟨s, a, s'⟩) : ∃ t ∈ past, Fails v t := by
  obtain ⟨i, task, hexec⟩ := hresets
  obtain ⟨t, hget, htask, hallows⟩ := hexec.allows h.conforming hstep
  have hmanaged := h.managed t (List.mem_of_getElem? hget)
  apply h.failures t (List.mem_of_getElem? hget)
  rw [← task_stageOf t] at hmanaged
  have hwrite := hallows.rowWrite hmanaged rfl
  generalize stageOf t = stage at hwrite
  generalize hc : Call.updateVideo v none resetFields = c at hwrite
  cases hwrite with
  | report job phase hreport => cases hreport <;> simp [resetFields, failedFields] at hc
  | insert userId dto => cases hc
  | link userId dto videoId jobId => simp [resetFields, queueJobIdFields] at hc
  | reset id record =>
      obtain ⟨rfl, -, -⟩ := Call.updateVideo.inj hc
      rfl
  | relink id record jobId now => simp [resetFields, queueJobIdFields] at hc
  | delete id userId videoId => cases hc

def Retry.revived? : Retry → Option String
  | .adding record => some record.videoId
  | .stamping record _ => some record.videoId
  | .linking record _ _ => some record.videoId
  | .marking record _ _ => some record.videoId
  | _ => none

theorem revived?_next {id : String} {retry : Retry} {c : Call} {r : Except Thrown c.Reply}
    (hallows : RetryAllows id retry c) (h : (retry.next c r).revived? = some v) :
    retry.revived? = some v ∨ (c = .updateVideo v none resetFields ∧ ∃ x, r = .ok x) := by
  cases hallows with
  | look =>
      rcases r with e | _ | record
      · cases h
      · cases h
      · change (if record.retried then Retry.thrown else Retry.resetting record).revived? = _ at h
        split at h <;> cases h
  | reset record =>
      rcases r with e | n
      · cases h
      · obtain rfl := Option.some.inj h
        exact .inr ⟨rfl, n, rfl⟩
  | add record => rcases r with e | n <;> first | exact .inl h | cases h
  | stamp record jobId => rcases r with e | n <;> first | exact .inl h | cases h
  | link record jobId now => rcases r with e | n <;> first | exact .inl h | cases h
  | mark record jobId now => rcases r with e | n <;> cases h

theorem reset_of_revived {w : World} {ts : List (Transition State Step)}
    (hrun : Run (system config).step ⟨w, []⟩ ts s) {i : ℕ} {t : Worker} {id : String}
    {retry : Retry} (hget : s.threads[i]? = some t) (hstage : stageOf t = .retrying id retry)
    (hrevived : retry.revived? = some v) :
    ∃ g ∈ ts, Executes g i (.retryFailedJob id) (.updateVideo v none resetFields) := by
  induction hrun generalizing i t retry with
  | nil => simp at hget
  | @snoc ts s s' a head last ih =>
      rcases thread_cases last (run_conforming head) hget with
        ⟨t₀, ht₀, -, -, -, hstage₀, -⟩ | ⟨-, task, rfl⟩ | ⟨f, t₀, c, r, rfl, h⟩
      · obtain ⟨g, hg, hexec⟩ := ih ht₀ (hstage₀ ▸ hstage) hrevived
        exact ⟨g, List.mem_append_left _ hg, hexec⟩
      · rw [stageOf_start] at hstage
        cases task <;> cases hstage
        cases hrevived
      · have hallows := allows_of_answered h
        have hnext := stageOf_of_answered h
        have htask := task_stageOf t₀
        rw [hstage] at hnext
        generalize hstage₀ : stageOf t₀ = stage at hallows hnext htask
        cases hallows with
        | retrying hallows =>
            obtain ⟨rfl, rfl⟩ := Stage.retrying.inj hnext
            rcases revived?_next hallows hrevived with hold | ⟨rfl, x, rfl⟩
            · obtain ⟨g, hg, hexec⟩ := ih h.get hstage₀ hold
              exact ⟨g, List.mem_append_left _ hg, hexec⟩
            · refine ⟨⟨s, .call i f, s'⟩, by simp, f, t₀, rfl, ?_, h.get, htask.symm, h.pending⟩
              exact (World.exec_ok h.exec).1
        | worker hallows => cases hnext
        | creating hallows => cases hnext
        | listening hallows => cases hnext
        | removing hallows => cases hnext
        | service call => cases hnext

/-- A retry resurrects only failed videos exactly if every reset of a row but the first follows
a failure that no earlier reset has answered. -/
theorem resurrectsFailed_iff {ts : List (Transition State Step)}
    (hrun : Run (system config).step ⟨World.empty, []⟩ ts s)
    (hcirculates : ∀ t ∈ ts, Circulates t.before t.act) :
    ResurrectsFailed ts ↔ FailsBetween ts := by
  constructor
  · rintro h pre g mid u post v rfl hg hu
    have hfailed := h.resets (pre ++ g :: mid) u post v (by simp) hu
    have hlist : pre ++ g :: (mid ++ u :: post) = pre ++ g :: mid ++ u :: post := by simp
    rw [hlist] at hrun hcirculates
    obtain ⟨hpre, -, -⟩ := hrun.at_append_cons
    rw [failed_iff_since hpre fun t ht ↦ hcirculates t (List.mem_append_left _ ht),
      List.append_cons] at hfailed
    rcases since_append hfailed with ⟨pre', f, post', rfl, hf, -⟩ | ⟨hold, -⟩
    · exact ⟨f, by simp, hf⟩
    · rcases (since_snoc g).mp hold with hfails | ⟨-, hnot⟩
      · exact absurd hg (not_resets_of_fails hfails)
      · exact absurd hg hnot
  · intro h
    have hresets (pre : List (Transition State Step)) (u : Transition State Step)
        (post : List (Transition State Step)) (v : String) (hts : ts = pre ++ u :: post)
        (hu : Resets v u) : u.before.state.statusOf v = some .failed := by
      subst hts
      obtain ⟨hpre, hstep, -⟩ := hrun.at_append_cons
      have hbefore : ∀ t ∈ pre, Circulates t.before t.act :=
        fun t ht ↦ hcirculates t (List.mem_append_left _ ht)
      rw [failed_iff_since hpre hbefore]
      apply since_of_after (failed_before_reset (Origins.run hpre hbefore) hstep hu)
      rintro pre' g mid rfl hg
      exact h pre' g mid u post v (by simp) hg hu
    refine ⟨hresets, ?_⟩
    rintro pre u post i id v c rfl hexec hc
    obtain ⟨hpre, hstep, -⟩ := hrun.at_append_cons
    obtain ⟨t, hget, htask, hallows⟩ := hexec.allows (run_conforming hpre) hstep
    obtain ⟨retry, hstage⟩ : ∃ retry, stageOf t = .retrying id retry := by
      generalize stageOf t = stage at htask
      cases stage <;> cases htask
      exact ⟨_, rfl⟩
    have hfound : ∃ g ∈ pre ++ [u],
        Executes g i (.retryFailedJob id) (.updateVideo v none resetFields) := by
      rw [hstage] at hallows
      cases hallows with
      | retrying hallows =>
          cases hallows with
          | look => exact hc.elim
          | reset record =>
              obtain rfl : record.videoId = v := hc
              exact ⟨u, by simp, hexec⟩
          | add record =>
              obtain rfl : record.videoId = v := hc
              obtain ⟨g, hg, hexec⟩ := reset_of_revived hpre hget hstage rfl
              exact ⟨g, by simp [hg], hexec⟩
          | stamp record jobId => exact hc.elim
          | link record jobId now =>
              obtain rfl : record.videoId = v := hc
              obtain ⟨g, hg, hexec⟩ := reset_of_revived hpre hget hstage rfl
              exact ⟨g, by simp [hg], hexec⟩
          | mark record jobId now => exact hc.elim
    obtain ⟨g, hg, hreset⟩ := hfound
    obtain ⟨pre', post', hpre'⟩ := List.append_of_mem hg
    refine ⟨g, hg, hreset, hresets pre' g (post' ++ post) v ?_ ⟨i, _, hreset⟩⟩
    rw [List.append_cons, hpre']
    simp

end System

/-! ## Single and repeated retries -/

def Task.Requested : Task → Prop
  | .createAndQueue _ _ => True
  | .retryFailedJob _ => True
  | _ => False

instance : DecidablePred Task.Requested := fun task ↦ by
  cases task <;> first | exact isTrue trivial | exact isFalse id

theorem circulates_of_requested {s : State} {a : Step} (h : a.InvokesOnly Task.Requested) :
    Circulates s a := by
  cases a with
  | invoke task => cases task <;> trivial
  | _ => trivial

def Transition.reset? (t : Transition State Step) : Option String :=
  match t.execution? with
  | some (_, _, .updateVideo id none fields) => if fields = resetFields then some id else none
  | _ => none

theorem reset?_eq_some_iff {v : String} {t : Transition State Step} :
    t.reset? = some v ↔ Resets v t := by
  constructor
  · intro h
    unfold Transition.reset? at h
    split at h
    · rename_i i task id fields hexec
      obtain ⟨rfl, hid⟩ := Option.ite_none_right_eq_some.mp h
      obtain rfl := Option.some.inj hid
      exact ⟨i, task, execution?_eq_some_iff.mp hexec⟩
    · cases h
  · rintro ⟨i, task, hexec⟩
    simp [Transition.reset?, execution?_eq_some_iff.mpr hexec]

theorem failsBetween_of_single {ts : List (Transition State Step)}
    (h : (ts.filterMap Transition.reset?).length ≤ 1) : FailsBetween ts := by
  rintro pre g mid u post v rfl hg hu
  simp only [List.filterMap_append, List.filterMap_cons, reset?_eq_some_iff.mpr hg,
    reset?_eq_some_iff.mpr hu, List.length_append, List.length_cons] at h
  omega

def refusal : Thrown := .instance .error "connection lost"

/-- The only attempt of the created job cannot read the row; the listener records the
failure. -/
def failingActs : List Step :=
  createActs 0 "video" ++ [.env (.take 1), .call 1 (.rejected refusal)] ++
    List.replicate 3 (okStep 1) ++ [.env (.settle 1), okStep 2, .call 2 (.ok (.uuid "record"))]

def retriedActs : List Step :=
  failingActs ++ [.invoke (.retryFailedJob "record")] ++ List.replicate 6 (okStep 3)

/-- The retry cannot mark its record; its job completes the row, and the record is retried
again. -/
def remarkedActs : List Step :=
  failingActs ++ [.invoke (.retryFailedJob "record")] ++ List.replicate 5 (okStep 3) ++
    [.call 3 (.rejected refusal), .env (.take 2), okStep 4, okStep 4] ++ renderActs 4 "url" ++
    List.replicate 5 (okStep 4) ++ [.env (.settle 2), .invoke (.retryFailedJob "record")] ++
    List.replicate 3 (okStep 5)

theorem resurrectsFailed_retried : ∃ (ts : List (Transition State Step)) (s : State),
    Run (system ⟨"bucket", none, "region"⟩).step ⟨World.empty, []⟩ ts s ∧
      s.state.statusOf "video" = some .pending ∧ s.state.queue.lastId = 2 ∧
      ResurrectsFailed ts := by
  obtain ⟨ts, s, hrun, hacts, hobs⟩ := Run.exists_of_follow
    (system ⟨"bucket", none, "region"⟩).step ⟨World.empty, []⟩ retriedActs
    (fun p ↦ (decide ((p.1.filterMap Transition.reset?).length ≤ 1),
      decide (p.2.state.statusOf "video" = some .pending ∧ p.2.state.queue.lastId = 2)))
    (true, true) (by decide +kernel)
  have hinvoke : ∀ a ∈ retriedActs, a.InvokesOnly Task.Requested := by decide
  obtain ⟨hsingle, hend⟩ := Prod.mk.inj hobs
  obtain ⟨hstatus, hjobs⟩ := of_decide_eq_true hend
  refine ⟨ts, s, hrun, hstatus, hjobs, (resurrectsFailed_iff hrun ?_).mpr ?_⟩
  · exact fun t ht ↦ circulates_of_requested (hinvoke _ (hacts ▸ List.mem_map_of_mem ht))
  · exact failsBetween_of_single (of_decide_eq_true hsingle)

/-- A retry resets a row that is completed. -/
theorem completed_resurrected : ∃ (ts : List (Transition State Step)) (s : State),
    Run (system ⟨"bucket", none, "region"⟩).step ⟨World.empty, []⟩ ts s ∧
      (∀ t ∈ ts, Circulates t.before t.act) ∧
      (∃ u ∈ ts, Resets "video" u ∧ u.before.state.statusOf "video" = some .completed) ∧
      ¬ResurrectsFailed ts := by
  obtain ⟨ts, s, hrun, hacts, hobs⟩ := Run.exists_of_follow
    (system ⟨"bucket", none, "region"⟩).step ⟨World.empty, []⟩ remarkedActs
    (fun p ↦ p.1.any fun t ↦ decide (t.reset? = some "video" ∧
      t.before.state.statusOf "video" = some .completed))
    true (by decide +kernel)
  have hinvoke : ∀ a ∈ remarkedActs, a.InvokesOnly Task.Requested := by decide
  obtain ⟨u, hu, hresets⟩ := List.any_eq_true.mp hobs
  obtain ⟨hreset, hcompleted⟩ := of_decide_eq_true hresets
  have hresets := reset?_eq_some_iff.mp hreset
  refine ⟨ts, s, hrun, ?_, ⟨u, hu, hresets, hcompleted⟩, fun h ↦ ?_⟩
  · exact fun t ht ↦ circulates_of_requested (hinvoke _ (hacts ▸ List.mem_map_of_mem ht))
  · obtain ⟨pre, post, hts⟩ := List.append_of_mem hu
    have hfailed := h.resets pre u post "video" hts hresets
    rw [hcompleted] at hfailed
    cases hfailed

end VideoGen
