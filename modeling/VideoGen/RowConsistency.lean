import VideoGen.Steps

/-!
# Consistency of the video rows

Creation, worker executions, retries and removal write a row in seven ways:
they insert it, and they issue six kinds of update, each under its own
guard.  Every one of them keeps the row consistent, whichever of the other
writers came before.  Saving an edited entity and the service methods that
are called from outside are not among these writers.
-/

namespace VideoGen

/-- The methods of the modelled flows, as opposed to calls of single service
methods. -/
def Task.Managed : Task → Prop
  | .service _ => False
  | _ => True

instance : DecidablePred Task.Managed
  | .process _ => isTrue trivial
  | .createAndQueue _ _ => isTrue trivial
  | .retryFailedJob _ => isTrue trivial
  | .onVideoFailed _ => isTrue trivial
  | .remove _ _ => isTrue trivial
  | .service _ => isFalse id

/-- The updates of a row that managed tasks issue, with their guards. -/
inductive RowUpdate : Option VideoStatus → VideoFields → Prop where
  | start (status : VideoStatus) (hallowed : Allowed status .processing) :
      RowUpdate (some status) (startExtra.fields .processing)
  | progress (u : ProgressUpdate) : RowUpdate (some .processing) u.fields
  | complete (url : String) (thumbnail : Option String) (hurl : url ≠ "") :
      RowUpdate (some .processing) ((completeExtra url thumbnail).fields .completed)
  | fail (message : String) : RowUpdate none (failedFields message)
  | reset : RowUpdate none resetFields
  | link (jobId : ℕ) : RowUpdate none (queueJobIdFields jobId)

theorem StageAllows.update {stage : Stage} {videoId : String} {expected : Option VideoStatus}
    {fields : VideoFields} (h : StageAllows stage (.updateVideo videoId expected fields))
    (hmanaged : stage.task.Managed) : RowUpdate expected fields := by
  cases h with
  | worker h =>
      cases h with
      | start status hallowed => exact .start status hallowed
      | quiet _ hquiet => simp [Call.Quiet] at hquiet
      | progress u => exact .progress u
      | complete url thumbnail hurl => exact .complete url thumbnail hurl
      | mark => exact .fail _
  | creating h => cases h; exact .link _
  | retrying h =>
      cases h with
      | reset record => exact .reset
      | link record jobId now => exact .link jobId
  | listening h => cases h
  | removing h => cases h
  | service call => exact hmanaged.elim

theorem StageAllows.insert {stage : Stage} {id : Option String} {fields : VideoFields}
    (h : StageAllows stage (.insertVideo id fields)) (hmanaged : stage.task.Managed) :
    id = none ∧ ∃ userId dto, fields = CreateVideoDto.fields dto userId := by
  cases h with
  | worker h =>
      cases h with
      | quiet _ hquiet => simp [Call.Quiet] at hquiet
  | creating h => cases h; exact ⟨rfl, _, _, rfl⟩
  | retrying h => cases h
  | listening h => cases h
  | removing h => cases h
  | service call => exact hmanaged.elim

section System

variable {config : StorageConfig} {s s' : State}

/-- What one step can do to a row: nothing, insert it, or update it under the
guard of one of the six kinds of update. -/
theorem step_row {a : Step} (hstep : (system config).step s a = some s')
    (hs : Conforming s) (htasks : ∀ t ∈ s.threads, t.task.Managed)
    {videoId : String} {r' : Video} (hr' : s'.state.videos.find? videoId = some r') :
    s.state.videos.find? videoId = some r' ∨
    (∃ userId dto, r' = Video.create videoId (CreateVideoDto.fields dto userId) s.state.now) ∨
    ∃ r expected fields, s.state.videos.find? videoId = some r ∧
      RowUpdate expected fields ∧ expected.all (· = r.status) = true ∧
      r' = r.assign fields s.state.now := by
  cases a with
  | invoke task =>
      obtain rfl := Option.some.inj hstep
      exact .inl hr'
  | crash i =>
      obtain ⟨t, -, rfl⟩ := (system config).step_crash_cases hstep
      exact .inl hr'
  | env l =>
      obtain ⟨w, tasks, henv, rfl⟩ := (system config).step_env_cases hstep
      rw [← (envStep_frame henv).1]
      exact .inl hr'
  | call i f =>
      obtain ⟨t, t', c, reply, h⟩ := answered_of_step hstep hs
      have hmanaged : (stageOf t).task.Managed := by
        rw [task_stageOf]
        exact htasks t (List.mem_of_getElem? h.get)
      rcases World.exec_effect h.exec with ⟨-, hw, -⟩ | ⟨-, a, x, hx, -⟩
      · rw [hw] at hr'
        exact .inl hr'
      by_cases hc : c.WritesVideos = false
      · rw [(World.answer_frame hx).1 hc] at hr'
        exact .inl hr'
      cases c with
      | insertVideo id fields =>
          obtain ⟨rfl, userId, dto, rfl⟩ := (allows_of_answered h).insert hmanaged
          obtain ⟨id, rfl, -, hfind⟩ := World.answer_insertVideo hx
          rw [hfind] at hr'
          split at hr'
          · rename_i hid
            obtain rfl := Option.some.inj hr'
            exact .inr (.inl ⟨userId, dto, by rw [hid]⟩)
          · exact .inl hr'
      | updateVideo id expected fields =>
          have hupdate := (allows_of_answered h).update hmanaged
          obtain ⟨hw, -⟩ := World.answer_updateVideo hx
          rw [hw, World.find?_updateVideo] at hr'
          split at hr'
          · rename_i hid
            subst hid
            obtain ⟨r, hr, heq⟩ := Option.map_eq_some_iff.mp hr'
            split at heq
            · rename_i hexpected
              exact .inr (.inr ⟨r, expected, fields, hr, hupdate, hexpected, heq.symm⟩)
            · exact .inl (heq ▸ hr)
          · exact .inl hr'
      | deleteVideo id =>
          rw [World.answer_deleteVideo hx] at hr'
          split at hr'
          · cases hr'
          · exact .inl hr'
      | _ => exact absurd rfl hc

end System

/-! ## The invariant -/

structure RowOk (r : Video) : Prop where
  completed : r.status = .completed → (∃ url, r.videoUrl = some url ∧ url ≠ "") ∧
    r.metadataAt "progressPercent" = .number 100
  failed_iff : r.status = .failed ↔ r.errorMessage ≠ none
  failed : r.status = .failed → r.metadataAt "progressPercent" = .number 0
  processing : r.status = .processing →
    ∃ n, r.metadataAt "progressPercent" = .number n ∧ 10 ≤ n ∧ n ≤ 90
  pending : r.status = .pending → r.metadataAt "progressPercent" = .undefined

theorem get_progressPercent (percent : ℤ) (message : String) (additionalMeta : JsObject)
    (hkeeps : additionalMeta.has "progressPercent" = false) :
    (progressMetadata percent message additionalMeta).stored.get "progressPercent" =
      .number percent := by
  by_cases hmessage : additionalMeta.has "progressMessage" <;>
    simp [progressMetadata, JsObject.spread, JsObject.stored, JsObject.get, hkeeps, hmessage]

theorem rowOk_create (id userId : String) (dto : CreateVideoDto) (now : ℕ) :
    RowOk (Video.create id (dto.fields userId) now) where
  completed h := by simp [Video.create, CreateVideoDto.fields] at h
  failed_iff := by simp [Video.create, CreateVideoDto.fields]
  failed h := by simp [Video.create, CreateVideoDto.fields] at h
  processing h := by simp [Video.create, CreateVideoDto.fields] at h
  pending _ := rfl

theorem RowOk.assign {r : Video} (h : RowOk r) {expected : Option VideoStatus}
    {fields : VideoFields} (hupdate : RowUpdate expected fields)
    (hguard : expected.all (· = r.status) = true) (now : ℕ) : RowOk (r.assign fields now) := by
  -- Outside `failed` the row carries no error message.
  have hnone (hstatus : r.status ≠ .failed) : r.errorMessage = none := by
    by_contra hmessage
    exact hstatus (h.failed_iff.mpr hmessage)
  cases hupdate with
  | start status hallowed =>
      obtain rfl := World.status_of_guard hguard
      have hstatus : r.status ≠ .failed := by
        intro hfailed
        rw [hfailed] at hallowed
        exact absurd hallowed (by decide)
      have hpercent : (r.assign (startExtra.fields .processing) now).metadataAt
          "progressPercent" = .number 10 := get_progressPercent 10 _ _ rfl
      constructor
      · intro hc
        cases hc
      · constructor
        · intro hc
          cases hc
        · intro hc
          exact absurd (hnone hstatus) hc
      · intro hc
        cases hc
      · intro _
        exact ⟨10, hpercent, by omega, by omega⟩
      · intro hc
        cases hc
  | progress u =>
      have hstatus : r.status = .processing := World.status_of_guard hguard
      have hpercent : (r.assign u.fields now).metadataAt "progressPercent" =
          .number u.percent := get_progressPercent u.percent _ _ u.keeps_percent
      have hkeep : (r.assign u.fields now).status = r.status := rfl
      constructor
      · intro hc
        rw [hkeep, hstatus] at hc
        cases hc
      · rw [hkeep]
        exact h.failed_iff
      · intro hc
        rw [hkeep, hstatus] at hc
        cases hc
      · intro _
        exact ⟨u.percent, hpercent, u.ten_le, u.le_ninety⟩
      · intro hc
        rw [hkeep, hstatus] at hc
        cases hc
  | complete url thumbnail hurl =>
      have hstatus : r.status = .processing := World.status_of_guard hguard
      have hpercent : (r.assign ((completeExtra url thumbnail).fields .completed) now).metadataAt
          "progressPercent" = .number 100 := get_progressPercent 100 _ _ rfl
      constructor
      · intro _
        exact ⟨⟨url, rfl, hurl⟩, hpercent⟩
      · constructor
        · intro hc
          cases hc
        · intro hc
          exact absurd (hnone (by simp [hstatus])) hc
      · intro hc
        cases hc
      · intro hc
        cases hc
      · intro hc
        cases hc
  | fail message =>
      have hpercent : (r.assign (failedFields message) now).metadataAt "progressPercent" =
          .number 0 := get_progressPercent 0 _ _ rfl
      constructor
      · intro hc
        cases hc
      · constructor
        · intro _ hc
          cases hc
        · intro _
          rfl
      · intro _
        exact hpercent
      · intro hc
        cases hc
      · intro hc
        cases hc
  | reset =>
      constructor
      · intro hc
        cases hc
      · constructor
        · intro hc
          cases hc
        · intro hc
          exact absurd rfl hc
      · intro hc
        cases hc
      · intro hc
        cases hc
      · intro _
        rfl
  | link jobId => exact ⟨h.completed, h.failed_iff, h.failed, h.processing, h.pending⟩

/-! ## What clients see of a consistent row -/

/-- Replies to a request that reads the given row; all other calls are answered
arbitrarily. -/
def onRow (row : Video) : Spec interface Unit where
  Allows _ _ := True
  Moves _ c reply _ :=
    match c, reply with
    | .selectVideo _, reply => reply = .ok (some row)
    | c, reply => c.Possible reply

def NoConflict {α : Type} (_ : Unit) (r : Except Thrown α) : Prop :=
  ∀ message, r ≠ .error (.instance .conflict message)

theorem keeps_getPresignedDownloadUrl (row : Video) (key : String) (ttl : JsNumber) :
    (getPresignedDownloadUrl key ttl).Keeps (onRow row) NoConflict () := by
  refine Program.keeps_catchWith.mpr ⟨trivial, ?_⟩
  rintro (e | url) ⟨⟩ -
  · intro message h
    cases h
  · intro message h
    cases h

theorem keeps_getVideoResult {row : Video} {url : String} (hstatus : row.status = .completed)
    (hurl : row.videoUrl = some url) (hne : url ≠ "") (extractS3Key : String → String)
    (expiresIn : JsNumber) :
    (getVideoResult extractS3Key row.id row.userId expiresIn).Keeps (onRow row)
      NoConflict () := by
  refine Program.keeps_bind.mpr (Program.keeps_bind.mpr ⟨trivial, ?_⟩)
  rintro r ⟨⟩ rfl
  change Program.Keeps _ _ (if row.userId = row.userId then pure row else _) ()
  rw [if_pos rfl]
  change (videoResult extractS3Key row expiresIn).Keeps _ _ ()
  have htruthy : truthy row.videoUrl = some url := by simp [truthy, hurl, hne]
  unfold videoResult
  rw [hstatus, htruthy]
  refine Program.keeps_bind.mpr (Program.Keeps.mono ?_ (keeps_getPresignedDownloadUrl row _ _))
  rintro ⟨⟩ (e | downloadUrl) h
  · intro message heq
    exact h message (by cases heq; rfl)
  have hrest (thumbnailUrl : Option String) (ttl : JsNumber) (f : JsNumber → VideoResultDto) :
      (do let now ← dateNow
          let expiresAt ← toExpiryDate now ttl
          pure (f expiresAt) : Prog VideoResultDto).Keeps (onRow row) NoConflict () := by
    refine Program.keeps_bind.mpr ⟨trivial, ?_⟩
    rintro (e | now) ⟨⟩ hpossible
    · exact (Bool.false_ne_true hpossible).elim
    refine Program.keeps_bind.mpr ?_
    unfold toExpiryDate
    split
    · intro message heq
      cases heq
    · intro message heq
      cases heq
  rw [Program.then_ok]
  cases hthumbnail : truthy row.thumbnailUrl with
  | none => exact hrest none _ _
  | some thumbnail =>
      refine Program.keeps_bind.mpr (Program.keeps_map.mpr (Program.Keeps.mono ?_
        (keeps_getPresignedDownloadUrl row _ _)))
      rintro ⟨⟩ (e | thumbnailUrl) h
      · intro message heq
        exact h message (by cases heq; rfl)
      · exact hrest (some thumbnailUrl) _ _

/-- Whatever creations, executions, retries, listeners and removals interleave,
with whatever faults: every row is consistent, and so is what clients are told
about it. -/
theorem rows_consistent {config : StorageConfig} {ts : List (Transition State Step)}
    {s : State} (hrun : Run (system config).step ⟨World.empty, []⟩ ts s)
    (hinvoke : ∀ t ∈ ts, t.act.InvokesOnly Task.Managed)
    {videoId : String} {row : Video} (hrow : s.state.videos.find? videoId = some row) :
    RowOk row ∧
    ((VideoStatusResponseDto.from row).resultReady = true → ∀ extractS3Key expiresIn,
      (getVideoResult extractS3Key row.id row.userId expiresIn).Keeps (onRow row)
        NoConflict ()) ∧
    ((VideoStatusResponseDto.from row).errorMessage ≠ none → row.status = .failed) ∧
    ∀ progress, (VideoStatusResponseDto.from row).progress = some progress →
      ∃ n, progress.percent = .number n ∧ 0 ≤ n ∧ n ≤ 100 := by
  have hok : RowOk row := by
    refine hrun.invariant (fun s ↦ Conforming s ∧ (∀ t ∈ s.threads, t.task.Managed) ∧
      ∀ videoId row, s.state.videos.find? videoId = some row → RowOk row)
      ⟨by simp [Conforming], by simp, by simp [World.empty]⟩ ?_ |>.2.2 videoId row hrow
    rintro t ht hstep ⟨hconf, htasks, hrows⟩
    refine ⟨step_conforming hstep hconf, step_tasks hstep (hinvoke t ht) (fun _ ↦ trivial)
      (fun _ ↦ trivial) htasks, ?_⟩
    intro videoId row' hrow'
    rcases step_row hstep hconf htasks hrow' with hsame | ⟨userId, dto, rfl⟩ |
      ⟨row, expected, fields, hrow, hupdate, hguard, rfl⟩
    · exact hrows videoId row' hsame
    · exact rowOk_create _ _ _ _
    · exact (hrows videoId row hrow).assign hupdate hguard _
  refine ⟨hok, ?_, ?_, ?_⟩
  · intro hready extractS3Key expiresIn
    have hstatus : row.status = .completed := by
      simpa [VideoStatusResponseDto.from] using hready
    obtain ⟨⟨url, hurl, hne⟩, -⟩ := hok.completed hstatus
    exact keeps_getVideoResult hstatus hurl hne extractS3Key expiresIn
  · exact hok.failed_iff.mpr
  · intro progress hprogress
    simp only [VideoStatusResponseDto.from, Option.ite_none_right_eq_some] at hprogress
    obtain ⟨hstatus, heq⟩ := hprogress
    obtain rfl := Option.some.inj heq
    obtain ⟨n, hn, hlow, hhigh⟩ := hok.processing hstatus
    exact ⟨n, by simp [hn, JsValue.orElse], by omega, by omega⟩

/-- A video that is created, taken and started, while the worker crashes. -/
theorem rows_consistent_started :
    ∃ s : State, (∃ row, s.state.videos.find? "v" = some row ∧ row.status = .processing) ∧
      ∀ row, s.state.videos.find? "v" = some row → RowOk row := by
  let acts : List Step :=
    [.invoke (.createAndQueue "u" ⟨"t", "p", none, none, none, none, none⟩),
      .call 0 (.ok (.uuid "v")), .call 0 (.ok .unit), .env (.take 1), .call 1 (.ok .unit),
      .call 1 (.ok .unit), .crash 1]
  obtain ⟨ts, s, hrun, hacts, hobs⟩ := Run.exists_of_follow
    (system ⟨"b", none, "r"⟩).step ⟨World.empty, []⟩ acts
    (fun p ↦ p.2.state.statusOf "v")
    (some .processing) (by decide +kernel)
  refine ⟨s, World.statusOf_eq_some_iff.mp hobs, fun row hrow ↦ ?_⟩
  have hinvoke : ∀ a ∈ acts, a.InvokesOnly Task.Managed := by decide
  exact (rows_consistent hrun
    (fun t ht ↦ hinvoke _ (hacts ▸ List.mem_map_of_mem ht)) hrow).1

end VideoGen
