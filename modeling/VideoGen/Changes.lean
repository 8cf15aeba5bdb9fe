import VideoGen.MethodCalls
import VideoGen.Steps

/-!
# What a call can change

A row, a record or a job after a call is one that was there before, one that
the call has changed or one that it has added.  The methods that are called
on their own change rows and the cache only.
-/

namespace VideoGen

namespace World

variable {w w' : World} {c : Call} {f : Fate} {r : Except Thrown c.Reply}

/-! ## Rows -/

theorem row_of_insert {fields : VideoFields} {newId : Option String} {b : Answer}
    {x : (Call.insertVideo newId fields).Reply}
    (h : w.answer (.insertVideo newId fields) b = some (w', x)) :
    ∃ id, (newId = none ∨ newId = some id) ∧ x = Video.create id fields w.now ∧
      w.videos.find? id = none ∧
      ∀ k, w'.videos.find? k = if k = id then some x else w.videos.find? k := by
  cases newId with
  | none =>
      obtain ⟨id, hx, hfresh, hfind⟩ := answer_insertVideo h
      exact ⟨id, .inl rfl, hx, hfresh, hfind⟩
  | some id =>
      cases b with
      | unit =>
          obtain ⟨videos, hinsert, heq⟩ := Option.map_eq_some_iff.mp h
          obtain ⟨rfl, rfl⟩ := Prod.mk.inj heq
          exact ⟨id, .inr rfl, rfl, Table.find?_fresh_of_insert? hinsert,
            Table.find?_of_insert? hinsert⟩
      | _ => cases h

theorem row_cases (h : w.exec c f = some (w', r)) {id : String} {row' : Video}
    (hrow : w'.videos.find? id = some row') :
    w.videos.find? id = some row' ∨
    (∃ expected fields row, c = .updateVideo id expected fields ∧
      w.videos.find? id = some row ∧ expected.all (· = row.status) = true ∧
      row' = row.assign fields w.now) ∨
    ∃ newId fields, c = .insertVideo newId fields ∧ (newId = none ∨ newId = some id) ∧
      w.videos.find? id = none ∧ row' = Video.create id fields w.now := by
  rcases exec_effect h with ⟨-, rfl, -⟩ | ⟨-, b, x, hx, -⟩
  · exact .inl hrow
  by_cases hwrites : c.WritesVideos = false
  · rw [(answer_frame hx).1 hwrites] at hrow
    exact .inl hrow
  cases c with
  | insertVideo newId fields =>
      obtain ⟨id', hid, rfl, hfresh, hfind⟩ := row_of_insert hx
      rw [hfind] at hrow
      by_cases hsame : id = id'
      · subst hsame
        rw [if_pos rfl] at hrow
        exact .inr (.inr ⟨newId, fields, rfl, hid, hfresh, (Option.some.inj hrow).symm⟩)
      · rw [if_neg hsame] at hrow
        exact .inl hrow
  | updateVideo id' expected fields =>
      rw [(answer_updateVideo hx).1, find?_updateVideo] at hrow
      by_cases hsame : id = id'
      · subst hsame
        rw [if_pos rfl] at hrow
        obtain ⟨row, hold, rfl⟩ := Option.map_eq_some_iff.mp hrow
        by_cases hguard : expected.all (· = row.status) = true
        · rw [if_pos hguard]
          exact .inr (.inl ⟨expected, fields, row, rfl, hold, hguard, rfl⟩)
        · rw [if_neg hguard]
          exact .inl hold
      · rw [if_neg hsame] at hrow
        exact .inl hrow
  | deleteVideo id' =>
      rw [answer_deleteVideo hx] at hrow
      by_cases hsame : id = id'
      · rw [if_pos hsame] at hrow
        cases hrow
      · rw [if_neg hsame] at hrow
        exact .inl hrow
  | _ => exact absurd rfl hwrites

/-! ## Records -/

theorem record_of_exec (h : w.exec c f = some (w', r)) {id : String} {record : FailedJob}
    (hrecord : w.failedJobs.find? id = some record) :
    w'.failedJobs.find? id = some record ∨
      ∃ now jobId, c = .markRetried id now jobId ∧
        w'.failedJobs.find? id = some (record.markRetried now jobId) := by
  rcases exec_effect h with ⟨-, rfl, -⟩ | ⟨-, b, x, hx, -⟩
  · exact .inl hrecord
  by_cases hwrites : c.WritesFailedJobs = false
  · rw [(answer_frame hx).2.1 hwrites]
    exact .inl hrecord
  cases c with
  | insertFailedJob fields =>
      obtain ⟨id', rfl, hid, hinsert⟩ := answer_insertFailedJob hx
      left
      have hne : id ≠ (FailedJob.create id' fields w.now).id := by
        intro heq
        apply hid
        obtain ⟨hmem, hkey⟩ := Table.find?_eq_some_iff.mp hrecord
        rw [← heq, ← hkey]
        exact List.mem_map_of_mem hmem
      rw [hinsert, Table.find?_insert, if_neg hne]
      exact hrecord
  | markRetried id' now jobId =>
      rw [answer_markRetried hx]
      unfold markRetried
      rw [Table.find?_modify]
      by_cases hid : id = id'
      · subst hid
        right
        rw [if_pos rfl, hrecord]
        exact ⟨now, jobId, rfl, rfl⟩
      · left
        rw [if_neg hid]
        exact hrecord
  | _ => exact absurd rfl hwrites

theorem failedJob_cases (h : w.exec c f = some (w', r)) {id : String} {record' : FailedJob}
    (hrecord : w'.failedJobs.find? id = some record') :
    (∃ record, w.failedJobs.find? id = some record ∧ (record' = record ∨
      ∃ now jobId, c = .markRetried id now jobId ∧ record' = record.markRetried now jobId)) ∨
    ∃ fields, c = .insertFailedJob fields ∧ record' = FailedJob.create id fields w.now := by
  cases hold : w.failedJobs.find? id with
  | some record =>
      left
      refine ⟨record, rfl, ?_⟩
      rcases record_of_exec h hold with hkept | ⟨now, jobId, rfl, hmarked⟩
      · exact .inl (Option.some.inj (hrecord.symm.trans hkept))
      · exact .inr ⟨now, jobId, rfl, Option.some.inj (hrecord.symm.trans hmarked)⟩
  | none =>
      right
      rcases exec_effect h with ⟨-, rfl, -⟩ | ⟨-, b, x, hx, -⟩
      · rw [hold] at hrecord
        cases hrecord
      by_cases hwrites : c.WritesFailedJobs = false
      · rw [(answer_frame hx).2.1 hwrites, hold] at hrecord
        cases hrecord
      cases c with
      | insertFailedJob fields =>
          obtain ⟨id', rfl, hid, hinsert⟩ := answer_insertFailedJob hx
          rw [hinsert, Table.find?_insert, hold] at hrecord
          split at hrecord
          · rename_i heq
            obtain rfl : id = id' := heq
            exact ⟨fields, rfl, (Option.some.inj hrecord).symm⟩
          · cases hrecord
      | markRetried id' now jobId =>
          rw [answer_markRetried hx] at hrecord
          unfold markRetried at hrecord
          rw [Table.find?_modify, hold, Option.map_none, ite_self] at hrecord
          cases hrecord
      | _ => exact absurd rfl hwrites

/-! ## Jobs -/

theorem queue_cases (h : w.exec c f = some (w', r)) :
    w'.queue = w.queue ∨ ∃ name data opts, c = .queueAdd name data opts ∧
      w'.queue = w.queue.add name data opts := by
  rcases exec_effect h with ⟨-, rfl, -⟩ | ⟨-, b, x, hx, -⟩
  · exact .inl rfl
  by_cases hwrites : c.WritesQueue = false
  · exact .inl ((answer_frame hx).2.2.1 hwrites)
  cases c with
  | queueAdd name data opts => exact .inr ⟨name, data, opts, rfl, (answer_queueAdd hx).1⟩
  | _ => exact absurd rfl hwrites

end World

/-! ## The clock -/

theorem World.now_of_exec {w w' : World} {c : Call} {f : Fate} {r : Except Thrown c.Reply}
    (h : w.exec c f = some (w', r)) : w'.now = w.now := by
  rcases World.exec_effect h with ⟨-, rfl, -⟩ | ⟨-, b, x, hx, -⟩
  · rfl
  cases c with
  | updateVideo id expected fields => rw [(World.answer_updateVideo hx).1, World.updateVideo_eq]
  | insertVideo id fields =>
      cases id <;> cases b <;>
        simp only [World.answer, reduceCtorEq, Option.map_eq_some_iff, Prod.mk.injEq] at hx
      all_goals
        obtain ⟨videos, -, rfl, -⟩ := hx
        rfl
  | insertFailedJob fields =>
      cases b <;>
        simp only [World.answer, reduceCtorEq, Option.map_eq_some_iff, Prod.mk.injEq] at hx
      obtain ⟨failedJobs, -, rfl, -⟩ := hx
      rfl
  | _ =>
      cases b <;> simp only [World.answer, reduceCtorEq, Option.some.injEq, Prod.mk.injEq] at hx
      all_goals
        obtain ⟨rfl, -⟩ := hx
        rfl

theorem now_le_of_env {w w' : World} {threads : List Worker} {l : EnvStep} {tasks : List Task}
    (h : envStep w threads l = some (w', tasks)) : w.now ≤ w'.now := by
  cases l <;> simp only [envStep] at h <;> (repeat' split at h) <;>
    simp only [reduceCtorEq, Option.some.injEq, Prod.mk.injEq] at h <;>
    obtain ⟨rfl, -⟩ := h <;> simp [World.setJob, World.setRedis]

/-! ## Methods that are called on their own -/

def Call.RowsOnly (c : Call) : Prop :=
  c.WritesFailedJobs = false ∧ c.WritesQueue = false ∧ c.Emits = false

theorem calls_findOneForUser {Q : Call → Prop} {id userId : String} (h : Q (.selectVideo id)) :
    (findOneForUser id userId).Calls Q := by
  refine (calls_ask h).bind fun row ↦ ?_
  cases row with
  | none => trivial
  | some video =>
      change Program.Calls _ (if video.userId = userId then _ else _)
      split <;> trivial

theorem calls_update {Q : Call → Prop} {id userId : String} {dto : UpdateVideoDto}
    (hselect : ∀ id, Q (.selectVideo id))
    (hinsert : ∀ id fields, Q (.insertVideo (some id) fields))
    (hupdate : ∀ id fields, Q (.updateVideo id none fields)) :
    (update id userId dto).Calls Q := by
  refine (calls_findOneForUser (hselect id)).bind fun video ↦ ?_
  refine (calls_ask (hselect _)).bind fun row ↦ ?_
  cases row with
  | none => exact calls_ask (hinsert _ _)
  | some row =>
      dsimp only
      split
      · trivial
      · exact (calls_ask (hupdate _ _)).bind fun _ ↦ trivial

theorem ServiceCall.calls_body (call : ServiceCall) : call.body.Calls Call.RowsOnly := by
  cases call with
  | update id userId dto =>
      exact (calls_update (fun _ ↦ ⟨rfl, rfl, rfl⟩) (fun _ _ ↦ ⟨rfl, rfl, rfl⟩)
        fun _ _ ↦ ⟨rfl, rfl, rfl⟩).map _
  | transitionStatus videoId expectedStatus newStatus extra =>
      exact (calls_transitionStatus ⟨rfl, rfl, rfl⟩ (fun _ _ ↦ ⟨rfl, rfl, rfl⟩)
        fun _ ↦ ⟨rfl, rfl, rfl⟩).map _
  | updateProgress videoId percent message additionalMeta =>
      exact (calls_updateProgress ⟨rfl, rfl, rfl⟩ (fun _ _ ↦ ⟨rfl, rfl, rfl⟩)
        ⟨rfl, rfl, rfl⟩).map _
  | markFailed videoId errorMessage =>
      exact (calls_markFailed ⟨rfl, rfl, rfl⟩ ⟨rfl, rfl, rfl⟩).map _
  | evictCache videoId => exact (calls_evictCache ⟨rfl, rfl, rfl⟩).map _
  | getCachedStatus videoId =>
      exact (calls_getCachedStatus ⟨rfl, rfl, rfl⟩ (calls_loadFromDb ⟨rfl, rfl, rfl⟩
        ⟨rfl, rfl, rfl⟩ fun _ ↦ ⟨rfl, rfl, rfl⟩)).map _

end VideoGen
