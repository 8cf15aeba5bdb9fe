import VideoGen.Ownership

/-!
# Retrying a record

`retryFailedJob` looks at the `retried` flag first and sets it last.  A call
that finds the flag unset has a claim on the record; every other call throws
a conflict and has done nothing but read.  Two calls share the claim exactly
when one reads the record while the other is still at work.
-/

namespace VideoGen

/-! ## The log of a call -/

/-- The call has read the record and found it not retried. -/
def Claimed (id : String) (t : Worker) : Prop :=
  ∃ record rest, t.log = ⟨.selectFailedJob id, .ok (some record)⟩ :: rest ∧
    record.retried = false

theorem answered_first {α : Type} {c : Call} {next : Except Thrown c.Reply → Prog α}
    {log : List (Exchange interface)} {r : Except Thrown α}
    (h : (Program.call (I := interface) c next).Follows log (.done r))
    (hok : ∀ x ∈ log, ∃ y, x.2 = .ok y) : ∃ y rest, log = ⟨c, .ok y⟩ :: rest ∧
      (next (.ok y)).Follows rest (.done r) ∧ ∀ x ∈ rest, ∃ y, x.2 = .ok y := by
  obtain ⟨x, rest, rfl, hnext⟩ := h.of_call
  cases x with
  | error e =>
      obtain ⟨y, hy⟩ := hok _ List.mem_cons_self
      cases hy
  | ok y => exact ⟨y, rest, rfl, hnext, fun x hx ↦ hok x (List.mem_cons_of_mem _ hx)⟩

/-- What a call whose calls are all answered has done when it ends: it read the record,
and either threw at once or marked the record in the end. -/
theorem retryFailedJob_ended {id : String} {log : List (Exchange interface)}
    {r : Except Thrown Value}
    (h : (Value.retried <$> retryFailedJob id).Follows log (.done r))
    (hok : ∀ x ∈ log, ∃ y, x.2 = .ok y) :
    log = [⟨.selectFailedJob id, .ok none⟩] ∨
    (∃ record m, record.retried = true ∧ log = [⟨.selectFailedJob id, .ok (some record)⟩] ∧
      r = .error (.instance .conflict m)) ∨
    ∃ record dto mid retriedAt retryJobId x, record.retried = false ∧
      log = (⟨.selectFailedJob id, .ok (some record)⟩ :: mid) ++
        [⟨.markRetried id retriedAt retryJobId, x⟩] ∧ r = .ok (.retried dto) := by
  obtain ⟨record, rest, rfl, h, hok₁⟩ := answered_first h hok
  cases record with
  | none =>
      obtain ⟨rfl, -⟩ := h.of_done
      exact .inl rfl
  | some record =>
      change Program.Follows (Value.retried <$> if record.retried = true then _ else _) _ _ at h
      by_cases hretried : record.retried = true
      · rw [if_pos hretried] at h
        obtain ⟨rfl, rfl⟩ := h.of_done
        exact .inr (.inl ⟨record, _, hretried, rfl, rfl⟩)
      · rw [if_neg hretried] at h
        obtain ⟨affected, rest, rfl, h, hok₂⟩ := answered_first h hok₁
        obtain ⟨jobId, rest, rfl, h, hok₃⟩ := answered_first h hok₂
        obtain ⟨now, rest, rfl, h, hok₄⟩ := answered_first h hok₃
        obtain ⟨linked, rest, rfl, h, hok₅⟩ := answered_first h hok₄
        obtain ⟨marked, rest, rfl, h, -⟩ := answered_first h hok₅
        obtain ⟨rfl, rfl⟩ := h.of_done
        exact .inr (.inr ⟨record, _, [_, _, _, _], _, _, _, by simpa using hretried, rfl, rfl⟩)

theorem retryFailedJob_read {id : String} {log : List (Exchange interface)} {p : Prog Value}
    (h : (Value.retried <$> retryFailedJob id).Follows log p)
    (hok : ∀ x ∈ log, ∃ y, x.2 = .ok y) (hne : log ≠ []) :
    ∃ x rest, log = ⟨.selectFailedJob id, .ok x⟩ :: rest ∧
      ((∃ record, x = some record ∧ record.retried = false) ∨ rest = []) := by
  obtain ⟨first, rest, rfl⟩ := List.exists_cons_of_ne_nil hne
  obtain ⟨x, rfl, h⟩ := h
  have hnil {r : Except Thrown Value} {q : Prog Value} (hdone : (Program.done r).Follows rest q) :
      rest = [] := by
    cases rest with
    | nil => rfl
    | cons y rest => exact hdone.elim
  rcases x with e | (_ | record)
  · obtain ⟨y, hy⟩ := hok _ List.mem_cons_self
    cases hy
  · exact ⟨none, rest, rfl, .inr (hnil h)⟩
  · refine ⟨some record, rest, rfl, ?_⟩
    change Program.Follows (Value.retried <$> if record.retried = true then _ else _) _ _ at h
    by_cases hretried : record.retried = true
    · rw [if_pos hretried] at h
      exact .inr (hnil h)
    · exact .inl ⟨record, rfl, by simpa using hretried⟩

/-! ## The record and its claim -/

theorem World.retried_of_answer {w w' : World} {c : Call} {a : Answer} {x : c.Reply}
    (h : w.answer c a = some (w', x)) {id : String} {record : FailedJob}
    (hrecord : w.failedJobs.find? id = some record) :
    ∃ record', w'.failedJobs.find? id = some record' ∧
      (record.retried = true → record'.retried = true) := by
  by_cases hc : c.WritesFailedJobs = false
  · rw [(answer_frame h).2.1 hc]
    exact ⟨record, hrecord, fun hretried ↦ hretried⟩
  · cases c with
    | insertFailedJob fields =>
        obtain ⟨id', rfl, hfresh, hw⟩ := answer_insertFailedJob h
        refine ⟨record, ?_, fun hretried ↦ hretried⟩
        have hne : id ≠ (FailedJob.create id' fields w.now).id := by
          intro hid
          rw [hid, Table.find?_eq_none_iff.mpr hfresh] at hrecord
          cases hrecord
        rw [hw, Table.find?_insert, if_neg hne]
        exact hrecord
    | markRetried id' retriedAt retryJobId =>
        rw [answer_markRetried h]
        unfold markRetried
        rw [Table.find?_modify, hrecord]
        by_cases hid : id = id'
        · rw [if_pos hid]
          exact ⟨_, rfl, fun _ ↦ rfl⟩
        · rw [if_neg hid]
          exact ⟨_, rfl, fun hretried ↦ hretried⟩
    | _ => exact absurd rfl hc

/-- The calls of the record are answered, and none of them crashes. -/
structure AnswersRetries (id : String) (s : State) (a : Step) : Prop where
  answers : ∀ (i : ℕ) (f : Fate) (t : Worker), a = .call i f → s.threads[i]? = some t →
    t.task = .retryFailedJob id → ∃ b, f = .ok b
  alive : ∀ (i : ℕ) (t : Worker), a = .crash i → s.threads[i]? = some t →
    t.task ≠ .retryFailedJob id

/-- No call reads the record while another one that has read it is at work. -/
def ReadsApart (id : String) (s : State) (a : Step) : Prop :=
  ∀ (i : ℕ) (f : Fate) (t : Worker), a = .call i f → s.threads[i]? = some t →
    t.task = .retryFailedJob id → t.log = [] →
    ∀ (j : ℕ) (u : Worker), s.threads[j]? = some u → u.task = .retryFailedJob id →
      u.log = [] ∨ u.Ended

/-- The calls of a record in a state: its claim is taken at most once, and a call that
has the claim ends only after it has set the flag. -/
structure Retries (config : StorageConfig) (id : String) (s : State) : Prop where
  follows : ∀ t ∈ s.threads, (t.task.body config).Follows t.log t.prog
  alive : ∀ t ∈ s.threads, t.task = .retryFailedJob id → t.crashed = false
  answered : ∀ t ∈ s.threads, t.task = .retryFailedJob id → ∀ x ∈ t.log, ∃ y, x.2 = .ok y
  found : ∀ t ∈ s.threads, t.task = .retryFailedJob id →
    t.log ≠ [⟨.selectFailedJob id, .ok none⟩]
  stored : ∃ record, s.state.failedJobs.find? id = some record ∧
    (record.retried = false → ∀ t ∈ s.threads, t.task = .retryFailedJob id →
      Claimed id t → ¬t.Ended)
  single : ∀ (i j : ℕ) (t u : Worker), s.threads[i]? = some t → s.threads[j]? = some u →
    t.task = .retryFailedJob id → u.task = .retryFailedJob id → Claimed id t → Claimed id u →
    i = j

section System

variable {config : StorageConfig} {s s' : State} {a : Step} {id : String}

theorem retry_cases (ha : AnswersRetries id s a) (hstep : (system config).step s a = some s')
    {j : ℕ} {u : Worker} (hu : s'.threads[j]? = some u)
    (htask : u.task = .retryFailedJob id) :
    s.threads[j]? = some u ∨ (u = (system config).start (.retryFailedJob id)) ∨
    ∃ b t c y, a = .call j (.ok b) ∧ s.threads[j]? = some t ∧
      t.task = .retryFailedJob id ∧ t.pending? = some c ∧
      s.state.answer c b = some (s'.state, y) ∧ u.log = t.log ++ [⟨c, .ok y⟩] ∧
      u.crashed = false := by
  rcases Machine.called_cases hstep hu with ⟨t, ht, rfl | ⟨hcrash, rfl⟩⟩ | ⟨-, task, rfl⟩ |
    ⟨f, t, c, next, r, hcall, -, -, hcalled⟩
  · exact .inl ht
  · exact absurd htask (ha.alive j t hcrash ht)
  · obtain rfl : task = .retryFailedJob id := htask
    exact .inr (.inl rfl)
  · have htask' := hcalled.task_eq.symm.trans htask
    obtain ⟨b, rfl⟩ := ha.answers j f t hcall hcalled.get htask'
    have hexec : s.state.exec c (.ok b) = some (s'.state, r) := hcalled.exec
    obtain ⟨⟨w, y⟩, hanswer, heq⟩ := Option.map_eq_some_iff.mp hexec
    obtain ⟨rfl, rfl⟩ := Prod.mk.inj heq
    exact .inr (.inr ⟨b, t, c, y, hcall, hcalled.get, htask', hcalled.pending, hanswer,
      hcalled.log_eq, hcalled.still_alive⟩)

theorem reads_first (h : Retries config id s) {t : Worker} (ht : t ∈ s.threads)
    (htask : t.task = .retryFailedJob id) (hlog : t.log = []) {c : Call}
    (hpending : t.pending? = some c) : c = .selectFailedJob id := by
  have hfollows := h.follows t ht
  rw [hlog, htask] at hfollows
  obtain ⟨next, hprog⟩ := Thread.pending?_eq_some_iff.mp hpending
  rw [hprog] at hfollows
  have heq := Program.follows_nil.mp hfollows
  exact (Program.call.inj heq).1.symm

theorem claimed_of_append {t u : Worker} {x : Exchange interface} (hlog : u.log = t.log ++ [x])
    (hne : t.log ≠ []) (h : Claimed id u) : Claimed id t := by
  obtain ⟨record, rest, hu, hretried⟩ := h
  obtain ⟨y, tail, ht⟩ := List.exists_cons_of_ne_nil hne
  rw [hlog, ht] at hu
  obtain ⟨rfl, -⟩ := List.cons.inj hu
  exact ⟨record, tail, ht, hretried⟩

theorem claimed_cases (ha : AnswersRetries id s a)
    (hstep : (system config).step s a = some s') (h : Retries config id s) {j : ℕ} {u : Worker}
    (hu : s'.threads[j]? = some u) (htask : u.task = .retryFailedJob id)
    (hclaimed : Claimed id u) :
    (∃ t, s.threads[j]? = some t ∧ t.task = .retryFailedJob id ∧ Claimed id t) ∨
    ∃ f t record, a = .call j f ∧ s.threads[j]? = some t ∧ t.task = .retryFailedJob id ∧
      t.log = [] ∧ s.state.failedJobs.find? id = some record ∧ record.retried = false := by
  rcases retry_cases ha hstep hu htask with hu | rfl |
    ⟨b, t, c, y, hcall, hget, htask', hpending, hanswer, hlog, -⟩
  · exact .inl ⟨u, hu, htask, hclaimed⟩
  · obtain ⟨record, rest, hlog, -⟩ := hclaimed
    cases hlog
  · by_cases hnil : t.log = []
    · right
      obtain rfl := reads_first h (List.mem_of_getElem? hget) htask' hnil hpending
      obtain ⟨record, rest, hu', hretried⟩ := hclaimed
      rw [hlog, hnil, List.nil_append] at hu'
      obtain ⟨hx, -⟩ := List.cons.inj hu'
      have hy : y = some record := by simpa using hx
      obtain ⟨-, hfound⟩ := World.answer_selectFailedJob hanswer
      exact ⟨_, t, record, hcall, hget, htask', hnil, hfound.symm.trans hy, hretried⟩
    · exact .inl ⟨t, hget, htask', claimed_of_append hlog hnil hclaimed⟩

theorem retried_step (hstep : (system config).step s a = some s') {record : FailedJob}
    (hrecord : s.state.failedJobs.find? id = some record) :
    ∃ record', s'.state.failedJobs.find? id = some record' ∧
      (record.retried = true → record'.retried = true) := by
  cases a with
  | invoke task =>
      obtain rfl := Option.some.inj hstep
      exact ⟨record, hrecord, fun hretried ↦ hretried⟩
  | crash i =>
      obtain ⟨t, -, rfl⟩ := (system config).step_crash_cases hstep
      exact ⟨record, hrecord, fun hretried ↦ hretried⟩
  | env l =>
      obtain ⟨w, tasks, henv, rfl⟩ := (system config).step_env_cases hstep
      refine ⟨record, ?_, fun hretried ↦ hretried⟩
      rw [(envStep_frame henv).2.1]
      exact hrecord
  | call i f =>
      obtain ⟨t, c, next, r, -, h⟩ := Machine.called_of_step hstep
      rcases World.exec_effect h.exec with ⟨-, hw, -⟩ | ⟨-, b, x, hx, -⟩
      · rw [hw]
        exact ⟨record, hrecord, fun hretried ↦ hretried⟩
      · exact World.retried_of_answer hx hrecord

theorem not_claimed_of_nil {t : Worker} (hlog : t.log = []) : ¬Claimed id t := by
  rintro ⟨record, rest, hcons, -⟩
  rw [hlog] at hcons
  cases hcons

theorem single_step (ha : AnswersRetries id s a) (hapart : ReadsApart id s a)
    (hstep : (system config).step s a = some s') (h : Retries config id s) :
    ∀ (i j : ℕ) (t u : Worker), s'.threads[i]? = some t → s'.threads[j]? = some u →
      t.task = .retryFailedJob id → u.task = .retryFailedJob id → Claimed id t →
      Claimed id u → i = j := by
  -- A call cannot get the claim while another one has it.
  have hnew {i j : ℕ} {f : Fate} {t u : Worker} {record : FailedJob} (hcall : a = .call i f)
      (ht : s.threads[i]? = some t) (htask : t.task = .retryFailedJob id) (hlog : t.log = [])
      (hrecord : s.state.failedJobs.find? id = some record) (hretried : record.retried = false)
      (hu : s.threads[j]? = some u) (hutask : u.task = .retryFailedJob id)
      (hclaimed : Claimed id u) : False := by
    obtain ⟨record', hrecord', hwork⟩ := h.stored
    obtain rfl := Option.some.inj (hrecord.symm.trans hrecord')
    rcases hapart i f t hcall ht htask hlog j u hu hutask with hnil | hended
    · exact not_claimed_of_nil hnil hclaimed
    · exact hwork hretried u (List.mem_of_getElem? hu) hutask hclaimed hended
  intro i j t u ht hu htask hutask htclaimed huclaimed
  rcases claimed_cases ha hstep h ht htask htclaimed with ⟨t₀, ht₀, htask₀, htclaimed₀⟩ |
    ⟨f, t₀, record, hcall, ht₀, htask₀, hlog, hrecord, hretried⟩
  · rcases claimed_cases ha hstep h hu hutask huclaimed with ⟨u₀, hu₀, hutask₀, huclaimed₀⟩ |
      ⟨f, u₀, record, hcall, hu₀, hutask₀, hlog, hrecord, hretried⟩
    · exact h.single i j t₀ u₀ ht₀ hu₀ htask₀ hutask₀ htclaimed₀ huclaimed₀
    · exact (hnew hcall hu₀ hutask₀ hlog hrecord hretried ht₀ htask₀ htclaimed₀).elim
  · rcases claimed_cases ha hstep h hu hutask huclaimed with ⟨u₀, hu₀, hutask₀, huclaimed₀⟩ |
      ⟨f', u₀, record', hcall', -⟩
    · exact (hnew hcall ht₀ htask₀ hlog hrecord hretried hu₀ hutask₀ huclaimed₀).elim
    · rw [hcall] at hcall'
      exact (Act.call.inj hcall').1

theorem stored_step (ha : AnswersRetries id s a)
    (hstep : (system config).step s a = some s') (h : Retries config id s)
    (hanswered : ∀ t ∈ s'.threads, t.task = .retryFailedJob id →
      ∀ x ∈ t.log, ∃ y, x.2 = .ok y) :
    ∃ record, s'.state.failedJobs.find? id = some record ∧
      (record.retried = false → ∀ t ∈ s'.threads, t.task = .retryFailedJob id →
        Claimed id t → ¬t.Ended) := by
  obtain ⟨record, hrecord, hwork⟩ := h.stored
  obtain ⟨record', hrecord', hmono⟩ := retried_step hstep hrecord
  refine ⟨record', hrecord', ?_⟩
  intro hunretried u hu htask hclaimed hended
  have hbefore : record.retried = false := by
    by_contra hnot
    rw [hmono (by simpa using hnot)] at hunretried
    cases hunretried
  obtain ⟨j, hget⟩ := List.getElem?_of_mem hu
  rcases retry_cases ha hstep hget htask with hold | rfl |
    ⟨b, t, c, y, hcall, hget', htask', hpending, hanswer, hlog, halive⟩
  · exact hwork hbefore u (List.mem_of_getElem? hold) htask hclaimed hended
  · exact not_claimed_of_nil rfl hclaimed
  · have hfollows := Machine.step_follows hstep h.follows u hu
    rw [htask] at hfollows
    cases hprog : u.prog with
    | call c' next =>
        rcases hended with hcrashed | hfinished
        · rw [halive] at hcrashed
          cases hcrashed
        · rw [hprog] at hfinished
          exact hfinished
    | done r =>
        rw [hprog] at hfollows
        obtain ⟨read, rest, hread, hretried⟩ := hclaimed
        rcases retryFailedJob_ended hfollows (hanswered u hu htask) with hnone |
          ⟨read', m, hconflict, hcons, -⟩ |
          ⟨read', dto, mid, retriedAt, retryJobId, x, -, hcons, -⟩
        · rw [hread] at hnone
          simp at hnone
        · rw [hread] at hcons
          obtain ⟨hx, -⟩ := List.cons.inj hcons
          obtain rfl : read = read' := by simpa using hx
          rw [hretried] at hconflict
          cases hconflict
        · rw [hlog] at hcons
          obtain ⟨-, hlast⟩ := List.append_inj' hcons rfl
          obtain ⟨rfl, -⟩ := Sigma.mk.inj (List.singleton_inj.mp hlast)
          rw [World.answer_markRetried hanswer] at hrecord'
          unfold World.markRetried at hrecord'
          rw [Table.find?_modify, if_pos rfl, hrecord] at hrecord'
          obtain rfl := Option.some.inj hrecord'
          cases hunretried

theorem retries_step (ha : AnswersRetries id s a) (hapart : ReadsApart id s a)
    (hstep : (system config).step s a = some s') (h : Retries config id s) :
    Retries config id s' := by
  have hcases {u : Worker} (hu : u ∈ s'.threads) (htask : u.task = .retryFailedJob id) :
      u ∈ s.threads ∨ u = (system config).start (.retryFailedJob id) ∨
        ∃ b t c y, t ∈ s.threads ∧ t.task = .retryFailedJob id ∧ t.pending? = some c ∧
          s.state.answer c b = some (s'.state, y) ∧ u.log = t.log ++ [⟨c, .ok y⟩] ∧
          u.crashed = false := by
    obtain ⟨j, hget⟩ := List.getElem?_of_mem hu
    rcases retry_cases ha hstep hget htask with hold | hnew |
      ⟨b, t, c, y, -, hget', htask', hrest⟩
    · exact .inl (List.mem_of_getElem? hold)
    · exact .inr (.inl hnew)
    · exact .inr (.inr ⟨b, t, c, y, List.mem_of_getElem? hget', htask', hrest⟩)
  have hanswered : ∀ t ∈ s'.threads, t.task = .retryFailedJob id →
      ∀ x ∈ t.log, ∃ y, x.2 = .ok y := by
    intro u hu htask x hx
    rcases hcases hu htask with hold | rfl | ⟨b, t, c, y, ht, htask', -, -, hlog, -⟩
    · exact h.answered u hold htask x hx
    · cases hx
    · rw [hlog] at hx
      rcases List.mem_append.mp hx with hx | hx
      · exact h.answered t ht htask' x hx
      · obtain rfl := List.mem_singleton.mp hx
        exact ⟨y, rfl⟩
  constructor
  · exact Machine.step_follows hstep h.follows
  · intro u hu htask
    rcases hcases hu htask with hold | rfl | ⟨b, t, c, y, -, -, -, -, -, halive⟩
    · exact h.alive u hold htask
    · rfl
    · exact halive
  · exact hanswered
  · intro u hu htask hnone
    rcases hcases hu htask with hold | rfl | ⟨b, t, c, y, ht, htask', hpending, hx, hlog, -⟩
    · exact h.found u hold htask hnone
    · cases hnone
    · rw [hlog] at hnone
      obtain ⟨hnil, hlast⟩ := List.append_eq_singleton_iff.mp hnone |>.resolve_right (by simp)
      obtain rfl := reads_first h ht htask' hnil hpending
      obtain ⟨record, hrecord, -⟩ := h.stored
      obtain ⟨-, hy⟩ := World.answer_selectFailedJob hx
      rw [hrecord] at hy
      subst hy
      simp at hlast
  · exact stored_step ha hstep h hanswered
  · exact single_step ha hapart hstep h

/-! ## At most one retry -/

/-- Thread `i` has enqueued a job or has returned. -/
def Wins (id : String) (ts : List (Transition State Step)) (s : State) (i : ℕ) : Prop :=
  (∃ v ∈ ts, ∃ name data opts,
    Executes v i (.retryFailedJob id) (.queueAdd name data opts)) ∨
  ∃ t x, s.threads[i]? = some t ∧ t.task = .retryFailedJob id ∧ t.prog = .done (.ok x)

/-- One call wins at most; every call that has ended has returned, or it has thrown a
conflict and changed nothing. -/
structure RetriedOnce (id : String) (ts : List (Transition State Step)) (s : State) : Prop where
  winner : ∀ i j, Wins id ts s i → Wins id ts s j → i = j
  ends : ∀ (i : ℕ) (t : Worker), s.threads[i]? = some t → t.task = .retryFailedJob id →
    t.Ended → (∃ dto, t.prog = .done (.ok (.retried dto))) ∨
      ((∃ m, t.prog = .done (.error (.instance .conflict m))) ∧
        ∀ v ∈ ts, ∀ f, v.act = .call i f → v.after.state = v.before.state)

theorem run_retries {w : World} {ts : List (Transition State Step)} {record : FailedJob}
    (hrecord : w.failedJobs.find? id = some record)
    (hrun : Run (system config).step ⟨w, []⟩ ts s)
    (hanswers : ∀ t ∈ ts, AnswersRetries id t.before t.act)
    (hapart : ∀ t ∈ ts, ReadsApart id t.before t.act) : Retries config id s := by
  refine hrun.invariant (Retries config id) ?_ fun t ht hstep h ↦
    retries_step (hanswers t ht) (hapart t ht) hstep h
  constructor
  · simp
  · simp
  · simp
  · simp
  · exact ⟨record, hrecord, by simp⟩
  · simp

theorem claimed_of_wins {w : World} {ts : List (Transition State Step)}
    (hrun : Run (system config).step ⟨w, []⟩ ts s) (h : Retries config id s) {i : ℕ}
    (hwins : Wins id ts s i) :
    ∃ t, s.threads[i]? = some t ∧ t.task = .retryFailedJob id ∧ Claimed id t := by
  rcases hwins with ⟨v, hv, name, data, opts, f, u, hact, -, hget, htask, hpending⟩ |
    ⟨t, x, hget, htask, hprog⟩
  · have hlt : i < s.threads.length := Nat.lt_of_lt_of_le
      (List.getElem?_eq_some_iff.mp hget).1 (Machine.length_le_of_mem hrun hv)
    have hget' := List.getElem?_eq_getElem hlt
    have htask' := (Machine.task_eq_of_mem hrun hv hget hget').symm.trans htask
    obtain ⟨u', c, r, hu', hc, -, hmem⟩ := exists_mem_log hrun hget' hv hact
    obtain rfl := Option.some.inj (hget.symm.trans hu')
    obtain rfl := Option.some.inj (hpending.symm.trans hc)
    refine ⟨_, hget', htask', ?_⟩
    have hfollows := h.follows _ (List.getElem_mem hlt)
    rw [htask'] at hfollows
    obtain ⟨y, rest, hlog, ⟨record, rfl, hretried⟩ | rfl⟩ := retryFailedJob_read hfollows
      (h.answered _ (List.getElem_mem hlt) htask') (List.ne_nil_of_mem hmem)
    · exact ⟨record, rest, hlog, hretried⟩
    · rw [hlog] at hmem
      cases List.mem_singleton.mp hmem
  · have hmem := List.mem_of_getElem? hget
    have hfollows := h.follows t hmem
    rw [htask, hprog] at hfollows
    rcases retryFailedJob_ended hfollows (h.answered t hmem htask) with hnone |
      ⟨record, m, -, -, hr⟩ | ⟨record, dto, mid, retriedAt, retryJobId, y, hretried, hlog, -⟩
    · exact absurd hnone (h.found t hmem htask)
    · cases hr
    · exact ⟨t, hget, htask, record, _, hlog, hretried⟩

/-- For any number of calls in any order of their steps: while no call reads the record
when another one that has read it is at work, the record is retried at most once. -/
theorem retried_once {w : World} {ts : List (Transition State Step)} {record : FailedJob}
    (hrecord : w.failedJobs.find? id = some record)
    (hrun : Run (system config).step ⟨w, []⟩ ts s)
    (hanswers : ∀ t ∈ ts, AnswersRetries id t.before t.act)
    (hapart : ∀ t ∈ ts, ReadsApart id t.before t.act) : RetriedOnce id ts s := by
  have h := run_retries hrecord hrun hanswers hapart
  constructor
  · intro i j hi hj
    obtain ⟨t, ht, htask, htclaimed⟩ := claimed_of_wins hrun h hi
    obtain ⟨u, hu, hutask, huclaimed⟩ := claimed_of_wins hrun h hj
    exact h.single i j t u ht hu htask hutask htclaimed huclaimed
  · intro i t hget htask hended
    have hmem := List.mem_of_getElem? hget
    have hfollows := h.follows t hmem
    rw [htask] at hfollows
    cases hprog : t.prog with
    | call c next =>
        rcases hended with hcrashed | hfinished
        · rw [h.alive t hmem htask] at hcrashed
          cases hcrashed
        · rw [hprog] at hfinished
          exact hfinished.elim
    | done r =>
        rw [hprog] at hfollows
        rcases retryFailedJob_ended hfollows (h.answered t hmem htask) with hnone |
          ⟨record', m, -, hlog, rfl⟩ | ⟨record', dto, mid, retriedAt, retryJobId, y, -, -, rfl⟩
        · exact absurd hnone (h.found t hmem htask)
        · refine .inr ⟨⟨m, rfl⟩, ?_⟩
          intro v hv f hact
          obtain ⟨u, c, r, -, -, hexec, hx⟩ := exists_mem_log hrun hget hv hact
          rw [hlog] at hx
          obtain ⟨rfl, -⟩ := Sigma.mk.inj (List.mem_singleton.mp hx)
          rcases World.exec_effect hexec with ⟨-, hw, -⟩ | ⟨-, b, y, hy, -⟩
          · exact hw
          · exact (World.answer_selectFailedJob hy).1
        · exact .inl ⟨dto, rfl⟩

end System

/-! ## Two calls for one record -/

def failedRecord : FailedJob := FailedJob.create "record"
  (failedJobFields ⟨"video", "error", 3⟩ none) 0

def failedWorld : World :=
  { World.empty with
    videos := Table.single (Video.create "video" { status := some .failed } 0)
    failedJobs := Table.single failedRecord }

def retryActs (i : ℕ) : List Step := List.replicate 6 (okStep i)

/-- The second call reads the record after the first one has ended. -/
def sequentialRetries : List Step :=
  [.invoke (.retryFailedJob "record"), .invoke (.retryFailedJob "record")] ++ retryActs 0 ++
    [okStep 1]

/-- Both calls read the record before one of them goes on. -/
def overlappingRetries : List Step :=
  [.invoke (.retryFailedJob "record"), .invoke (.retryFailedJob "record"), okStep 0, okStep 1] ++
    List.replicate 5 (okStep 0) ++ List.replicate 5 (okStep 1)

theorem answersRetries_of_ok {acts : List Step} {id : String}
    (hacts : ∀ a ∈ acts, match a with
      | .invoke _ => True
      | .call _ (.ok _) => True
      | _ => False) {ts : List (Transition State Step)} (h : ts.map Transition.act = acts) :
    ∀ t ∈ ts, AnswersRetries id t.before t.act := by
  intro t ht
  have hact := hacts t.act (h ▸ List.mem_map_of_mem ht)
  constructor
  · intro i f u hcall _ _
    rw [hcall] at hact
    cases f with
    | ok b => exact ⟨b, rfl⟩
    | rejected e => exact hact.elim
    | lost b e => exact hact.elim
  · intro i u hcrash
    rw [hcrash] at hact
    exact hact.elim

/-- Whether the acting thread has begun before, or all others are idle. -/
def readsApart (t : Transition State Step) : Bool :=
  match t.act with
  | .call i _ => t.before.threads[i]?.all (fun u ↦ !u.log.isEmpty) ||
      t.before.threads.all fun u ↦ u.log.isEmpty || decide u.Ended
  | _ => true

theorem readsApart_of_readsApart {t : Transition State Step} (h : readsApart t = true)
    (id : String) : ReadsApart id t.before t.act := by
  intro i f u hcall hget _ hlog j v hv _
  unfold readsApart at h
  rw [hcall] at h
  simp only [hget, hlog, Option.all_some, List.isEmpty_nil, Bool.not_true, Bool.false_or] at h
  have hidle := List.all_eq_true.mp h v (List.mem_of_getElem? hv)
  simpa using hidle

def hasReturned (id : String) (t : Worker) : Bool :=
  match t.task, t.prog with
  | .retryFailedJob id', .done (.ok _) => id' = id
  | _, _ => false

theorem wins_of_hasReturned {id : String} {ts : List (Transition State Step)} {s : State} {i : ℕ}
    (h : (s.threads.map (hasReturned id))[i]? = some true) : Wins id ts s i := by
  rw [List.getElem?_map, Option.map_eq_some_iff] at h
  obtain ⟨t, hget, hreturned⟩ := h
  unfold hasReturned at hreturned
  split at hreturned
  · rename_i id' x htask hprog
    obtain rfl := of_decide_eq_true hreturned
    exact .inr ⟨t, x, hget, htask, hprog⟩
  · cases hreturned

theorem retried_once_sequential : ∃ (ts : List (Transition State Step)) (s : State),
    Run (system ⟨"bucket", none, "region"⟩).step ⟨failedWorld, []⟩ ts s ∧
      s.threads.map (hasReturned "record") = [true, false] ∧ RetriedOnce "record" ts s := by
  obtain ⟨ts, s, hrun, hacts, hobs⟩ := Run.exists_of_follow
    (system ⟨"bucket", none, "region"⟩).step ⟨failedWorld, []⟩ sequentialRetries
    (fun p ↦ (p.1.all readsApart, p.2.threads.map (hasReturned "record")))
    (true, [true, false]) (by decide +kernel)
  obtain ⟨hapart, hreturned⟩ := Prod.mk.inj hobs
  have hrecord : failedWorld.failedJobs.find? "record" = some failedRecord := by
    decide +kernel
  refine ⟨ts, s, hrun, hreturned, retried_once hrecord hrun
    (answersRetries_of_ok (by simp [sequentialRetries, retryActs, okStep]) hacts) ?_⟩
  intro t ht
  exact readsApart_of_readsApart (List.all_eq_true.mp hapart t ht) "record"

/-- Two calls that overlap both enqueue a job and return. -/
theorem retried_twice : ∃ (ts : List (Transition State Step)) (s : State),
    Run (system ⟨"bucket", none, "region"⟩).step ⟨failedWorld, []⟩ ts s ∧
      failedWorld.failedJobs.find? "record" = some failedRecord ∧
      (∀ t ∈ ts, AnswersRetries "record" t.before t.act) ∧
      s.state.queue.lastId = 2 ∧ ¬RetriedOnce "record" ts s := by
  obtain ⟨ts, s, hrun, hacts, hobs⟩ := Run.exists_of_follow
    (system ⟨"bucket", none, "region"⟩).step ⟨failedWorld, []⟩ overlappingRetries
    (fun p ↦ (p.2.state.queue.lastId, p.2.threads.map (hasReturned "record")))
    (2, [true, true]) (by decide +kernel)
  obtain ⟨hjobs, hreturned⟩ := Prod.mk.inj hobs
  refine ⟨ts, s, hrun, by decide +kernel,
    answersRetries_of_ok (by simp [overlappingRetries, okStep]) hacts, hjobs, ?_⟩
  intro h
  have hfirst : Wins "record" ts s 0 := wins_of_hasReturned (by rw [hreturned]; rfl)
  have hsecond : Wins "record" ts s 1 := wins_of_hasReturned (by rw [hreturned]; rfl)
  have heq := h.winner 0 1 hfirst hsecond
  omega

end VideoGen
