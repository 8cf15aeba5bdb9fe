import VideoGen.Lib.Program
import VideoGen.Lib.Run

/-!
# Pools of interleaved programs

Any number of programs run over one shared state.  The scheduler picks a
thread and an outcome for its pending call; the call is one atomic step.
A thread can also crash, a call can fork further tasks, and the
environment has steps of its own, which may start tasks too.

Every thread keeps the log of its exchanges.  A protocol that accepts the
program of each task therefore knows, in every reachable configuration,
the protocol state of every thread and that the rest of its program still
conforms to it (`Machine.run_conforms`).
-/

namespace VideoGen

abbrev Exchange (I : Interface) := Σ c : I.Call, Except I.Error (I.Reply c)

structure Thread (I : Interface) (T α : Type) where
  task : T
  prog : Program I α
  log : List (Exchange I)
  crashed : Bool

namespace Thread

variable {I : Interface} {T α : Type}

/-- The thread has returned, thrown or crashed. -/
def Ended (t : Thread I T α) : Prop := t.crashed = true ∨ t.prog.Finished

instance (t : Thread I T α) : Decidable t.Ended :=
  inferInstanceAs (Decidable (_ ∨ _))

/-- The call whose answer the thread awaits. -/
def pending? (t : Thread I T α) : Option I.Call :=
  match t.prog with
  | .done _ => none
  | .call c _ => some c

theorem pending?_eq_some_iff {t : Thread I T α} {c : I.Call} :
    t.pending? = some c ↔ ∃ next, t.prog = .call c next := by
  unfold pending?
  cases t.prog with
  | done r => simp
  | call c' next =>
      constructor
      · intro h
        obtain rfl := Option.some.inj h
        exact ⟨next, rfl⟩
      · rintro ⟨next', h⟩
        cases h
        rfl

def resume (t : Thread I T α) (c : I.Call)
    (next : Except I.Error (I.Reply c) → Program I α)
    (r : Except I.Error (I.Reply c)) : Thread I T α :=
  { t with prog := next r, log := t.log ++ [⟨c, r⟩] }

@[simp] theorem resume_task (t : Thread I T α) (c : I.Call) (next) (r) :
    (t.resume c next r).task = t.task := rfl

@[simp] theorem resume_prog (t : Thread I T α) (c : I.Call) (next) (r) :
    (t.resume c next r).prog = next r := rfl

@[simp] theorem resume_log (t : Thread I T α) (c : I.Call) (next) (r) :
    (t.resume c next r).log = t.log ++ [⟨c, r⟩] := rfl

@[simp] theorem resume_crashed (t : Thread I T α) (c : I.Call) (next) (r) :
    (t.resume c next r).crashed = t.crashed := rfl

end Thread

structure Config (I : Interface) (T α σ : Type) where
  state : σ
  threads : List (Thread I T α)

/-- What the scheduler can do: start a task, answer the pending call of a
thread with some outcome, crash a thread, or let the environment move. -/
inductive Act (T F L : Type) where
  | invoke (task : T)
  | call (i : ℕ) (fate : F)
  | crash (i : ℕ)
  | env (l : L)

def Act.InvokesOnly {T F L : Type} (p : T → Prop) : Act T F L → Prop
  | .invoke task => p task
  | _ => True

instance {T F L : Type} {p : T → Prop} [DecidablePred p] :
    DecidablePred (Act.InvokesOnly (F := F) (L := L) p)
  | .invoke task => inferInstanceAs (Decidable (p task))
  | .call _ _ => isTrue trivial
  | .crash _ => isTrue trivial
  | .env _ => isTrue trivial

theorem Act.InvokesOnly.mono {T F L : Type} {p q : T → Prop} (hpq : ∀ task, p task → q task)
    {a : Act T F L} (h : a.InvokesOnly p) : a.InvokesOnly q := by
  cases a with
  | invoke task => exact hpq task h
  | _ => trivial

/-- The ingredients of a pool: the program of each task, the effect of a call
under each outcome, the tasks a call forks, and the environment's steps, which
see the threads and may start tasks. -/
structure Machine (I : Interface) (T α σ F L : Type) where
  body : T → Program I α
  exec : σ → (c : I.Call) → F → Option (σ × Except I.Error (I.Reply c))
  forks : I.Call → List T
  env : σ → List (Thread I T α) → L → Option (σ × List T)

namespace Machine

variable {I : Interface} {T α σ F L : Type} (M : Machine I T α σ F L)

def start (t : T) : Thread I T α := ⟨t, M.body t, [], false⟩

@[simp] theorem start_task (t : T) : (M.start t).task = t := rfl

@[simp] theorem start_prog (t : T) : (M.start t).prog = M.body t := rfl

@[simp] theorem start_log (t : T) : (M.start t).log = [] := rfl

@[simp] theorem start_crashed (t : T) : (M.start t).crashed = false := rfl

def stepCall (s : Config I T α σ) (i : ℕ) (f : F) : Option (Config I T α σ) :=
  match s.threads[i]? with
  | none => none
  | some t =>
      if t.crashed then none else
      match t.prog with
      | .done _ => none
      | .call c next =>
          match M.exec s.state c f with
          | none => none
          | some (state, r) => some
              { state := state
                threads := s.threads.set i (t.resume c next r) ++
                  (M.forks c).map M.start }

def step (s : Config I T α σ) : Act T F L → Option (Config I T α σ)
  | .invoke t => some { s with threads := s.threads ++ [M.start t] }
  | .call i f => M.stepCall s i f
  | .crash i =>
      match s.threads[i]? with
      | none => none
      | some t => some { s with threads := s.threads.set i { t with crashed := true } }
  | .env l =>
      match M.env s.state s.threads l with
      | none => none
      | some (state, tasks) => some
          { state := state, threads := s.threads ++ tasks.map M.start }

/-- All that one atomic call does: thread `i` was waiting for the answer to `c`
and goes on with the answer; the tasks that `c` forks are appended. -/
theorem stepCall_cases {s s' : Config I T α σ} {i : ℕ} {f : F}
    (h : M.stepCall s i f = some s') :
    ∃ t c next state r, s.threads[i]? = some t ∧ t.crashed = false ∧
      t.prog = .call c next ∧ M.exec s.state c f = some (state, r) ∧
      s' = { state := state
             threads := s.threads.set i (t.resume c next r) ++
               (M.forks c).map M.start } := by
  unfold stepCall at h
  cases ht : s.threads[i]? with
  | none => simp [ht] at h
  | some t =>
      cases hcrash : t.crashed with
      | true => simp [ht, hcrash] at h
      | false =>
          cases hprog : t.prog with
          | done r => simp [ht, hcrash, hprog] at h
          | call c next =>
              cases hexec : M.exec s.state c f with
              | none => simp [ht, hcrash, hprog, hexec] at h
              | some p =>
                  obtain ⟨state, r⟩ := p
                  refine ⟨t, c, next, state, r, rfl, hcrash, hprog, hexec, ?_⟩
                  simpa [ht, hcrash, hprog, hexec] using h.symm

theorem step_crash_cases {s s' : Config I T α σ} {i : ℕ}
    (h : M.step s (.crash i) = some s') :
    ∃ t, s.threads[i]? = some t ∧
      s' = { s with threads := s.threads.set i { t with crashed := true } } := by
  unfold step at h
  cases ht : s.threads[i]? with
  | none => simp [ht] at h
  | some t => exact ⟨t, rfl, by simpa [ht] using h.symm⟩

theorem step_env_cases {s s' : Config I T α σ} {l : L}
    (h : M.step s (.env l) = some s') :
    ∃ state tasks, M.env s.state s.threads l = some (state, tasks) ∧
      s' = { state := state, threads := s.threads ++ tasks.map M.start } := by
  unfold step at h
  cases henv : M.env s.state s.threads l with
  | none => simp [henv] at h
  | some p =>
      obtain ⟨state, tasks⟩ := p
      exact ⟨state, tasks, rfl, by simpa [henv] using h.symm⟩

/-! ## What a step does to the threads -/

section Called

variable {M} {s s' : Config I T α σ} {i j : ℕ} {f : F} {t t' u : Thread I T α}
  {c : I.Call} {r : Except I.Error (I.Reply c)}

/-- Thread `i` was `t`, waiting for the answer to `c`, and became `t'` by the reply
`r`. -/
structure Called (M : Machine I T α σ F L) (s s' : Config I T α σ) (i : ℕ) (f : F)
    (t t' : Thread I T α) (c : I.Call) (r : Except I.Error (I.Reply c)) : Prop where
  get : s.threads[i]? = some t
  alive : t.crashed = false
  pending : t.pending? = some c
  exec : M.exec s.state c f = some (s'.state, r)
  task_eq : t'.task = t.task
  log_eq : t'.log = t.log ++ [⟨c, r⟩]
  still_alive : t'.crashed = false
  threads_eq : s'.threads = s.threads.set i t' ++ (M.forks c).map M.start

namespace Called

theorem get_self (h : Called M s s' i f t t' c r) : s'.threads[i]? = some t' := by
  have hlt : i < s.threads.length := (List.getElem?_eq_some_iff.mp h.get).1
  rw [h.threads_eq, List.getElem?_append_left (by simpa using hlt)]
  exact List.getElem?_set_self hlt

theorem get_of_ne (h : Called M s s' i f t t' c r) (hj : j ≠ i)
    (hu : s.threads[j]? = some u) : s'.threads[j]? = some u := by
  have hlt : j < s.threads.length := (List.getElem?_eq_some_iff.mp hu).1
  rw [h.threads_eq, List.getElem?_append_left (by simpa using hlt),
    List.getElem?_set_ne (Ne.symm hj)]
  exact hu

theorem get_cases (h : Called M s s' i f t t' c r)
    (hu : s'.threads[j]? = some u) :
    (j = i ∧ u = t') ∨ (j ≠ i ∧ s.threads[j]? = some u) ∨
      (s.threads.length ≤ j ∧ ∃ task ∈ M.forks c, u = M.start task) := by
  rw [h.threads_eq] at hu
  by_cases hlt : j < s.threads.length
  · rw [List.getElem?_append_left (by simpa using hlt)] at hu
    by_cases hj : j = i
    · subst hj
      rw [List.getElem?_set_self hlt] at hu
      exact .inl ⟨rfl, (Option.some.inj hu).symm⟩
    · rw [List.getElem?_set_ne (Ne.symm hj)] at hu
      exact .inr (.inl ⟨hj, hu⟩)
  · have hle : s.threads.length ≤ j := Nat.le_of_not_lt hlt
    rw [List.getElem?_append_right (by simpa using hle)] at hu
    obtain ⟨task, htask, heq⟩ := List.mem_map.mp (List.mem_of_getElem? hu)
    exact .inr (.inr ⟨hle, task, htask, heq.symm⟩)

theorem countP_threads (h : Called M s s' i f t t' c r) (p : Thread I T α → Bool) :
    s'.threads.countP p + (if p t then 1 else 0) =
      s.threads.countP p + (if p t' then 1 else 0) + ((M.forks c).map M.start).countP p := by
  obtain ⟨hlt, hget⟩ := List.getElem?_eq_some_iff.mp h.get
  have hle := List.boole_getElem_le_countP (p := p) hlt
  rw [hget] at hle
  rw [h.threads_eq, List.countP_append, List.countP_set hlt, hget]
  omega

end Called

theorem called_of_step (hstep : M.step s (.call i f) = some s') :
    ∃ t c next r, t.prog = .call c next ∧
      Called M s s' i f t (t.resume c next r) c r := by
  obtain ⟨t, c, next, state, r, hget, halive, hprog, hexec, rfl⟩ := M.stepCall_cases hstep
  exact ⟨t, c, next, r, hprog,
    { get := hget
      alive := halive
      pending := Thread.pending?_eq_some_iff.mpr ⟨next, hprog⟩
      exec := hexec
      task_eq := rfl
      log_eq := rfl
      still_alive := halive
      threads_eq := rfl }⟩

theorem get_append_cases {β : Type} {l l' : List β} {b : β}
    (h : (l ++ l')[j]? = some b) : l[j]? = some b ∨ (l.length ≤ j ∧ b ∈ l') := by
  by_cases hlt : j < l.length
  · exact .inl (List.getElem?_append_left hlt ▸ h)
  · have hle : l.length ≤ j := Nat.le_of_not_lt hlt
    rw [List.getElem?_append_right hle] at h
    exact .inr ⟨hle, List.mem_of_getElem? h⟩

/-- A thread after a step: it is as before, except that it may have crashed, it has
just been started, or it received the answer to its call. -/
theorem called_cases {a : Act T F L} (hstep : M.step s a = some s')
    (hu : s'.threads[j]? = some u) :
    (∃ t, s.threads[j]? = some t ∧
      (u = t ∨ (a = .crash j ∧ u = { t with crashed := true }))) ∨
    (s.threads.length ≤ j ∧ ∃ task, u = M.start task) ∨
    ∃ f t c next r, a = .call j f ∧ t.prog = .call c next ∧ u = t.resume c next r ∧
      Called M s s' j f t u c r := by
  have hstarted (tasks : List T) (hle : s.threads.length ≤ j) (hu : u ∈ tasks.map M.start) :
      s.threads.length ≤ j ∧ ∃ task, u = M.start task := by
    obtain ⟨task, -, heq⟩ := List.mem_map.mp hu
    exact ⟨hle, task, heq.symm⟩
  cases a with
  | invoke task =>
      obtain rfl := Option.some.inj hstep
      rcases get_append_cases hu with hu | ⟨hle, hu⟩
      · exact .inl ⟨u, hu, .inl rfl⟩
      · exact .inr (.inl (hstarted [task] hle hu))
  | crash i =>
      obtain ⟨t, ht, rfl⟩ := M.step_crash_cases hstep
      have hlt : i < s.threads.length := (List.getElem?_eq_some_iff.mp ht).1
      by_cases hj : j = i
      · subst hj
        have hset := List.getElem?_set_self (a := { t with crashed := true }) hlt
        obtain rfl := Option.some.inj (hu.symm.trans hset)
        exact .inl ⟨t, ht, .inr ⟨rfl, rfl⟩⟩
      · have hset := List.getElem?_set_ne (a := { t with crashed := true }) (l := s.threads)
          (Ne.symm hj)
        exact .inl ⟨u, hset.symm.trans hu, .inl rfl⟩
  | env l =>
      obtain ⟨state, tasks, -, rfl⟩ := M.step_env_cases hstep
      rcases get_append_cases hu with hu | ⟨hle, hu⟩
      · exact .inl ⟨u, hu, .inl rfl⟩
      · exact .inr (.inl (hstarted tasks hle hu))
  | call i f =>
      obtain ⟨t, c, next, r, hprog, h⟩ := called_of_step hstep
      rcases h.get_cases hu with ⟨rfl, rfl⟩ | ⟨-, hu⟩ | ⟨hle, task, -, rfl⟩
      · exact .inr (.inr ⟨f, t, c, next, r, rfl, hprog, rfl, h⟩)
      · exact .inl ⟨u, hu, .inl rfl⟩
      · exact .inr (.inl ⟨hle, task, rfl⟩)

theorem length_le_of_step {a : Act T F L} (hstep : M.step s a = some s') :
    s.threads.length ≤ s'.threads.length := by
  cases a with
  | invoke task =>
      obtain rfl := Option.some.inj hstep
      simp
  | crash i =>
      obtain ⟨t, -, rfl⟩ := M.step_crash_cases hstep
      simp
  | env l =>
      obtain ⟨state, tasks, -, rfl⟩ := M.step_env_cases hstep
      simp
  | call i f =>
      obtain ⟨t, c, next, r, -, h⟩ := called_of_step hstep
      simp [h.threads_eq]

theorem called_or_kept {a : Act T F L} (hstep : M.step s a = some s')
    (ht : s.threads[j]? = some t) :
    ∃ u, s'.threads[j]? = some u ∧
      ((u = t ∨ (a = .crash j ∧ u = { t with crashed := true })) ∨
        ∃ f c next r, a = .call j f ∧ t.prog = .call c next ∧ u = t.resume c next r ∧
          Called M s s' j f t u c r) := by
  have hlt : j < s.threads.length := (List.getElem?_eq_some_iff.mp ht).1
  have hlt' : j < s'.threads.length := Nat.lt_of_lt_of_le hlt (length_le_of_step hstep)
  have hu := List.getElem?_eq_getElem hlt'
  refine ⟨_, hu, ?_⟩
  rcases called_cases hstep hu with ⟨t', ht', heq⟩ | ⟨hle, -⟩ |
    ⟨f, t', c, next, r, ha, hprog, heq, h⟩
  · obtain rfl := Option.some.inj (ht.symm.trans ht')
    exact .inl heq
  · omega
  · obtain rfl := Option.some.inj (ht.symm.trans h.get)
    exact .inr ⟨f, c, next, r, ha, hprog, heq, h⟩

section Histories

variable {s₀ : Config I T α σ} {ts : List (Transition (Config I T α σ) (Act T F L))}

theorem length_le_of_mem (hrun : Run M.step s₀ ts s) {v : Transition _ _} (hv : v ∈ ts) :
    v.before.threads.length ≤ s.threads.length := by
  induction hrun with
  | nil => simp at hv
  | @snoc ts s s' a head last ih =>
      have hle := length_le_of_step last
      rcases List.mem_append.mp hv with hv | hv
      · exact Nat.le_trans (ih hv) hle
      · obtain rfl := List.mem_singleton.mp hv
        exact hle

/-- The log of a thread consists of the calls that the run answered for it. -/
theorem mem_log_iff (hrun : Run M.step s₀ ts s) (hs₀ : s₀.threads = [])
    (hget : s.threads[i]? = some t) (x : Exchange I) :
    x ∈ t.log ↔ ∃ v ∈ ts, ∃ f t₀, v.act = .call i f ∧ v.before.threads[i]? = some t₀ ∧
      t₀.pending? = some x.1 ∧ M.exec v.before.state x.1 f = some (v.after.state, x.2) := by
  induction hrun generalizing t with
  | nil => simp [hs₀] at hget
  | @snoc ts s s' a head last ih =>
      by_cases hact : ∃ f, a = .call i f
      · obtain ⟨f, rfl⟩ := hact
        obtain ⟨t₀, c, next, r, -, h⟩ := called_of_step last
        obtain rfl := Option.some.inj (hget.symm.trans h.get_self)
        rw [h.log_eq, List.mem_append, List.mem_singleton, ih h.get]
        constructor
        · rintro (⟨v, hv, hrest⟩ | rfl)
          · exact ⟨v, by simp [hv], hrest⟩
          · exact ⟨⟨s, .call i f, s'⟩, by simp, f, t₀, rfl, h.get, h.pending, h.exec⟩
        · rintro ⟨v, hv, f', t₁, hact, hget₁, hpending, hexec⟩
          rcases List.mem_append.mp hv with hv | hv
          · exact .inl ⟨v, hv, f', t₁, hact, hget₁, hpending, hexec⟩
          · obtain rfl := List.mem_singleton.mp hv
            obtain ⟨-, rfl⟩ := Act.call.inj hact
            obtain rfl := Option.some.inj (hget₁.symm.trans h.get)
            obtain ⟨c', r'⟩ := x
            obtain rfl : c' = c := Option.some.inj (hpending.symm.trans h.pending)
            have hr := Option.some.inj (hexec.symm.trans h.exec)
            obtain rfl : r' = r := (Prod.mk.inj hr).2
            exact .inr rfl
      · have hlast {p : Transition (Config I T α σ) (Act T F L) → Prop}
            (hp : ∀ v, p v → ∃ f, v.act = .call i f) :
            (∃ v ∈ ts ++ [⟨s, a, s'⟩], p v) ↔ ∃ v ∈ ts, p v := by
          constructor
          · rintro ⟨v, hv, hpv⟩
            rcases List.mem_append.mp hv with hv | hv
            · exact ⟨v, hv, hpv⟩
            · obtain rfl := List.mem_singleton.mp hv
              exact absurd (hp _ hpv) hact
          · rintro ⟨v, hv, hpv⟩
            exact ⟨v, by simp [hv], hpv⟩
        rw [hlast (by rintro v ⟨f, t₀, h, -⟩; exact ⟨f, h⟩)]
        rcases called_cases last hget with ⟨t₀, ht₀, rfl | ⟨-, rfl⟩⟩ | ⟨hle, task, rfl⟩ |
          ⟨f, t₀, c, next, r, rfl, -⟩
        · exact ih ht₀
        · exact ih (t := t₀) ht₀
        · constructor
          · intro hx
            simp at hx
          · rintro ⟨v, hv, f, t₀, -, hget₀, -⟩
            have hlt := (List.getElem?_eq_some_iff.mp hget₀).1
            have hlen := length_le_of_mem head hv
            omega
        · exact absurd ⟨f, rfl⟩ hact

theorem task_eq_of_mem (hrun : Run M.step s₀ ts s) {v : Transition _ _} (hv : v ∈ ts)
    (hget₀ : v.before.threads[i]? = some u) (hget : s.threads[i]? = some t) :
    u.task = t.task := by
  induction hrun generalizing t with
  | nil => simp at hv
  | @snoc ts s s' a head last ih =>
      have hlt := (List.getElem?_eq_some_iff.mp hget₀).1
      have hbefore : ∃ t₀, s.threads[i]? = some t₀ ∧ u.task = t₀.task := by
        rcases List.mem_append.mp hv with hv | hv
        · have hle := length_le_of_mem head hv
          have hget' := List.getElem?_eq_getElem (Nat.lt_of_lt_of_le hlt hle)
          exact ⟨_, hget', ih hv hget'⟩
        · obtain rfl := List.mem_singleton.mp hv
          exact ⟨u, hget₀, rfl⟩
      obtain ⟨t₀, ht₀, htask⟩ := hbefore
      rw [htask]
      rcases called_cases last hget with ⟨t₁, ht₁, heq⟩ | ⟨hle, -⟩ |
        ⟨f, t₁, c, next, r, -, -, -, h⟩
      · obtain rfl := Option.some.inj (ht₀.symm.trans ht₁)
        rcases heq with rfl | ⟨-, rfl⟩ <;> rfl
      · have hlt₀ := (List.getElem?_eq_some_iff.mp ht₀).1
        omega
      · obtain rfl := Option.some.inj (ht₀.symm.trans h.get)
        exact h.task_eq.symm

end Histories

end Called

/-! ## Threads and their protocols -/

section Protocols

variable {M} {S : Type} (P : Protocol I S) (init : T → S)
  (Post : S → Except I.Error α → Prop)

def stage (t : Thread I T α) : S := P.after (init t.task) t.log

@[simp] theorem stage_start (t : T) : stage P init (M.start t) = init t := rfl

@[simp] theorem stage_resume (t : Thread I T α) (c : I.Call) (next) (r) :
    stage P init (t.resume c next r) = P.next (stage P init t) c r := by
  simp [stage]

@[simp] theorem stage_crash (t : Thread I T α) (b : Bool) :
    stage P init { t with crashed := b } = stage P init t := rfl

/-- What is left of the thread's program conforms to the protocol from the
thread's protocol state on. -/
def Conforms (t : Thread I T α) : Prop :=
  t.prog.Keeps P.spec Post (stage P init t)

theorem conforms_start (hbody : ∀ t, (M.body t).Keeps P.spec Post (init t)) (t : T) :
    Conforms P init Post (M.start t) := hbody t

theorem Conforms.allows {t : Thread I T α} {c : I.Call}
    {next : Except I.Error (I.Reply c) → Program I α}
    (h : Conforms P init Post t) (hprog : t.prog = .call c next) :
    P.Allows (stage P init t) c := by
  rw [Conforms, hprog] at h
  exact h.1

theorem Conforms.post {t : Thread I T α} {r : Except I.Error α}
    (h : Conforms P init Post t) (hprog : t.prog = .done r) :
    Post (stage P init t) r := by
  rw [Conforms, hprog] at h
  exact h

theorem Conforms.resume {t : Thread I T α} {c : I.Call}
    {next : Except I.Error (I.Reply c) → Program I α}
    (h : Conforms P init Post t) (hprog : t.prog = .call c next)
    {r : Except I.Error (I.Reply c)} (hr : P.Possible c r) :
    Conforms P init Post (t.resume c next r) := by
  rw [Conforms, hprog] at h
  rw [Conforms, stage_resume]
  exact h.2 r _ ⟨hr, rfl⟩

structure Answered (M : Machine I T α σ F L) (s s' : Config I T α σ) (i : ℕ) (f : F)
    (t t' : Thread I T α) (c : I.Call) (r : Except I.Error (I.Reply c)) : Prop
    extends Called M s s' i f t t' c r where
  allows : P.Allows (stage P init t) c
  stage_eq : stage P init t' = P.next (stage P init t) c r

theorem Called.answered {s s' : Config I T α σ} {i : ℕ} {f : F} {t : Thread I T α}
    {c : I.Call} {next : Except I.Error (I.Reply c) → Program I α}
    {r : Except I.Error (I.Reply c)} (h : Called M s s' i f t (t.resume c next r) c r)
    (hprog : t.prog = .call c next) (hs : ∀ t ∈ s.threads, Conforms P init Post t) :
    Answered P init M s s' i f t (t.resume c next r) c r :=
  { h with
    allows := (hs t (List.mem_of_getElem? h.get)).allows P init Post hprog
    stage_eq := stage_resume P init t c next r }

theorem answered_of_step {s s' : Config I T α σ} {i : ℕ} {f : F}
    (hstep : M.step s (.call i f) = some s')
    (hs : ∀ t ∈ s.threads, Conforms P init Post t) :
    ∃ t t' c r, Answered P init M s s' i f t t' c r := by
  obtain ⟨t, c, next, r, hprog, h⟩ := called_of_step hstep
  exact ⟨t, _, c, r, h.answered P init Post hprog hs⟩

theorem thread_cases {s s' : Config I T α σ} {a : Act T F L} {j : ℕ} {u : Thread I T α}
    (hstep : M.step s a = some s') (hs : ∀ t ∈ s.threads, Conforms P init Post t)
    (hu : s'.threads[j]? = some u) :
    (∃ t, s.threads[j]? = some t ∧
      (u = t ∨ (a = .crash j ∧ u = { t with crashed := true }))) ∨
    (s.threads.length ≤ j ∧ ∃ task, u = M.start task) ∨
    ∃ f t c r, a = .call j f ∧ Answered P init M s s' j f t u c r := by
  rcases called_cases hstep hu with hold | hnew | ⟨f, t, c, next, r, ha, hprog, rfl, h⟩
  · exact .inl hold
  · exact .inr (.inl hnew)
  · exact .inr (.inr ⟨f, t, c, r, ha, h.answered P init Post hprog hs⟩)

/-- A property of threads that new threads have and that answering a call and
crashing keep is kept by every step of the pool. -/
theorem step_forall_threads {Q : Thread I T α → Prop} {s s' : Config I T α σ}
    {a : Act T F L} (hstep : M.step s a = some s')
    (hstart : ∀ t, Q (M.start t))
    (hcall : ∀ t c next f σ r, t ∈ s.threads → t.prog = .call c next →
      M.exec s.state c f = some (σ, r) → Q t → Q (t.resume c next r))
    (hcrash : ∀ t, Q t → Q { t with crashed := true })
    (hs : ∀ t ∈ s.threads, Q t) : ∀ t ∈ s'.threads, Q t := by
  have hstarted (tasks : List T) : ∀ t ∈ tasks.map M.start, Q t := by
    intro t ht
    obtain ⟨u, -, rfl⟩ := List.mem_map.mp ht
    exact hstart u
  have hset (i : ℕ) (u : Thread I T α) (hu : Q u) : ∀ t ∈ s.threads.set i u, Q t := by
    intro t ht
    rcases List.mem_or_eq_of_mem_set ht with ht | rfl
    · exact hs t ht
    · exact hu
  cases a with
  | invoke u =>
      obtain rfl := Option.some.inj hstep
      intro t ht
      rcases List.mem_append.mp ht with ht | ht
      · exact hs t ht
      · exact hstarted [u] t ht
  | call i f =>
      obtain ⟨t, c, next, state, r, ht, -, hprog, hexec, rfl⟩ := M.stepCall_cases hstep
      have hmem := List.mem_of_getElem? ht
      intro u hu
      rcases List.mem_append.mp hu with hu | hu
      · exact hset i _ (hcall t c next f state r hmem hprog hexec (hs t hmem)) u hu
      · exact hstarted _ u hu
  | crash i =>
      obtain ⟨t, ht, rfl⟩ := M.step_crash_cases hstep
      exact hset i _ (hcrash t (hs t (List.mem_of_getElem? ht)))
  | env l =>
      obtain ⟨state, tasks, -, rfl⟩ := M.step_env_cases hstep
      intro t ht
      rcases List.mem_append.mp ht with ht | ht
      · exact hs t ht
      · exact hstarted _ t ht

variable (hbody : ∀ t, (M.body t).Keeps P.spec Post (init t))
  (hexec : ∀ σ c f σ' r, M.exec σ c f = some (σ', r) → P.Possible c r)

include hbody hexec

theorem step_conforms {s s' : Config I T α σ} {a : Act T F L}
    (hstep : M.step s a = some s') (hs : ∀ t ∈ s.threads, Conforms P init Post t) :
    ∀ t ∈ s'.threads, Conforms P init Post t :=
  step_forall_threads hstep (conforms_start P init Post hbody)
    (fun _ c _ f σ r _ hprog hr h ↦ h.resume P init Post hprog (hexec _ c f σ r hr))
    (fun _ h ↦ h) hs

/-- In every configuration a run reaches, every thread conforms. -/
theorem run_conforms {s₀ s : Config I T α σ}
    {ts : List (Transition (Config I T α σ) (Act T F L))}
    (hrun : Run M.step s₀ ts s) (hs₀ : ∀ t ∈ s₀.threads, Conforms P init Post t) :
    ∀ t ∈ s.threads, Conforms P init Post t :=
  hrun.invariant (fun s ↦ ∀ t ∈ s.threads, Conforms P init Post t) hs₀
    fun _ _ hstep ↦ step_conforms P init Post hbody hexec hstep

end Protocols

section Logging

def logging (Allows : T × List (Exchange I) → I.Call → Prop)
    (Possible : (c : I.Call) → Except I.Error (I.Reply c) → Prop) :
    Protocol I (T × List (Exchange I)) where
  Allows := Allows
  Possible := Possible
  next s c r := (s.1, s.2 ++ [⟨c, r⟩])

variable {Allows : T × List (Exchange I) → I.Call → Prop}
  {Possible : (c : I.Call) → Except I.Error (I.Reply c) → Prop}

theorem after_logging (task : T) (log log' : List (Exchange I)) :
    (logging Allows Possible).after (task, log) log' = (task, log ++ log') := by
  induction log' generalizing log with
  | nil => simp [Protocol.after]
  | cons e log' ih =>
      have hstep : (logging Allows Possible).after (task, log) (e :: log') =
          (logging Allows Possible).after (task, log ++ [e]) log' := rfl
      rw [hstep, ih, List.append_assoc]
      rfl

@[simp] theorem stage_logging (t : Thread I T α) :
    stage (logging Allows Possible) (fun task ↦ (task, [])) t = (t.task, t.log) :=
  after_logging t.task [] t.log

end Logging

variable {M} in
theorem step_calls {Q : T → I.Call → Prop} (hbody : ∀ t, (M.body t).Calls (Q t))
    {s s' : Config I T α σ} {a : Act T F L} (hstep : M.step s a = some s')
    (hs : ∀ t ∈ s.threads, t.prog.Calls (Q t.task)) :
    ∀ t ∈ s'.threads, t.prog.Calls (Q t.task) := by
  refine step_forall_threads hstep (fun t ↦ hbody t) ?_ (fun t h ↦ h) hs
  intro t c next f σ' r _ hprog _ h
  rw [hprog] at h
  exact h.2 r

variable {M} in
theorem step_follows {s s' : Config I T α σ} {a : Act T F L} (hstep : M.step s a = some s')
    (hs : ∀ t ∈ s.threads, (M.body t.task).Follows t.log t.prog) :
    ∀ t ∈ s'.threads, (M.body t.task).Follows t.log t.prog := by
  refine step_forall_threads hstep (fun t ↦ ?_) ?_ (fun t h ↦ h) hs
  · exact Program.follows_nil.mpr rfl
  · intro t c next f σ' r _ hprog _ h
    rw [hprog] at h
    exact h.snoc r

section Tasks

variable {M} {p : T → Prop} (hforks : ∀ c, ∀ task ∈ M.forks c, p task)
  (henv : ∀ σ threads l σ' tasks, M.env σ threads l = some (σ', tasks) →
    ∀ task ∈ tasks, p task)

include hforks henv

/-- When the tasks that are invoked, forked and started by the environment all
satisfy `p`, so do the tasks of all threads. -/
theorem step_forall_tasks {s s' : Config I T α σ} {a : Act T F L}
    (hstep : M.step s a = some s') (hinvoke : a.InvokesOnly p)
    (hs : ∀ t ∈ s.threads, p t.task) : ∀ t ∈ s'.threads, p t.task := by
  have hstarted (tasks : List T) (htasks : ∀ task ∈ tasks, p task) :
      ∀ u ∈ tasks.map M.start, p u.task := by
    intro u hu
    obtain ⟨task, htask, rfl⟩ := List.mem_map.mp hu
    exact htasks task htask
  intro u hu
  cases a with
  | invoke task =>
      obtain rfl := Option.some.inj hstep
      rcases List.mem_append.mp hu with hu | hu
      · exact hs u hu
      · obtain rfl := List.mem_singleton.mp hu
        exact hinvoke
  | call i f =>
      obtain ⟨t, c, next, state, r, ht, -, -, -, rfl⟩ := M.stepCall_cases hstep
      rcases List.mem_append.mp hu with hu | hu
      · rcases List.mem_or_eq_of_mem_set hu with hu | rfl
        · exact hs u hu
        · exact hs t (List.mem_of_getElem? ht)
      · exact hstarted _ (hforks c) u hu
  | crash i =>
      obtain ⟨t, ht, rfl⟩ := M.step_crash_cases hstep
      rcases List.mem_or_eq_of_mem_set hu with hu | rfl
      · exact hs u hu
      · exact hs t (List.mem_of_getElem? ht)
  | env l =>
      obtain ⟨state, tasks, henvl, rfl⟩ := M.step_env_cases hstep
      rcases List.mem_append.mp hu with hu | hu
      · exact hs u hu
      · exact hstarted _ (henv _ _ _ _ _ henvl) u hu

end Tasks

end Machine

end VideoGen
