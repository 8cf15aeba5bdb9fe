import VideoGen.MethodCalls
import VideoGen.StatusCalls
import VideoGen.StatusReads

/-!
# Late cache writes

`markFailed` evicts the cached status after it has written the row, but the
cache writes of the transitions and progress updates before it are not
awaited.  One that arrives after the eviction, or the backfill of a reader
that has seen the row before the failure, puts the old status back and hides
the failure until the entry expires.
-/

namespace VideoGen

/-! ## Calls of the job status service -/

def Task.OfJobStatus : Task → Prop
  | .service (.update _ _ _) => False
  | .service _ => True
  | _ => False

def JobStatusAct : Step → Prop
  | .invoke task => task.OfJobStatus
  | .env (.take _) => False
  | _ => True

/-- The methods that write the status or the progress of the video. -/
def Task.WritesStatus (videoId : String) : Task → Prop
  | .service (.transitionStatus id _ _ _) => id = videoId
  | .service (.updateProgress id _ _ _) => id = videoId
  | .service (.markFailed id _) => id = videoId
  | _ => False

def Call.OfRedis : Call → Bool
  | .redisGet _ => true
  | .redisSet _ _ => true
  | .redisDel _ => true
  | _ => false

/-- A call of Redis that is settled in the step is answered. -/
def RedisReachable (t : Transition State Step) : Prop :=
  ∀ i f u c, t.act = .call i f → t.before.threads[i]? = some u → u.pending? = some c →
    c.OfRedis = true → f.Answers

/-! ## Writes of the cache -/

/-- The cached status of the video is set, or it is deleted or expires. -/
inductive CacheWrite (videoId : String) (t : Transition State Step) :
    Option StatusSnapshot → Prop where
  | set {i : ℕ} {task : Task} {snapshot : StatusSnapshot}
      (h : Executes t i task (.redisSet (statusKey videoId) snapshot)) :
      CacheWrite videoId t (some snapshot)
  | deliver {i : ℕ} {snapshot : StatusSnapshot} (hact : t.act = .env (.deliver i))
      (h : t.before.state.redisWrites[i]? = some (statusKey videoId, snapshot)) :
      CacheWrite videoId t (some snapshot)
  | del {i : ℕ} {task : Task} (h : Executes t i task (.redisDel (statusKey videoId))) :
      CacheWrite videoId t none
  | expire (hact : t.act = .env (.expire (statusKey videoId))) : CacheWrite videoId t none

/-- Another status than `failed` is cached for the video. -/
def Masks (videoId : String) (t : Transition State Step) : Prop :=
  ∃ snapshot, CacheWrite videoId t (some snapshot) ∧ snapshot.status ≠ .failed

/-- The cached status of the video is removed, or `failed` is cached. -/
def Unmasks (videoId : String) (t : Transition State Step) : Prop :=
  CacheWrite videoId t none ∨
    ∃ snapshot, CacheWrite videoId t (some snapshot) ∧ snapshot.status = .failed

def World.Masked (w : World) (videoId : String) : Prop :=
  ∃ snapshot, w.cached videoId = some snapshot ∧ snapshot.status ≠ .failed

section Cache

variable {config : StorageConfig} {s s' : State} {a : Step} {v : String}
  {t : Transition State Step}

theorem World.cached_of_redis {w w' : World} (h : w'.redis = w.redis) :
    w'.cached v = w.cached v := by
  rw [cached, cached, h]

theorem World.redis_of_answer {w w' : World} {c : Call} {b : Answer} {x : c.Reply}
    (h : w.answer c b = some (w', x)) :
    w'.redis = w.redis ∨
    (∃ key snapshot, c = .redisSet key snapshot ∧
      w' = w.setRedis key (some (.snapshot snapshot))) ∨
    ∃ key, c = .redisDel key ∧ w' = w.setRedis key none := by
  cases c with
  | updateVideo id expected fields =>
      rw [(answer_updateVideo h).1, updateVideo_eq]
      exact .inl rfl
  | insertVideo id fields =>
      cases id <;> cases b <;>
        simp only [answer, reduceCtorEq, Option.map_eq_some_iff, Prod.mk.injEq] at h
      all_goals
        obtain ⟨videos, -, rfl, -⟩ := h
        exact .inl rfl
  | insertFailedJob fields =>
      cases b <;> simp only [answer, reduceCtorEq, Option.map_eq_some_iff, Prod.mk.injEq] at h
      obtain ⟨failedJobs, -, rfl, -⟩ := h
      exact .inl rfl
  | redisSet key snapshot =>
      cases b <;> simp only [answer, reduceCtorEq, Option.some.injEq, Prod.mk.injEq] at h
      exact .inr (.inl ⟨key, snapshot, rfl, h.1.symm⟩)
  | redisDel key =>
      cases b <;> simp only [answer, reduceCtorEq, Option.some.injEq, Prod.mk.injEq] at h
      exact .inr (.inr ⟨key, rfl, h.1.symm⟩)
  | _ =>
      cases b <;> simp only [answer, reduceCtorEq, Option.some.injEq, Prod.mk.injEq] at h
      all_goals
        obtain ⟨rfl, -⟩ := h
        exact .inl rfl

theorem redis_of_env {w w' : World} {threads : List Worker} {l : EnvStep} {tasks : List Task}
    (h : envStep w threads l = some (w', tasks)) :
    w'.redis = w.redis ∨
    (∃ i key snapshot, l = .deliver i ∧ w.redisWrites[i]? = some (key, snapshot) ∧
      w'.redis = (w.setRedis key (some (.snapshot snapshot))).redis) ∨
    ∃ key, l = .expire key ∧ w' = w.setRedis key none := by
  cases l with
  | deliver i =>
      simp only [envStep] at h
      split at h
      · rename_i key snapshot hwrite
        obtain ⟨rfl, -⟩ := Prod.mk.inj (Option.some.inj h)
        exact .inr (.inl ⟨i, key, snapshot, rfl, hwrite, rfl⟩)
      · cases h
  | expire key =>
      obtain ⟨rfl, -⟩ := Prod.mk.inj (Option.some.inj h)
      exact .inr (.inr ⟨key, rfl, rfl⟩)
  | _ =>
      simp only [envStep] at h
      (repeat' split at h) <;>
        simp only [reduceCtorEq, Option.some.injEq, Prod.mk.injEq] at h
      all_goals
        obtain ⟨rfl, -⟩ := h
        exact .inl rfl

theorem cached_of_write (hs : Conforming s) (hstep : (system config).step s a = some s')
    {x : Option StatusSnapshot} (h : CacheWrite v ⟨s, a, s'⟩ x) : s'.state.cached v = x := by
  cases h with
  | @set i task snapshot h =>
      obtain ⟨b, y, hx⟩ := h.answer hs hstep
      cases b <;> simp only [World.answer, reduceCtorEq, Option.some.injEq, Prod.mk.injEq] at hx
      rw [← hx.1, cached_setRedis, if_pos rfl]
  | @deliver i snapshot hact h =>
      obtain rfl : a = .env (.deliver i) := hact
      obtain ⟨w, tasks, henv, rfl⟩ := (system config).step_env_cases hstep
      have henv : envStep s.state s.threads (.deliver i) = some (w, tasks) := henv
      have h : s.state.redisWrites[i]? = some (statusKey v, snapshot) := h
      simp only [envStep, h, Option.some.injEq, Prod.mk.injEq] at henv
      rw [← henv.1]
      exact (cached_setRedis s.state v v (some (.snapshot snapshot))).trans (if_pos rfl)
  | @del i task h =>
      obtain ⟨b, y, hx⟩ := h.answer hs hstep
      cases b <;> simp only [World.answer, reduceCtorEq, Option.some.injEq, Prod.mk.injEq] at hx
      rw [← hx.1, cached_setRedis, if_pos rfl]
  | expire hact =>
      obtain rfl : a = .env (.expire (statusKey v)) := hact
      obtain ⟨w, tasks, henv, rfl⟩ := (system config).step_env_cases hstep
      obtain ⟨rfl, -⟩ := Prod.mk.inj (Option.some.inj henv)
      exact (cached_setRedis s.state v v none).trans (if_pos rfl)

theorem cached_of_other {w w' : World} {key : String} {x : Option CachedText}
    (hkey : key ≠ statusKey v) (h : w'.redis = (w.setRedis key x).redis) :
    w'.cached v = w.cached v := by
  have hget : w'.redis (statusKey v) = w.redis (statusKey v) := by
    rw [h]
    exact if_neg hkey.symm
  rw [World.cached, World.cached, hget]

theorem cached_of_no_write (hstep : (system config).step s a = some s')
    (hnone : ∀ x, ¬CacheWrite v ⟨s, a, s'⟩ x) : s'.state.cached v = s.state.cached v := by
  cases a with
  | invoke task =>
      obtain rfl := Option.some.inj hstep
      rfl
  | crash i =>
      obtain ⟨t, -, rfl⟩ := (system config).step_crash_cases hstep
      rfl
  | env l =>
      obtain ⟨w, tasks, henv, rfl⟩ := (system config).step_env_cases hstep
      rcases redis_of_env henv with hredis | ⟨i, key, snapshot, rfl, hwrite, hredis⟩ |
        ⟨key, rfl, rfl⟩
      · exact World.cached_of_redis hredis
      · apply cached_of_other _ hredis
        rintro rfl
        exact hnone _ (.deliver rfl hwrite)
      · apply cached_of_other _ rfl
        rintro rfl
        exact hnone _ (.expire rfl)
  | call i f =>
      obtain ⟨u, c, next, r, hprog, h⟩ := Machine.called_of_step hstep
      rcases World.exec_effect h.exec with ⟨-, hw, -⟩ | ⟨hf, b, y, hx, -⟩
      · rw [hw]
      have hexec : Executes ⟨s, .call i f, s'⟩ i u.task c :=
        ⟨f, u, rfl, hf, h.get, rfl, h.pending⟩
      rcases World.redis_of_answer hx with hredis | ⟨key, snapshot, rfl, hw⟩ | ⟨key, rfl, hw⟩
      · exact World.cached_of_redis hredis
      · apply cached_of_other _ (congrArg World.redis hw)
        rintro rfl
        exact hnone _ (.set hexec)
      · apply cached_of_other _ (congrArg World.redis hw)
        rintro rfl
        exact hnone _ (.del hexec)

theorem masked_step (hs : Conforming s) (hstep : (system config).step s a = some s') :
    s'.state.Masked v ↔
      Masks v ⟨s, a, s'⟩ ∨ s.state.Masked v ∧ ¬Unmasks v ⟨s, a, s'⟩ := by
  by_cases hwrite : ∃ x, CacheWrite v ⟨s, a, s'⟩ x
  · obtain ⟨x, hx⟩ := hwrite
    have hcached := cached_of_write hs hstep hx
    have hsame (y : Option StatusSnapshot) : CacheWrite v ⟨s, a, s'⟩ y ↔ y = x := by
      constructor
      · intro hy
        exact (cached_of_write hs hstep hy).symm.trans hcached
      · rintro rfl
        exact hx
    simp only [World.Masked, Masks, Unmasks, hcached, hsame]
    cases x with
    | none => simp
    | some snapshot => by_cases hfailed : snapshot.status = .failed <;> simp [hfailed]
  · have hnone (x : Option StatusSnapshot) : ¬CacheWrite v ⟨s, a, s'⟩ x :=
      fun hx ↦ hwrite ⟨x, hx⟩
    simp [World.Masked, Masks, Unmasks, cached_of_no_write hstep hnone, hnone]

end Cache

/-! ## Failed rows stay failed -/

/-- The call keeps every row and leaves a failed one failed, and it starts nothing. -/
def Call.KeepsFailed : Call → Prop
  | .updateVideo _ expected fields =>
      (∃ status, expected = some status ∧ status ≠ .failed) ∨ fields.status = some .failed
  | .insertVideo _ _ => False
  | .deleteVideo _ => False
  | .emit _ => False
  | _ => True

theorem Allowed.ne_failed {status status' : VideoStatus} (h : Allowed status status') :
    status ≠ .failed := by
  rintro rfl
  obtain ⟨targets, htargets, -⟩ := h
  cases htargets

theorem Task.calls_keepsFailed (config : StorageConfig) {task : Task} (h : task.OfJobStatus) :
    (task.body config).Calls Call.KeepsFailed := by
  cases task with
  | service call =>
      cases call with
      | update id userId dto => exact h.elim
      | transitionStatus videoId expectedStatus newStatus extra =>
          exact (calls_transitionStatus trivial (fun _ _ ↦ trivial)
            fun hallowed ↦ .inl ⟨_, rfl, hallowed.ne_failed⟩).map _
      | updateProgress videoId percent message additionalMeta =>
          exact (calls_updateProgress trivial (fun _ _ ↦ trivial)
            (.inl ⟨_, rfl, VideoStatus.noConfusion⟩)).map _
      | markFailed videoId errorMessage => exact (calls_markFailed (.inr rfl) trivial).map _
      | evictCache videoId => exact (calls_evictCache trivial).map _
      | getCachedStatus videoId =>
          exact (calls_getCachedStatus trivial
            (calls_loadFromDb trivial trivial fun _ ↦ trivial)).map _
  | _ => exact h.elim

theorem World.statusOf_of_keepsFailed {w w' : World} {c : Call} {b : Answer} {x : c.Reply}
    (hc : c.KeepsFailed) (hx : w.answer c b = some (w', x)) {v : String} {status : VideoStatus}
    (hstatus : w.statusOf v = some status) :
    ∃ status', w'.statusOf v = some status' ∧ (status = .failed → status' = .failed) := by
  cases c with
  | updateVideo id expected fields =>
      rw [(answer_updateVideo hx).1, statusOf_updateVideo]
      by_cases hid : v = id
      · subst hid
        rw [if_pos rfl, hstatus]
        refine ⟨_, rfl, fun hfailed ↦ ?_⟩
        rcases hc with ⟨status', rfl, hne⟩ | hfields
        · simp [hfailed, hne]
        · simp [hfailed, hfields]
      · exact ⟨status, (if_neg hid).trans hstatus, fun h ↦ h⟩
  | insertVideo id fields => exact hc.elim
  | deleteVideo id => exact hc.elim
  | _ => exact ⟨status, by rw [statusOf, (answer_frame hx).1 rfl]; exact hstatus, id⟩

section Rows

variable {config : StorageConfig} {start s s' : State} {a : Step} {v : String}
  {ts : List (Transition State Step)}

theorem keepsFailed_step (hact : JobStatusAct a) (hstep : (system config).step s a = some s')
    (hs : ∀ t ∈ s.threads, t.prog.Calls Call.KeepsFailed) :
    ∀ t ∈ s'.threads, t.prog.Calls Call.KeepsFailed := by
  intro u hu
  cases a with
  | invoke task =>
      obtain rfl := Option.some.inj hstep
      rcases List.mem_append.mp hu with hu | hu
      · exact hs u hu
      · obtain rfl := List.mem_singleton.mp hu
        exact Task.calls_keepsFailed config hact
  | crash i =>
      obtain ⟨t, ht, rfl⟩ := (system config).step_crash_cases hstep
      rcases List.mem_or_eq_of_mem_set hu with hu | rfl
      · exact hs u hu
      · exact hs t (List.mem_of_getElem? ht)
  | env l =>
      obtain ⟨w, tasks, henv, rfl⟩ := (system config).step_env_cases hstep
      have hnil : tasks = [] := by
        apply envStep_no_tasks henv
        rintro jobId rfl
        exact hact
      subst hnil
      exact hs u (by simpa using hu)
  | call i f =>
      obtain ⟨t, c, next, w, r, hget, -, hprog, -, rfl⟩ := (system config).stepCall_cases hstep
      have hcalls := hs t (List.mem_of_getElem? hget)
      rw [hprog] at hcalls
      have hforks : listeners c = [] := by
        cases c with
        | emit event => exact hcalls.1.elim
        | _ => rfl
      rcases List.mem_append.mp hu with hu | hu
      · rcases List.mem_or_eq_of_mem_set hu with hu | rfl
        · exact hs u hu
        · exact hcalls.2 r
      · change u ∈ (listeners c).map _ at hu
        rw [hforks] at hu
        cases hu

theorem statusOf_step (hstep : (system config).step s a = some s')
    (hs : ∀ t ∈ s.threads, t.prog.Calls Call.KeepsFailed) {status : VideoStatus}
    (hstatus : s.state.statusOf v = some status) :
    ∃ status', s'.state.statusOf v = some status' ∧ (status = .failed → status' = .failed) := by
  have hsame (h : s'.state.videos = s.state.videos) : ∃ status',
      s'.state.statusOf v = some status' ∧ (status = .failed → status' = .failed) := by
    refine ⟨status, ?_, id⟩
    rw [World.statusOf, h]
    exact hstatus
  cases a with
  | invoke task =>
      obtain rfl := Option.some.inj hstep
      exact hsame rfl
  | crash i =>
      obtain ⟨t, -, rfl⟩ := (system config).step_crash_cases hstep
      exact hsame rfl
  | env l =>
      obtain ⟨w, tasks, henv, rfl⟩ := (system config).step_env_cases hstep
      exact hsame (envStep_frame henv).1
  | call i f =>
      obtain ⟨t, c, next, r, hprog, h⟩ := Machine.called_of_step hstep
      have hcalls := hs t (List.mem_of_getElem? h.get)
      rw [hprog] at hcalls
      rcases World.exec_effect h.exec with ⟨-, hw, -⟩ | ⟨-, b, x, hx, -⟩
      · exact hsame (congrArg World.videos hw)
      · exact World.statusOf_of_keepsFailed hcalls.1 hx hstatus

theorem statusOf_of_run (hrun : Run (system config).step start ts s)
    (hacts : ∀ t ∈ ts, JobStatusAct t.act)
    (hstart : ∀ t ∈ start.threads, t.prog.Calls Call.KeepsFailed) :
    (∀ t ∈ s.threads, t.prog.Calls Call.KeepsFailed) ∧
      ∀ status, start.state.statusOf v = some status →
        ∃ status', s.state.statusOf v = some status' ∧
          (status = .failed → status' = .failed) := by
  induction hrun with
  | nil => exact ⟨hstart, fun status hstatus ↦ ⟨status, hstatus, id⟩⟩
  | @snoc ts s s' a head last ih =>
      obtain ⟨hs, hold⟩ := ih fun t ht ↦ hacts t (List.mem_append_left _ ht)
      refine ⟨keepsFailed_step (hacts ⟨s, a, s'⟩ (by simp)) last hs, fun status hstatus ↦ ?_⟩
      obtain ⟨status₁, h₁, hfailed₁⟩ := hold status hstatus
      obtain ⟨status₂, h₂, hfailed₂⟩ := statusOf_step last hs h₁
      exact ⟨status₂, h₂, fun hfailed ↦ hfailed₂ (hfailed₁ hfailed)⟩

end Rows

/-! ## Reads after a failure -/

/-- At some moment `markFailed` has returned for the video, the methods that write its status
are not called from then on, and thread `k` is started later. -/
def StartsAfterFailure (config : StorageConfig) (start : State) (videoId : String) (k : ℕ)
    (ts : List (Transition State Step)) : Prop :=
  ∃ pre mid post, ts = pre ++ post ∧ Run (system config).step start pre mid ∧
    (∃ (i : ℕ) (t : Worker) (message : String), mid.threads[i]? = some t ∧
      t.task = .service (.markFailed videoId message) ∧ t.prog = .done (.ok .unit)) ∧
    (∀ t ∈ post, t.act.InvokesOnly fun task ↦ ¬task.WritesStatus videoId) ∧
    mid.threads.length ≤ k

/-- Every read that is started after the failure and has come to its end has returned
`failed`. -/
def NotMasked (config : StorageConfig) (start : State) (videoId : String)
    (ts : List (Transition State Step)) (s : State) : Prop :=
  ∀ k t r, StartsAfterFailure config start videoId k ts → s.threads[k]? = some t →
    t.task = .service (.getCachedStatus videoId) → t.prog = .done r →
    ∃ snapshot, r = .ok (.snapshot (some snapshot)) ∧ snapshot.status = .failed

/-- No read that is started after the failure gets the answer to its `GET` when another status
than `failed` has been cached since the entry was last removed or `failed`, and the query of
such a read is answered. -/
structure ReadsUnmasked (config : StorageConfig) (start : State) (videoId : String)
    (ts : List (Transition State Step)) : Prop where
  get : ∀ k, StartsAfterFailure config start videoId k ts → ∀ pre g post,
    ts = pre ++ g :: post →
    Receives g k (.service (.getCachedStatus videoId)) (.redisGet (statusKey videoId)) →
    ¬Since (Masks videoId) (Unmasks videoId) pre
  select : ∀ k, StartsAfterFailure config start videoId k ts → ∀ g ∈ ts, ∀ f u,
    g.act = .call k f → g.before.threads[k]? = some u →
    u.task = .service (.getCachedStatus videoId) → u.pending? = some (.selectVideo videoId) →
    f.Answers

section Logs

variable {config : StorageConfig} {v : String} {log : List (Exchange interface)}
  {q : Prog Value}

theorem markFailed_ended {message : String} {x : Value}
    (h : ((Task.service (.markFailed v message)).body config).Follows log (.done (.ok x))) :
    (∃ n : ℕ, (⟨.updateVideo v none (failedFields message), .ok n⟩ : Exchange interface) ∈ log) ∧
      ∃ r, (⟨.redisDel (statusKey v), r⟩ : Exchange interface) ∈ log := by
  obtain ⟨r₁, rest, rfl, h₁⟩ := Program.Follows.of_call h
  cases r₁ with
  | error e =>
      obtain ⟨-, heq⟩ := Program.Follows.of_done h₁
      cases heq
  | ok n =>
      obtain ⟨r₂, rest, rfl, -⟩ := Program.Follows.of_call h₁
      exact ⟨⟨n, by simp⟩, r₂, by simp⟩

theorem load_ended {r : Except Thrown Value}
    (h : (Value.snapshot <$> loadFromDb v : Prog Value).Follows log (.done r))
    (hok : ∀ x ∈ log, ∃ y, x.2 = .ok y) : ∃ row : Option Video,
      (⟨.selectVideo v, .ok row⟩ : Exchange interface) ∈ log ∧
      ∀ video, row = some video → ∃ now, r = .ok (.snapshot (some (video.snapshot now))) := by
  obtain ⟨r₁, rest, rfl, h₁⟩ := Program.Follows.of_call h
  have hrow : ∃ row, r₁ = .ok row := hok ⟨_, r₁⟩ (by simp)
  obtain ⟨row, rfl⟩ := hrow
  refine ⟨row, List.mem_cons_self, ?_⟩
  rintro video rfl
  obtain ⟨r₂, rest, rfl, h₂⟩ := Program.Follows.of_call h₁
  have hnow : ∃ now, r₂ = .ok now := hok ⟨_, r₂⟩ (by simp)
  obtain ⟨now, rfl⟩ := hnow
  obtain ⟨r₃, rest, rfl, h₃⟩ := Program.Follows.of_call h₂
  have hset : ∃ x, r₃ = .ok x := hok ⟨_, r₃⟩ (by simp)
  obtain ⟨x, rfl⟩ := hset
  obtain ⟨-, rfl⟩ := Program.Follows.of_done h₃
  exact ⟨now, rfl⟩

theorem read_logged (h : ((Task.service (.getCachedStatus v)).body config).Follows log q)
    (hlog : log ≠ []) : ∃ r rest, log = ⟨.redisGet (statusKey v), r⟩ :: rest ∧
      ((∃ snapshot, r = .ok (some (.snapshot snapshot)) ∧ rest = [] ∧
          q = .done (.ok (.snapshot (some snapshot)))) ∨
        (∀ snapshot, r ≠ .ok (some (.snapshot snapshot))) ∧
          (Value.snapshot <$> loadFromDb v : Prog Value).Follows rest q) := by
  cases log with
  | nil => exact absurd rfl hlog
  | cons x rest =>
      obtain ⟨r, rfl, h⟩ := h
      refine ⟨r, rest, rfl, ?_⟩
      rcases r with e | _ | snapshot | text
      · exact .inr ⟨nofun, h⟩
      · exact .inr ⟨nofun, h⟩
      · refine .inl ⟨snapshot, rfl, ?_⟩
        cases rest with
        | nil => exact ⟨rfl, (Program.follows_nil.mp h).symm⟩
        | cons y rest => exact h.elim
      · refine .inr ⟨nofun, ?_⟩
        by_cases hempty : text = ""
        · subst hempty
          exact h
        · have hparse : parseSnapshot (some (.malformed text)) =
              raise .error "Unexpected token" := if_neg hempty
          change Program.Follows (((parseSnapshot (some (.malformed text))).attempt.bind
            _).bind _ |>.bind _) _ _ at h
          rw [hparse] at h
          exact h

theorem load_logged (h : (Value.snapshot <$> loadFromDb v : Prog Value).Follows log q)
    (hlog : log ≠ []) : ∃ r rest, log = ⟨.selectVideo v, r⟩ :: rest ∧
      (∀ x ∈ rest, x.1 = .dateNow ∨ ∃ snapshot, x.1 = .redisSet (statusKey v) snapshot) ∧
      ∀ e, r = .error e → q = .done (.ok (.snapshot none)) := by
  cases log with
  | nil => exact absurd rfl hlog
  | cons x rest =>
      obtain ⟨r, rfl, h₁⟩ := h
      refine ⟨r, rest, rfl, ?_, ?_⟩
      · refine (h₁.calls (Q := fun c : Call ↦ c = .dateNow ∨
          ∃ snapshot, c = .redisSet (statusKey v) snapshot) ?_).1
        rcases r with e | _ | row
        · trivial
        · trivial
        · refine ⟨.inl rfl, fun r₂ ↦ ?_⟩
          cases r₂ with
          | error e => trivial
          | ok now =>
              refine ⟨.inr ⟨_, rfl⟩, fun r₃ ↦ ?_⟩
              cases r₃ <;> trivial
      · rintro e rfl
        cases rest with
        | nil => exact (Program.follows_nil.mp h₁).symm
        | cons y rest => exact h₁.elim

theorem read_hit (h : ((Task.service (.getCachedStatus v)).body config).Follows log q)
    {snapshot : StatusSnapshot}
    (hmem : (⟨.redisGet (statusKey v), .ok (some (.snapshot snapshot))⟩ : Exchange interface) ∈
      log) : q = .done (.ok (.snapshot (some snapshot))) := by
  obtain ⟨r, rest, rfl, hcases⟩ := read_logged h (List.ne_nil_of_mem hmem)
  rcases hcases with ⟨snapshot', rfl, rfl, rfl⟩ | ⟨hmiss, h⟩
  · obtain heq := List.mem_singleton.mp hmem
    obtain ⟨-, heq⟩ := Sigma.mk.inj heq
    cases eq_of_heq heq
    rfl
  · rcases List.mem_cons.mp hmem with heq | hrest
    · obtain ⟨-, heq⟩ := Sigma.mk.inj heq
      exact absurd (eq_of_heq heq).symm (hmiss snapshot)
    · obtain ⟨r₁, rest, rfl, hcalls, -⟩ := load_logged h (List.ne_nil_of_mem hrest)
      rcases List.mem_cons.mp hrest with heq | hrest
      · cases (Sigma.mk.inj heq).1
      · rcases hcalls _ hrest with hc | ⟨snapshot', hc⟩ <;> cases hc

theorem read_unanswered (h : ((Task.service (.getCachedStatus v)).body config).Follows log q)
    {e : Thrown} (hmem : (⟨.selectVideo v, .error e⟩ : Exchange interface) ∈ log) :
    q = .done (.ok (.snapshot none)) := by
  obtain ⟨r, rest, rfl, hcases⟩ := read_logged h (List.ne_nil_of_mem hmem)
  have hrest : (⟨.selectVideo v, .error e⟩ : Exchange interface) ∈ rest := by
    rcases List.mem_cons.mp hmem with heq | hrest
    · cases (Sigma.mk.inj heq).1
    · exact hrest
  rcases hcases with ⟨snapshot, -, rfl, -⟩ | ⟨-, h₁⟩
  · cases hrest
  obtain ⟨r₁, rest, rfl, hcalls, hfailed⟩ := load_logged h₁ (List.ne_nil_of_mem hrest)
  rcases List.mem_cons.mp hrest with heq | hrest
  · obtain ⟨-, heq⟩ := Sigma.mk.inj heq
    exact hfailed e (eq_of_heq heq).symm
  · rcases hcalls _ hrest with hc | ⟨snapshot, hc⟩ <;> cases hc

end Logs

section Reads

variable {config : StorageConfig} {w : World} {s : State} {v : String} {k : ℕ}
  {ts : List (Transition State Step)}

theorem masked_iff_since (hrun : Run (system config).step ⟨w, []⟩ ts s)
    (hexists : ∃ t ∈ ts, Unmasks v t) :
    s.state.Masked v ↔ Since (Masks v) (Unmasks v) ts := by
  have hiff := hrun.holds_iff_since (P := Masks v) (Q := Unmasks v)
    (fun s ↦ s.state.Masked v) fun t ht hstep ↦ by
      obtain ⟨pre, post, rfl, hpre, -⟩ := hrun.exists_prefix ht
      exact masked_step (run_conforming hpre) hstep
  rw [hiff, or_iff_left]
  rintro ⟨-, hnone⟩
  obtain ⟨t, ht, hunmasks⟩ := hexists
  exact hnone t ht hunmasks

theorem no_calls_at_start (w : World) :
    ∀ t ∈ (⟨w, []⟩ : State).threads, t.prog.Calls Call.KeepsFailed := by simp

theorem failed_of_returned (hrun : Run (system config).step ⟨w, []⟩ ts s)
    (hacts : ∀ t ∈ ts, JobStatusAct t.act) (hredis : ∀ t ∈ ts, RedisReachable t)
    (hrow : (w.videos.find? v).isSome) {i : ℕ} {t : Worker} {message : String} {x : Value}
    (hget : s.threads[i]? = some t) (htask : t.task = .service (.markFailed v message))
    (hprog : t.prog = .done (.ok x)) :
    s.state.statusOf v = some .failed ∧ ∃ u ∈ ts, Unmasks v u := by
  have hfollows := follows_of_run hrun t (List.mem_of_getElem? hget)
  rw [htask, hprog] at hfollows
  obtain ⟨⟨n, hupdate⟩, r, hdel⟩ := markFailed_ended hfollows
  have hlogged := Machine.mem_log_iff hrun rfl hget
  constructor
  · obtain ⟨u, hu, f, u₀, hact, -, -, hexec⟩ := (hlogged _).mp hupdate
    obtain ⟨pre, post, rfl⟩ := List.append_of_mem hu
    obtain ⟨hpre, hstep, hpost⟩ := hrun.at_append_cons
    obtain ⟨row, hfind⟩ := Option.isSome_iff_exists.mp hrow
    have hstart : (⟨w, []⟩ : State).state.statusOf v = some row.status := by
      rw [World.statusOf, hfind, Option.map_some]
    obtain ⟨hcalls, hkept⟩ := statusOf_of_run (v := v) hpre
      (fun t ht ↦ hacts t (List.mem_append_left _ ht)) (no_calls_at_start w)
    obtain ⟨status, hstatus, -⟩ := hkept _ hstart
    have hfailed : u.after.state.statusOf v = some .failed := by
      obtain ⟨-, b, hanswer⟩ := World.exec_ok hexec
      rw [(World.answer_updateVideo hanswer).1, World.statusOf_updateVideo, if_pos rfl, hstatus]
      simp [failedFields]
    have hafter := keepsFailed_step (hacts u (by simp)) hstep hcalls
    obtain ⟨status', hend, hstays⟩ := (statusOf_of_run (v := v) hpost
      (fun t ht ↦ hacts t (by simp [ht])) hafter).2 _ hfailed
    rw [hend, hstays rfl]
  · obtain ⟨u, hu, f, u₀, hact, hget₀, hpending, -⟩ := (hlogged _).mp hdel
    have hanswers := hredis u hu i f u₀ _ hact hget₀ hpending rfl
    have heffect : f.TakesEffect = true := by
      cases f with
      | ok b => rfl
      | rejected e => exact hanswers.elim
      | lost b e => exact hanswers.elim
    exact ⟨u, hu, .inl (.del ⟨f, u₀, hact, heffect, hget₀, rfl, hpending⟩)⟩

theorem after_failure (hrun : Run (system config).step ⟨w, []⟩ ts s)
    (hacts : ∀ t ∈ ts, JobStatusAct t.act) (hredis : ∀ t ∈ ts, RedisReachable t)
    (hrow : (w.videos.find? v).isSome) (hstarts : StartsAfterFailure config ⟨w, []⟩ v k ts)
    {p q : List (Transition State Step)} {g : Transition State Step} {u : Worker}
    (hts : ts = p ++ g :: q) (hget : g.before.threads[k]? = some u) :
    g.before.state.statusOf v = some .failed ∧ ∃ t ∈ p, Unmasks v t := by
  obtain ⟨pre, mid, post, hsplit, hpre, ⟨i, t, message, hgett, htask, hprog⟩, -, hle⟩ := hstarts
  have hlt := (List.getElem?_eq_some_iff.mp hget).1
  have hprefix : ∃ c, p = pre ++ c := by
    rcases List.append_eq_append_iff.mp (hsplit.symm.trans hts) with ⟨c, hp, -⟩ | ⟨c, hp, hq⟩
    · exact ⟨c, hp⟩
    · cases c with
      | nil => exact ⟨[], by simpa using hp.symm⟩
      | cons g' c =>
          obtain ⟨rfl, -⟩ := List.cons.inj hq
          have hlen := Machine.length_le_of_mem hpre (v := g) (by simp [hp])
          omega
  obtain ⟨c, rfl⟩ := hprefix
  subst hts
  obtain ⟨hp, -, -⟩ := hrun.at_append_cons
  obtain ⟨mid', hpre', hc⟩ := hp.split
  obtain rfl := hpre'.end_unique hpre
  have hacts' : ∀ t ∈ pre, JobStatusAct t.act := fun t ht ↦ hacts t (by simp [ht])
  obtain ⟨hfailed, t', ht', hunmasks⟩ := failed_of_returned hpre hacts'
    (fun t ht ↦ hredis t (by simp [ht])) hrow hgett htask hprog
  have hcalls := (statusOf_of_run (v := v) hpre hacts' (no_calls_at_start w)).1
  obtain ⟨status, hend, hstays⟩ := (statusOf_of_run (v := v) hc
    (fun t ht ↦ hacts t (by simp [ht])) hcalls).2 _ hfailed
  refine ⟨?_, t', by simp [ht'], hunmasks⟩
  rw [hend, hstays rfl]

theorem World.redis_of_cached {snapshot : StatusSnapshot} (h : w.cached v = some snapshot) :
    w.redis (statusKey v) = some (.snapshot snapshot) := by
  unfold World.cached at h
  split at h
  · rename_i x heq
    rw [heq, Option.some.inj h]
  · cases h

theorem exec_of_answers {w' : World} {c : Call} {f : Fate} {x : Except Thrown c.Reply}
    (hf : f.Answers) (h : w.exec c f = some (w', x)) : ∃ y, x = .ok y := by
  rcases World.exec_cases h with ⟨b, y, -, -, rfl⟩ | ⟨e, rfl, -⟩ | ⟨b, e, y, rfl, -⟩
  · exact ⟨y, rfl⟩
  · exact hf.elim
  · exact hf.elim

theorem exec_of_not_answers {w' : World} {c : Call} {f : Fate} {x : Except Thrown c.Reply}
    (hf : ¬f.Answers) (h : w.exec c f = some (w', x)) : ∃ e, x = .error e := by
  rcases World.exec_cases h with ⟨b, y, rfl, -, -⟩ | ⟨e, -, -, -, rfl⟩ | ⟨b, e, y, -, -, -, rfl⟩
  · exact absurd trivial hf
  · exact ⟨e, rfl⟩
  · exact ⟨e, rfl⟩

theorem reader_at_end (hrun : Run (system config).step ⟨w, []⟩ ts s) {g : Transition State Step}
    (hg : g ∈ ts) {u : Worker} (hget : g.before.threads[k]? = some u)
    (htask : u.task = .service (.getCachedStatus v)) : ∃ t, s.threads[k]? = some t ∧
      t.task = .service (.getCachedStatus v) ∧
      ((Task.service (.getCachedStatus v)).body config).Follows t.log t.prog := by
  have hlt := (List.getElem?_eq_some_iff.mp hget).1
  have hlen := Machine.length_le_of_mem hrun hg
  have hend := List.getElem?_eq_getElem (Nat.lt_of_lt_of_le hlt hlen)
  have hsame := (Machine.task_eq_of_mem hrun hg hget hend).symm.trans htask
  refine ⟨_, hend, hsame, ?_⟩
  have hfollows := follows_of_run hrun _ (List.mem_of_getElem? hend)
  rwa [hsame] at hfollows

theorem reader_answered (hrun : Run (system config).step ⟨w, []⟩ ts s)
    (hredis : ∀ t ∈ ts, RedisReachable t) {t : Worker} (hget : s.threads[k]? = some t)
    (htask : t.task = .service (.getCachedStatus v))
    (hselect : ∀ g ∈ ts, ∀ f u, g.act = .call k f → g.before.threads[k]? = some u →
      u.task = .service (.getCachedStatus v) → u.pending? = some (.selectVideo v) → f.Answers) :
    ∀ x ∈ t.log, ∃ y, x.2 = .ok y := by
  have hfollows := follows_of_run hrun t (List.mem_of_getElem? hget)
  rw [htask] at hfollows
  have hcalls : ((Task.service (.getCachedStatus v)).body config).Calls fun c : Call ↦
      c.OfRedis = true ∨ c = .selectVideo v ∨ c = .dateNow :=
    (calls_getCachedStatus (.inl rfl) (calls_loadFromDb (.inr (.inl rfl)) (.inr (.inr rfl))
      fun _ ↦ .inl rfl)).map _
  rintro ⟨c, r⟩ hx
  obtain ⟨g, hg, f, u, hact, hgetu, hpending, hexec⟩ :=
    (Machine.mem_log_iff hrun rfl hget _).mp hx
  have htasku := (Machine.task_eq_of_mem hrun hg hgetu hget).trans htask
  rcases (hfollows.calls hcalls).1 _ hx with hc | rfl | rfl
  · exact exec_of_answers (hredis g hg k f u c hact hgetu hpending hc) hexec
  · exact exec_of_answers (hselect g hg f u hact hgetu htasku hpending) hexec
  · exact ⟨_, (exec_dateNow hexec).2⟩

/-- The failure is shown to every later read exactly if none of them gets the answer to its
`GET` while an old status is back in the cache, and none has its query failing. -/
theorem notMasked_iff (hrun : Run (system config).step ⟨w, []⟩ ts s)
    (hacts : ∀ t ∈ ts, JobStatusAct t.act) (hredis : ∀ t ∈ ts, RedisReachable t)
    (hrow : (w.videos.find? v).isSome) :
    NotMasked config ⟨w, []⟩ v ts s ↔ ReadsUnmasked config ⟨w, []⟩ v ts := by
  constructor
  · intro h
    constructor
    · intro k hstarts pre g post hts hreceives hsince
      obtain ⟨b, u, hact, hget, htask, hpending⟩ := hreceives
      have hg : g ∈ ts := by simp [hts]
      obtain ⟨-, hcleared⟩ := after_failure hrun hacts hredis hrow hstarts hts hget
      obtain ⟨hpre, -, -⟩ := (hts ▸ hrun).at_append_cons
      obtain ⟨snapshot, hcached, hne⟩ := (masked_iff_since hpre hcleared).mpr hsince
      obtain ⟨t, hend, htaskt, hfollows⟩ := reader_at_end hrun hg hget htask
      obtain ⟨u', c, r, hget', hpending', hexec, hmem⟩ := exists_mem_log hrun hend hg hact
      obtain rfl := Option.some.inj (hget.symm.trans hget')
      obtain rfl := Option.some.inj (hpending.symm.trans hpending')
      obtain ⟨-, ⟨-, hr⟩ | ⟨hfail, -⟩⟩ := exec_redisGet hexec
      · rw [hr, World.redis_of_cached hcached] at hmem
        obtain ⟨snapshot', heq, hfailed⟩ :=
          h k t _ hstarts hend htaskt (read_hit hfollows hmem)
        cases heq
        exact hne hfailed
      · exact hfail trivial
    · intro k hstarts g hg f u hact hget htask hpending
      by_contra hfail
      obtain ⟨t, hend, htaskt, hfollows⟩ := reader_at_end hrun hg hget htask
      obtain ⟨u', c, r, hget', hpending', hexec, hmem⟩ := exists_mem_log hrun hend hg hact
      obtain rfl := Option.some.inj (hget.symm.trans hget')
      obtain rfl := Option.some.inj (hpending.symm.trans hpending')
      obtain ⟨e, rfl⟩ := exec_of_not_answers hfail hexec
      obtain ⟨snapshot, heq, -⟩ :=
        h k t _ hstarts hend htaskt (read_unanswered hfollows hmem)
      cases heq
  · intro h k t r hstarts hget htask hprog
    have hok := reader_answered hrun hredis hget htask (h.select k hstarts)
    have hfollows := follows_of_run hrun t (List.mem_of_getElem? hget)
    rw [htask, hprog] at hfollows
    have hlogged := Machine.mem_log_iff hrun rfl hget
    have hlog : t.log ≠ [] := by
      intro hnil
      rw [hnil] at hfollows
      cases Program.follows_nil.mp hfollows
    obtain ⟨r₁, rest, hsplit, hcases⟩ := read_logged hfollows hlog
    obtain ⟨g, hg, f, u, hact, hgetu, hpending, hexec⟩ :=
      (hlogged ⟨.redisGet (statusKey v), r₁⟩).mp (by simp [hsplit])
    have htasku := (Machine.task_eq_of_mem hrun hg hgetu hget).trans htask
    have hanswers := hredis g hg k f u _ hact hgetu hpending rfl
    rcases hcases with ⟨snapshot, rfl, -, hreturned⟩ | ⟨-, hload⟩
    · cases hreturned
      refine ⟨snapshot, rfl, ?_⟩
      by_contra hne
      obtain ⟨pre, post, hts⟩ := List.append_of_mem hg
      obtain ⟨-, hcleared⟩ := after_failure hrun hacts hredis hrow hstarts hts hgetu
      obtain ⟨hpre, -, -⟩ := (hts ▸ hrun).at_append_cons
      have hreceives : Receives g k (.service (.getCachedStatus v))
          (.redisGet (statusKey v)) := by
        cases f with
        | ok b => exact ⟨b, u, hact, hgetu, htasku, hpending⟩
        | rejected e => exact hanswers.elim
        | lost b e => exact hanswers.elim
      apply h.get k hstarts pre g post hts hreceives
      rw [← masked_iff_since hpre hcleared]
      obtain ⟨-, ⟨-, hr⟩ | ⟨hfail, -⟩⟩ := exec_redisGet hexec
      · refine ⟨snapshot, ?_, hne⟩
        rw [World.cached, ← Except.ok.inj hr]
      · exact absurd hanswers hfail
    · obtain ⟨row, hmem, hreturned⟩ :=
        load_ended hload fun x hx ↦ hok x (by simp [hsplit, hx])
      obtain ⟨g₂, hg₂, f₂, u₂, hact₂, hget₂, hpending₂, hexec₂⟩ :=
        (hlogged ⟨.selectVideo v, .ok row⟩).mp (by simp [hsplit, hmem])
      obtain ⟨pre, post, hts⟩ := List.append_of_mem hg₂
      obtain ⟨hfailed, -⟩ := after_failure hrun hacts hredis hrow hstarts hts hget₂
      obtain ⟨video, hfind, hstatus⟩ := World.statusOf_eq_some_iff.mp hfailed
      obtain ⟨-, b, hanswer⟩ := World.exec_ok hexec₂
      have hrow₂ : row = some video := (World.answer_selectVideo hanswer).2.trans hfind
      obtain ⟨now, rfl⟩ := hreturned video hrow₂
      exact ⟨_, rfl, hstatus⟩

end Reads

/-! ## A write that arrives in time and one that is late -/

def markedFailed (videoId : String) (t : Worker) : Bool :=
  match t.task, t.prog with
  | .service (.markFailed id _), .done (.ok .unit) => id = videoId
  | _, _ => false

def shownStatus (videoId : String) (t : Worker) : Option (Option VideoStatus) :=
  match t.task, t.prog with
  | .service (.getCachedStatus id), .done r =>
      if id = videoId then
        some (match r with
          | .ok (.snapshot (some snapshot)) => some snapshot.status
          | _ => none)
      else none
  | _, _ => none

theorem markedFailed_iff {videoId : String} {t : Worker} (h : markedFailed videoId t = true) :
    ∃ message, t.task = .service (.markFailed videoId message) ∧ t.prog = .done (.ok .unit) := by
  unfold markedFailed at h
  split at h
  · rename_i id message htask hprog
    obtain rfl := of_decide_eq_true h
    exact ⟨message, htask, hprog⟩
  · cases h

theorem shownStatus_of_done {videoId : String} {t : Worker} {r : Except Thrown Value}
    (htask : t.task = .service (.getCachedStatus videoId)) (hprog : t.prog = .done r)
    (h : shownStatus videoId t = some (some .failed)) :
    ∃ snapshot, r = .ok (.snapshot (some snapshot)) ∧ snapshot.status = .failed := by
  unfold shownStatus at h
  rw [htask, hprog] at h
  simp only [if_true, Option.some.injEq] at h
  split at h
  · rename_i snapshot
    exact ⟨snapshot, rfl, Option.some.inj h⟩
  · cases h

def processingWorld : World :=
  { World.empty with
    videos := Table.single { Video.create "video" {} 0 with status := .processing } }

def progressActs : List Step :=
  [.invoke (.service (.updateProgress "video" 30 "Rendering" [])), okStep 0, okStep 0, okStep 0]

def failureActs : List Step :=
  [.invoke (.service (.markFailed "video" "error")), okStep 1, okStep 1]

def readActs (calls : ℕ) : List Step :=
  .invoke (.service (.getCachedStatus "video")) :: List.replicate calls (okStep 2)

def Step.Answered : Step → Prop
  | .call _ (.ok _) => True
  | .call _ _ => False
  | _ => True

theorem redisReachable_of_answered {t : Transition State Step} (h : Step.Answered t.act) :
    RedisReachable t := by
  intro i f u c hact _ _ _
  rw [hact] at h
  cases f with
  | ok b => exact Fate.answers_ok b
  | rejected e => exact h.elim
  | lost b e => exact h.elim

/-- The progress is cached before the entry is deleted. -/
theorem notMasked_early : ∃ (ts : List (Transition State Step)) (s : State),
    Run (system ⟨"bucket", none, "region"⟩).step ⟨processingWorld, []⟩ ts s ∧
      s.threads[2]?.map (shownStatus "video") = some (some (some .failed)) ∧
      ReadsUnmasked ⟨"bucket", none, "region"⟩ ⟨processingWorld, []⟩ "video" ts := by
  obtain ⟨ts, s, hrun, hacts, hobs⟩ := Run.exists_of_follow
    (system ⟨"bucket", none, "region"⟩).step ⟨processingWorld, []⟩
    (progressActs ++ .env (.deliver 0) :: failureActs ++ readActs 4)
    (fun p ↦ p.2.threads.map (shownStatus "video")) [none, none, some (some .failed)]
    (by decide +kernel)
  have hgood : ∀ a ∈ progressActs ++ .env (.deliver 0) :: failureActs ++ readActs 4,
      JobStatusAct a ∧ Step.Answered a := by
    simp [progressActs, failureActs, readActs, okStep, JobStatusAct, Task.OfJobStatus,
      Step.Answered]
  have hact : ∀ t ∈ ts, JobStatusAct t.act ∧ Step.Answered t.act :=
    fun t ht ↦ hgood _ (hacts ▸ List.mem_map_of_mem ht)
  refine ⟨ts, s, hrun, ?_, (notMasked_iff hrun (fun t ht ↦ (hact t ht).1)
    (fun t ht ↦ redisReachable_of_answered (hact t ht).2) rfl).mp ?_⟩
  · rw [← List.getElem?_map, hobs]
    rfl
  · intro k t r _ hget htask hprog
    apply shownStatus_of_done htask hprog
    have hk : (s.threads.map (shownStatus "video"))[k]? = some (shownStatus "video" t) := by
      rw [List.getElem?_map, hget, Option.map_some]
    have hdone : shownStatus "video" t ≠ none := by simp [shownStatus, htask, hprog]
    have hmem := List.mem_of_getElem? hk
    rw [hobs] at hmem
    simpa [hdone] using hmem

/-- The progress that was reported before the failure is cached after it. -/
theorem failure_masked : ∃ (ts : List (Transition State Step)) (s : State),
    Run (system ⟨"bucket", none, "region"⟩).step ⟨processingWorld, []⟩ ts s ∧
      (∀ t ∈ ts, JobStatusAct t.act) ∧ (∀ t ∈ ts, RedisReachable t) ∧
      (processingWorld.videos.find? "video").isSome ∧
      s.threads[2]?.map (shownStatus "video") = some (some (some .processing)) ∧
      ¬NotMasked ⟨"bucket", none, "region"⟩ ⟨processingWorld, []⟩ "video" ts s := by
  obtain ⟨ts, mid, ts', s, hrun, hrun', hacts, hacts', hobs⟩ := Run.exists_of_follow_append
    (system ⟨"bucket", none, "region"⟩).step ⟨processingWorld, []⟩
    (progressActs ++ failureActs) (.env (.deliver 0) :: readActs 1)
    (fun mid s ↦ (mid.threads.map (markedFailed "video"), s.threads.map (shownStatus "video")))
    ([false, true], [none, none, some (some .processing)]) (by decide +kernel)
  obtain ⟨hmarked, hshown⟩ := Prod.mk.inj hobs
  have hgood : ∀ a ∈ progressActs ++ failureActs ++ .env (.deliver 0) :: readActs 1,
      JobStatusAct a ∧ Step.Answered a := by
    simp [progressActs, failureActs, readActs, okStep, JobStatusAct, Task.OfJobStatus,
      Step.Answered]
  have hact : ∀ t ∈ ts ++ ts', JobStatusAct t.act ∧ Step.Answered t.act := by
    intro t ht
    apply hgood
    rw [← hacts, ← hacts', ← List.map_append]
    exact List.mem_map_of_mem ht
  have hread : s.threads[2]?.map (shownStatus "video") = some (some (some .processing)) := by
    rw [← List.getElem?_map, hshown]
    rfl
  refine ⟨ts ++ ts', s, hrun.append hrun', fun t ht ↦ (hact t ht).1,
    fun t ht ↦ redisReachable_of_answered (hact t ht).2, rfl, hread, fun h ↦ ?_⟩
  have hstarts : StartsAfterFailure ⟨"bucket", none, "region"⟩ ⟨processingWorld, []⟩ "video" 2
      (ts ++ ts') := by
    refine ⟨ts, mid, ts', rfl, hrun, ?_, ?_, ?_⟩
    · have hone : mid.threads[1]?.map (markedFailed "video") = some true := by
        rw [← List.getElem?_map, hmarked]
        rfl
      obtain ⟨t, hget, hdone⟩ := Option.map_eq_some_iff.mp hone
      obtain ⟨message, htask, hprog⟩ := markedFailed_iff hdone
      exact ⟨1, t, message, hget, htask, hprog⟩
    · have hquiet : ∀ a ∈ (.env (.deliver 0) :: readActs 1 : List Step),
          a.InvokesOnly fun task ↦ ¬task.WritesStatus "video" := by
        simp [readActs, okStep, Act.InvokesOnly, Task.WritesStatus]
      exact fun t ht ↦ hquiet _ (hacts' ▸ List.mem_map_of_mem ht)
    · have hlength := congrArg List.length hmarked
      rw [List.length_map] at hlength
      exact hlength.le
  obtain ⟨t, hget, ht⟩ := Option.map_eq_some_iff.mp hread
  unfold shownStatus at ht
  split at ht
  · rename_i id r htask hprog
    by_cases hid : id = "video"
    · subst hid
      obtain ⟨snapshot, rfl, hfailed⟩ := h 2 t r hstarts hget htask hprog
      simp [hfailed] at ht
    · simp [hid] at ht
  · cases ht

end VideoGen
