import VideoGen.MethodCalls
import VideoGen.SoloJob

/-!
# Stored files and their rows

Only worker executions put objects into the bucket, each under the key of its
own video, and nobody deletes one.  An execution uploads after its start
transition, so the row was there once.  It is still there unless it was
removed: removing a video deletes the row and leaves the file behind.
-/

namespace VideoGen

/-! ## The keys of an execution -/

def Call.UploadsTo (key : String) : Call → Prop
  | .s3Put k _ _ => k = key
  | _ => True

section Keys

variable {config : StorageConfig} {job : Job} {key : String}

theorem calls_finishGeneration (result : GenerateVideoResult) (videoUrl : String) :
    (finishGeneration config job result videoUrl).Calls
      (Call.UploadsTo (outputKey job.data.videoId)) := by
  have hstore : (storeVideo config job result videoUrl).Calls
      (Call.UploadsTo (outputKey job.data.videoId)) := by
    unfold storeVideo
    split
    · trivial
    · exact calls_uploadFromUrl trivial (fun _ _ ↦ rfl) (fun _ ↦ trivial)
  refine hstore.bind fun storedUrl ↦ ?_
  refine (calls_transitionStatus trivial (fun _ _ ↦ trivial) fun _ ↦ trivial).bind fun _ ↦ ?_
  refine (calls_ask trivial).bind fun _ ↦ ?_
  exact calls_ask trivial

theorem calls_pollLoop (generationJobId : String) (remaining : ℕ) (status : GenerationStatus)
    (pollAttempts : ℕ) :
    (pollLoop config job generationJobId status pollAttempts remaining).Calls
      (Call.UploadsTo (outputKey job.data.videoId)) := by
  induction remaining generalizing status pollAttempts with
  | zero => trivial
  | succ remaining ih =>
      unfold pollLoop
      split
      · refine (calls_ask trivial).bind fun _ ↦ ?_
        refine (calls_ask trivial).bind fun result ↦ ?_
        refine (calls_updateProgress trivial (fun _ _ ↦ trivial) trivial).bind fun _ ↦ ?_
        refine (calls_ask trivial).bind fun _ ↦ ?_
        refine (calls_ask trivial).bind fun _ ↦ ?_
        split
        · exact calls_finishGeneration result _
        · exact ih _ _
      · trivial

theorem calls_generate (video : Video) : (generate config job video).Calls
    (Call.UploadsTo (outputKey job.data.videoId)) := by
  refine (calls_ask trivial).bind fun _ ↦ ?_
  refine (calls_ask trivial).bind fun _ ↦ ?_
  refine (calls_enhancePrompt video.prompt trivial).bind fun _ ↦ ?_
  refine (calls_updateProgress trivial (fun _ _ ↦ trivial) trivial).bind fun _ ↦ ?_
  refine (calls_ask trivial).bind fun _ ↦ ?_
  refine (calls_ask trivial).bind fun result ↦ ?_
  refine (calls_updateProgress trivial (fun _ _ ↦ trivial) trivial).bind fun _ ↦ ?_
  refine (calls_ask trivial).bind fun _ ↦ ?_
  exact calls_pollLoop _ _ _ _

theorem calls_onGenerationError (error : Thrown) :
    (onGenerationError job error).Calls (Call.UploadsTo key) := by
  change Program.Calls _ (if IsFinalAttempt job then _ else _)
  split
  · refine (calls_markFailed trivial trivial).bind fun _ ↦ ?_
    exact (calls_ask trivial).bind fun _ ↦ trivial
  · trivial

theorem calls_process :
    (process config job).Calls (Call.UploadsTo (outputKey job.data.videoId)) := by
  unfold process
  split
  · refine Program.Calls.catchWith ?_ calls_onGenerationError
    have hload : (findById job.data.videoId).Calls
        (Call.UploadsTo (outputKey job.data.videoId)) := by
      refine (calls_ask trivial).bind fun video ↦ ?_
      cases video <;> trivial
    refine hload.bind fun video ↦ ?_
    refine (calls_transitionStatus trivial (fun _ _ ↦ trivial) fun _ ↦ trivial).bind fun started ↦ ?_
    split
    · exact calls_generate video
    · trivial
  · trivial

def Task.UploadsOwn (task : Task) (c : Call) : Prop :=
  ∀ job, task = .process job → c.UploadsTo (outputKey job.data.videoId)

theorem Task.calls_body (config : StorageConfig) (task : Task) :
    (task.body config).Calls task.UploadsOwn := by
  cases task with
  | process job =>
      have hown : Task.UploadsOwn (.process job) =
          Call.UploadsTo (outputKey job.data.videoId) := by
        funext c
        refine propext ⟨fun h ↦ h job rfl, ?_⟩
        rintro h _ ⟨⟩
        exact h
      rw [hown]
      exact calls_process.map _
  | _ =>
      apply Program.calls_of_forall
      intro c job h
      cases h

end Keys

/-! ## The bucket and the rows -/

namespace World

def HasRow (w : World) (videoId : String) : Prop := ∃ row, w.videos.find? videoId = some row

/-- Every stored object is the output file of a video that exists. -/
def FilesBelong (w : World) : Prop :=
  ∀ key, w.bucket key ≠ none → ∃ videoId, key = outputKey videoId ∧ w.HasRow videoId

variable {w w' : World} {c : Call} {a : Answer}

theorem answer_bucket {x : c.Reply} (h : w.answer c a = some (w', x)) {key : String}
    (hkey : w'.bucket key ≠ none) :
    w.bucket key ≠ none ∨ ∃ body contentType, c = .s3Put key body contentType := by
  rcases answer_bucket_cases h with hsame | ⟨k, body, contentType, rfl, rfl⟩ | ⟨k, rfl, rfl⟩
  · exact .inl (hsame ▸ hkey)
  · by_cases hk : key = k
    · exact .inr ⟨body, contentType, by rw [hk]⟩
    · left
      simpa [setBucket, hk] using hkey
  · by_cases hk : key = k
    · simp [setBucket, hk] at hkey
    · left
      simpa [setBucket, hk] using hkey

theorem bucket_of_answer {x : c.Reply} (h : w.answer c a = some (w', x)) {key : String}
    (hdelete : c ≠ .s3Delete key) (hkey : w.bucket key ≠ none) : w'.bucket key ≠ none := by
  rcases answer_bucket_cases h with hsame | ⟨k, body, contentType, rfl, rfl⟩ | ⟨k, rfl, rfl⟩
  · exact hsame ▸ hkey
  · by_cases hk : key = k
    · simp [setBucket, hk]
    · simpa [setBucket, hk] using hkey
  · have hk : key ≠ k := by
      rintro rfl
      exact hdelete rfl
    simpa [setBucket, hk] using hkey

end World

def Uploads (videoId : String) (t : Transition State Step) : Prop :=
  ∃ i task body contentType, Executes t i task (.s3Put (outputKey videoId) body contentType)

def Removes (videoId : String) (t : Transition State Step) : Prop :=
  ∃ i task, Executes t i task (.deleteVideo videoId)

/-- While an execution renders the video, its row exists. -/
def RendersRow (videoId : String) (s : State) : Prop :=
  ∀ t ∈ s.threads, ∀ job, job.data.videoId = videoId → stageOf t = .worker job .working →
    s.state.HasRow videoId

section System

variable {config : StorageConfig} {s s' : State} {videoId : String}

theorem hasRow_step {a : Step} (hstep : (system config).step s a = some s')
    (hs : Conforming s) (hremove : ¬Removes videoId ⟨s, a, s'⟩)
    (hrow : s.state.HasRow videoId) : s'.state.HasRow videoId := by
  obtain ⟨row, hrow⟩ := hrow
  cases a with
  | invoke task =>
      obtain rfl := Option.some.inj hstep
      exact ⟨row, hrow⟩
  | crash i =>
      obtain ⟨t, -, rfl⟩ := (system config).step_crash_cases hstep
      exact ⟨row, hrow⟩
  | env l =>
      obtain ⟨w, tasks, henv, rfl⟩ := (system config).step_env_cases hstep
      exact ⟨row, (envStep_frame henv).1 ▸ hrow⟩
  | call i f =>
      obtain ⟨t, t', c, r, h⟩ := answered_of_step hstep hs
      rcases World.exec_effect h.exec with ⟨-, hw, -⟩ | ⟨hf, b, x, hx, -⟩
      · exact ⟨row, hw ▸ hrow⟩
      by_cases hdisturbs : c.Disturbs videoId
      · cases c with
        | updateVideo id expected fields =>
            obtain rfl : id = videoId := hdisturbs
            rcases World.row_of_update hx hrow with ⟨-, -, hfind⟩ | ⟨-, hfind⟩
            · exact ⟨_, hfind⟩
            · exact ⟨_, hfind⟩
        | deleteVideo id =>
            obtain rfl : id = videoId := hdisturbs
            exact absurd ⟨i, t.task, f, t, rfl, hf, h.get, rfl, h.pending⟩ hremove
        | emit event => exact ⟨row, (World.answer_frame hx).1 rfl ▸ hrow⟩
        | _ => exact hdisturbs.elim
      · exact ⟨row, World.row_of_answer hx hdisturbs hrow⟩

theorem working_cases {i : ℕ} {f : Fate} {t t' : Worker} {c : Call} {r : Except Thrown c.Reply}
    {job : Job} (h : Answered config s s' i f t t' c r)
    (hstage : stageOf t' = .worker job .working) :
    stageOf t = .worker job .working ∨ s.state.HasRow job.data.videoId := by
  obtain ⟨phase, hphase, hallows, hnext⟩ := worker_of_answered h hstage
  cases hallows with
  | start status hallowed =>
      cases r with
      | error e => cases hnext
      | ok n =>
          obtain ⟨-, b, hx⟩ := World.exec_ok h.exec
          obtain ⟨-, hn⟩ := World.answer_updateVideo hx
          have hne : n ≠ 0 := by
            intro hzero
            simp [Phase.next, hzero] at hnext
          obtain ⟨row, hrow, -⟩ := (World.updateVideo_affected _ _ _ _).mp (hn ▸ hne)
          exact .inr ⟨row, hrow⟩
  | mark phase hworks hfinal message =>
      rw [next_mark hworks] at hnext
      cases r <;> cases hnext
  | quiet _ _ => exact .inl hphase
  | progress u => exact .inl hphase
  | complete url thumbnail hurl => exact .inl hphase
  | load => rcases r with e | _ | video <;> cases hnext
  | _ => cases r <;> cases hnext

theorem uploader {stage : Stage} {key contentType : String} {body : Bytes}
    (h : StageAllows stage (.s3Put key body contentType)) (hmanaged : stage.task.Managed) :
    ∃ job, stage.task = .process job ∧ stage = .worker job .working := by
  cases h with
  | worker h => cases h; exact ⟨_, rfl, rfl⟩
  | creating h => cases h
  | retrying h => cases h
  | listening h => cases h
  | removing h => cases h
  | service call => exact hmanaged.elim

theorem not_s3Delete {stage : Stage} {c : Call} (h : StageAllows stage c)
    (hmanaged : stage.task.Managed) (key : String) : c ≠ .s3Delete key := by
  rintro rfl
  cases h with
  | worker h => cases h with | quiet _ hquiet => cases hquiet
  | creating h => cases h
  | retrying h => cases h
  | listening h => cases h
  | removing h => cases h
  | service call => exact hmanaged.elim

theorem envStep_bucket {w w' : World} {threads : List Worker} {l : EnvStep}
    {tasks : List Task} (h : envStep w threads l = some (w', tasks)) : w'.bucket = w.bucket := by
  cases l <;> simp only [envStep] at h <;> (repeat' split at h) <;>
    simp only [reduceCtorEq, Option.some.injEq, Prod.mk.injEq] at h <;>
    obtain ⟨rfl, -⟩ := h <;> simp [World.setJob, World.setRedis]

theorem bucket_step {a : Step} (hstep : (system config).step s a = some s')
    (hs : Conforming s) (hmanaged : ∀ t ∈ s.threads, t.task.Managed) {key : String}
    (hkey : s.state.bucket key ≠ none) : s'.state.bucket key ≠ none := by
  cases a with
  | invoke task =>
      obtain rfl := Option.some.inj hstep
      exact hkey
  | crash i =>
      obtain ⟨t, -, rfl⟩ := (system config).step_crash_cases hstep
      exact hkey
  | env l =>
      obtain ⟨w, tasks, henv, rfl⟩ := (system config).step_env_cases hstep
      exact (envStep_bucket henv).symm ▸ hkey
  | call i f =>
      obtain ⟨t, t', c, r, h⟩ := answered_of_step hstep hs
      have htask := hmanaged t (List.mem_of_getElem? h.get)
      rw [← task_stageOf t] at htask
      rcases World.exec_effect h.exec with ⟨-, hw, -⟩ | ⟨-, b, x, hx, -⟩
      · exact hw.symm ▸ hkey
      · exact World.bucket_of_answer hx (not_s3Delete (allows_of_answered h) htask key) hkey

theorem outputKey_injective {id id' : String} (h : outputKey id = outputKey id') : id = id' := by
  have hlist := congrArg String.toList h
  apply String.toList_inj.mp
  simpa [outputKey, String.toList_append] using hlist

theorem rendersRow_step {a : Step} (hstep : (system config).step s a = some s')
    (hs : Conforming s) (hremove : ¬Removes videoId ⟨s, a, s'⟩)
    (hrenders : RendersRow videoId s) : RendersRow videoId s' := by
  intro t' ht' job hid hstage
  apply hasRow_step hstep hs hremove
  obtain ⟨j, hj⟩ := List.getElem?_of_mem ht'
  rcases thread_cases hstep hs hj with ⟨t, hget, -, -, -, hsame, -⟩ | ⟨-, task, rfl⟩ |
    ⟨f, t, c, r, -, h⟩
  · exact hrenders t (List.mem_of_getElem? hget) job hid (hsame.symm.trans hstage)
  · cases fresh_of_start hstage
  · rcases working_cases h hstage with hold | hrow
    · exact hrenders t (List.mem_of_getElem? h.get) job hid hold
    · exact hid ▸ hrow

/-- What is known of the threads in every configuration of a run: they conform to their
stages, and executions upload under their own keys. -/
structure Filing (s : State) : Prop where
  conforming : Conforming s
  managed : ∀ t ∈ s.threads, t.task.Managed
  calls : ∀ t ∈ s.threads, t.prog.Calls t.task.UploadsOwn

theorem filing_step {a : Step} (hstep : (system config).step s a = some s')
    (hinvoke : a.InvokesOnly Task.Managed) (hs : Filing s) : Filing s' where
  conforming := step_conforming hstep hs.conforming
  managed := step_tasks hstep hinvoke (fun _ ↦ trivial) (fun _ ↦ trivial) hs.managed
  calls := Machine.step_calls (Task.calls_body config) hstep hs.calls

theorem filing_init : Filing ⟨World.empty, []⟩ where
  conforming := by simp [Conforming]
  managed := by simp
  calls := by simp

theorem filing_run {ts : List (Transition State Step)}
    (hrun : Run (system config).step ⟨World.empty, []⟩ ts s)
    (hinvoke : ∀ t ∈ ts, t.act.InvokesOnly Task.Managed) : Filing s :=
  hrun.invariant Filing filing_init fun t ht hstep ↦ filing_step hstep (hinvoke t ht)

theorem stored_cases {a : Step} (hstep : (system config).step s a = some s') (hs : Filing s)
    {key : String} (hkey : s'.state.bucket key ≠ none) :
    s.state.bucket key ≠ none ∨ ∃ videoId, key = outputKey videoId ∧
      Uploads videoId ⟨s, a, s'⟩ ∧
      ∃ t ∈ s.threads, ∃ job, job.data.videoId = videoId ∧ stageOf t = .worker job .working := by
  cases a with
  | invoke task =>
      obtain rfl := Option.some.inj hstep
      exact .inl hkey
  | crash i =>
      obtain ⟨t, -, rfl⟩ := (system config).step_crash_cases hstep
      exact .inl hkey
  | env l =>
      obtain ⟨w, tasks, henv, rfl⟩ := (system config).step_env_cases hstep
      exact .inl (envStep_bucket henv ▸ hkey)
  | call i f =>
      obtain ⟨t, t', c, r, h⟩ := answered_of_step hstep hs.conforming
      rcases World.exec_effect h.exec with ⟨-, hw, -⟩ | ⟨hf, b, x, hx, -⟩
      · exact .inl (hw ▸ hkey)
      rcases World.answer_bucket hx hkey with hold | ⟨body, contentType, rfl⟩
      · exact .inl hold
      right
      have hmem := List.mem_of_getElem? h.get
      obtain ⟨job, htask, hworking⟩ := uploader (allows_of_answered h)
        (by rw [task_stageOf]; exact hs.managed t hmem)
      rw [task_stageOf] at htask
      obtain ⟨next, hprog⟩ := Thread.pending?_eq_some_iff.mp h.pending
      have hcalls := hs.calls t hmem
      rw [hprog] at hcalls
      have hown : key = outputKey job.data.videoId := hcalls.1 job htask
      subst hown
      exact ⟨job.data.videoId, rfl, ⟨i, t.task, body, contentType, f, t, rfl, hf, h.get, rfl,
        h.pending⟩, t, hmem, job, rfl, hworking⟩

theorem uploaded_of_stored {ts : List (Transition State Step)}
    (hrun : Run (system config).step ⟨World.empty, []⟩ ts s)
    (hinvoke : ∀ t ∈ ts, t.act.InvokesOnly Task.Managed) {key : String}
    (hkey : s.state.bucket key ≠ none) :
    ∃ videoId, key = outputKey videoId ∧ ∃ t ∈ ts, Uploads videoId t := by
  induction hrun with
  | nil => exact absurd rfl hkey
  | @snoc ts s s' a head last ih =>
      have hbefore : ∀ t ∈ ts, t.act.InvokesOnly Task.Managed :=
        fun t ht ↦ hinvoke t (List.mem_append_left _ ht)
      have hfiling : Filing s := filing_run head hbefore
      rcases stored_cases last hfiling hkey with hold | ⟨videoId, hvideo, huploads, -⟩
      · obtain ⟨videoId, hvideo, t, ht, huploads⟩ := ih hbefore hold
        exact ⟨videoId, hvideo, t, List.mem_append_left _ ht, huploads⟩
      · exact ⟨videoId, hvideo, _, List.mem_append_right _ (List.mem_singleton_self _), huploads⟩

theorem hasRow_of_stored {ts : List (Transition State Step)}
    (hrun : Run (system config).step ⟨World.empty, []⟩ ts s)
    (hinvoke : ∀ t ∈ ts, t.act.InvokesOnly Task.Managed)
    (hremove : ∀ t ∈ ts, ¬Removes videoId t)
    (hkey : s.state.bucket (outputKey videoId) ≠ none) : s.state.HasRow videoId := by
  have hrows : Filing s ∧ RendersRow videoId s ∧
      (s.state.bucket (outputKey videoId) ≠ none → s.state.HasRow videoId) := by
    apply hrun.invariant (fun s ↦ Filing s ∧ RendersRow videoId s ∧
      (s.state.bucket (outputKey videoId) ≠ none → s.state.HasRow videoId))
    · exact ⟨filing_init, by simp [RendersRow], fun h ↦ absurd rfl h⟩
    · rintro t ht hstep ⟨hfiling, hrenders, hstored⟩
      have hconf := hfiling.conforming
      refine ⟨filing_step hstep (hinvoke t ht) hfiling,
        rendersRow_step hstep hconf (hremove t ht) hrenders, fun hkey ↦ ?_⟩
      apply hasRow_step hstep hconf (hremove t ht)
      rcases stored_cases hstep hfiling hkey with hold | ⟨id, hid, -, u, hu, job, hjob, hworking⟩
      · exact hstored hold
      · obtain rfl := outputKey_injective hid
        exact hrenders u hu job hjob hworking
  exact hrows.2.2 hkey

/-- When no video is both removed and uploaded, in whichever order, every object in the
bucket belongs to a video, also while executions and requests are under way. -/
theorem files_belong {ts : List (Transition State Step)}
    (hrun : Run (system config).step ⟨World.empty, []⟩ ts s)
    (hinvoke : ∀ t ∈ ts, t.act.InvokesOnly Task.Managed)
    (hapart : ∀ videoId, ∀ t ∈ ts, ∀ u ∈ ts, Removes videoId t → ¬Uploads videoId u) :
    s.state.FilesBelong := by
  intro key hkey
  obtain ⟨videoId, rfl, u, hu, huploads⟩ := uploaded_of_stored hrun hinvoke hkey
  have hremove : ∀ t ∈ ts, ¬Removes videoId t :=
    fun t ht hremoves ↦ hapart videoId t ht u hu hremoves huploads
  exact ⟨videoId, rfl, hasRow_of_stored hrun hinvoke hremove hkey⟩

end System

/-! ## Two runs -/

/-- The execution of thread `i` renders a video that the provider did not store, uploads
it and completes the row. -/
def uploadActs (i : ℕ) (url : String) : List Step :=
  List.replicate 6 (okStep i) ++ [.call i (.ok (.text none))] ++
    List.replicate 4 (okStep i) ++
    [.call i (.ok (.generation { jobId := "job", status := .processing }))] ++
    List.replicate 5 (okStep i) ++
    [.call i (.ok (.generation { jobId := "job", status := .completed, videoUrl := some url }))] ++
    List.replicate 5 (okStep i) ++ [.call i (.ok (.bytes []))] ++ List.replicate 6 (okStep i)

def storedActs : List Step :=
  createActs 0 "other" ++ [.invoke (.remove "other" "user"), okStep 1, okStep 1] ++
    createActs 2 "video" ++ [.env (.take 2)] ++ uploadActs 3 "url"

def Transition.removed? (t : Transition State Step) : Option String :=
  match t.call? with
  | some (.deleteVideo id) => some id
  | _ => none

def Transition.uploaded? (t : Transition State Step) : Option String :=
  match t.call? with
  | some (.s3Put key _ _) => some key
  | _ => none

theorem files_belong_stored : ∃ (ts : List (Transition State Step)) (s : State),
    Run (system ⟨"bucket", none, "region"⟩).step ⟨World.empty, []⟩ ts s ∧
      s.state.bucket (outputKey "video") ≠ none ∧ s.state.FilesBelong := by
  obtain ⟨ts, s, hrun, hacts, hobs⟩ := Run.exists_of_follow
    (system ⟨"bucket", none, "region"⟩).step ⟨World.empty, []⟩ storedActs
    (fun p ↦ decide (p.2.state.bucket (outputKey "video") ≠ none ∧
      (∀ t ∈ p.1, t.removed?.all (· = "other") = true) ∧
      ∀ t ∈ p.1, t.uploaded?.all (· = outputKey "video") = true)) true (by decide +kernel)
  obtain ⟨hstored, hremoved, huploaded⟩ := of_decide_eq_true hobs
  have hinvoke : ∀ a ∈ storedActs, a.InvokesOnly Task.Managed := by decide
  refine ⟨ts, s, hrun, hstored, files_belong hrun
    (fun t ht ↦ hinvoke _ (hacts ▸ List.mem_map_of_mem ht)) ?_⟩
  rintro videoId t ht u hu ⟨i, task, hremoves⟩ ⟨j, task', body, contentType, huploads⟩
  have hother := hremoved t ht
  have hvideo := huploaded u hu
  simp only [Transition.removed?, call?_of_executes hremoves, Option.all_some,
    decide_eq_true_eq] at hother
  simp only [Transition.uploaded?, call?_of_executes huploads, Option.all_some,
    decide_eq_true_eq] at hvideo
  have hsame := outputKey_injective hvideo
  rw [hother] at hsame
  exact absurd hsame (by decide)

/-- The owner removes the video after its file was stored. -/
def orphanedActs : List Step :=
  createActs 0 "video" ++ [.env (.take 1)] ++ uploadActs 1 "url" ++ [.env (.settle 1),
    .invoke (.remove "video" "user"), okStep 2, okStep 2]

def Task.CreatesOrRemoves : Task → Prop
  | .createAndQueue _ _ => True
  | .remove _ _ => True
  | _ => False

instance : DecidablePred Task.CreatesOrRemoves
  | .process _ => isFalse id
  | .createAndQueue _ _ => isTrue trivial
  | .retryFailedJob _ => isFalse id
  | .onVideoFailed _ => isFalse id
  | .remove _ _ => isTrue trivial
  | .service _ => isFalse id

def Succeeds : Step → Prop
  | .call _ (.rejected _) => False
  | .call _ (.lost _ _) => False
  | _ => True

instance : DecidablePred Succeeds
  | .invoke _ => isTrue trivial
  | .call _ (.ok _) => isTrue trivial
  | .call _ (.rejected _) => isFalse id
  | .call _ (.lost _ _) => isFalse id
  | .crash _ => isTrue trivial
  | .env _ => isTrue trivial

/-- All requests and executions have ended, no call failed, and the file of the removed
video is still in the bucket. -/
theorem removed_leaves_file : ∃ (ts : List (Transition State Step)) (s : State),
    Run (system ⟨"bucket", none, "region"⟩).step ⟨World.empty, []⟩ ts s ∧
      (∀ t ∈ ts, t.act.InvokesOnly Task.CreatesOrRemoves ∧ Succeeds t.act) ∧
      (∀ t ∈ s.threads, t.Ended) ∧ s.state.bucket (outputKey "video") ≠ none ∧
      ¬s.state.FilesBelong := by
  obtain ⟨ts, s, hrun, hacts, hobs⟩ := Run.exists_of_follow
    (system ⟨"bucket", none, "region"⟩).step ⟨World.empty, []⟩ orphanedActs
    (fun p ↦ decide ((∀ t ∈ p.2.threads, t.Ended) ∧
      p.2.state.bucket (outputKey "video") ≠ none ∧ p.2.state.videos.find? "video" = none))
    true (by decide +kernel)
  obtain ⟨hended, hstored, hmissing⟩ := of_decide_eq_true hobs
  have hstep : ∀ a ∈ orphanedActs, a.InvokesOnly Task.CreatesOrRemoves ∧ Succeeds a := by
    decide
  refine ⟨ts, s, hrun, fun t ht ↦ hstep _ (hacts ▸ List.mem_map_of_mem ht), hended, hstored, ?_⟩
  intro hbelong
  obtain ⟨videoId, hkey, row, hrow⟩ := hbelong _ hstored
  rw [← outputKey_injective hkey, hmissing] at hrow
  cases hrow

end VideoGen
