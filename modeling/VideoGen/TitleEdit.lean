import VideoGen.Delivery
import VideoGen.Lib.Erasure
import VideoGen.Ownership

/-!
# Editing a title

`update` reads the row, sets the title in memory and saves the entity; saving
reads the row again and writes every column in which the entity differs.  As
long as the second read finds the row as the first one did, the edit is seen
in the title and the update date only: the same schedule without the calls
of the edit leads to the same world otherwise.
-/

namespace VideoGen

/-! ## What an edit may change -/

def Video.untitled (r : Video) : Video := { r with title := "", updatedAt := 0 }

theorem Video.untitled_id (r : Video) : r.untitled.id = r.id := rfl

theorem Video.untitled_untitled (r : Video) : r.untitled.untitled = r.untitled := rfl

theorem Video.untitled_assign (r : Video) (fields : VideoFields) (now : ℕ) :
    (r.untitled.assign fields now).untitled = (r.assign fields now).untitled := rfl

def World.untitled (id : String) (w : World) : World :=
  { w with videos := w.videos.modify id Video.untitled Video.untitled_id }

def untitledReply : (c : interface.Call) → interface.Reply c → interface.Reply c
  | .selectVideo _, x => Option.map Video.untitled x
  | _, x => x

theorem World.untitled_untitled (w : World) (id : String) :
    (w.untitled id).untitled id = w.untitled id := by
  unfold untitled
  simp only [Table.modify_idem id Video.untitled Video.untitled_id Video.untitled_untitled]

theorem World.find?_untitled (w : World) (id k : String) :
    ((w.untitled id).videos.find? k).map Video.untitled =
      (w.videos.find? k).map Video.untitled := by
  unfold untitled
  rw [Table.find?_modify]
  by_cases hk : k = id
  · rw [if_pos hk, Option.map_map]
    rfl
  · rw [if_neg hk]

theorem World.statusOf_of_untitled {w w' : World} {id : String}
    (h : w.untitled id = w'.untitled id) : w.statusOf id = w'.statusOf id := by
  have hrows := congrArg (fun w : World ↦ (w.videos.find? id).map Video.status) h
  unfold untitled at hrows
  simp only [Table.find?_modify, if_true, Option.map_map] at hrows
  exact hrows

theorem World.updateVideo_untitled (w : World) (id k : String) (expected : Option VideoStatus)
    (fields : VideoFields) :
    ((w.untitled id).updateVideo k expected fields).1.untitled id =
        (w.updateVideo k expected fields).1.untitled id ∧
      ((w.untitled id).updateVideo k expected fields).2 = (w.updateVideo k expected fields).2 := by
  have hfind := w.find?_untitled id k
  unfold updateVideo
  cases hr : w.videos.find? k with
  | none =>
      have hr' : (w.untitled id).videos.find? k = none := by simpa [hr] using hfind
      simp only [hr']
      exact ⟨w.untitled_untitled id, trivial⟩
  | some r =>
      obtain ⟨r', hr', heq⟩ : ∃ r', (w.untitled id).videos.find? k = some r' ∧
          r'.untitled = r.untitled := by simpa [hr] using hfind
      have hstatus : r'.untitled.status = r.untitled.status := congrArg Video.status heq
      change r'.status = r.status at hstatus
      simp only [hr', hstatus]
      by_cases hguard : expected.all (· = r.status) = true
      · simp only [hguard, if_true]
        refine ⟨?_, trivial⟩
        unfold untitled
        simp only
        congr 1
        exact Table.modify_hides id Video.untitled Video.untitled_id Video.untitled_untitled _
          (fun r ↦ r.untitled_assign fields w.now) w.videos k
      · simp only [hguard, Bool.false_eq_true, if_false]
        exact ⟨w.untitled_untitled id, trivial⟩

theorem World.answer_untitled (w : World) (id : String) (c : Call) (a : Answer) :
    ((w.untitled id).answer c a).map (fun p ↦ (p.1.untitled id, untitledReply c p.2)) =
      (w.answer c a).map fun p ↦ (p.1.untitled id, untitledReply c p.2) := by
  have hinsert (row x : Video) : ((w.untitled id).videos.insert? row).map
      (fun videos ↦ (({ w with videos := videos } : World).untitled id, x)) =
        (w.videos.insert? row).map
          fun videos ↦ (({ w with videos := videos } : World).untitled id, x) := by
    have h := Table.modify_insert? id Video.untitled Video.untitled_id
      Video.untitled_untitled w.videos row
    have hmap := congrArg (Option.map fun videos ↦ (({ w with videos := videos } : World), x)) h
    rw [Option.map_map, Option.map_map] at hmap
    exact hmap
  cases c with
  | updateVideo k expected fields =>
      cases a with
      | unit =>
          obtain ⟨hworld, hrows⟩ := w.updateVideo_untitled id k expected fields
          exact congrArg some (Prod.ext hworld hrows)
      | _ => rfl
  | insertVideo k fields =>
      cases k <;> cases a <;> try rfl
      all_goals
        simp only [answer, Option.map_map]
        exact hinsert _ _
  | deleteVideo k =>
      cases a with
      | unit =>
          simp only [answer, Option.map_some, Option.some.injEq, Prod.mk.injEq, and_true]
          unfold untitled
          simp only [Table.modify_erase id Video.untitled Video.untitled_id
            Video.untitled_untitled]
      | _ => rfl
  | selectVideo k =>
      cases a with
      | unit =>
          exact congrArg some (Prod.ext (w.untitled_untitled id) (w.find?_untitled id k))
      | _ => rfl
  | insertFailedJob fields =>
      cases a with
      | uuid k =>
          simp only [answer, Option.map_map]
          apply congrFun (congrArg Option.map _)
          funext failedJobs
          exact Prod.ext (congrArg (fun w : World ↦ { w with failedJobs := failedJobs })
            (w.untitled_untitled id)) rfl
      | _ => rfl
  | _ =>
      cases a <;> first
        | rfl
        | simp [answer, untitled, setRedis, setBucket, markRetried, untitledReply,
            Table.modify_idem id Video.untitled Video.untitled_id Video.untitled_untitled]

theorem World.exec_untitled {w u w' : World} {id : String} {c : Call} {f : Fate}
    {r : Except Thrown c.Reply} (hwu : w.untitled id = u.untitled id)
    (h : w.exec c f = some (w', r)) : ∃ u' r', u.exec c f = some (u', r') ∧
      w'.untitled id = u'.untitled id ∧
      r.map (untitledReply c) = r'.map (untitledReply c) := by
  have hanswer {a : Answer} {x : c.Reply} (hx : w.answer c a = some (w', x)) :
      ∃ u' x', u.answer c a = some (u', x') ∧ w'.untitled id = u'.untitled id ∧
        untitledReply c x = untitledReply c x' := by
    have heq := (w.answer_untitled id c a).symm.trans (hwu ▸ u.answer_untitled id c a)
    rw [hx] at heq
    obtain ⟨⟨u', x'⟩, hx', hsame⟩ := Option.map_eq_some_iff.mp heq.symm
    obtain ⟨hworld, hreply⟩ := Prod.mk.inj hsame
    exact ⟨u', x', hx', hworld.symm, hreply.symm⟩
  rcases exec_cases h with ⟨a, x, rfl, hx, rfl⟩ | ⟨e, rfl, hc, rfl, rfl⟩ |
    ⟨a, e, x, rfl, hc, hx, rfl⟩
  · obtain ⟨u', x', hx', hworld, hreply⟩ := hanswer hx
    exact ⟨u', .ok x', by simp [exec, hx'], hworld, congrArg Except.ok hreply⟩
  · exact ⟨u, .error e, by simp [exec, hc], hwu, rfl⟩
  · obtain ⟨u', x', hx', hworld, -⟩ := hanswer hx
    exact ⟨u', .error e, by simp [exec, hc, hx'], hworld, rfl⟩

/-! ## Steps of the environment -/

theorem envStep_congr {w : World} {threads threads' : List Worker} {l : EnvStep}
    (hlength : threads.length = threads'.length)
    (hsame : ∀ (id : ℕ) (q : QueuedJob) (i : ℕ), w.queue.find? id = some q →
      q.state = .active i → ∀ t, threads[i]? = some t →
        ∃ t', threads'[i]? = some t' ∧ t'.prog = t.prog ∧ t'.crashed = t.crashed)
    {w' : World} {tasks : List Task} (h : envStep w threads l = some (w', tasks)) :
    envStep w threads' l = some (w', tasks) := by
  cases l with
  | take jobId => simpa only [envStep, hlength] using h
  | settle jobId =>
      simp only [envStep] at h ⊢
      split at h
      · rename_i q hq
        split at h
        · rename_i i hstate
          split at h
          · rename_i t hget
            obtain ⟨t', hget', hprog, hcrashed⟩ := hsame jobId q i hq hstate t hget
            simpa only [hget', hprog, hcrashed] using h
          · cases h
        · cases h
      · cases h
  | stall jobId =>
      simp only [envStep] at h ⊢
      split at h
      · rename_i q hq
        split at h
        · rename_i i hstate
          split at h
          · rename_i t hget
            obtain ⟨t', hget', hprog, hcrashed⟩ := hsame jobId q i hq hstate t hget
            simpa only [hget', hcrashed] using h
          · cases h
        · cases h
      · cases h
  | _ => exact h

theorem envStep_untitled (w : World) (id : String) (threads : List Worker) (l : EnvStep) :
    envStep (w.untitled id) threads l =
      (envStep w threads l).map fun p ↦ (p.1.untitled id, p.2) := by
  cases l <;> simp only [envStep, World.untitled] <;> (repeat' split) <;>
    simp_all [World.setRedis, World.setJob]

/-! ## Programs that do not look at the title -/

section Blind

variable {α : Type}

/-- The program does the same whatever the titles are that it reads. -/
abbrev Untitled (p : Prog α) : Prop := p.Blind untitledReply

theorem untitled_ask {c : Call} (hc : ∀ x, untitledReply c x = x) : Untitled (ask c) :=
  Program.blind_perform hc

theorem Video.retitled_of_untitled {v v' : Video} (h : v.untitled = v'.untitled) :
    v' = { v with title := v'.title, updatedAt := v'.updatedAt } := by
  have hback := congrArg (fun r : Video ↦ { r with title := v'.title, updatedAt := v'.updatedAt }) h
  exact hback.symm

theorem untitled_eq_of_map {x y : Option Video}
    (h : x.map Video.untitled = y.map Video.untitled) :
    (x = none ∧ y = none) ∨ ∃ v v', x = some v ∧ y = some v' ∧ v.untitled = v'.untitled := by
  cases x with
  | none =>
      cases y with
      | none => exact .inl ⟨rfl, rfl⟩
      | some v' => cases h
  | some v =>
      cases y with
      | none => cases h
      | some v' => exact .inr ⟨v, v', rfl, rfl, Option.some.inj h⟩

theorem untitled_selectVideo_bind {id : String} {f : Option Video → Prog α}
    (hsame : ∀ v v', v.untitled = v'.untitled → f (some v) = f (some v'))
    (hf : ∀ x, Untitled (f x)) : Untitled (selectVideo id >>= f) := by
  refine Program.blind_perform_bind ?_ hf
  intro x y hxy
  rcases untitled_eq_of_map hxy with ⟨rfl, rfl⟩ | ⟨v, v', rfl, rfl, h⟩
  · rfl
  · exact hsame v v' h

theorem untitled_findById_bind {id : String} {f : Video → Prog α}
    (hsame : ∀ v v', v.untitled = v'.untitled → f v = f v') (hf : ∀ v, Untitled (f v)) :
    Untitled (findById id >>= f) := by
  unfold findById
  rw [Program.bind_assoc]
  apply untitled_selectVideo_bind hsame
  intro x
  cases x with
  | none => trivial
  | some v => exact hf v

theorem untitled_findOneForUser_bind {id userId : String} {f : Video → Prog α}
    (hsame : ∀ v v', v.untitled = v'.untitled → f v = f v') (hf : ∀ v, Untitled (f v)) :
    Untitled (findOneForUser id userId >>= f) := by
  unfold findOneForUser
  rw [Program.bind_assoc]
  apply untitled_selectVideo_bind
  · intro v v' h
    have hsame' := hsame v v' h
    rw [Video.retitled_of_untitled h] at hsame' ⊢
    simp only
    split
    · exact hsame'
    · rfl
  · intro x
    cases x with
    | none => trivial
    | some v =>
        simp only
        split
        · exact hf v
        · trivial

theorem untitled_writeCache (videoId : String) (status : VideoStatus)
    (progress message : JsValue) : Untitled (writeCache videoId status progress message) :=
  Program.blind_bind (untitled_ask fun _ ↦ rfl) fun _ ↦ untitled_ask fun _ ↦ rfl

theorem untitled_transitionStatus (videoId : String) (expectedStatus newStatus : VideoStatus)
    (extra : TransitionExtra) :
    Untitled (transitionStatus videoId expectedStatus newStatus extra) := by
  unfold transitionStatus
  split
  · refine Program.blind_bind (untitled_ask fun _ ↦ rfl) fun affected ↦ ?_
    split
    · trivial
    · exact Program.blind_bind (untitled_writeCache ..) fun _ ↦ trivial
  · trivial

theorem untitled_updateProgress (videoId : String) (percent : ℤ) (message : String)
    (additionalMeta : JsObject) :
    Untitled (updateProgress videoId percent message additionalMeta) :=
  Program.blind_bind (untitled_ask fun _ ↦ rfl) fun _ ↦ untitled_writeCache ..

theorem untitled_evictCache (videoId : String) : Untitled (evictCache videoId) :=
  Program.blind_catchWith (untitled_ask fun _ ↦ rfl) fun _ ↦ trivial

theorem untitled_markFailed (videoId errorMessage : String) :
    Untitled (markFailed videoId errorMessage) :=
  Program.blind_bind (untitled_ask fun _ ↦ rfl) fun _ ↦ untitled_evictCache videoId

theorem untitled_parseSnapshot (raw : Option CachedText) : Untitled (parseSnapshot raw) := by
  unfold parseSnapshot
  split
  · trivial
  · trivial
  · split <;> trivial

theorem untitled_loadFromDb (videoId : String) : Untitled (loadFromDb videoId) := by
  refine Program.blind_catchWith (untitled_selectVideo_bind ?_ fun x ↦ ?_) fun _ ↦ trivial
  · intro v v' h
    rw [Video.retitled_of_untitled h]
    rfl
  · cases x with
    | none => trivial
    | some v =>
        exact Program.blind_bind (untitled_ask fun _ ↦ rfl) fun _ ↦
          Program.blind_bind (untitled_ask fun _ ↦ rfl) fun _ ↦ trivial

theorem untitled_getCachedStatus (videoId : String) : Untitled (getCachedStatus videoId) := by
  refine Program.blind_bind (Program.blind_catchWith
    (Program.blind_bind (untitled_ask fun _ ↦ rfl) untitled_parseSnapshot)
    fun _ ↦ trivial) fun hit ↦ ?_
  cases hit with
  | none => exact untitled_loadFromDb videoId
  | some snapshot => trivial

theorem untitled_withRetryFrom {operation : Prog α} (hop : Untitled operation)
    (maxAttempts attempt : ℕ) (lastError : Thrown) (remaining : ℕ) :
    Untitled (withRetryFrom operation maxAttempts attempt lastError remaining) := by
  induction remaining generalizing attempt lastError with
  | zero => trivial
  | succ remaining ih =>
      refine Program.blind_bind (Program.blind_attempt hop) fun r ↦ ?_
      cases r with
      | ok value => trivial
      | error error =>
          simp only
          split
          · rw [readMessage_then]
            exact Program.blind_bind (untitled_ask (c := .setTimeout _) fun _ ↦ rfl)
              fun _ ↦ ih (attempt + 1) error
          · exact ih (attempt + 1) error

theorem untitled_uploadFromUrl (config : StorageConfig) (sourceUrl key : String) :
    Untitled (uploadFromUrl config sourceUrl key) := by
  apply Program.blind_bind
  · exact Program.blind_catchWith (untitled_ask fun _ ↦ rfl) fun _ ↦ trivial
  · intro buffer
    apply Program.blind_catchWith
    · exact Program.blind_bind (untitled_withRetryFrom (untitled_ask fun _ ↦ rfl) _ _ _ _)
        fun _ ↦ trivial
    · exact fun _ ↦ trivial

section Generation

variable (config : StorageConfig) (job : Job)

theorem untitled_finishGeneration (result : GenerateVideoResult) (videoUrl : String) :
    Untitled (finishGeneration config job result videoUrl) := by
  apply Program.blind_bind
  · unfold storeVideo
    split
    · trivial
    · exact untitled_uploadFromUrl config videoUrl _
  · intro storedUrl
    refine Program.blind_bind (untitled_transitionStatus ..) fun _ ↦ ?_
    exact Program.blind_bind (untitled_ask fun _ ↦ rfl) fun _ ↦ untitled_ask fun _ ↦ rfl

theorem untitled_pollLoop (generationJobId : String) (status : GenerationStatus)
    (pollAttempts remaining : ℕ) :
    Untitled (pollLoop config job generationJobId status pollAttempts remaining) := by
  induction remaining generalizing status pollAttempts with
  | zero => trivial
  | succ remaining ih =>
      unfold pollLoop
      split
      · refine Program.blind_bind (untitled_ask fun _ ↦ rfl) fun _ ↦ ?_
        refine Program.blind_bind (untitled_ask fun _ ↦ rfl) fun result ↦ ?_
        refine Program.blind_bind (untitled_updateProgress ..) fun _ ↦ ?_
        refine Program.blind_bind (untitled_ask fun _ ↦ rfl) fun _ ↦ ?_
        refine Program.blind_bind (untitled_ask fun _ ↦ rfl) fun _ ↦ ?_
        split
        · exact untitled_finishGeneration config job result _
        · exact ih result.status (pollAttempts + 1)
      · trivial

theorem untitled_generate (video : Video) : Untitled (generate config job video) := by
  refine Program.blind_bind (untitled_ask fun _ ↦ rfl) fun _ ↦ ?_
  refine Program.blind_bind (untitled_ask fun _ ↦ rfl) fun _ ↦ ?_
  refine Program.blind_bind ?_ fun enhancedPrompt ↦ ?_
  · exact Program.blind_catchWith (Program.blind_bind (untitled_ask fun _ ↦ rfl)
      fun _ ↦ trivial) fun _ ↦ trivial
  · refine Program.blind_bind (untitled_updateProgress ..) fun _ ↦ ?_
    refine Program.blind_bind (untitled_ask fun _ ↦ rfl) fun _ ↦ ?_
    refine Program.blind_bind (untitled_ask fun _ ↦ rfl) fun result ↦ ?_
    refine Program.blind_bind (untitled_updateProgress ..) fun _ ↦ ?_
    refine Program.blind_bind (untitled_ask fun _ ↦ rfl) fun _ ↦ ?_
    exact untitled_pollLoop config job _ _ _ _

theorem untitled_attemptGeneration : Untitled (attemptGeneration config job) := by
  apply untitled_findById_bind
  · intro v v' h
    -- The execution reads the status, the prompt and the rendering parameters only.
    rw [Video.retitled_of_untitled h]
    rfl
  · intro v
    refine Program.blind_bind (untitled_transitionStatus ..) fun started ↦ ?_
    split
    · exact untitled_generate config job v
    · trivial

theorem untitled_process : Untitled (process config job) := by
  unfold process
  split
  · apply Program.blind_catchWith (untitled_attemptGeneration config job)
    intro error
    simp only [onGenerationError]
    split
    · refine Program.blind_bind (untitled_markFailed ..) fun _ ↦ ?_
      exact Program.blind_bind (untitled_ask fun _ ↦ rfl) fun _ ↦ trivial
    · trivial
  · trivial

end Generation

theorem untitled_createAndQueue (userId : String) (dto : CreateVideoDto) :
    Untitled (createAndQueue userId dto) := by
  refine Program.blind_bind (untitled_ask fun _ ↦ rfl) fun saved ↦ ?_
  refine Program.blind_bind (untitled_ask fun _ ↦ rfl) fun jobId ↦ ?_
  refine Program.blind_bind (untitled_ask fun _ ↦ rfl) fun _ ↦ ?_
  exact Program.blind_bind (untitled_ask fun _ ↦ rfl) fun _ ↦ trivial

theorem untitled_retryFailedJob (id : String) : Untitled (retryFailedJob id) := by
  refine Program.blind_bind (untitled_ask fun _ ↦ rfl) fun record ↦ ?_
  cases record with
  | none => trivial
  | some record =>
      simp only
      split
      · trivial
      · refine Program.blind_bind (untitled_ask fun _ ↦ rfl) fun _ ↦ ?_
        refine Program.blind_bind (untitled_ask fun _ ↦ rfl) fun _ ↦ ?_
        refine Program.blind_bind (untitled_ask fun _ ↦ rfl) fun _ ↦ ?_
        refine Program.blind_bind (untitled_ask fun _ ↦ rfl) fun _ ↦ ?_
        exact Program.blind_bind (untitled_ask fun _ ↦ rfl) fun _ ↦ trivial

theorem untitled_onVideoFailed (event : VideoFailedEvent) : Untitled (onVideoFailed event) := by
  refine Program.blind_catchWith (untitled_selectVideo_bind ?_ fun x ↦ ?_) fun _ ↦ trivial
  · intro v v' h
    rw [Video.retitled_of_untitled h]
    rfl
  · exact Program.blind_bind (untitled_ask fun _ ↦ rfl) fun _ ↦ trivial

theorem untitled_remove (id userId : String) : Untitled (remove id userId) := by
  apply untitled_findOneForUser_bind
  · intro v v' h
    rw [Video.retitled_of_untitled h]
  · exact fun v ↦ untitled_ask fun _ ↦ rfl

def Task.Edits : Task → Prop
  | .service (.update _ _ _) => True
  | _ => False

theorem untitled_body (config : StorageConfig) {task : Task} (h : ¬task.Edits) :
    Untitled (task.body config) := by
  cases task with
  | process job => exact Program.blind_map (untitled_process config job)
  | createAndQueue userId dto => exact Program.blind_map (untitled_createAndQueue userId dto)
  | retryFailedJob id => exact Program.blind_map (untitled_retryFailedJob id)
  | onVideoFailed event => exact Program.blind_map (untitled_onVideoFailed event)
  | remove id userId => exact Program.blind_map (untitled_remove id userId)
  | service call =>
      cases call with
      | update id userId dto => exact absurd trivial h
      | transitionStatus videoId expectedStatus newStatus extra =>
          exact Program.blind_map (untitled_transitionStatus ..)
      | updateProgress videoId percent message additionalMeta =>
          exact Program.blind_map (untitled_updateProgress ..)
      | markFailed videoId errorMessage => exact Program.blind_map (untitled_markFailed ..)
      | evictCache videoId => exact Program.blind_map (untitled_evictCache videoId)
      | getCachedStatus videoId => exact Program.blind_map (untitled_getCachedStatus videoId)

end Blind

/-! ## The calls of an edit -/

def UpdateVideoDto.apply (dto : UpdateVideoDto) (video : Video) : Video :=
  { video with title := dto.title.getD video.title }

/-- What an edit has read when it makes a call. -/
inductive EditCall (id : String) (dto : UpdateVideoDto) :
    List (Exchange interface) → Call → Prop where
  | read : EditCall id dto [] (.selectVideo id)
  | reread (video : Video) :
      EditCall id dto [⟨.selectVideo id, .ok (some video)⟩] (.selectVideo video.id)
  | write (video row : Video) :
      EditCall id dto [⟨.selectVideo id, .ok (some video)⟩,
          ⟨.selectVideo video.id, .ok (some row)⟩]
        (.updateVideo video.id none ((dto.apply video).changes row))
  | insert (video : Video) :
      EditCall id dto [⟨.selectVideo id, .ok (some video)⟩, ⟨.selectVideo video.id, .ok none⟩]
        (.insertVideo (some video.id) (dto.apply video).allFields)

theorem saveVideo_call {id : String} {dto : UpdateVideoDto} {video : Video}
    {log : List (Exchange interface)} {c : Call} {next : Except Thrown c.Reply → Prog Value}
    (h : (Value.video <$> saveVideo (dto.apply video)).Follows log (.call c next)) :
    EditCall id dto (⟨.selectVideo id, .ok (some video)⟩ :: log) c := by
  cases log with
  | nil =>
      have heq := Program.follows_nil.mp h
      obtain rfl := (Program.call.inj heq).1
      exact .reread video
  | cons x rest =>
      obtain ⟨r, rfl, h⟩ := h
      rcases r with e | (_ | row)
      · exact (Program.not_follows_done h).elim
      · cases rest with
        | nil =>
            have heq := Program.follows_nil.mp h
            obtain rfl := (Program.call.inj heq).1
            exact .insert video
        | cons y rest =>
            obtain ⟨r, rfl, h⟩ := h
            cases r <;> exact (Program.not_follows_done h).elim
      · change Program.Follows (Value.video <$>
          if (dto.apply video).changes row = {} then _ else _) _ _ at h
        by_cases hchanges : (dto.apply video).changes row = {}
        · rw [if_pos hchanges] at h
          exact (Program.not_follows_done h).elim
        · rw [if_neg hchanges] at h
          cases rest with
          | nil =>
              have heq := Program.follows_nil.mp h
              obtain rfl := (Program.call.inj heq).1
              exact .write video row
          | cons y rest =>
              obtain ⟨r, rfl, h⟩ := h
              cases r <;> exact (Program.not_follows_done h).elim

theorem update_call {id userId : String} {dto : UpdateVideoDto} {log : List (Exchange interface)}
    {c : Call} {next : Except Thrown c.Reply → Prog Value}
    (h : (Value.video <$> update id userId dto).Follows log (.call c next)) :
    EditCall id dto log c := by
  cases log with
  | nil =>
      have heq := Program.follows_nil.mp h
      obtain rfl := (Program.call.inj heq).1
      exact .read
  | cons x rest =>
      obtain ⟨r, rfl, h⟩ := h
      rcases r with e | (_ | video)
      · exact (Program.not_follows_done h).elim
      · exact (Program.not_follows_done h).elim
      · change Program.Follows (Value.video <$>
          ((if video.userId = userId then pure video else raise .forbidden "Forbidden") >>=
            fun video ↦ saveVideo (dto.apply video))) _ _ at h
        by_cases huser : video.userId = userId
        · rw [if_pos huser] at h
          exact saveVideo_call h
        · rw [if_neg huser] at h
          exact (Program.not_follows_done h).elim

theorem Video.changes_of_untitled {entity row : Video} (h : entity.untitled = row.untitled)
    (now : ℕ) (r : Video) : (r.assign (entity.changes row) now).untitled = r.untitled := by
  rw [Video.retitled_of_untitled h]
  simp [changes, assign, untitled]

/-! ## Edits in a run -/

/-- When the edit reads the row again, it finds what it read first but for the title and
the update date. -/
def Unraced (id : String) (k : ℕ) (s : State) (a : Step) : Prop :=
  ∀ (b : Answer) (t : Worker) (video : Video), a = .call k (.ok b) →
    s.threads[k]? = some t → t.log = [⟨.selectVideo id, .ok (some video)⟩] →
    ∃ row, s.state.videos.find? id = some row ∧ row.untitled = video.untitled

/-- Jobs are held by executions, and thread `k` has read its row twice as the same. -/
structure Edited (config : StorageConfig) (id : String) (k : ℕ) (s : State) : Prop where
  conforming : Conforming s
  follows : ∀ t ∈ s.threads, (t.task.body config).Follows t.log t.prog
  held : ∀ (jobId : ℕ) (q : QueuedJob) (i : ℕ), s.state.queue.find? jobId = some q →
    q.state = .active i → ∃ t job, s.threads[i]? = some t ∧ t.task = .process job
  read : ∀ (t : Worker) (video : Video) (rest : List (Exchange interface)),
    s.threads[k]? = some t → t.log = ⟨.selectVideo id, .ok (some video)⟩ :: rest →
    video.id = id ∧ ∀ x, rest = [⟨.selectVideo video.id, .ok x⟩] →
      ∃ row, x = some row ∧ row.untitled = video.untitled

section System

variable {config : StorageConfig} {s s' : State} {a : Step} {id : String} {k : ℕ}

theorem held_step (hstep : (system config).step s a = some s') (hs : Conforming s)
    (h : ∀ (jobId : ℕ) (q : QueuedJob) (i : ℕ), s.state.queue.find? jobId = some q →
      q.state = .active i → ∃ t job, s.threads[i]? = some t ∧ t.task = .process job) :
    ∀ (jobId : ℕ) (q : QueuedJob) (i : ℕ), s'.state.queue.find? jobId = some q →
      q.state = .active i → ∃ t job, s'.threads[i]? = some t ∧ t.task = .process job := by
  intro jobId q' i hq' hstate
  rcases job_cases hstep hs hq' with ⟨q, hq⟩ | ⟨j, f, t, t', name, data, opts, r, -, -, -, -, rfl⟩
  · obtain ⟨q'', hq'', hkept | ⟨l, tasks, -, hmove, hthreads⟩⟩ := job_step hstep hq
    · obtain rfl := Option.some.inj (hq'.symm.trans hq'')
      rw [hkept] at hstate
      obtain ⟨t, job, hget, htask⟩ := h jobId q i hq hstate
      obtain ⟨t', hget', ht'⟩ := thread_step hstep hs hget
      refine ⟨t', job, hget', ?_⟩
      rcases ht' with (rfl | ⟨-, rfl⟩) | ⟨f, c, r, -, hcall⟩
      · exact htask
      · exact htask
      · exact hcall.task_eq.trans htask
    · obtain rfl := Option.some.inj (hq'.symm.trans hq'')
      obtain ⟨rfl, -, -, rfl⟩ := hmove.not_active hstate
      refine ⟨(system config).start (.process q.job), q.job, ?_, rfl⟩
      rw [hthreads]
      exact List.getElem?_concat_length
  · cases hstate

theorem read_step (hunraced : Unraced id k s a) (hstep : (system config).step s a = some s')
    (h : Edited config id k s) :
    ∀ (t : Worker) (video : Video) (rest : List (Exchange interface)),
      s'.threads[k]? = some t → t.log = ⟨.selectVideo id, .ok (some video)⟩ :: rest →
      video.id = id ∧ ∀ x, rest = [⟨.selectVideo video.id, .ok x⟩] →
        ∃ row, x = some row ∧ row.untitled = video.untitled := by
  intro u video rest hu hlog
  rcases Machine.called_cases hstep hu with ⟨t, ht, rfl | ⟨-, rfl⟩⟩ | ⟨-, task, rfl⟩ |
    ⟨f, t, c, next, r, hact, -, -, hcall⟩
  · exact h.read u video rest ht hlog
  · exact h.read t video rest ht hlog
  · cases hlog
  · rw [hcall.log_eq] at hlog
    cases hold : t.log with
    | nil =>
        rw [hold, List.nil_append] at hlog
        obtain ⟨hx, rfl⟩ := List.cons.inj hlog
        obtain ⟨rfl, hr⟩ := Sigma.mk.inj hx
        obtain rfl := eq_of_heq hr
        obtain ⟨-, b, hanswer⟩ := World.exec_ok hcall.exec
        have hfind := (World.answer_selectVideo hanswer).2.symm
        refine ⟨Table.key_of_find? hfind, ?_⟩
        intro x hx
        cases hx
    | cons x before =>
        rw [hold, List.cons_append] at hlog
        obtain ⟨rfl, hrest⟩ := List.cons.inj hlog
        obtain ⟨hid, -⟩ := h.read t video before hcall.get hold
        refine ⟨hid, ?_⟩
        rintro x hx
        rw [← hrest] at hx
        obtain ⟨rfl, hlast⟩ := List.append_eq_singleton_iff.mp hx |>.resolve_right (by simp)
        obtain ⟨rfl, hr⟩ := Sigma.mk.inj (List.singleton_inj.mp hlast)
        obtain rfl := eq_of_heq hr
        rcases World.exec_cases hcall.exec with ⟨b, y, rfl, hanswer, hy⟩ | ⟨e, -, -, -, hy⟩ |
          ⟨b, e, y, -, -, -, hy⟩
        · obtain rfl := Except.ok.inj hy
          obtain ⟨row, hrow, hsame⟩ := hunraced b t video hact hcall.get hold
          have hfind := (World.answer_selectVideo hanswer).2
          rw [hid, hrow] at hfind
          exact ⟨row, hfind, hsame⟩
        · cases hy
        · cases hy

theorem edited_step (hunraced : Unraced id k s a) (hstep : (system config).step s a = some s')
    (h : Edited config id k s) : Edited config id k s' where
  conforming := step_conforming hstep h.conforming
  follows := Machine.step_follows hstep h.follows
  held := held_step hstep h.conforming h.held
  read := read_step hunraced hstep h

theorem World.updateVideo_hidden (w : World) {id : String} {expected : Option VideoStatus}
    {fields : VideoFields} (hfields : ∀ r : Video, (r.assign fields w.now).untitled = r.untitled) :
    (w.updateVideo id expected fields).1.untitled id = w.untitled id := by
  unfold updateVideo
  split
  · rfl
  · split
    · unfold untitled
      simp only
      congr 1
      exact Table.modify_hidden id Video.untitled Video.untitled_id _ hfields w.videos
    · rfl

theorem edit_hidden {f : Fate} {t t' : Worker} {c : Call} {r : Except Thrown c.Reply}
    (h : Edited config id k s) (hcall : Machine.Called (system config) s s' k f t t' c r)
    {userId : String} {dto : UpdateVideoDto} (htask : t.task = .service (.update id userId dto)) :
    s'.state.untitled id = s.state.untitled id ∧ s'.threads.length = s.threads.length := by
  have hfollows := h.follows t (List.mem_of_getElem? hcall.get)
  obtain ⟨next, hprog⟩ := Thread.pending?_eq_some_iff.mp hcall.pending
  rw [htask, hprog] at hfollows
  have hedit := update_call hfollows
  generalize hlog : t.log = log at hedit
  have hselect {k : String} {x : Except Thrown (Option Video)}
      (hexec : s.state.exec (.selectVideo k) f = some (s'.state, x)) :
      s'.state.untitled id = s.state.untitled id := by
    rcases World.exec_effect hexec with ⟨-, hw, -⟩ | ⟨-, b, y, hy, -⟩
    · rw [hw]
    · rw [(World.answer_selectVideo hy).1]
  cases hedit with
  | read => exact ⟨hselect hcall.exec, by simp [hcall.threads_eq, system, listeners]⟩
  | reread video => exact ⟨hselect hcall.exec, by simp [hcall.threads_eq, system, listeners]⟩
  | write video row =>
      refine ⟨?_, by simp [hcall.threads_eq, system, listeners]⟩
      obtain ⟨hid, hread⟩ := h.read t video _ hcall.get hlog
      obtain ⟨row', hrow, hsame⟩ := hread _ rfl
      obtain rfl := Option.some.inj hrow
      rcases World.exec_effect hcall.exec with ⟨-, hw, -⟩ | ⟨-, b, y, hy, -⟩
      · rw [hw]
      · have huntitled : (dto.apply video).untitled = row.untitled := hsame.symm
        rw [(World.answer_updateVideo hy).1, hid]
        exact s.state.updateVideo_hidden fun r ↦ Video.changes_of_untitled huntitled _ r
  | insert video =>
      obtain ⟨-, hread⟩ := h.read t video _ hcall.get hlog
      obtain ⟨row, hrow, -⟩ := hread _ rfl
      cases hrow

def HoldsNone (k : ℕ) (s : State) : Prop :=
  ∀ (jobId : ℕ) (q : QueuedJob) (i : ℕ), s.state.queue.find? jobId = some q →
    q.state = .active i → i ≠ k

theorem hides_untitled :
    (system config).Hides (World.untitled id) untitledReply k (HoldsNone k) := by
  constructor
  · intro w u w' c f r hwu hexec
    exact World.exec_untitled hwu hexec
  · intro s u l w tasks hnone hbeside henv
    have hthreads := envStep_congr hbeside.length
      (fun jobId q i hq hstate t ht ↦ by
        obtain ⟨t', ht', -, hprog, hcrashed⟩ :=
          hbeside.others i t (hnone jobId q i hq hstate) ht
        exact ⟨t', ht', hprog, hcrashed⟩) henv
    have hsame := envStep_untitled s.state id u.threads l
    rw [hthreads, hbeside.state, envStep_untitled] at hsame
    obtain ⟨⟨w', tasks'⟩, henv', heq⟩ := Option.map_eq_some_iff.mp hsame
    obtain ⟨hworld, rfl⟩ := Prod.mk.inj heq
    exact ⟨w', henv', hworld.symm⟩

/-- An edit whose two reads agree does not disturb any interleaving: the schedule without
its calls is a run too, and it leads to the same world but for the title and the update
date of the row. -/
theorem edit_undisturbing {w : World} {ts : List (Transition State Step)} {userId : String}
    {dto : UpdateVideoDto} {t : Worker}
    (hidle : ∀ jobId q i, w.queue.find? jobId = some q → q.state ≠ .active i)
    (hrun : Run (system config).step ⟨w, []⟩ ts s) (hget : s.threads[k]? = some t)
    (htask : t.task = .service (.update id userId dto))
    (hothers : ∀ (i : ℕ) (u : Worker), s.threads[i]? = some u → i ≠ k → ¬u.task.Edits)
    (hunraced : ∀ v ∈ ts, Unraced id k v.before v.act) :
    ∃ ts' s', Run (system config).step ⟨w, []⟩ ts' s' ∧
      ts'.map Transition.act = (ts.map Transition.act).filter (!·.isCallOf k) ∧
      s'.state.untitled id = s.state.untitled id := by
  have hedited (v : Transition State Step) (hv : v ∈ ts) : Edited config id k v.before := by
    refine hrun.invariant_before (Edited config id k) ?_
      (fun v hv hstep h ↦ edited_step (hunraced v hv) hstep h) hv
    constructor
    · simp [Conforming]
    · simp
    · intro jobId q i hq hstate
      exact absurd hstate (hidle jobId q i hq)
    · simp
  have hlater {v : Transition State Step} (hv : v ∈ ts) {i : ℕ} {u : Worker}
      (hu : v.before.threads[i]? = some u) :
      ∃ u', s.threads[i]? = some u' ∧ u.task = u'.task := by
    have hlt := Nat.lt_of_lt_of_le (List.getElem?_eq_some_iff.mp hu).1
      (Machine.length_le_of_mem hrun hv)
    have hu' := List.getElem?_eq_getElem hlt
    exact ⟨_, hu', Machine.task_eq_of_mem hrun hv hu hu'⟩
  have hedit {v : Transition State Step} (hv : v ∈ ts) {u : Worker}
      (hu : v.before.threads[k]? = some u) : u.task = .service (.update id userId dto) := by
    obtain ⟨u', hu', heq⟩ := hlater hv hu
    obtain rfl := Option.some.inj (hget.symm.trans hu')
    exact heq.trans htask
  have hnone (v : Transition State Step) (hv : v ∈ ts) : HoldsNone k v.before := by
    rintro jobId q i hq hstate rfl
    obtain ⟨u, job, hu, hjob⟩ := (hedited v hv).held jobId q i hq hstate
    rw [hedit hv hu] at hjob
    cases hjob
  have hblind (v : Transition State Step) (hv : v ∈ ts) (i : ℕ) (u : Worker) (hi : i ≠ k)
      (hu : v.before.threads[i]? = some u) : Untitled u.prog := by
    obtain ⟨u', hu', heq⟩ := hlater hv hu
    refine (untitled_body config ?_).follows
      ((hedited v hv).follows u (List.mem_of_getElem? hu))
    rw [heq]
    exact hothers i u' hu' hi
  have hhidden (v : Transition State Step) (hv : v ∈ ts) (hact : v.act.isCallOf k = true) :
      v.after.state.untitled id = v.before.state.untitled id ∧
        v.after.threads.length = v.before.threads.length := by
    have hstep := hrun.step_of_mem hv
    obtain ⟨f, hcall⟩ : ∃ f, v.act = .call k f := by
      cases hv' : v.act with
      | call i f =>
          rw [hv'] at hact
          obtain rfl : i = k := of_decide_eq_true hact
          exact ⟨f, rfl⟩
      | _ =>
          rw [hv'] at hact
          cases hact
    rw [hcall] at hstep
    obtain ⟨u, c, next, r, -, hcalled⟩ := Machine.called_of_step hstep
    exact edit_hidden (hedited v hv) hcalled (hedit hv hcalled.get)
  obtain ⟨ts', s', hrun', hacts, hbeside⟩ :=
    Machine.run_erase hides_untitled hrun hnone hblind hhidden
  exact ⟨ts', s', hrun', hacts, hbeside.state.symm⟩

end System

/-! ## An edit and an execution -/

def editTask : Task := .service (.update "video" "" ⟨some "new title"⟩)

/-- The row is started between the two reads of the edit. -/
def racedActs : List Step :=
  [.invoke editTask, okStep 0, .invoke (.process generateJob), okStep 1, okStep 1, okStep 0,
    okStep 0]

/-- The row is started after the two reads of the edit and before it writes. -/
def unracedActs : List Step :=
  [.invoke editTask, okStep 0, .invoke (.process generateJob), okStep 1, okStep 0, okStep 1,
    okStep 0]

def Task.edit? : Task → Option (String × String × Option String)
  | .service (.update id userId dto) => some (id, userId, dto.title)
  | _ => none

theorem Task.edits_iff {task : Task} : task.Edits ↔ task.edit? ≠ none := by
  cases task with
  | service call => cases call <;> simp [Edits, edit?]
  | _ => simp [Edits, edit?]

theorem Task.edit?_eq_some {task : Task} {id userId : String} {title : Option String}
    (h : task.edit? = some (id, userId, title)) :
    task = .service (.update id userId ⟨title⟩) := by
  cases task with
  | service call =>
      cases call with
      | update id' userId' dto =>
          obtain ⟨rfl, heq⟩ := Prod.mk.inj (Option.some.inj h)
          obtain ⟨rfl, rfl⟩ := Prod.mk.inj heq
          rfl
      | _ => cases h
  | _ => cases h

def readRow : List (Exchange interface) → Option Video
  | [⟨.selectVideo _, .ok (some (video : Video))⟩] => some video
  | _ => none

def unraced (id : String) (k : ℕ) (v : Transition State Step) : Bool :=
  match v.before.threads[k]?.bind fun t ↦ readRow t.log with
  | some video => (v.before.state.videos.find? id).any (·.untitled = video.untitled)
  | none => true

theorem unraced_of_unraced {id : String} {k : ℕ} {v : Transition State Step}
    (h : unraced id k v = true) : Unraced id k v.before v.act := by
  intro b t video _ hget hlog
  unfold unraced at h
  rw [hget] at h
  simp only [Option.bind_some, hlog, readRow] at h
  obtain ⟨row, hrow, hsame⟩ := (Option.any_eq_true _ _).mp h
  exact ⟨row, hrow, of_decide_eq_true hsame⟩

/-- The edit takes part without being raced: only the title changes. -/
theorem edit_undisturbing_start : ∃ (ts ts' : List (Transition State Step)) (s s' : State),
    Run (system ⟨"bucket", none, "region"⟩).step ⟨pendingWorld, []⟩ ts s ∧
      s.state.statusOf "video" = some .processing ∧
      Run (system ⟨"bucket", none, "region"⟩).step ⟨pendingWorld, []⟩ ts' s' ∧
      ts'.map Transition.act = unracedActs.filter (!·.isCallOf 0) ∧
      s'.state.untitled "video" = s.state.untitled "video" := by
  obtain ⟨ts, s, hrun, hacts, hobs⟩ := Run.exists_of_follow
    (system ⟨"bucket", none, "region"⟩).step ⟨pendingWorld, []⟩ unracedActs
    (fun p ↦ (p.1.all (unraced "video" 0), p.2.state.statusOf "video",
      decide (p.2.threads.map (·.task.edit?) = [some ("video", "", some "new title"), none])))
    (true, some .processing, true) (by decide +kernel)
  obtain ⟨hunraced, heq⟩ := Prod.mk.inj hobs
  obtain ⟨hstatus, htasks⟩ := Prod.mk.inj heq
  have htask (i : ℕ) : s.threads[i]?.map (·.task.edit?) =
      [some ("video", "", some "new title"), none][i]? := by
    rw [← List.getElem?_map, of_decide_eq_true htasks]
  obtain ⟨t, hget, hedit⟩ := Option.map_eq_some_iff.mp (htask 0)
  have hidle : ∀ jobId q i, pendingWorld.queue.find? jobId = some q → q.state ≠ .active i := by
    intro jobId q i hq
    cases hq
  obtain ⟨ts', s', hrun', hacts', hsame⟩ := edit_undisturbing hidle hrun hget
    (Task.edit?_eq_some hedit) (fun i u hu hi hedits ↦ by
      have hu' := htask i
      rw [hu] at hu'
      match i, hi with
      | 1, _ => exact Task.edits_iff.mp hedits (Option.some.inj hu')
      | _ + 2, _ => cases hu')
    fun v hv ↦ unraced_of_unraced (List.all_eq_true.mp hunraced v hv)
  exact ⟨ts, ts', s, s', hrun, hstatus, hrun', hacts ▸ hacts', hsame⟩

/-- The edit takes the start of the execution back. -/
theorem edit_undoes_start : ∃ (ts ts' : List (Transition State Step)) (s s' : State) (t : Worker),
    Run (system ⟨"bucket", none, "region"⟩).step ⟨pendingWorld, []⟩ ts s ∧
      s.threads[0]? = some t ∧ t.task = editTask ∧
      Run (system ⟨"bucket", none, "region"⟩).step ⟨pendingWorld, []⟩ ts' s' ∧
      ts'.map Transition.act = (ts.map Transition.act).filter (!·.isCallOf 0) ∧
      s.state.statusOf "video" = some .pending ∧
      s'.state.statusOf "video" = some .processing ∧
      s'.state.untitled "video" ≠ s.state.untitled "video" := by
  obtain ⟨ts, s, hrun, hacts, hobs⟩ := Run.exists_of_follow
    (system ⟨"bucket", none, "region"⟩).step ⟨pendingWorld, []⟩ racedActs
    (fun p ↦ (p.2.state.statusOf "video", decide (p.2.threads[0]?.map (·.task.edit?) =
      some (some ("video", "", some "new title")))))
    (some .pending, true) (by decide +kernel)
  obtain ⟨hstatus, htask⟩ := Prod.mk.inj hobs
  obtain ⟨t, hget, hedit⟩ := Option.map_eq_some_iff.mp (of_decide_eq_true htask)
  obtain ⟨ts', s', hrun', hacts', hstatus'⟩ := Run.exists_of_follow
    (system ⟨"bucket", none, "region"⟩).step ⟨pendingWorld, []⟩ (racedActs.filter (!·.isCallOf 0))
    (fun p ↦ p.2.state.statusOf "video") (some .processing) (by decide +kernel)
  refine ⟨ts, ts', s, s', t, hrun, hget, Task.edit?_eq_some hedit, hrun', hacts ▸ hacts',
    hstatus, hstatus', ?_⟩
  intro hsame
  have hrows := World.statusOf_of_untitled hsame
  rw [hstatus, hstatus'] at hrows
  cases hrows

end VideoGen
