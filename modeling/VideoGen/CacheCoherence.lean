import VideoGen.Lib.Evaluation
import VideoGen.Ownership

/-!
# The cache and the rows

The status cache is maintained in four ways: transitions and progress updates
write through it, `markFailed` evicts, a read fills it, and `retryFailedJob`
and `remove` leave it alone.  When calls follow each other, the cache agrees
with the rows as long as every write-through caches what the row then shows,
and no row is reset or removed while its status is cached.
-/

namespace VideoGen

/-! ## Calls that are served one after the other -/

/-- The program runs alone and every call it makes is answered. -/
def World.serve {α : Type} (w : World) (p : Prog α) : Option (World × Except Thrown α) :=
  p.evalWith World.exec (.ok .unit) w

section Serve

variable {α β : Type}

def thenServe (f : α → Prog β) : World × Except Thrown α → Option (World × Except Thrown β)
  | (w, .ok a) => w.serve (f a)
  | (w, .error e) => some (w, .error e)

def elseServe (h : Thrown → Prog α) : World × Except Thrown α → Option (World × Except Thrown α)
  | (w, .ok a) => some (w, .ok a)
  | (w, .error e) => w.serve (h e)

@[simp] theorem thenServe_ok (f : α → Prog β) (w : World) (a : α) :
    thenServe f (w, .ok a) = w.serve (f a) := rfl

@[simp] theorem thenServe_error (f : α → Prog β) (w : World) (e : Thrown) :
    thenServe f (w, .error e) = some (w, .error e) := rfl

@[simp] theorem elseServe_ok (h : Thrown → Prog α) (w : World) (a : α) :
    elseServe h (w, .ok a) = some (w, .ok a) := rfl

@[simp] theorem elseServe_error (h : Thrown → Prog α) (w : World) (e : Thrown) :
    elseServe h (w, .error e) = w.serve (h e) := rfl

variable (w : World)

@[simp] theorem serve_pure (a : α) : w.serve (pure a) = some (w, .ok a) := rfl

@[simp] theorem serve_raise (cls : ErrorClass) (m : String) :
    w.serve (raise cls m : Prog α) = some (w, .error (.instance cls m)) := rfl

@[simp] theorem serve_bind (p : Prog α) (f : α → Prog β) :
    w.serve (p >>= f) = (w.serve p).bind (thenServe f) := by
  refine (Program.evalWith_bind p f).trans ?_
  apply congrArg (Option.bind (w.serve p))
  funext q
  obtain ⟨w', r⟩ := q
  cases r <;> rfl

@[simp] theorem serve_catchWith (p : Prog α) (h : Thrown → Prog α) :
    w.serve (p.catchWith h) = (w.serve p).bind (elseServe h) := by
  refine (Program.evalWith_catchWith p h).trans ?_
  apply congrArg (Option.bind (w.serve p))
  funext q
  obtain ⟨w', r⟩ := q
  cases r <;> rfl

@[simp] theorem serve_map (p : Prog α) (f : α → β) :
    w.serve (f <$> p) = (w.serve p).map fun q ↦ (q.1, q.2.map f) :=
  Program.evalWith_map p f

@[simp] theorem serve_selectVideo (id : String) :
    w.serve (selectVideo id) = some (w, .ok (w.videos.find? id)) := rfl

@[simp] theorem serve_updateVideo (id : String) (expected : Option VideoStatus)
    (fields : VideoFields) : w.serve (updateVideo id expected fields) =
      some ((w.updateVideo id expected fields).1, .ok (w.updateVideo id expected fields).2) := rfl

@[simp] theorem serve_deleteVideo (id : String) : w.serve (α := Unit) (ask (.deleteVideo id)) =
    some ({ w with videos := w.videos.erase id }, .ok ()) := rfl

@[simp] theorem serve_selectFailedJob (id : String) :
    w.serve (α := Option FailedJob) (ask (.selectFailedJob id)) =
      some (w, .ok (w.failedJobs.find? id)) := rfl

@[simp] theorem serve_markRetried (id retryJobId : String) (retriedAt : ℕ) :
    w.serve (α := Unit) (ask (.markRetried id retriedAt retryJobId)) =
      some (w.markRetried id retriedAt retryJobId, .ok ()) := rfl

@[simp] theorem serve_queueAdd (defaultJobOptions : JobOptions) (name : String)
    (data : VideoGenerationJobData) (opts : JobOptions) :
    w.serve (queueAdd defaultJobOptions name data opts) =
      some ({ w with queue := w.queue.add name data (opts.over defaultJobOptions) },
        .ok (w.queue.lastId + 1)) := rfl

@[simp] theorem serve_dateNow : w.serve dateNow = some (w, .ok w.now) := rfl

@[simp] theorem serve_redisGet (key : String) :
    w.serve (α := Option CachedText) (ask (.redisGet key)) = some (w, .ok (w.redis key)) := rfl

@[simp] theorem serve_redisSet (key : String) (s : StatusSnapshot) :
    w.serve (α := Unit) (ask (.redisSet key s)) =
      some (w.setRedis key (some (.snapshot s)), .ok ()) := rfl

@[simp] theorem serve_redisDel (key : String) :
    w.serve (α := Unit) (ask (.redisDel key)) = some (w.setRedis key none, .ok ()) := rfl

@[simp] theorem serve_redisSetLater (key : String) (s : StatusSnapshot) :
    w.serve (α := Unit) (ask (.redisSetLater key s)) =
      some ({ w with redisWrites := w.redisWrites ++ [(key, s)] }, .ok ()) := rfl

end Serve

def World.deliverAll (w : World) : World :=
  { w with
    redis := w.redisWrites.foldl
      (fun redis p key ↦ if key = p.1 then some (.snapshot p.2) else redis key) w.redis
    redisWrites := [] }

def World.wait (w : World) (ms : ℕ) : World := { w with now := w.now + ms }

/-- A call is made after some time, runs to its end, and its cache writes arrive. -/
def serveTask (config : StorageConfig) (w : World) (call : Task × ℕ) : Option World :=
  ((w.wait call.2).serve (call.1.body config)).map fun p ↦ p.1.deliverAll

def Task.UsesStatus : Task → Prop
  | .service (.update _ _ _) => False
  | .service _ => True
  | .retryFailedJob _ => True
  | .remove _ _ => True
  | _ => False

def JsObject.Proper (o : JsObject) : Prop := (o.map Prod.fst).Nodup

def Task.Proper : Task → Prop
  | .service (.transitionStatus _ _ _ extra) => ∀ o, extra.metadata = some (some o) → o.Proper
  | .service (.updateProgress _ _ _ additionalMeta) => additionalMeta.Proper
  | _ => True

/-! ## What is shown -/

def StatusSnapshot.shown (s : StatusSnapshot) : VideoStatus × JsValue × JsValue :=
  (s.status, s.progress, s.message)

def Video.snapshot (r : Video) (now : ℕ) : StatusSnapshot :=
  ⟨r.status, (r.metadataAt "progressPercent").orElse (.number 0),
    (r.metadataAt "progressMessage").orElse (.string ""), now⟩

def Video.shown (r : Video) : VideoStatus × JsValue × JsValue := (r.snapshot 0).shown

def World.cached (w : World) (videoId : String) : Option StatusSnapshot :=
  match w.redis (statusKey videoId) with
  | some (.snapshot s) => some s
  | _ => none

/-- `getCachedStatus` returns `null` exactly when the row is missing, and otherwise shows
what `loadFromDb` computes from the row. -/
def World.Agrees (w : World) (videoId : String) : Prop :=
  ∃ w₁ w₂ x y, w.serve (getCachedStatus videoId) = some (w₁, .ok x) ∧
    w.serve (loadFromDb videoId) = some (w₂, .ok y) ∧
    (x = none ↔ w.videos.find? videoId = none) ∧
    x.map StatusSnapshot.shown = y.map StatusSnapshot.shown

def World.Coherent (w : World) (videoId : String) : Prop :=
  ∀ s, w.cached videoId = some s → (w.videos.find? videoId).map Video.shown = some s.shown

section Reading

variable {w : World} {videoId : String}

theorem serve_loadFromDb : w.serve (loadFromDb videoId) =
    match w.videos.find? videoId with
    | none => some (w, .ok none)
    | some r => some (w.setRedis (statusKey videoId) (some (.snapshot (r.snapshot w.now))),
        .ok (some (r.snapshot w.now))) := by
  cases hfind : w.videos.find? videoId with
  | none => simp [loadFromDb, hfind]
  | some r => simp [loadFromDb, hfind, Video.snapshot]

theorem serve_getCachedStatus : w.serve (getCachedStatus videoId) =
    match w.cached videoId with
    | some s => some (w, .ok (some s))
    | none => w.serve (loadFromDb videoId) := by
  unfold World.cached
  cases hget : w.redis (statusKey videoId) with
  | none => simp [getCachedStatus, hget, parseSnapshot]
  | some text =>
      cases text with
      | snapshot s => simp [getCachedStatus, hget, parseSnapshot]
      | malformed text =>
          by_cases hempty : text = "" <;> simp [getCachedStatus, hget, parseSnapshot, hempty]

theorem serve_loadFromDb_shown (w : World) (videoId : String) : ∃ w' y, w.serve (loadFromDb videoId) = some (w', .ok y) ∧
    (y = none ↔ w.videos.find? videoId = none) ∧
    y.map StatusSnapshot.shown = (w.videos.find? videoId).map Video.shown := by
  rw [serve_loadFromDb]
  cases w.videos.find? videoId with
  | none => exact ⟨_, _, rfl, by simp, rfl⟩
  | some r => exact ⟨_, _, rfl, by simp, rfl⟩

theorem agrees_iff_coherent : w.Agrees videoId ↔ w.Coherent videoId := by
  obtain ⟨w₂, y, hload, hnone, hshown⟩ := serve_loadFromDb_shown w videoId
  unfold World.Agrees World.Coherent
  rw [serve_getCachedStatus, hload]
  cases hcached : w.cached videoId with
  | none =>
      constructor
      · intro _ s hs
        cases hs
      · intro _
        exact ⟨w₂, w₂, y, y, rfl, rfl, hnone, rfl⟩
  | some s =>
      constructor
      · rintro ⟨w₁, w₂', x, y', hget, hload', -, hsame⟩ s' hs
        obtain rfl := Option.some.inj hs
        obtain ⟨-, hx⟩ := Prod.mk.inj (Option.some.inj hget)
        obtain rfl := Except.ok.inj hx
        obtain ⟨-, hy⟩ := Prod.mk.inj (Option.some.inj hload')
        obtain rfl := Except.ok.inj hy
        rw [← hshown, ← hsame]
        rfl
      · intro h
        have hfound := h s rfl
        refine ⟨w, w₂, some s, y, rfl, rfl, ?_, ?_⟩
        · cases hrow : w.videos.find? videoId with
          | none =>
              rw [hrow] at hfound
              cases hfound
          | some r => simp
        · rw [hshown, hfound]
          rfl

end Reading

/-! ## The effects of the calls -/

section Effects

variable (w : World) (videoId : String)

@[simp] theorem serve_writeCache (status : VideoStatus) (progress message : JsValue) :
    w.serve (writeCache videoId status progress message) =
      some ({ w with redisWrites :=
        w.redisWrites ++ [(statusKey videoId, ⟨status, progress, message, w.now⟩)] },
        .ok ()) := by
  simp [writeCache]

theorem serve_transitionStatus (expectedStatus newStatus : VideoStatus) (extra : TransitionExtra) :
    w.serve (transitionStatus videoId expectedStatus newStatus extra) =
      if Allowed expectedStatus newStatus then
        let w' := (w.updateVideo videoId (some expectedStatus) (extra.fields newStatus)).1
        if (w.updateVideo videoId (some expectedStatus) (extra.fields newStatus)).2 = 0 then
          some (w', .ok false)
        else
          some ({ w' with redisWrites := w'.redisWrites ++ [(statusKey videoId,
            ⟨newStatus, (extra.metadataAt "progressPercent").orElse (.number 0),
              (extra.metadataAt "progressMessage").orElse (.string ""), w'.now⟩)] }, .ok true)
      else some (w, .ok false) := by
  unfold transitionStatus
  by_cases hallowed : Allowed expectedStatus newStatus
  · by_cases haffected :
        (w.updateVideo videoId (some expectedStatus) (extra.fields newStatus)).2 = 0
    · simp [hallowed, haffected]
    · simp [hallowed, haffected]
  · simp [hallowed]

theorem serve_updateProgress (percent : ℤ) (message : String) (additionalMeta : JsObject) :
    w.serve (updateProgress videoId percent message additionalMeta) =
      let w' := (w.updateVideo videoId (some .processing)
        (progressFields percent message additionalMeta)).1
      some ({ w' with redisWrites := w'.redisWrites ++
        [(statusKey videoId, ⟨.processing, .number percent, .string message, w'.now⟩)] },
        .ok ()) := by
  simp [updateProgress]

@[simp] theorem serve_evictCache :
    w.serve (evictCache videoId) = some (w.setRedis (statusKey videoId) none, .ok ()) := by
  simp [evictCache]

theorem serve_markFailed (errorMessage : String) : w.serve (markFailed videoId errorMessage) =
    some ((w.updateVideo videoId none (failedFields errorMessage)).1.setRedis
      (statusKey videoId) none, .ok ()) := by
  simp [markFailed]

theorem serve_remove (id userId : String) : w.serve (remove id userId) =
    match w.videos.find? id with
    | none => some (w, .error (.instance .notFound ("Video " ++ id ++ " not found")))
    | some video =>
        if video.userId = userId then some ({ w with videos := w.videos.erase video.id }, .ok ())
        else some (w, .error (.instance .forbidden "Forbidden")) := by
  cases hfind : w.videos.find? id with
  | none => simp [remove, findOneForUser, hfind]
  | some video =>
      by_cases huser : video.userId = userId <;> simp [remove, findOneForUser, hfind, huser]

def World.retry (w : World) (record : FailedJob) : World :=
  let w₁ := (w.updateVideo record.videoId none resetFields).1
  let opts := retryJobOptions.over queueModuleJobOptions
  let w₂ := { w₁ with queue := w₁.queue.add videoGenerationJob ⟨record.videoId⟩ opts }
  let w₃ := (w₂.updateVideo record.videoId none (queueJobIdFields (w₁.queue.lastId + 1))).1
  w₃.markRetried record.id w₂.now (toString (w₁.queue.lastId + 1))

theorem serve_retryFailedJob (id : String) : ∃ r, w.serve (retryFailedJob id) =
    match w.failedJobs.find? id with
    | none => some (w, r)
    | some record => if record.retried then some (w, r) else some (w.retry record, r) := by
  cases hfind : w.failedJobs.find? id with
  | none => exact ⟨_, by simp [retryFailedJob, hfind]; rfl⟩
  | some record =>
      have hid : record.id = id := Table.key_of_find? hfind
      by_cases hretried : record.retried = true
      · exact ⟨_, by simp [retryFailedJob, hfind, hretried]; rfl⟩
      · exact ⟨_, by simp [retryFailedJob, hfind, hretried, World.retry, hid]; rfl⟩

end Effects

/-! ## Objects -/

namespace JsObject

theorem lookup_eq_none_of_has {o : JsObject} {key : String} (h : o.has key = false) :
    o.lookup key = none := by
  rw [List.lookup_eq_none_iff]
  intro p hp
  have hkey := List.any_eq_false.mp h p hp
  exact bne_iff_ne.mpr fun heq ↦ hkey (decide_eq_true heq.symm)

theorem lookup_filter_has (o extra : JsObject) (key : String) :
    List.lookup key (o.filter fun p ↦ !extra.has p.1) =
      if extra.has key then none else o.lookup key := by
  induction o with
  | nil => simp
  | cons p o ih =>
      obtain ⟨k, v⟩ := p
      by_cases hkey : key = k
      · subst hkey
        by_cases hhas : extra.has key = true
        · simp [hhas, ih]
        · simp [hhas]
      · have hne : (key == k) = false := by simpa using hkey
        by_cases hhas : extra.has k = true
        · simp [hhas, ih, List.lookup_cons, hne]
        · simp [hhas, ih, List.lookup_cons, hne]

theorem get_spread (o extra : JsObject) (key : String) :
    (o.spread extra).get key = if extra.has key then extra.get key else o.get key := by
  unfold get spread
  rw [List.lookup_append, lookup_filter_has]
  by_cases hhas : extra.has key = true
  · simp [hhas]
  · rw [lookup_eq_none_of_has (o := extra) (by simpa using hhas)]
    simp [hhas]

/-- Dropping the undefined properties is not seen. -/
theorem get_stored {o : JsObject} (h : o.Proper) (key : String) :
    o.stored.get key = o.get key := by
  induction o with
  | nil => rfl
  | cons p o ih =>
      obtain ⟨k, v⟩ := p
      obtain ⟨hfresh, hrest⟩ := List.nodup_cons.mp h
      have hstored := ih hrest
      unfold get stored at hstored ⊢
      by_cases hkey : key = k
      · subst hkey
        have hnone : List.lookup key (o.filter fun q ↦ q.2 ≠ .undefined) = none := by
          rw [List.lookup_eq_none_iff]
          intro q hq
          have hmem := List.mem_map_of_mem (f := Prod.fst) (List.mem_of_mem_filter hq)
          refine bne_iff_ne.mpr fun heq ↦ hfresh ?_
          rw [heq]
          exact hmem
        by_cases hundefined : v = .undefined
        · rw [List.filter_cons_of_neg (by simp [hundefined]), hnone, hundefined]
          simp
        · rw [List.filter_cons_of_pos (by simp [hundefined])]
          simp
      · have hne : (key == k) = false := by simpa using hkey
        by_cases hundefined : v = .undefined
        · rw [List.filter_cons_of_neg (by simp [hundefined]), List.lookup_cons, hne]
          exact hstored
        · rw [List.filter_cons_of_pos (by simp [hundefined]), List.lookup_cons,
            List.lookup_cons, hne]
          exact hstored

theorem proper_spread {o extra : JsObject} (ho : o.Proper) (hextra : extra.Proper) :
    (o.spread extra).Proper := by
  unfold Proper spread
  rw [List.map_append, List.nodup_append]
  refine ⟨ho.sublist (List.filter_sublist.map Prod.fst), hextra, ?_⟩
  intro a ha b hb hab
  obtain ⟨p, hp, rfl⟩ := List.mem_map.mp ha
  obtain ⟨q, hq, rfl⟩ := List.mem_map.mp hb
  have hnot := (List.mem_filter.mp hp).2
  simp only [has, Bool.not_eq_true', List.any_eq_false, decide_eq_true_eq] at hnot
  exact hnot q hq hab.symm

end JsObject

/-! ## What a call leaves behind -/

structure Effect (videoId : String) (w w' : World) : Prop where
  rows : ∀ k, k ≠ videoId → w'.videos.find? k = w.videos.find? k
  cache : ∀ k, k ≠ videoId → w'.cached k = w.cached k

section Coherence

variable {w w' : World} {videoId : String}

theorem Effect.coherent_iff (h : Effect videoId w w') (hw : ∀ k, w.Coherent k) :
    (∀ k, w'.Coherent k) ↔ w'.Coherent videoId := by
  refine ⟨fun hw' ↦ hw' videoId, fun hv k ↦ ?_⟩
  by_cases hk : k = videoId
  · exact hk ▸ hv
  · unfold World.Coherent
    rw [h.rows k hk, h.cache k hk]
    exact hw k

theorem statusKey_inj {a b : String} : statusKey a = statusKey b ↔ a = b :=
  String.append_right_inj "video:status:"

theorem cached_setRedis (w : World) (videoId k : String) (x : Option CachedText) :
    (w.setRedis (statusKey videoId) x).cached k =
      if k = videoId then
        match x with
        | some (.snapshot s) => some s
        | _ => none
      else w.cached k := by
  unfold World.cached World.setRedis
  by_cases hk : k = videoId
  · subst hk
    simp
  · simp [hk, statusKey_inj]

theorem cached_updateVideo (w : World) (id k : String) (expected : Option VideoStatus)
    (fields : VideoFields) : (w.updateVideo id expected fields).1.cached k = w.cached k := by
  rw [World.updateVideo_eq]
  rfl

theorem redisWrites_updateVideo (w : World) (id : String) (expected : Option VideoStatus)
    (fields : VideoFields) :
    (w.updateVideo id expected fields).1.redisWrites = w.redisWrites := by
  rw [World.updateVideo_eq]

theorem deliverAll_of_nil (h : w.redisWrites = []) : w.deliverAll = w := by
  unfold World.deliverAll
  rw [h]
  cases w
  cases h
  rfl

theorem deliverAll_of_write (h : w.redisWrites = []) (key : String) (s : StatusSnapshot) :
    ({ w with redisWrites := w.redisWrites ++ [(key, s)] } : World).deliverAll =
      w.setRedis key (some (.snapshot s)) := by
  unfold World.deliverAll
  cases w
  cases h
  rfl

theorem Video.shown_assign (r : Video) (fields : VideoFields) (now : ℕ) :
    (r.assign fields now).shown = (fields.status.getD r.status,
      match fields.metadata with
      | none => r.shown.2
      | some none => (.number 0, .string "")
      | some (some o) => ((o.stored.get "progressPercent").orElse (.number 0),
          (o.stored.get "progressMessage").orElse (.string ""))) := by
  cases hmetadata : fields.metadata with
  | none => simp [shown, StatusSnapshot.shown, snapshot, metadataAt, assign, hmetadata]
  | some m =>
      cases m with
      | none =>
          simp [shown, StatusSnapshot.shown, snapshot, metadataAt, assign, hmetadata,
            JsValue.orElse]
      | some o => simp [shown, StatusSnapshot.shown, snapshot, metadataAt, assign, hmetadata]

theorem effect_setRedis (w : World) (videoId : String) (x : Option CachedText) :
    Effect videoId w (w.setRedis (statusKey videoId) x) := by
  constructor
  · exact fun k _ ↦ rfl
  · intro k hk
    rw [cached_setRedis, if_neg hk]

theorem effect_writeThrough (w : World) (videoId : String) (expected : Option VideoStatus)
    (fields : VideoFields) (x : Option CachedText) :
    Effect videoId w
      ((w.updateVideo videoId expected fields).1.setRedis (statusKey videoId) x) := by
  constructor
  · intro k hk
    change (w.updateVideo videoId expected fields).1.videos.find? k = _
    rw [World.find?_updateVideo, if_neg hk]
  · intro k hk
    rw [cached_setRedis, if_neg hk, cached_updateVideo]

end Coherence

/-! ## When a call keeps the agreement -/

def KeepsProgress (percent : ℤ) (message : String) (additionalMeta : JsObject) : Prop :=
  (additionalMeta.has "progressPercent" = true →
    (additionalMeta.get "progressPercent").orElse (.number 0) = .number percent) ∧
  (additionalMeta.has "progressMessage" = true →
    (additionalMeta.get "progressMessage").orElse (.string "") = .string message)

/-- A transition without metadata finds a row without progress, a progress update finds
its row processing and is stored as it is cached, and a row that is reset or removed is
not cached. -/
def Faithful (w : World) : Task → Prop
  | .service (.transitionStatus videoId expectedStatus newStatus extra) =>
      Allowed expectedStatus newStatus → extra.metadata = none →
        ∀ r, w.videos.find? videoId = some r → r.status = expectedStatus →
          r.shown.2 = (.number 0, .string "")
  | .service (.updateProgress videoId percent message additionalMeta) =>
      w.statusOf videoId = some .processing ∧ KeepsProgress percent message additionalMeta
  | .retryFailedJob id => ∀ record, w.failedJobs.find? id = some record →
      record.retried = false → ∀ s, w.cached record.videoId = some s →
        s.shown = (.pending, .number 0, .string "")
  | .remove id userId => ∀ r, w.videos.find? id = some r → r.userId = userId →
      w.cached id = none
  | _ => True

section Keeping

variable {w w' : World} {videoId : String}

theorem keepsProgress_iff {percent : ℤ} {message : String} {additionalMeta : JsObject}
    (hproper : additionalMeta.Proper) : KeepsProgress percent message additionalMeta ↔
      ((progressMetadata percent message additionalMeta).stored.get "progressPercent").orElse
          (.number 0) = .number percent ∧
        ((progressMetadata percent message additionalMeta).stored.get "progressMessage").orElse
          (.string "") = .string message := by
  have hbase : JsObject.Proper
      [("progressPercent", .number percent), ("progressMessage", .string message)] := by
    simp [JsObject.Proper]
  unfold progressMetadata
  rw [JsObject.get_stored (JsObject.proper_spread hbase hproper),
    JsObject.get_stored (JsObject.proper_spread hbase hproper), JsObject.get_spread,
    JsObject.get_spread]
  unfold KeepsProgress
  apply and_congr
  · by_cases hhas : additionalMeta.has "progressPercent" = true
    · simp [hhas]
    · simp [hhas, JsObject.get, JsValue.orElse]
  · by_cases hhas : additionalMeta.has "progressMessage" = true
    · simp [hhas]
    · simp [hhas, JsObject.get, JsValue.orElse, List.lookup_cons]

/-- A progress update caches what the row shows exactly when it applies and keeps its own
percent and message. -/
theorem coherent_updateProgress {percent : ℤ} {message : String} {additionalMeta : JsObject}
    (hproper : additionalMeta.Proper) (now : ℕ) :
    ((w.updateVideo videoId (some .processing)
      (progressFields percent message additionalMeta)).1.setRedis (statusKey videoId)
        (some (.snapshot ⟨.processing, .number percent, .string message, now⟩))).Coherent
          videoId ↔
      w.statusOf videoId = some .processing ∧ KeepsProgress percent message additionalMeta := by
  unfold World.Coherent
  rw [cached_setRedis, if_pos rfl]
  change (∀ s, some (⟨.processing, .number percent, .string message, now⟩ : StatusSnapshot) =
    some s → ((w.updateVideo videoId (some .processing)
      (progressFields percent message additionalMeta)).1.videos.find? videoId).map Video.shown =
        some s.shown) ↔ _
  rw [World.find?_updateVideo, if_pos rfl, Option.map_map, keepsProgress_iff hproper,
    World.statusOf_eq_some_iff]
  cases hrow : w.videos.find? videoId with
  | none => simp
  | some r =>
      by_cases hstatus : r.status = .processing
      · have hshown := r.shown_assign (progressFields percent message additionalMeta) w.now
        simp only [progressFields, Option.getD_none] at hshown
        simp [hstatus, hshown, StatusSnapshot.shown, progressFields]
      · have hguard : ¬VideoStatus.processing = r.status := fun h ↦ hstatus h.symm
        simp only [Option.map_some, Function.comp_apply, Option.all_some, hguard, decide_false,
          Bool.false_eq_true, if_false]
        constructor
        · intro h
          have hshown := Option.some.inj (h _ rfl)
          exact absurd (congrArg Prod.fst hshown) hstatus
        · rintro ⟨⟨r', hr', hprocessing⟩, -⟩
          obtain rfl := Option.some.inj hr'
          exact absurd hprocessing hstatus

/-- A transition that is applied caches what the row shows, unless it writes no metadata
and the row has progress. -/
theorem coherent_transition {expectedStatus newStatus : VideoStatus} {extra : TransitionExtra}
    (hproper : ∀ o, extra.metadata = some (some o) → o.Proper) {r : Video}
    (hrow : w.videos.find? videoId = some r) (hstatus : r.status = expectedStatus) (now : ℕ) :
    ((w.updateVideo videoId (some expectedStatus) (extra.fields newStatus)).1.setRedis
      (statusKey videoId) (some (.snapshot
        ⟨newStatus, (extra.metadataAt "progressPercent").orElse (.number 0),
          (extra.metadataAt "progressMessage").orElse (.string ""), now⟩))).Coherent videoId ↔
      (extra.metadata = none → r.shown.2 = (.number 0, .string "")) := by
  unfold World.Coherent
  rw [cached_setRedis, if_pos rfl]
  change (∀ s, some (⟨newStatus, (extra.metadataAt "progressPercent").orElse (.number 0),
    (extra.metadataAt "progressMessage").orElse (.string ""), now⟩ : StatusSnapshot) = some s →
      ((w.updateVideo videoId (some expectedStatus)
        (extra.fields newStatus)).1.videos.find? videoId).map Video.shown = some s.shown) ↔ _
  rw [World.find?_updateVideo, if_pos rfl, hrow]
  have hshown := r.shown_assign (extra.fields newStatus) w.now
  simp only [TransitionExtra.fields, Option.getD_some] at hshown
  simp only [Option.map_some, hstatus, Option.all_some, decide_true, if_true,
    TransitionExtra.fields, hshown, StatusSnapshot.shown, TransitionExtra.metadataAt,
    Option.some.injEq, forall_eq']
  cases hmetadata : extra.metadata with
  | none => simp [JsValue.orElse]
  | some m =>
      cases m with
      | none => simp [JsValue.orElse]
      | some o => simp [JsObject.get_stored (hproper o hmetadata)]

theorem World.retry_eq (w : World) (record : FailedJob) :
    (w.retry record).redisWrites = w.redisWrites ∧ (∀ k, (w.retry record).cached k = w.cached k) ∧
      ∀ k, (w.retry record).videos.find? k = if k = record.videoId then
        (w.videos.find? k).map fun r ↦ (r.assign resetFields w.now).assign
          (queueJobIdFields ((w.updateVideo record.videoId none resetFields).1.queue.lastId + 1))
          (w.updateVideo record.videoId none resetFields).1.now
        else w.videos.find? k := by
  refine ⟨?_, fun k ↦ ?_, fun k ↦ ?_⟩
  · change (World.updateVideo _ _ _ _).1.redisWrites = _
    rw [redisWrites_updateVideo]
    exact redisWrites_updateVideo w _ _ _
  · change (World.updateVideo _ _ _ _).1.cached k = _
    rw [cached_updateVideo]
    exact cached_updateVideo w _ k _ _
  · change (World.updateVideo _ _ _ _).1.videos.find? k = _
    rw [World.find?_updateVideo]
    change (if k = record.videoId then
      ((w.updateVideo record.videoId none resetFields).1.videos.find? record.videoId).map _ else
        (w.updateVideo record.videoId none resetFields).1.videos.find? k) = _
    by_cases hk : k = record.videoId
    · subst hk
      simp only [if_true, World.find?_updateVideo, Option.all_none, Option.map_map]
      rfl
    · simp [hk, World.find?_updateVideo]

/-- A reset row agrees with the cache exactly when nothing else is cached for it. -/
theorem coherent_retry (hw : ∀ k, w.Coherent k) (record : FailedJob) :
    (∀ k, (w.retry record).Coherent k) ↔ ∀ s, w.cached record.videoId = some s →
      s.shown = (.pending, .number 0, .string "") := by
  obtain ⟨-, hcached, hrows⟩ := w.retry_eq record
  have heffect : Effect record.videoId w (w.retry record) :=
    ⟨fun k hk ↦ by rw [hrows k, if_neg hk], fun k _ ↦ hcached k⟩
  rw [heffect.coherent_iff hw]
  unfold World.Coherent
  rw [hcached, hrows, if_pos rfl]
  cases hrow : w.videos.find? record.videoId with
  | none =>
      constructor
      · intro _ s hs
        have hshown := hw record.videoId s hs
        rw [hrow] at hshown
        cases hshown
      · intro _ s hs
        have hshown := hw record.videoId s hs
        rw [hrow] at hshown
        cases hshown
  | some r =>
      have hshown (fields : VideoFields) (now now' : ℕ) (hstatus : fields.status = none)
          (hmetadata : fields.metadata = none) :
          ((r.assign resetFields now).assign fields now').shown =
            (.pending, .number 0, .string "") := by
        rw [Video.shown_assign, hstatus, hmetadata, Video.shown_assign]
        rfl
      simp only [Option.map_some, hshown (queueJobIdFields _) _ _ rfl rfl, Option.some.injEq]
      exact forall_congr' fun s ↦ imp_congr Iff.rfl eq_comm

theorem coherent_erase (hw : ∀ k, w.Coherent k) (videoId : String) :
    (∀ k, ({ w with videos := w.videos.erase videoId } : World).Coherent k) ↔
      w.cached videoId = none := by
  have hrows (k : String) : ({ w with videos := w.videos.erase videoId } : World).videos.find? k =
      if k = videoId then none else w.videos.find? k := Table.find?_erase _ _ _
  have heffect : Effect videoId w { w with videos := w.videos.erase videoId } :=
    ⟨fun k hk ↦ by rw [hrows k, if_neg hk], fun k _ ↦ rfl⟩
  rw [heffect.coherent_iff hw]
  unfold World.Coherent
  rw [hrows, if_pos rfl]
  change (∀ s, w.cached videoId = some s → _) ↔ _
  cases w.cached videoId with
  | none => simp
  | some s => simp

theorem Effect.coherent_of_evicted (h : Effect videoId w w') (hw : ∀ k, w.Coherent k)
    (hnone : w'.cached videoId = none) (k : String) : w'.Coherent k := by
  refine (h.coherent_iff hw).mpr ?_ k
  intro s hs
  rw [hnone] at hs
  cases hs

theorem coherent_cached (hw : ∀ k, w.Coherent k) {r : Video}
    (hrow : w.videos.find? videoId = some r) (now : ℕ) (k : String) :
    (w.setRedis (statusKey videoId) (some (.snapshot (r.snapshot now)))).Coherent k := by
  refine ((effect_setRedis w videoId _).coherent_iff hw).mpr ?_ k
  intro s hs
  rw [cached_setRedis, if_pos rfl] at hs
  obtain rfl := Option.some.inj hs
  change (w.videos.find? videoId).map Video.shown = _
  rw [hrow]
  rfl

theorem serve_map_eq_some {α β : Type} {p : Prog α} {f : α → β} {r : Except Thrown β}
    (h : w.serve (f <$> p) = some (w', r)) : ∃ x, w.serve p = some (w', x) := by
  rw [serve_map] at h
  obtain ⟨⟨w₁, x⟩, hp, heq⟩ := Option.map_eq_some_iff.mp h
  obtain ⟨rfl, -⟩ := Prod.mk.inj heq
  exact ⟨x, hp⟩

theorem coherent_serve_transition {expectedStatus newStatus : VideoStatus}
    {extra : TransitionExtra} {x : Except Thrown Bool} (hwrites : w.redisWrites = [])
    (hw : ∀ k, w.Coherent k) (hproper : ∀ o, extra.metadata = some (some o) → o.Proper)
    (hserve : w.serve (transitionStatus videoId expectedStatus newStatus extra) = some (w', x)) :
    (∀ k, w'.deliverAll.Coherent k) ↔
      Faithful w (.service (.transitionStatus videoId expectedStatus newStatus extra)) := by
  have hsame (hw' : w' = w) (hnone : Allowed expectedStatus newStatus →
      ∀ r, w.videos.find? videoId = some r → r.status ≠ expectedStatus) :
      (∀ k, w'.deliverAll.Coherent k) ↔
        Faithful w (.service (.transitionStatus videoId expectedStatus newStatus extra)) := by
    rw [hw', deliverAll_of_nil hwrites]
    exact iff_of_true hw fun hallowed _ r hr hstatus ↦ absurd hstatus (hnone hallowed r hr)
  rw [serve_transitionStatus] at hserve
  by_cases hallowed : Allowed expectedStatus newStatus
  · rw [if_pos hallowed] at hserve
    have haffected := w.updateVideo_affected videoId (some expectedStatus) (extra.fields newStatus)
    by_cases hzero : (w.updateVideo videoId (some expectedStatus) (extra.fields newStatus)).2 = 0
    · simp only [hzero, if_true, Option.some.injEq, Prod.mk.injEq] at hserve
      refine hsame (hserve.1.symm.trans (World.updateVideo_unaffected hzero)) ?_
      rintro - r hr rfl
      exact haffected.mpr ⟨r, hr, by simp⟩ hzero
    · simp only [hzero, if_false, Option.some.injEq, Prod.mk.injEq] at hserve
      obtain ⟨r, hr, hguard⟩ := haffected.mp hzero
      have hstatus := World.status_of_guard hguard
      rw [← hserve.1, deliverAll_of_write ((redisWrites_updateVideo ..).trans hwrites),
        (effect_writeThrough w videoId _ _ _).coherent_iff hw,
        coherent_transition hproper hr hstatus]
      constructor
      · intro h _ hnone r' hr' _
        obtain rfl := Option.some.inj (hr.symm.trans hr')
        exact h hnone
      · intro h hnone
        exact h hallowed hnone r hr hstatus
  · rw [if_neg hallowed] at hserve
    obtain ⟨rfl, -⟩ := Prod.mk.inj (Option.some.inj hserve)
    exact hsame rfl fun h ↦ absurd h hallowed

theorem coherent_serve_getCachedStatus {x : Except Thrown (Option StatusSnapshot)}
    (hwrites : w.redisWrites = []) (hw : ∀ k, w.Coherent k)
    (hserve : w.serve (getCachedStatus videoId) = some (w', x)) :
    ∀ k, w'.deliverAll.Coherent k := by
  rw [serve_getCachedStatus, serve_loadFromDb] at hserve
  split at hserve
  · obtain ⟨rfl, -⟩ := Prod.mk.inj (Option.some.inj hserve)
    rw [deliverAll_of_nil hwrites]
    exact hw
  · split at hserve
    · obtain ⟨rfl, -⟩ := Prod.mk.inj (Option.some.inj hserve)
      rw [deliverAll_of_nil hwrites]
      exact hw
    · rename_i r hrow
      obtain ⟨rfl, -⟩ := Prod.mk.inj (Option.some.inj hserve)
      have hwrites' : (w.setRedis (statusKey videoId)
        (some (.snapshot (r.snapshot w.now)))).redisWrites = [] := hwrites
      rw [deliverAll_of_nil hwrites']
      exact coherent_cached hw hrow w.now

theorem coherent_serve_retry {id : String} {x : Except Thrown RetryFailedJobDto}
    (hwrites : w.redisWrites = []) (hw : ∀ k, w.Coherent k)
    (hserve : w.serve (retryFailedJob id) = some (w', x)) :
    (∀ k, w'.deliverAll.Coherent k) ↔ Faithful w (.retryFailedJob id) := by
  obtain ⟨r, heq⟩ := serve_retryFailedJob w id
  rw [heq] at hserve
  cases hrecord : w.failedJobs.find? id with
  | none =>
      simp only [hrecord] at hserve
      obtain ⟨rfl, -⟩ := Prod.mk.inj (Option.some.inj hserve)
      rw [deliverAll_of_nil hwrites]
      refine iff_of_true hw fun record hfound ↦ ?_
      rw [hrecord] at hfound
      cases hfound
  | some record =>
      simp only [hrecord] at hserve
      by_cases hretried : record.retried = true
      · simp only [hretried, if_true] at hserve
        obtain ⟨rfl, -⟩ := Prod.mk.inj (Option.some.inj hserve)
        rw [deliverAll_of_nil hwrites]
        refine iff_of_true hw fun record' hfound hunretried ↦ ?_
        obtain rfl := Option.some.inj (hrecord.symm.trans hfound)
        rw [hretried] at hunretried
        cases hunretried
      · simp only [hretried, Bool.false_eq_true, if_false] at hserve
        obtain ⟨rfl, -⟩ := Prod.mk.inj (Option.some.inj hserve)
        rw [deliverAll_of_nil ((w.retry_eq record).1.trans hwrites), coherent_retry hw record]
        constructor
        · intro h record' hfound _
          obtain rfl := Option.some.inj (hrecord.symm.trans hfound)
          exact h
        · intro h
          exact h record hrecord (by simpa using hretried)

theorem coherent_serve_remove {id userId : String} {x : Except Thrown Unit}
    (hwrites : w.redisWrites = []) (hw : ∀ k, w.Coherent k)
    (hserve : w.serve (remove id userId) = some (w', x)) :
    (∀ k, w'.deliverAll.Coherent k) ↔ Faithful w (.remove id userId) := by
  rw [serve_remove] at hserve
  cases hrow : w.videos.find? id with
  | none =>
      simp only [hrow] at hserve
      obtain ⟨rfl, -⟩ := Prod.mk.inj (Option.some.inj hserve)
      rw [deliverAll_of_nil hwrites]
      refine iff_of_true hw fun r hr ↦ ?_
      rw [hrow] at hr
      cases hr
  | some row =>
      simp only [hrow] at hserve
      have hid : row.id = id := Table.key_of_find? hrow
      by_cases huser : row.userId = userId
      · rw [if_pos huser] at hserve
        obtain ⟨rfl, -⟩ := Prod.mk.inj (Option.some.inj hserve)
        have hwrites' : ({ w with videos := w.videos.erase row.id } : World).redisWrites = [] :=
          hwrites
        rw [deliverAll_of_nil hwrites', hid, coherent_erase hw id]
        constructor
        · intro h _ _ _
          exact h
        · intro h
          exact h row hrow huser
      · rw [if_neg huser] at hserve
        obtain ⟨rfl, -⟩ := Prod.mk.inj (Option.some.inj hserve)
        rw [deliverAll_of_nil hwrites]
        refine iff_of_true hw fun r hr hr' ↦ ?_
        obtain rfl := Option.some.inj (hrow.symm.trans hr)
        exact absurd hr' huser

/-- From an agreeing world a call leads to an agreeing world exactly when it is faithful. -/
theorem coherent_serve {config : StorageConfig} {task : Task} {r : Except Thrown Value}
    (hwrites : w.redisWrites = []) (hw : ∀ k, w.Coherent k) (huses : task.UsesStatus)
    (hproper : task.Proper) (hserve : w.serve (task.body config) = some (w', r)) :
    (∀ k, w'.deliverAll.Coherent k) ↔ Faithful w task := by
  cases task with
  | process job => exact huses.elim
  | createAndQueue userId dto => exact huses.elim
  | onVideoFailed event => exact huses.elim
  | retryFailedJob id =>
      obtain ⟨x, hserve⟩ := serve_map_eq_some hserve
      exact coherent_serve_retry hwrites hw hserve
  | remove id userId =>
      obtain ⟨x, hserve⟩ := serve_map_eq_some hserve
      exact coherent_serve_remove hwrites hw hserve
  | service call =>
      cases call with
      | update id userId dto => exact huses.elim
      | transitionStatus videoId expectedStatus newStatus extra =>
          obtain ⟨x, hserve⟩ := serve_map_eq_some hserve
          exact coherent_serve_transition hwrites hw hproper hserve
      | updateProgress videoId percent message additionalMeta =>
          obtain ⟨x, hserve⟩ := serve_map_eq_some hserve
          rw [serve_updateProgress] at hserve
          obtain ⟨rfl, -⟩ := Prod.mk.inj (Option.some.inj hserve)
          rw [deliverAll_of_write ((redisWrites_updateVideo ..).trans hwrites),
            (effect_writeThrough w videoId _ _ _).coherent_iff hw,
            coherent_updateProgress hproper]
          exact Iff.rfl
      | markFailed videoId errorMessage =>
          obtain ⟨x, hserve⟩ := serve_map_eq_some hserve
          rw [serve_markFailed] at hserve
          obtain ⟨rfl, -⟩ := Prod.mk.inj (Option.some.inj hserve)
          have hwrites' : ((w.updateVideo videoId none (failedFields errorMessage)).1.setRedis
            (statusKey videoId) none).redisWrites = [] :=
            (redisWrites_updateVideo ..).trans hwrites
          rw [deliverAll_of_nil hwrites']
          refine iff_of_true ((effect_writeThrough w videoId none _ none).coherent_of_evicted hw ?_)
            trivial
          rw [cached_setRedis, if_pos rfl]
      | evictCache videoId =>
          obtain ⟨x, hserve⟩ := serve_map_eq_some hserve
          rw [serve_evictCache] at hserve
          obtain ⟨rfl, -⟩ := Prod.mk.inj (Option.some.inj hserve)
          have hwrites' : (w.setRedis (statusKey videoId) none).redisWrites = [] := hwrites
          rw [deliverAll_of_nil hwrites']
          refine iff_of_true ((effect_setRedis w videoId none).coherent_of_evicted hw ?_) trivial
          rw [cached_setRedis, if_pos rfl]
      | getCachedStatus videoId =>
          obtain ⟨x, hserve⟩ := serve_map_eq_some hserve
          exact iff_of_true (coherent_serve_getCachedStatus hwrites hw hserve) trivial

end Keeping

/-! ## Sequences of calls -/

section Sequences

variable {config : StorageConfig} {w₀ w : World}
  {ts : List (Transition World (Task × ℕ))}

theorem faithful_wait (w : World) (ms : ℕ) (task : Task) :
    Faithful (w.wait ms) task ↔ Faithful w task := by
  cases task with
  | service call => cases call <;> rfl
  | _ => rfl

theorem coherent_step {w' : World} {call : Task × ℕ} (hwrites : w.redisWrites = [])
    (hw : ∀ k, w.Coherent k) (huses : call.1.UsesStatus) (hproper : call.1.Proper)
    (hstep : serveTask config w call = some w') :
    (∀ k, w'.Coherent k) ↔ Faithful w call.1 := by
  obtain ⟨⟨w₁, r⟩, hserve, rfl⟩ := Option.map_eq_some_iff.mp hstep
  rw [← faithful_wait w call.2]
  exact coherent_serve (w := w.wait call.2) hwrites hw huses hproper hserve

/-- In every sequence of calls the cache agrees with the rows after each call exactly when
each call is faithful where it is made. -/
theorem cache_agrees_iff (hwrites : w₀.redisWrites = []) (hagrees : ∀ v, w₀.Agrees v)
    (hrun : Run (serveTask config) w₀ ts w) (huses : ∀ t ∈ ts, t.act.1.UsesStatus)
    (hproper : ∀ t ∈ ts, t.act.1.Proper) :
    (∀ t ∈ ts, ∀ v, t.after.Agrees v) ↔ ∀ t ∈ ts, Faithful t.before t.act.1 := by
  simp only [agrees_iff_coherent] at hagrees ⊢
  -- As long as all calls agree, the next one does exactly when it is faithful.
  have hmain : w.redisWrites = [] ∧ ((∀ t ∈ ts, ∀ v, t.after.Coherent v) → ∀ v, w.Coherent v) ∧
      ((∀ t ∈ ts, ∀ v, t.after.Coherent v) ↔ ∀ t ∈ ts, Faithful t.before t.act.1) := by
    induction hrun with
    | nil => exact ⟨hwrites, fun _ ↦ hagrees, by simp⟩
    | @snoc ts w w' call head last ih =>
        obtain ⟨hw, hcoherent, hiff⟩ := ih (fun t ht ↦ huses t (List.mem_append_left _ ht))
          fun t ht ↦ hproper t (List.mem_append_left _ ht)
        have hstep (h : ∀ v, w.Coherent v) : (∀ v, w'.Coherent v) ↔ Faithful w call.1 :=
          coherent_step hw h (huses ⟨w, call, w'⟩ (by simp)) (hproper ⟨w, call, w'⟩ (by simp)) last
        have hwrites' : w'.redisWrites = [] := by
          obtain ⟨p, -, rfl⟩ := Option.map_eq_some_iff.mp last
          rfl
        refine ⟨hwrites', fun h ↦ h ⟨w, call, w'⟩ (by simp), ?_⟩
        simp only [List.forall_mem_append, List.forall_mem_singleton, hiff]
        constructor
        · rintro ⟨hbefore, hlast⟩
          exact ⟨hbefore, (hstep (hcoherent (hiff.mpr hbefore))).mp hlast⟩
        · rintro ⟨hbefore, hlast⟩
          exact ⟨hbefore, (hstep (hcoherent (hiff.mpr hbefore))).mpr hlast⟩
  exact hmain.2.2

theorem exists_serveTask (w : World) {call : Task × ℕ} (huses : call.1.UsesStatus) :
    ∃ w', serveTask config w call = some w' := by
  have hmap {α : Type} {p : Prog α} {f : α → Value} {w : World} (h : ∃ q, w.serve p = some q) :
      ∃ q, w.serve (f <$> p) = some q := by
    obtain ⟨q, hq⟩ := h
    exact ⟨_, by rw [serve_map, hq]; rfl⟩
  suffices h : ∃ q, (w.wait call.2).serve (call.1.body config) = some q by
    obtain ⟨q, hq⟩ := h
    exact ⟨_, Option.map_eq_some_iff.mpr ⟨q, hq, rfl⟩⟩
  generalize w.wait call.2 = w₁
  generalize call.1 = task at huses
  cases task with
  | process job => exact huses.elim
  | createAndQueue userId dto => exact huses.elim
  | onVideoFailed event => exact huses.elim
  | retryFailedJob id =>
      obtain ⟨r, hserve⟩ := serve_retryFailedJob w₁ id
      refine hmap ?_
      rw [hserve]
      split
      · exact ⟨_, rfl⟩
      · split <;> exact ⟨_, rfl⟩
  | remove id userId =>
      refine hmap ?_
      rw [serve_remove]
      split
      · exact ⟨_, rfl⟩
      · split <;> exact ⟨_, rfl⟩
  | service call =>
      cases call with
      | update id userId dto => exact huses.elim
      | transitionStatus videoId expectedStatus newStatus extra =>
          refine hmap ?_
          rw [serve_transitionStatus]
          split
          · simp only
            split <;> exact ⟨_, rfl⟩
          · exact ⟨_, rfl⟩
      | updateProgress videoId percent message additionalMeta =>
          exact hmap ⟨_, serve_updateProgress w₁ videoId percent message additionalMeta⟩
      | markFailed videoId errorMessage => exact hmap ⟨_, serve_markFailed w₁ videoId errorMessage⟩
      | evictCache videoId => exact hmap ⟨_, serve_evictCache w₁ videoId⟩
      | getCachedStatus videoId =>
          refine hmap ?_
          rw [serve_getCachedStatus, serve_loadFromDb]
          split
          · exact ⟨_, rfl⟩
          · split <;> exact ⟨_, rfl⟩

theorem run_deliverAll (config : StorageConfig) (s : State) : ∃ us s', Run (system config).step s us s' ∧
    s'.state = s.state.deliverAll := by
  generalize hwrites : s.state.redisWrites = writes
  induction writes generalizing s with
  | nil => exact ⟨[], s, .nil, (deliverAll_of_nil hwrites).symm⟩
  | cons p writes ih =>
      let w : World := { s.state.setRedis p.1 (some (.snapshot p.2)) with redisWrites := writes }
      have hstep : (system config).step s (.env (.deliver 0)) = some ⟨w, s.threads⟩ := by
        simp [Machine.step, system, envStep, hwrites, w]
      obtain ⟨us, s', hrun, hstate⟩ := ih ⟨w, s.threads⟩ rfl
      refine ⟨_, s', Run.cons hstep hrun, hstate.trans ?_⟩
      unfold World.deliverAll
      rw [hwrites]
      rfl

theorem run_of_serveTask {call : Task × ℕ} {w' : World} (hstep : serveTask config w call = some w')
    (threads : List Worker) :
    ∃ us s', Run (system config).step ⟨w, threads⟩ us s' ∧ s'.state = w' := by
  obtain ⟨⟨w₁, r⟩, hserve, rfl⟩ := Option.map_eq_some_iff.mp hstep
  obtain ⟨ts, hts, -⟩ := Program.evaluates_of_evalWith hserve
  have htick : (system config).step ⟨w, threads⟩ (.env (.tick call.2)) =
      some ⟨w.wait call.2, threads⟩ := by
    simp [Machine.step, system, envStep, World.wait]
  have hinvoke : (system config).step ⟨w.wait call.2, threads⟩ (.invoke call.1) =
      some ⟨w.wait call.2, threads ++ [(system config).start call.1]⟩ := rfl
  obtain ⟨us, s', t', hrun, -, hstate, -⟩ := Machine.run_of_evaluates (M := system config) hts
    (s := ⟨w.wait call.2, threads ++ [(system config).start call.1]⟩) (i := threads.length) rfl
    List.getElem?_concat_length rfl rfl
  obtain ⟨vs, s'', hdeliver, hstate'⟩ := run_deliverAll config s'
  exact ⟨_, s'', Run.cons htick (Run.cons hinvoke (hrun.append hdeliver)), by rw [hstate', hstate]⟩

theorem run_of_calls (hrun : Run (serveTask config) w₀ ts w) :
    ∃ us s, Run (system config).step ⟨w₀, []⟩ us s ∧ s.state = w := by
  induction hrun with
  | nil => exact ⟨[], ⟨w₀, []⟩, .nil, rfl⟩
  | snoc call head last ih =>
      obtain ⟨us, s, hus, rfl⟩ := ih
      obtain ⟨vs, s', hvs, hstate⟩ := run_of_serveTask last s.threads
      exact ⟨_, s', hus.append hvs, hstate⟩

end Sequences

/-! ## A row that is removed while it is cached -/

def readCall : Task × ℕ := (.service (.getCachedStatus "video"), 0)

def failCall : Task × ℕ := (.service (.markFailed "video" "error"), 0)

def removeCall : Task × ℕ := (.remove "video" "", 0)

theorem agrees_pendingWorld (v : String) : pendingWorld.Agrees v := by
  rw [agrees_iff_coherent]
  intro s hs
  cases hs

/-- Reads around a failure. -/
theorem cache_agrees_after_failure : ∃ (ts : List (Transition World (Task × ℕ))) (w : World),
    Run (serveTask ⟨"bucket", none, "region"⟩) pendingWorld ts w ∧
      w.statusOf "video" = some .failed ∧ (w.cached "video").isSome = true ∧
      ∀ t ∈ ts, ∀ v, t.after.Agrees v := by
  obtain ⟨ts, w, hrun, hacts, hobs⟩ := Run.exists_of_follow (serveTask ⟨"bucket", none, "region"⟩)
    pendingWorld [readCall, failCall, readCall]
    (fun p ↦ (p.2.statusOf "video", (p.2.cached "video").isSome))
    (some .failed, true) (by decide +kernel)
  obtain ⟨hstatus, hcached⟩ := Prod.mk.inj hobs
  have hcalls (t : Transition World (Task × ℕ)) (ht : t ∈ ts) :
      t.act = readCall ∨ t.act = failCall := by
    have hmem := hacts ▸ List.mem_map_of_mem (f := Transition.act) ht
    have hmem' : t.act = readCall ∨ t.act = failCall ∨ t.act = readCall := by simpa using hmem
    tauto
  refine ⟨ts, w, hrun, hstatus, hcached,
    (cache_agrees_iff rfl agrees_pendingWorld hrun ?_ ?_).mpr ?_⟩
  all_goals
    intro t ht
    rcases hcalls t ht with h | h <;> rw [h] <;> trivial

/-- A read fills the cache, the owner removes the video, and the next read still returns
a status. -/
theorem cache_outlives_row : ∃ (ts : List (Transition World (Task × ℕ))) (w : World),
    (∀ v, pendingWorld.Agrees v) ∧
      Run (serveTask ⟨"bucket", none, "region"⟩) pendingWorld ts w ∧
      ts.map Transition.act = [readCall, removeCall] ∧ (∀ t ∈ ts, t.act.1.UsesStatus) ∧
      (∀ t ∈ ts, t.act.1.Proper) ∧ ¬w.Agrees "video" := by
  obtain ⟨ts, w, hrun, hacts, hobs⟩ := Run.exists_of_follow (serveTask ⟨"bucket", none, "region"⟩)
    pendingWorld [readCall, removeCall]
    (fun p ↦ ((p.2.videos.find? "video").isSome, (p.2.cached "video").isSome))
    (false, true) (by decide +kernel)
  obtain ⟨hrow, hcached⟩ := Prod.mk.inj hobs
  have hcalls (t : Transition World (Task × ℕ)) (ht : t ∈ ts) :
      t.act = readCall ∨ t.act = removeCall := by
    have hmem := hacts ▸ List.mem_map_of_mem (f := Transition.act) ht
    simpa using hmem
  refine ⟨ts, w, agrees_pendingWorld, hrun, hacts, ?_, ?_, ?_⟩
  · intro t ht
    rcases hcalls t ht with h | h <;> rw [h] <;> trivial
  · intro t ht
    rcases hcalls t ht with h | h <;> rw [h] <;> trivial
  · intro h
    obtain ⟨s, hs⟩ := Option.isSome_iff_exists.mp hcached
    have hshown := agrees_iff_coherent.mp h s hs
    have hnone : w.videos.find? "video" = none := by simpa using hrow
    rw [hnone] at hshown
    cases hshown

end VideoGen
