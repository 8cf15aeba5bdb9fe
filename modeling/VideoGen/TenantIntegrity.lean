import VideoGen.AuthCoverage

/-!
# What a user can do to the videos of others

The videos service checks the owner of a row before it changes it; the dead
letter service does not know the caller.  So the requests of a user leave the
rows, jobs and records of all other users alone, except for a retry of a
record of somebody else's video.
-/

namespace VideoGen

namespace World

/-- The video exists and belongs to somebody else. -/
def Foreign (w : World) (userId videoId : String) : Prop :=
  ∃ r, w.videos.find? videoId = some r ∧ r.userId ≠ userId

/-- The rows of other users, the jobs for their videos and the records of their videos are
the same. -/
structure SameForOthers (userId : String) (w w' : World) : Prop where
  videos : ∀ v r, r.userId ≠ userId →
    (w.videos.find? v = some r ↔ w'.videos.find? v = some r)
  queue : ∀ jobId q, w.Foreign userId q.job.data.videoId →
    (w.queue.find? jobId = some q ↔ w'.queue.find? jobId = some q)
  failedJobs : ∀ id r, w.Foreign userId r.videoId →
    (w.failedJobs.find? id = some r ↔ w'.failedJobs.find? id = some r)

section Others

variable {userId videoId id : String} {w w' w'' : World}

theorem SameForOthers.refl (w : World) : w.SameForOthers userId w :=
  ⟨fun _ _ _ ↦ Iff.rfl, fun _ _ _ ↦ Iff.rfl, fun _ _ _ ↦ Iff.rfl⟩

theorem SameForOthers.foreign_iff (h : w.SameForOthers userId w') :
    w.Foreign userId videoId ↔ w'.Foreign userId videoId := by
  constructor
  · rintro ⟨r, hr, huser⟩
    exact ⟨r, (h.videos videoId r huser).mp hr, huser⟩
  · rintro ⟨r, hr, huser⟩
    exact ⟨r, (h.videos videoId r huser).mpr hr, huser⟩

theorem SameForOthers.trans (h : w.SameForOthers userId w') (h' : w'.SameForOthers userId w'') :
    w.SameForOthers userId w'' where
  videos v r hr := (h.videos v r hr).trans (h'.videos v r hr)
  queue jobId q hq := (h.queue jobId q hq).trans (h'.queue jobId q (h.foreign_iff.mp hq))
  failedJobs id r hr := (h.failedJobs id r hr).trans (h'.failedJobs id r (h.foreign_iff.mp hr))

/-- The record, if it exists, is not of somebody else's video. -/
def OwnRecord (w : World) (userId id : String) : Prop :=
  ∀ record, w.failedJobs.find? id = some record → ¬w.Foreign userId record.videoId

theorem SameForOthers.ownRecord (h : w.SameForOthers userId w') (hown : w.OwnRecord userId id) :
    w'.OwnRecord userId id := by
  intro record hrecord hforeign
  have hforeign := h.foreign_iff.mpr hforeign
  exact hown record ((h.failedJobs id record hforeign).mpr hrecord) hforeign

end Others

end World

/-! ## Calls -/

def Call.Harmless (userId : String) (w : World) : Call → Prop
  | .insertVideo none fields => fields.userId = some userId
  | .insertVideo (some _) _ => False
  | .updateVideo id _ fields => ¬w.Foreign userId id ∧ fields.userId = none
  | .deleteVideo id => ¬w.Foreign userId id
  | .insertFailedJob _ => False
  | .markRetried id _ _ => w.OwnRecord userId id
  | .queueAdd _ data _ => ¬w.Foreign userId data.videoId
  | _ => True

namespace World

variable {userId : String} {w w' : World} {c : Call} {f : Fate}

theorem sameForOthers_of_row (id : String) (hrow : ¬w.Foreign userId id)
    (hrow' : ¬w'.Foreign userId id)
    (hvideos : ∀ v, v ≠ id → w'.videos.find? v = w.videos.find? v)
    (hqueue : w'.queue = w.queue) (hfailedJobs : w'.failedJobs = w.failedJobs) :
    w.SameForOthers userId w' where
  videos v r hr := by
    by_cases hv : v = id
    · subst hv
      refine iff_of_false (fun h ↦ hrow ⟨r, h, hr⟩) (fun h ↦ hrow' ⟨r, h, hr⟩)
    · rw [hvideos v hv]
  queue jobId q _ := by rw [hqueue]
  failedJobs id r _ := by rw [hfailedJobs]

theorem sameForOthers_of_eq (hvideos : w'.videos = w.videos) (hqueue : w'.queue = w.queue)
    (hfailedJobs : w'.failedJobs = w.failedJobs) : w.SameForOthers userId w' where
  videos v r _ := by rw [hvideos]
  queue jobId q _ := by rw [hqueue]
  failedJobs id r _ := by rw [hfailedJobs]

theorem sameForOthers_of_answer {a : Answer} {x : c.Reply} (hc : c.Harmless userId w)
    (h : w.answer c a = some (w', x)) : w.SameForOthers userId w' := by
  obtain ⟨hvideos, hfailedJobs, hqueue, -⟩ := answer_frame h
  cases c with
  | insertVideo id fields =>
      cases id with
      | some id => exact hc.elim
      | none =>
          obtain ⟨id, rfl, hfresh, hfind⟩ := answer_insertVideo h
          apply sameForOthers_of_row id
          · rintro ⟨r, hr, -⟩
            rw [hfresh] at hr
            cases hr
          · rintro ⟨r, hr, huser⟩
            rw [hfind, if_pos rfl] at hr
            obtain rfl := Option.some.inj hr
            have hfields : fields.userId = some userId := hc
            simp [Video.create, hfields] at huser
          · intro v hv
            rw [hfind, if_neg hv]
          · exact hqueue rfl
          · exact hfailedJobs rfl
  | updateVideo id expected fields =>
      obtain ⟨hforeign, hfields⟩ := hc
      obtain ⟨hw, -⟩ := answer_updateVideo h
      have hfind (k : String) := hw ▸ find?_updateVideo w id expected fields k
      refine sameForOthers_of_row _ hforeign ?_ ?_ (hqueue rfl) (hfailedJobs rfl)
      · rintro ⟨r, hr, huser⟩
        rw [hfind, if_pos rfl] at hr
        obtain ⟨r₀, hr₀, rfl⟩ := Option.map_eq_some_iff.mp hr
        refine hforeign ⟨r₀, hr₀, ?_⟩
        split at huser
        · simpa [Video.assign, hfields] using huser
        · exact huser
      · intro v hv
        rw [hfind, if_neg hv]
  | deleteVideo id =>
      have hfind := answer_deleteVideo h
      refine sameForOthers_of_row _ hc ?_ ?_ (hqueue rfl) (hfailedJobs rfl)
      · rintro ⟨r, hr, -⟩
        rw [hfind, if_pos rfl] at hr
        cases hr
      · intro v hv
        rw [hfind, if_neg hv]
  | insertFailedJob fields => exact hc.elim
  | markRetried id retriedAt retryJobId =>
      obtain rfl := answer_markRetried h
      refine ⟨fun v r _ ↦ Iff.rfl, fun jobId q _ ↦ Iff.rfl, fun k r hr ↦ ?_⟩
      have hfind : (w.markRetried id retriedAt retryJobId).failedJobs.find? k =
          if k = id then (w.failedJobs.find? k).map (·.markRetried retriedAt retryJobId)
          else w.failedJobs.find? k :=
            Table.find?_modify w.failedJobs id (·.markRetried retriedAt retryJobId) (fun _ ↦ rfl) k
      rw [hfind]
      split
      · rename_i hk
        subst hk
        constructor
        · intro h
          exact absurd hr (hc r h)
        · intro h
          obtain ⟨r₀, hr₀, rfl⟩ := Option.map_eq_some_iff.mp h
          exact absurd hr (hc r₀ hr₀)
      · rfl
  | queueAdd name data opts =>
      obtain ⟨hadd, -⟩ := answer_queueAdd h
      refine ⟨fun v r _ ↦ by rw [hvideos rfl], fun jobId q hq ↦ ?_, fun k r _ ↦ by
        rw [hfailedJobs rfl]⟩
      rw [hadd, Queue.find?_add]
      split
      · rename_i hid
        constructor
        · intro hfind
          have hle := Queue.le_lastId hfind
          omega
        · intro hfind
          obtain rfl := Option.some.inj hfind
          exact absurd hq hc
      · rfl
  | _ => exact sameForOthers_of_eq (hvideos rfl) (hqueue rfl) (hfailedJobs rfl)

theorem sameForOthers_of_exec {r : Except Thrown c.Reply} (hc : c.Harmless userId w)
    (h : w.exec c f = some (w', r)) : w.SameForOthers userId w' := by
  rcases exec_effect h with ⟨-, rfl, -⟩ | ⟨-, a, x, hx, -⟩
  · exact .refl _
  · exact sameForOthers_of_answer hc hx

/-! ## Methods -/

section Confined

variable {α β : Type}

/-- The program makes harmless calls only, and ends in `Post`. -/
def Confined (w : World) (userId : String) (p : Prog α)
    (Post : World → Except Thrown α → Prop) : Prop :=
  p.Keeps (Program.guarded World.exec (Call.Harmless userId)) Post w

theorem confined_bind {p : Prog α} {g : α → Prog β} {Post : World → Except Thrown β → Prop}
    (h : w.Confined userId p fun w r ↦ match r with
      | .ok a => w.Confined userId (g a) Post
      | .error e => Post w (.error e)) : w.Confined userId (p >>= g) Post := by
  refine Program.keeps_bind.mpr (Program.Keeps.mono ?_ h)
  intro w r hr
  cases r with
  | ok a => exact hr
  | error e => exact hr

theorem confined_call {Post : World → Except Thrown c.Reply → Prop}
    (hc : c.Harmless userId w)
    (h : ∀ f w' r, w.exec c f = some (w', r) → w.SameForOthers userId w' → Post w' r) :
    w.Confined userId (ask c) Post := by
  refine Program.keeps_perform.mpr ⟨hc, ?_⟩
  rintro r w' ⟨f, hexec⟩
  exact h f w' r hexec (sameForOthers_of_exec hc hexec)

theorem confined_selectVideo {id : String} {Post : World → Except Thrown (Option Video) → Prop}
    (hok : Post w (.ok (w.videos.find? id))) (herr : ∀ e, Post w (.error e)) :
    w.Confined userId (selectVideo id) Post := by
  apply confined_call
  case hc => trivial
  intro f w' r hexec _
  rcases exec_cases hexec with ⟨a, x, -, hx, rfl⟩ | ⟨e, -, -, rfl, rfl⟩ | ⟨a, e, x, -, -, hx, rfl⟩
  · obtain ⟨rfl, rfl⟩ := answer_selectVideo hx
    exact hok
  · exact herr e
  · obtain ⟨rfl, -⟩ := answer_selectVideo hx
    exact herr e

theorem confined_selectFailedJob {id : String}
    {Post : World → Except Thrown (Option FailedJob) → Prop}
    (hok : Post w (.ok (w.failedJobs.find? id))) (herr : ∀ e, Post w (.error e)) :
    w.Confined userId (ask (.selectFailedJob id)) Post := by
  apply confined_call
  case hc => trivial
  intro f w' r hexec _
  rcases exec_cases hexec with ⟨a, x, -, hx, rfl⟩ | ⟨e, -, -, rfl, rfl⟩ | ⟨a, e, x, -, -, hx, rfl⟩
  · obtain ⟨rfl, rfl⟩ := answer_selectFailedJob hx
    exact hok
  · exact herr e
  · obtain ⟨rfl, -⟩ := answer_selectFailedJob hx
    exact herr e

theorem confined_findOneForUser {id : String} {Post : World → Except Thrown Video → Prop}
    (hok : ∀ r, w.videos.find? id = some r → r.userId = userId → Post w (.ok r))
    (herr : ∀ e, Post w (.error e)) :
    w.Confined userId (findOneForUser id userId) Post := by
  apply confined_bind
  apply confined_selectVideo
  · cases hfind : w.videos.find? id with
    | none => exact herr _
    | some r =>
        simp only
        split
        · rename_i huser
          exact hok r hfind huser
        · exact herr _
  · exact herr

theorem not_foreign {id : String} {r : Video} (hr : w.videos.find? id = some r)
    (huser : r.userId = userId) : ¬w.Foreign userId id := by
  rintro ⟨r', hr', hne⟩
  obtain rfl := Option.some.inj (hr.symm.trans hr')
  exact hne huser

theorem confined_createAndQueue (dto : CreateVideoDto) :
    w.Confined userId (createAndQueue userId dto) fun _ _ ↦ True := by
  apply confined_bind
  apply confined_call (c := .insertVideo none (dto.fields userId)) rfl
  intro f w₁ r hinsert _
  cases r with
  | error e => trivial
  | ok saved =>
      obtain ⟨-, a, hanswer⟩ := exec_ok hinsert
      obtain ⟨id, rfl, -, hfind⟩ := answer_insertVideo hanswer
      have hown : ¬w₁.Foreign userId id := by
        apply not_foreign (r := Video.create id (dto.fields userId) w.now)
        · rw [hfind, if_pos rfl]
        · rfl
      apply confined_bind
      apply confined_call
      case hc => exact hown
      intro f₂ w₂ r₂ _ hsame₂
      cases r₂ with
      | error e => trivial
      | ok jobId =>
          apply confined_bind
          apply confined_call
          case hc => exact ⟨fun h ↦ hown (hsame₂.foreign_iff.mpr h), rfl⟩
          intro f₃ w₃ r₃ _ _
          cases r₃ with
          | error e => trivial
          | ok n =>
              apply confined_bind
              apply confined_call
              case hc => trivial
              intro f₄ w₄ r₄ _ _
              cases r₄ <;> trivial

theorem confined_update (id : String) (dto : UpdateVideoDto) :
    w.Confined userId (VideoGen.update id userId dto) fun _ _ ↦ True := by
  apply confined_bind
  apply confined_findOneForUser
  · intro r hr huser
    have hid : r.id = id := Table.key_of_find? hr
    apply confined_bind
    apply confined_selectVideo
    · simp only [hid, hr]
      split
      · trivial
      · apply confined_bind
        refine confined_call ⟨not_foreign hr huser, ?_⟩ ?_
        · simp [Video.changes]
        · intro f w' n _ _
          cases n <;> trivial
    · intro _
      trivial
  · intro _
    trivial

theorem confined_remove (id : String) :
    w.Confined userId (VideoGen.remove id userId) fun _ _ ↦ True := by
  apply confined_bind
  apply confined_findOneForUser
  · intro r hr huser
    have hid : r.id = id := Table.key_of_find? hr
    apply confined_call
    · rw [hid]
      exact not_foreign hr huser
    · intro _ _ _ _ _
      trivial
  · intro _
    trivial

theorem confined_retryFailedJob {id : String}
    (h : ∀ record, w.failedJobs.find? id = some record → record.retried = false →
      ¬w.Foreign userId record.videoId) :
    w.Confined userId (VideoGen.retryFailedJob id) fun _ _ ↦ True := by
  apply confined_bind
  apply confined_selectFailedJob
  · cases hfind : w.failedJobs.find? id with
    | none => trivial
    | some record =>
        simp only
        split
        · trivial
        · rename_i hretried
          have hown := h record hfind (by simpa using hretried)
          have hrecord : w.OwnRecord userId id := by
            intro record' hrecord'
            obtain rfl := Option.some.inj (hfind.symm.trans hrecord')
            exact hown
          apply confined_bind
          apply confined_call
          case hc => exact ⟨hown, rfl⟩
          intro f₁ w₁ r₁ _ h₁
          cases r₁ with
          | error e => trivial
          | ok n =>
              have hown₁ : ¬w₁.Foreign userId record.videoId := fun hf ↦
                hown (h₁.foreign_iff.mpr hf)
              apply confined_bind
              apply confined_call
              case hc => exact hown₁
              intro f₂ w₂ r₂ _ h₂
              cases r₂ with
              | error e => trivial
              | ok jobId =>
                  have h₀₂ := h₁.trans h₂
                  apply confined_bind
                  apply confined_call
                  case hc => trivial
                  intro f₃ w₃ r₃ _ h₃
                  cases r₃ with
                  | error e => trivial
                  | ok now =>
                      have h₀₃ := h₀₂.trans h₃
                      apply confined_bind
                      apply confined_call
                      case hc => exact ⟨fun hf ↦ hown (h₀₃.foreign_iff.mpr hf), rfl⟩
                      intro f₄ w₄ r₄ _ h₄
                      cases r₄ with
                      | error e => trivial
                      | ok n =>
                          apply confined_bind
                          apply confined_call
                          case hc => exact (h₀₃.trans h₄).ownRecord hrecord
                          intro f₅ w₅ r₅ _ _
                          cases r₅ <;> trivial
  · intro _
    trivial

theorem confined_map {p : Prog α} {g : α → β} (h : w.Confined userId p fun _ _ ↦ True) :
    w.Confined userId (g <$> p) fun _ _ ↦ True :=
  Program.keeps_map.mpr h

def Quiet (userId : String) (p : Prog α) : Prop :=
  ∀ w : World, w.Confined userId p fun _ _ ↦ True

theorem quiet_bind {p : Prog α} {g : α → Prog β} (hp : Quiet userId p)
    (hg : ∀ a, Quiet userId (g a)) : Quiet userId (p >>= g) := by
  intro w
  apply confined_bind
  refine Program.Keeps.mono ?_ (hp w)
  intro w' r _
  cases r with
  | ok a => exact hg a w'
  | error e => trivial

theorem quiet_call (hc : ∀ w, c.Harmless userId w) : Quiet userId (ask c) := by
  intro w
  apply confined_call (hc w)
  intros
  trivial

theorem quiet_getPresignedDownloadUrl (key : String) (expiresIn : JsNumber) :
    Quiet userId (getPresignedDownloadUrl key expiresIn) := by
  intro w
  refine Program.keeps_catchWith.mpr (confined_call ?_ ?_)
  · trivial
  · intro _ _ r _ _
    cases r <;> trivial

theorem quiet_expiry (ttl : JsNumber) (g : JsNumber → β) : Quiet userId (do
    let now ← dateNow
    let expiresAt ← toExpiryDate now ttl
    pure (g expiresAt)) := by
  apply quiet_bind
  · exact quiet_call fun _ ↦ trivial
  · intro now
    apply quiet_bind
    · unfold toExpiryDate
      split <;> (intro _; trivial)
    · intro _ _
      trivial

theorem quiet_videoResult (extractS3Key : String → String) (video : Video)
    (expiresIn : JsNumber) : Quiet userId (videoResult extractS3Key video expiresIn) := by
  unfold videoResult
  split
  · apply quiet_bind (quiet_getPresignedDownloadUrl _ _)
    intro downloadUrl
    simp only
    split
    · apply quiet_bind
      · intro w
        exact confined_map (quiet_getPresignedDownloadUrl _ _ w)
      · intro thumbnailUrl
        exact quiet_expiry _ _
    · apply quiet_bind
      · intro _
        trivial
      · intro thumbnailUrl
        exact quiet_expiry _ _
  · intro _
    trivial

theorem confined_getVideoResult (extractS3Key : String → String) (id : String)
    (expiresIn : JsNumber) :
    w.Confined userId (getVideoResult extractS3Key id userId expiresIn) fun _ _ ↦ True := by
  apply confined_bind
  apply confined_findOneForUser
  · intro r _ _
    exact quiet_videoResult extractS3Key r expiresIn w
  · intro _
    trivial

end Confined

end World

/-! ## Requests of one user -/

/-- An authenticated request to the videos or to the queue controller, with the way its
calls are settled. -/
inductive UserRequest where
  | videos (route : VideosRoute) (fates : List Fate)
  | queue (route : QueueRoute) (fates : List Fate)

def UserRequest.route : UserRequest → Route
  | .videos route _ => .videos route
  | .queue route _ => .queue route

def UserRequest.fates : UserRequest → List Fate
  | .videos _ fates => fates
  | .queue _ fates => fates

/-- The request retries a record, not retried before, of somebody else's video. -/
def Api.RetriesForeign (s : Api) (user : SafeUser) (request : UserRequest) : Prop :=
  ∃ id fates record, request = .queue (.retryFailedJob id) fates ∧
    s.world.failedJobs.find? id = some record ∧ record.retried = false ∧
    s.world.Foreign user.id record.videoId

section Requests

variable (lib : Libraries) (config : JwtConfig) (extractS3Key : String → String)

/-- The method runs with the user that the guards have authenticated. -/
def Api.serveUser (user : SafeUser) (s : Api) (request : UserRequest) : Option Api :=
  s.run lib (request.route.method extractS3Key config (some user)) request.fates []

end Requests

section Requests

variable {lib : Libraries} {config : JwtConfig} {extractS3Key : String → String}
  {user : SafeUser} {s s' : Api}

/-- Every method but the retry of a foreign record is confined to what the user owns. -/
theorem confined_method {request : UserRequest} (h : ¬s.RetriesForeign user request) {α : Type}
    {body : Prog α} (hbody : request.route.method extractS3Key config (some user) = .stores body) :
    s.world.Confined user.id body fun _ _ ↦ True := by
  cases request with
  | videos route fates =>
      cases route with
      | create dto =>
          cases hbody
          exact World.confined_map (World.confined_createAndQueue dto)
      | findAll status page limit => cases hbody
      | getStatus id =>
          cases hbody
          apply World.confined_map
          apply World.confined_findOneForUser
          · intros
            trivial
          · intros
            trivial
      | getResult id expiresIn =>
          cases hbody
          exact World.confined_getVideoResult extractS3Key id expiresIn
      | update id dto =>
          cases hbody
          exact World.confined_map (World.confined_update id dto)
      | remove id =>
          cases hbody
          exact World.confined_remove id
  | queue route fates =>
      cases route with
      | getJobStatus jobId => cases hbody
      | listFailedJobs page limit => cases hbody
      | retryFailedJob id =>
          cases hbody
          apply World.confined_retryFailedJob
          intro record hrecord hretried hforeign
          exact h ⟨id, fates, record, rfl, hrecord, hretried, hforeign⟩
      | getFailedJob id =>
          cases hbody
          apply World.confined_bind
          apply World.confined_selectFailedJob
          · cases s.world.failedJobs.find? id <;> trivial
          · intro _
            trivial

theorem serveUser_sameForOthers {request : UserRequest}
    (hstep : s.serveUser lib config extractS3Key user request = some s')
    (h : ¬s.RetriesForeign user request) : s.world.SameForOthers user.id s'.world := by
  unfold Api.serveUser at hstep
  cases hmethod : request.route.method extractS3Key config (some user) with
  | stores body =>
      rw [hmethod] at hstep
      obtain ⟨⟨w, r⟩, heval, rfl⟩ := Option.map_eq_some_iff.mp hstep
      obtain ⟨ts, heval, -⟩ := Program.evaluates_of_evalAll heval
      exact heval.related .refl World.SameForOthers.trans World.sameForOthers_of_exec
        (confined_method h hmethod)
  | accounts body =>
      cases request with
      | videos route fates => cases route <;> cases hmethod
      | queue route fates => cases route <;> cases hmethod
  | query =>
      rw [hmethod] at hstep
      rw [Api.run_query hstep]
      exact .refl _

/-- When a user never retries a record of somebody else's video, nothing that others own
changes, whatever the user asks for. -/
theorem others_untouched {ts : List (Transition Api UserRequest)}
    (hrun : Run (Api.serveUser lib config extractS3Key user) s ts s')
    (h : ∀ t ∈ ts, ¬t.before.RetriesForeign user t.act) :
    s.world.SameForOthers user.id s'.world :=
  hrun.invariant (fun s' ↦ s.world.SameForOthers user.id s'.world) (.refl _)
    fun t ht hstep hbefore ↦ hbefore.trans (serveUser_sameForOthers hstep (h t ht))

end Requests

/-! ## Two users -/

def aliceUser : SafeUser where
  id := "alice"
  firstName := "Alice"
  lastName := "A"
  email := "alice@example.com"
  username := none
  role := .user
  isActive := true
  createdAt := 0
  updatedAt := 0

def bobApi : Api where
  world :=
    { World.empty with
      videos := Table.single (Video.create "video" { status := some .failed, userId := some "bob" } 0)
      failedJobs := Table.single failedRecord }
  accounts := AuthState.empty

def aliceRequests : List UserRequest :=
  [.videos (.create ⟨"title", "prompt", none, none, none, none, none⟩)
      [.ok (.uuid "other video"), .ok .unit, .ok .unit, .ok .unit],
    .videos (.remove "video") [.ok .unit]]

theorem bob_untouched : ∃ (ts : List (Transition Api UserRequest)) (s : Api),
    Run (Api.serveUser aliceLibraries aliceConfig id aliceUser) bobApi ts s ∧
      ts.map Transition.act = aliceRequests ∧
      s.world.statusOf "other video" = some .pending ∧
      bobApi.world.SameForOthers "alice" s.world := by
  obtain ⟨ts, s, hrun, hacts, hstatus⟩ := Run.exists_of_follow
    (Api.serveUser aliceLibraries aliceConfig id aliceUser) bobApi aliceRequests
    (fun p ↦ p.2.world.statusOf "other video") (some .pending) (by decide +kernel)
  refine ⟨ts, s, hrun, hacts, hstatus, others_untouched hrun ?_⟩
  rintro t ht ⟨id, fates, record, hact, -⟩
  have hmem : t.act ∈ aliceRequests := hacts ▸ List.mem_map_of_mem ht
  rw [hact] at hmem
  simp [aliceRequests] at hmem

/-- Alice retries the record of Bob's video: his row goes back to pending and a job for it is
enqueued. -/
theorem bob_retried : ∃ (ts : List (Transition Api UserRequest)) (s : Api),
    Run (Api.serveUser aliceLibraries aliceConfig id aliceUser) bobApi ts s ∧
      ts.map Transition.act =
        [.queue (.retryFailedJob "record") (List.replicate 6 (.ok .unit))] ∧
      bobApi.world.Foreign "alice" "video" ∧
      bobApi.world.statusOf "video" = some .failed ∧
      s.world.statusOf "video" = some .pending ∧
      (s.world.queue.find? 1).map (fun q ↦ q.job.data.videoId) = some "video" ∧
      (s.world.failedJobs.find? "record").map FailedJob.retried = some true ∧
      ¬bobApi.world.SameForOthers "alice" s.world := by
  obtain ⟨ts, s, hrun, hacts, hobs⟩ := Run.exists_of_follow
    (Api.serveUser aliceLibraries aliceConfig id aliceUser) bobApi
    [.queue (.retryFailedJob "record") (List.replicate 6 (.ok .unit))]
    (fun p ↦ decide (p.2.world.statusOf "video" = some .pending ∧
      (p.2.world.queue.find? 1).map (fun q ↦ q.job.data.videoId) = some "video" ∧
      (p.2.world.failedJobs.find? "record").map FailedJob.retried = some true))
    true (by decide +kernel)
  obtain ⟨hstatus, hjob, hrecord⟩ := of_decide_eq_true hobs
  refine ⟨ts, s, hrun, hacts, ⟨_, rfl, by decide⟩, by decide +kernel, hstatus, hjob, hrecord, ?_⟩
  intro hsame
  obtain ⟨r, hr, hpending⟩ := World.statusOf_eq_some_iff.mp hstatus
  have hrow := (hsame.videos "video" (Video.create "video"
    { status := some .failed, userId := some "bob" } 0) (by decide)).mp rfl
  obtain rfl := Option.some.inj (hrow.symm.trans hr)
  cases hpending

end VideoGen
