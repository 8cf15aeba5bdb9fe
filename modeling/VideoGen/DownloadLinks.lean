import VideoGen.ObjectKeys
import VideoGen.ProgressReports
import VideoGen.RowWrites
import VideoGen.StoredFiles

/-!
# Download links

A result request signs the key of the row's video url, and of its thumbnail
url if there is one.  Both came from the answer to a status query: the video
url is the uploaded copy's, unless the provider says that it has stored the
video itself, and the thumbnail is never uploaded.
-/

namespace VideoGen

/-! ## What an execution writes on completion -/

/-- The video that an execution has got from the provider. -/
structure Rendition where
  /-- What the provider answered to the last status query. -/
  answer : Option GenerateVideoResult := none
  /-- The file was uploaded since. -/
  uploaded : Bool := false

namespace Rendition

def next (x : Rendition) : (c : Call) → Except Thrown c.Reply → Rendition
  | .getGenerationStatus _, .ok (result : GenerateVideoResult) => ⟨some result, false⟩
  | .s3Put _ _ _, .ok _ => { x with uploaded := true }
  | _, _ => x

/-- The row is completed with the urls of the last answer. -/
def Admits (config : StorageConfig) (job : Job) (x : Rendition) : Call → Prop
  | .updateVideo _ _ fields => fields.status = some .completed → ∃ result url,
      x.answer = some result ∧ truthy result.videoUrl = some url ∧
        fields = (completeExtra (storedUrl config job result url)
          result.thumbnailUrl).fields .completed ∧
        (result.alreadyStored ≠ some true → x.uploaded = true)
  | _ => True

end Rendition

def renditionProtocol (config : StorageConfig) (job : Job) : Protocol interface Rendition where
  Allows := Rendition.Admits config job
  Possible := Call.Possible
  next := Rendition.next

def Call.Unrelated : Call → Prop
  | .updateVideo _ _ fields => fields.status ≠ some .completed
  | .getGenerationStatus _ => False
  | .s3Put _ _ _ => False
  | _ => True

section Conformance

variable {config : StorageConfig} {job : Job} {x : Rendition} {α β : Type}

theorem Rendition.admits_unrelated {c : Call} (hc : c.Unrelated) : x.Admits config job c := by
  cases c with
  | updateVideo videoId expected fields => exact fun h ↦ absurd h hc
  | _ => trivial

theorem Rendition.next_unrelated {c : Call} (hc : c.Unrelated) (r : Except Thrown c.Reply) :
    x.next c r = x := by
  cases c <;> first | rfl | exact hc.elim

abbrev Renders (config : StorageConfig) (job : Job) (p : Prog α) (x : Rendition) : Prop :=
  p.Keeps (renditionProtocol config job).spec (fun _ _ ↦ True) x

theorem renders_unrelated {p : Prog α} (hp : p.Calls Call.Unrelated) :
    p.Keeps (renditionProtocol config job).spec (fun x' _ ↦ x' = x) x :=
  hp.keeps (fun _ hc ↦ Rendition.admits_unrelated hc) fun _ r hc ↦
    Rendition.next_unrelated hc r

theorem renders_after {p : Prog α} {f : α → Prog β} (hp : p.Calls Call.Unrelated)
    (hf : ∀ a, Renders config job (f a) x) : Renders config job (p >>= f) x :=
  hp.keeps_bind (fun _ hc ↦ Rendition.admits_unrelated hc)
    (fun _ r hc ↦ Rendition.next_unrelated hc r) hf fun _ ↦ trivial

theorem unrelated_updateProgress (videoId : String) (percent : ℤ) (message : String)
    (additionalMeta : JsObject) :
    (updateProgress videoId percent message additionalMeta).Calls Call.Unrelated :=
  calls_updateProgress trivial (fun _ _ ↦ trivial) (by simp [Call.Unrelated, progressFields])

/-- The upload leaves the answer alone, and if it returns, a file was uploaded. -/
theorem renders_withRetryFrom (key contentType : String) (buffer : Bytes)
    (maxAttempts remaining attempt : ℕ) (lastError : Thrown) :
    (withRetryFrom (ask (.s3Put key buffer contentType)) maxAttempts attempt lastError
      remaining).Keeps (renditionProtocol config job).spec
      (fun x' r ↦ x'.answer = x.answer ∧ ∀ a, r = .ok a → x'.uploaded = true) x := by
  induction remaining generalizing attempt lastError with
  | zero => exact ⟨rfl, by rintro a ⟨⟩⟩
  | succ remaining ih =>
      refine Program.keeps_bind.mpr (Program.keeps_attempt.mpr (keeps_ask.mpr ⟨trivial, ?_⟩))
      rintro (error | value) -
      · change Program.Keeps _ _ (if attempt < maxAttempts then _ else _) x
        split
        · exact Program.Calls.keeps_bind (calls_ask trivial)
            (fun _ hc ↦ Rendition.admits_unrelated hc)
            (fun _ r hc ↦ Rendition.next_unrelated hc r) (fun _ ↦ ih _ _)
            fun _ ↦ ⟨rfl, by rintro a ⟨⟩⟩
        · exact ih _ _
      · exact ⟨rfl, fun _ _ ↦ rfl⟩

theorem renders_storeVideo (result : GenerateVideoResult) (videoUrl : String) :
    (storeVideo config job result videoUrl).Keeps (renditionProtocol config job).spec
      (fun x' r ↦ x'.answer = x.answer ∧ ∀ url, r = .ok url →
        url = storedUrl config job result videoUrl ∧
          (result.alreadyStored ≠ some true → x'.uploaded = true)) x := by
  unfold storeVideo storedUrl
  split
  · rename_i hstored
    refine ⟨rfl, ?_⟩
    rintro url ⟨⟩
    exact ⟨rfl, fun h ↦ absurd hstored h⟩
  · have hfetch : (Program.catchWith (ask (.httpsGet videoUrl)) fun _ ↦
        raise .internal "Failed to fetch video from source URL").Calls Call.Unrelated :=
      (calls_ask trivial).catchWith fun _ ↦ trivial
    refine Program.Calls.keeps_bind hfetch (fun _ hc ↦ Rendition.admits_unrelated hc)
      (fun _ r hc ↦ Rendition.next_unrelated hc r) (fun buffer ↦ ?_) fun _ ↦
        ⟨rfl, by rintro url ⟨⟩⟩
    refine Program.keeps_catchWith.mpr (Program.keeps_bind.mpr (Program.Keeps.mono ?_
      (renders_withRetryFrom (x := x) (outputKey job.data.videoId) "video/mp4" buffer
        maxRetryAttempts maxRetryAttempts 1 _)))
    rintro x' (e | a) ⟨hanswer, huploaded⟩
    · exact ⟨hanswer, by rintro url ⟨⟩⟩
    · refine ⟨hanswer, ?_⟩
      rintro url ⟨⟩
      exact ⟨rfl, fun _ ↦ huploaded a rfl⟩

theorem renders_finishGeneration {result : GenerateVideoResult}
    (hanswer : x.answer = some result) {videoUrl : String}
    (hurl : truthy result.videoUrl = some videoUrl) :
    Renders config job (finishGeneration config job result videoUrl) x := by
  refine Program.keeps_bind.mpr (Program.Keeps.mono ?_ (renders_storeVideo result videoUrl))
  rintro x' (e | stored) ⟨hsame, hstored⟩
  · trivial
  obtain ⟨rfl, huploaded⟩ := hstored stored rfl
  have htail : Renders config job (do
      jobUpdateProgress job 100
      emit (.completed ⟨job.data.videoId, storedUrl config job result videoUrl,
        result.thumbnailUrl⟩) : Prog Unit) x' :=
    renders_after (calls_ask trivial) fun _ ↦
      Program.Keeps.mono (fun _ _ _ ↦ trivial) (renders_unrelated (calls_ask trivial))
  refine Program.keeps_bind.mpr ?_
  rw [transitionStatus, if_pos allowed_processing_completed]
  refine Program.keeps_bind.mpr (keeps_ask.mpr ⟨?_, ?_⟩)
  · intro _
    exact ⟨result, videoUrl, hsame.trans hanswer, hurl, rfl, huploaded⟩
  rintro (e | affected) -
  · trivial
  change Program.Keeps _ _ (if affected = 0 then _ else _) x'
  split
  · exact htail
  · refine Program.Keeps.mono ?_ (renders_unrelated
      ((calls_writeCache trivial (fun _ _ ↦ trivial) _ _ _ _).bind fun _ ↦ trivial))
    rintro x'' (e | b) rfl
    · trivial
    · exact htail

theorem renders_pollLoop (generationJobId : String) (remaining : ℕ) (status : GenerationStatus)
    (pollAttempts : ℕ) :
    Renders config job (pollLoop config job generationJobId status pollAttempts remaining) x := by
  induction remaining generalizing status pollAttempts x with
  | zero => trivial
  | succ remaining ih =>
      unfold pollLoop
      split
      · refine renders_after (calls_ask trivial) fun _ ↦ ?_
        refine Program.keeps_bind.mpr (keeps_ask.mpr ⟨trivial, ?_⟩)
        rintro (e | result) -
        · trivial
        refine renders_after (unrelated_updateProgress _ _ _ _) fun _ ↦ ?_
        refine renders_after (calls_ask trivial) fun _ ↦ ?_
        refine renders_after (calls_ask trivial) fun _ ↦ ?_
        split
        · rename_i videoUrl hurl
          exact renders_finishGeneration rfl hurl
        · exact ih _ _
      · trivial

theorem renders_generate (video : Video) : Renders config job (generate config job video) x := by
  refine renders_after (calls_ask trivial) fun _ ↦ ?_
  refine renders_after (calls_ask trivial) fun _ ↦ ?_
  refine renders_after (calls_enhancePrompt video.prompt trivial) fun _ ↦ ?_
  refine renders_after (unrelated_updateProgress _ _ _ _) fun _ ↦ ?_
  refine renders_after (calls_ask trivial) fun _ ↦ ?_
  refine renders_after (calls_ask trivial) fun result ↦ ?_
  refine renders_after (unrelated_updateProgress _ _ _ _) fun _ ↦ ?_
  refine renders_after (calls_ask trivial) fun _ ↦ ?_
  exact renders_pollLoop _ _ _ _

theorem renders_process : Renders config job (process config job) x := by
  unfold process
  split
  · refine Program.keeps_catchWith.mpr (Program.Keeps.mono (fun x' r _ ↦ ?_)
      (?_ : Renders config job (attemptGeneration config job) x))
    · cases r with
      | ok a => trivial
      | error e =>
          change Renders config job (if IsFinalAttempt job then _ else _) x'
          split
          · refine renders_after (calls_markFailed ?_ trivial) fun _ ↦ ?_
            · simp [Call.Unrelated, failedFields]
            exact renders_after (calls_ask trivial) fun _ ↦ trivial
          · trivial
    · have hload : (findById job.data.videoId).Calls Call.Unrelated := by
        refine (calls_ask trivial).bind fun video ↦ ?_
        cases video <;> trivial
      refine renders_after hload fun video ↦ ?_
      refine renders_after (calls_transitionStatus trivial (fun _ _ ↦ trivial) ?_) fun started ↦ ?_
      · simp [Call.Unrelated, startExtra, TransitionExtra.fields]
      split
      · exact renders_generate video
      · trivial
  · trivial

end Conformance

/-! ## Links and files -/

def renditionOf (t : Worker) : Rendition := t.log.foldl (fun x e ↦ x.next e.1 e.2) {}

def World.LeadsToFile (w : World) (extractS3Key : String → String) (videoId url : String) : Prop :=
  extractS3Key url = outputKey videoId ∧ w.bucket (outputKey videoId) ≠ none

/-- Whatever url the row takes over from the answer leads to the stored file of the video. -/
structure GenerateVideoResult.LinksFile (result : GenerateVideoResult)
    (extractS3Key : String → String) (w : World) (videoId : String) : Prop where
  video : result.alreadyStored = some true → ∀ url, truthy result.videoUrl = some url →
    w.LeadsToFile extractS3Key videoId url
  thumbnail : ∀ url, truthy result.thumbnailUrl = some url →
    w.LeadsToFile extractS3Key videoId url

def CompletesWith (result : GenerateVideoResult) (videoId : String)
    (t : Transition State Step) : Prop :=
  t.before.state.statusOf videoId = some .processing ∧ ∃ i f u job fields,
    t.act = .call i f ∧ f.TakesEffect = true ∧ t.before.threads[i]? = some u ∧
      u.task = .process job ∧ u.pending? = some (.updateVideo videoId (some .processing) fields) ∧
      fields.status = some .completed ∧ (renditionOf u).answer = some result

/-- A result request that succeeds and reads the row as it is in the given world signs only
keys of objects that were uploaded for the video and are in the bucket. -/
def LinksStored (extractS3Key : String → String) (ts : List (Transition State Step))
    (w : World) : Prop :=
  ∀ id userId expiresIn log result,
    (getVideoResult extractS3Key id userId expiresIn).Follows log (.done (.ok result)) →
    (∀ video, (⟨.selectVideo id, .ok video⟩ : Exchange interface) ∈ log →
      video = w.videos.find? id) →
    ∀ key ttl r, (⟨.s3Sign key ttl, r⟩ : Exchange interface) ∈ log →
      key = outputKey id ∧ w.bucket key ≠ none ∧ ∃ t ∈ ts, Uploads id t

/-- Identifiers that the database generates are UUIDs. -/
def GeneratesUuid : Step → Prop
  | .call _ (.ok (.uuid id)) => IsUuid id
  | .call _ (.lost (.uuid id) _) => IsUuid id
  | _ => True

section Requests

variable {extractS3Key : String → String} {row : Video} {ts : List (Transition State Step)}
  {w : World}

def Call.SignsLink (extractS3Key : String → String) (row : Video) : Call → Prop
  | .s3Sign key _ => ∃ url, key = extractS3Key url ∧
      (truthy row.videoUrl = some url ∨ truthy row.thumbnailUrl = some url)
  | _ => True

theorem calls_videoResult (expiresIn : JsNumber) :
    (videoResult extractS3Key row expiresIn).Calls (Call.SignsLink extractS3Key row) := by
  have hsign {key : String} (ttl : JsNumber) (h : Call.SignsLink extractS3Key row
      (.s3Sign key ttl)) : (getPresignedDownloadUrl key ttl).Calls
        (Call.SignsLink extractS3Key row) :=
    (calls_ask h).catchWith fun _ ↦ trivial
  have hrest (ttl : JsNumber) (f : JsNumber → VideoResultDto) :
      (do let now ← dateNow
          let expiresAt ← toExpiryDate now ttl
          pure (f expiresAt) : Prog VideoResultDto).Calls
        (Call.SignsLink extractS3Key row) := by
    refine (calls_ask trivial).bind fun now ↦ ?_
    unfold toExpiryDate
    split <;> trivial
  unfold videoResult
  split
  · rename_i videoUrl _ hurl
    refine (hsign _ ⟨videoUrl, rfl, .inl hurl⟩).bind fun downloadUrl ↦ ?_
    cases hthumbnail : truthy row.thumbnailUrl with
    | none => exact hrest _ _
    | some url =>
        exact ((hsign _ ⟨url, rfl, .inr hthumbnail⟩).map some).bind fun _ ↦ hrest _ _
  · trivial

theorem read_of_follows {id userId : String} {expiresIn : JsNumber}
    {log : List (Exchange interface)} {result : VideoResultDto}
    (h : (getVideoResult extractS3Key id userId expiresIn).Follows log (.done (.ok result))) :
    ∃ video rest, log = ⟨.selectVideo id, .ok (some video)⟩ :: rest ∧
      (videoResult extractS3Key video expiresIn).Follows rest (.done (.ok result)) := by
  obtain ⟨r, rest, rfl, hnext⟩ := Program.Follows.of_call (I := interface) h
  match r, hnext with
  | .error e, hnext =>
      obtain ⟨-, heq⟩ := Program.Follows.of_done hnext
      cases heq
  | .ok none, hnext =>
      obtain ⟨-, heq⟩ := Program.Follows.of_done hnext
      cases heq
  | .ok (some video), hnext =>
      refine ⟨video, rest, rfl, ?_⟩
      change Program.Follows ((if video.userId = userId then pure video
        else raise .forbidden "Forbidden" : Prog Video) >>= fun video ↦
          videoResult extractS3Key video expiresIn) _ _ at hnext
      by_cases howner : video.userId = userId
      · rw [if_pos howner] at hnext
        exact hnext
      · rw [if_neg howner] at hnext
        obtain ⟨-, heq⟩ := Program.Follows.of_done hnext
        cases heq

theorem linksStored_of_rows
    (hrows : ∀ id row, w.videos.find? id = some row → ∀ url,
      truthy row.videoUrl = some url ∨ truthy row.thumbnailUrl = some url →
        w.LeadsToFile extractS3Key id url)
    (huploads : ∀ id, w.bucket (outputKey id) ≠ none → ∃ t ∈ ts, Uploads id t) :
    LinksStored extractS3Key ts w := by
  intro id userId expiresIn log result hfollows hread key ttl r hsign
  obtain ⟨video, rest, rfl, hrest⟩ := read_of_follows hfollows
  have hrow := (hread _ List.mem_cons_self).symm
  rcases List.mem_cons.mp hsign with heq | hmem
  · cases heq
  obtain ⟨hcalls, -⟩ := hrest.calls (calls_videoResult expiresIn)
  obtain ⟨url, rfl, hurl⟩ := hcalls _ hmem
  obtain ⟨hkey, hfile⟩ := hrows id video hrow url hurl
  rw [hkey]
  exact ⟨rfl, hfile, huploads id hfile⟩

theorem ttl_of_hour : ((JsNumber.ofInt 3600).max (.ofInt 60)).min (.ofInt maxPresignTtl) =
    .real (some (some 3600)) := by decide +kernel

theorem exists_request {videoUrl : String} (hstatus : row.status = .completed)
    (hvideo : truthy row.videoUrl = some videoUrl) : ∃ log result,
      (videoResult extractS3Key row (.ofInt 3600)).Follows log (.done (.ok result)) ∧
      (∀ id video, (⟨.selectVideo id, .ok video⟩ : Exchange interface) ∉ log) ∧
      ∀ url, truthy row.videoUrl = some url ∨ truthy row.thumbnailUrl = some url →
        ∃ ttl r, (⟨.s3Sign (extractS3Key url) ttl, r⟩ : Exchange interface) ∈ log := by
  unfold videoResult
  rw [hstatus, hvideo, ttl_of_hour]
  let sign (url : String) : Exchange interface :=
    ⟨.s3Sign (extractS3Key url) (((JsNumber.real (some (some 3600))).max (.ofInt 60)).min
      (.ofInt 86400)), .ok "link"⟩
  have hsign (url : String) : ∃ ttl r,
      (⟨.s3Sign (extractS3Key url) ttl, r⟩ : Exchange interface) = sign url := ⟨_, _, rfl⟩
  cases hthumbnail : truthy row.thumbnailUrl with
  | none =>
      refine ⟨[sign videoUrl, ⟨.dateNow, .ok (0 : ℕ)⟩], _, ⟨_, rfl, _, rfl, rfl⟩, by simp [sign], ?_⟩
      rintro url (h | h)
      · obtain rfl := Option.some.inj h
        obtain ⟨ttl, r, heq⟩ := hsign videoUrl
        exact ⟨ttl, r, heq ▸ List.mem_cons_self⟩
      · cases h
  | some thumbnail =>
      refine ⟨[sign videoUrl, sign thumbnail, ⟨.dateNow, .ok (0 : ℕ)⟩], _,
        ⟨_, rfl, _, rfl, _, rfl, rfl⟩, by simp [sign], ?_⟩
      rintro url (h | h)
      · obtain rfl := Option.some.inj h
        obtain ⟨ttl, r, heq⟩ := hsign videoUrl
        exact ⟨ttl, r, heq ▸ List.mem_cons_self⟩
      · obtain rfl := Option.some.inj h
        obtain ⟨ttl, r, heq⟩ := hsign thumbnail
        exact ⟨ttl, r, heq ▸ List.mem_cons_of_mem _ List.mem_cons_self⟩

theorem leads_of_linksStored (h : LinksStored extractS3Key ts w) {id videoUrl : String}
    (hrow : w.videos.find? id = some row) (hstatus : row.status = .completed)
    (hvideo : truthy row.videoUrl = some videoUrl) {url : String}
    (hurl : truthy row.videoUrl = some url ∨ truthy row.thumbnailUrl = some url) :
    w.LeadsToFile extractS3Key id url := by
  obtain ⟨log, result, hfollows, hselect, hsigned⟩ :=
    @exists_request extractS3Key row videoUrl hstatus hvideo
  obtain ⟨ttl, r, hmem⟩ := hsigned url hurl
  have hrequest : (getVideoResult extractS3Key id row.userId (.ofInt 3600)).Follows
      (⟨.selectVideo id, .ok (some row)⟩ :: log) (.done (.ok result)) := by
    refine ⟨_, rfl, ?_⟩
    change Program.Follows ((if row.userId = row.userId then pure row
      else raise .forbidden "Forbidden" : Prog Video) >>= fun video ↦
        videoResult extractS3Key video (.ofInt 3600)) _ _
    rw [if_pos rfl]
    exact hfollows
  have hread (video : Option Video) (hv : (⟨.selectVideo id, .ok video⟩ : Exchange interface) ∈
      (⟨.selectVideo id, .ok (some row)⟩ : Exchange interface) :: log) :
      video = w.videos.find? id := by
    rcases List.mem_cons.mp hv with heq | hv
    · cases heq
      exact hrow.symm
    · exact absurd hv (hselect id video)
  obtain ⟨hkey, hfile, -⟩ := h id row.userId _ _ result hrequest hread _ ttl r
    (List.mem_cons_of_mem _ hmem)
  exact ⟨hkey, hkey ▸ hfile⟩

end Requests

/-! ## Runs -/

section System

variable {config : StorageConfig} {extractS3Key : String → String} {s s' : State}
  {ts : List (Transition State Step)}

theorem renditionOf_resume (t : Worker) (c : Call) (next) (r) :
    renditionOf (t.resume c next r) = (renditionOf t).next c r := by
  simp [renditionOf]

theorem renders_of_run {w : World} (hrun : Run (system config).step ⟨w, []⟩ ts s) {t : Worker}
    (ht : t ∈ s.threads) {job : Job} (htask : t.task = .process job) :
    Renders config job t.prog (renditionOf t) := by
  have hfollows := follows_of_run hrun t ht
  rw [htask] at hfollows
  change Program.Follows ((fun _ ↦ Value.unit) <$> process config job) _ _ at hfollows
  exact hfollows.keeps (P := renditionProtocol config job) (s := {})
    (Program.keeps_map.mpr renders_process) (possible_of_log hrun ht)

theorem answer_names {w w' : World} {fields : VideoFields} {b : Answer} {x : Video}
    (h : w.answer (.insertVideo none fields) b = some (w', x)) : b = .uuid x.id := by
  cases b <;> simp only [World.answer, reduceCtorEq, Option.map_eq_some_iff, Prod.mk.injEq] at h
  obtain ⟨videos, -, -, rfl⟩ := h
  rfl

theorem uuid_step {a : Step} (hstep : (system config).step s a = some s') (hs : Filing s)
    (hgenerates : GeneratesUuid a) {id : String} {row : Video}
    (hrow : s'.state.videos.find? id = some row) :
    s.state.videos.find? id ≠ none ∨ IsUuid id := by
  cases a with
  | invoke task =>
      obtain rfl := Option.some.inj hstep
      exact .inl (by simp [hrow])
  | crash i =>
      obtain ⟨t, -, rfl⟩ := (system config).step_crash_cases hstep
      exact .inl (by simp [hrow])
  | env l =>
      obtain ⟨w, tasks, henv, rfl⟩ := (system config).step_env_cases hstep
      exact .inl (by simp [← (envStep_frame henv).1, hrow])
  | call i f =>
      obtain ⟨t, t', c, r, h⟩ := answered_of_step hstep hs.conforming
      have htask := hs.managed t (List.mem_of_getElem? h.get)
      rw [← task_stageOf t] at htask
      have hnamed (b : Answer) (x : c.Reply)
          (hx : s.state.answer c b = some (s'.state, x)) (hb : ∀ k, b = .uuid k → IsUuid k) :
          s.state.videos.find? id ≠ none ∨ IsUuid id := by
        by_cases hc : c.WritesVideos = true
        · have hwrite := (allows_of_answered h).rowWrite htask hc
          generalize stageOf t = stage at hwrite
          cases hwrite with
          | insert userId dto =>
              have hname := answer_names hx
              obtain ⟨k, rfl, -, hfind⟩ := World.answer_insertVideo hx
              rw [hfind] at hrow
              split at hrow
              · rename_i hid
                exact .inr (hid ▸ hb _ hname)
              · exact .inl (by simp [hrow])
          | delete =>
              rw [World.answer_deleteVideo hx] at hrow
              split at hrow
              · cases hrow
              · exact .inl (by simp [hrow])
          | _ =>
              left
              rw [(World.answer_updateVideo hx).1, World.find?_updateVideo] at hrow
              split at hrow
              · rename_i hid
                subst hid
                obtain ⟨old, hold, -⟩ := Option.map_eq_some_iff.mp hrow
                simp [hold]
              · simp [hrow]
        · left
          rw [(World.answer_frame hx).1 (by simpa using hc)] at hrow
          simp [hrow]
      rcases World.exec_cases h.exec with ⟨b, x, rfl, hx, -⟩ | ⟨e, -, -, hw, -⟩ |
        ⟨b, e, x, rfl, -, hx, -⟩
      · exact hnamed b x hx (by rintro k rfl; exact hgenerates)
      · exact .inl (by simp [← hw, hrow])
      · exact hnamed b x hx (by rintro k rfl; exact hgenerates)

theorem RowWrite.urls {stage : Stage} {id : String} {expected : Option VideoStatus}
    {fields : VideoFields} (h : RowWrite stage (.updateVideo id expected fields)) :
    (fields.videoUrl = none ∧ fields.thumbnailUrl = none) ∨
      ∃ job, stage.task = .process job ∧ job.data.videoId = id ∧
        expected = some .processing ∧ fields.status = some .completed := by
  cases h with
  | report job phase h =>
      cases h with
      | complete url thumbnail => exact .inr ⟨job, rfl, rfl, rfl, rfl⟩
      | start status hallowed => exact .inl ⟨rfl, rfl⟩
      | progress u => exact .inl ⟨rfl, rfl⟩
      | fail message => exact .inl ⟨rfl, rfl⟩
  | link => exact .inl ⟨rfl, rfl⟩
  | reset => exact .inl ⟨rfl, rfl⟩
  | relink => exact .inl ⟨rfl, rfl⟩

theorem truthy_some {a b : String} (h : truthy (some a) = some b) : b = a := by
  by_cases ha : a = ""
  · simp [truthy, ha] at h
  · simpa [truthy, ha] using h.symm

theorem completion_fields {w : World} (hrun : Run (system config).step ⟨w, []⟩ ts s) {i : ℕ}
    {u : Worker} (hget : s.threads[i]? = some u) {job : Job} (htask : u.task = .process job)
    {id : String} {expected : Option VideoStatus} {fields : VideoFields}
    (hpending : u.pending? = some (.updateVideo id expected fields))
    (hstatus : fields.status = some .completed) :
    ∃ result url, (renditionOf u).answer = some result ∧ truthy result.videoUrl = some url ∧
      fields = (completeExtra (storedUrl config job result url)
        result.thumbnailUrl).fields .completed ∧
      (result.alreadyStored ≠ some true → (renditionOf u).uploaded = true) := by
  obtain ⟨next, hprog⟩ := Thread.pending?_eq_some_iff.mp hpending
  have hrenders := renders_of_run hrun (List.mem_of_getElem? hget) htask
  rw [hprog] at hrenders
  exact hrenders.1 hstatus

theorem uploads_step {a : Step} (hstep : (system config).step s a = some s') (hs : Filing s)
    (huploads : ∀ u ∈ s.threads, ∀ job, u.task = .process job → (renditionOf u).uploaded = true →
      s.state.bucket (outputKey job.data.videoId) ≠ none) :
    ∀ u ∈ s'.threads, ∀ job, u.task = .process job → (renditionOf u).uploaded = true →
      s'.state.bucket (outputKey job.data.videoId) ≠ none := by
  intro u hu job htask huploaded
  obtain ⟨j, hj⟩ := List.getElem?_of_mem hu
  rcases Machine.called_cases hstep hj with ⟨t, ht, heq⟩ | ⟨-, task, rfl⟩ |
    ⟨f, t, c, next, r, -, hprog, rfl, h⟩
  · apply bucket_step hstep hs.conforming hs.managed
    apply huploads t (List.mem_of_getElem? ht) job
    · rcases heq with rfl | ⟨-, rfl⟩ <;> exact htask
    · rcases heq with rfl | ⟨-, rfl⟩ <;> exact huploaded
  · cases huploaded
  · have hmem := List.mem_of_getElem? h.get
    have hkept (hold : (renditionOf t).uploaded = true) :
        s'.state.bucket (outputKey job.data.videoId) ≠ none :=
      bucket_step hstep hs.conforming hs.managed (huploads t hmem job htask hold)
    rw [renditionOf_resume] at huploaded
    cases c with
    | s3Put key body contentType =>
        have hcalls := hs.calls t hmem
        rw [hprog] at hcalls
        have hkey : key = outputKey job.data.videoId := hcalls.1 job htask
        match r, h.exec with
        | .error e, _ => exact hkept huploaded
        | .ok x, hexec =>
            obtain ⟨-, b, hx⟩ := World.exec_ok hexec
            rw [World.answer_s3Put hx, ← hkey]
            simp [World.setBucket]
    | getGenerationStatus jobId =>
        cases r with
        | error e => exact hkept huploaded
        | ok result => cases huploaded
    | _ => exact hkept huploaded

theorem leads_step {a : Step} (hstep : (system config).step s a = some s') (hs : Filing s)
    {id url : String} (h : s.state.LeadsToFile extractS3Key id url) :
    s'.state.LeadsToFile extractS3Key id url :=
  ⟨h.1, bucket_step hstep hs.conforming hs.managed h.2⟩

def RowsLead (extractS3Key : String → String) (w : World) : Prop :=
  ∀ id row, w.videos.find? id = some row → ∀ url,
    truthy row.videoUrl = some url ∨ truthy row.thumbnailUrl = some url →
      w.LeadsToFile extractS3Key id url

theorem rowsLead_step {a : Step}
    (hrun : Run (system config).step ⟨World.empty, []⟩ ts s)
    (hstep : (system config).step s a = some s') (hs : Filing s)
    (huuid : ∀ id row, s.state.videos.find? id = some row → IsUuid id)
    (hextract : ∀ id, IsUuid id →
      extractS3Key (getPublicUrl config (outputKey id)) = outputKey id)
    (huploads : ∀ u ∈ s.threads, ∀ job, u.task = .process job → (renditionOf u).uploaded = true →
      s.state.bucket (outputKey job.data.videoId) ≠ none)
    (hlinks : ∀ id result, CompletesWith result id ⟨s, a, s'⟩ →
      result.LinksFile extractS3Key s.state id)
    (hrows : RowsLead extractS3Key s.state) : RowsLead extractS3Key s'.state := by
  intro id row hrow url hurl
  rcases rowWrite_of_step hstep hs.conforming hs.managed with hsame |
    ⟨i, f, u, c, b, x, rfl, hf, hget, hpending, hwrite, hx⟩
  · rw [hsame] at hrow
    exact leads_step hstep hs (hrows id row hrow url hurl)
  cases c with
  | insertVideo k fields =>
      generalize stageOf u = stage at hwrite
      cases hwrite with
      | insert userId dto =>
          obtain ⟨k, rfl, -, hfind⟩ := World.answer_insertVideo hx
          rw [hfind] at hrow
          split at hrow
          · obtain rfl := Option.some.inj hrow
            rcases hurl with hurl | hurl <;> cases hurl
          · exact leads_step hstep hs (hrows id row hrow url hurl)
  | deleteVideo k =>
      rw [World.answer_deleteVideo hx] at hrow
      split at hrow
      · cases hrow
      · exact leads_step hstep hs (hrows id row hrow url hurl)
  | updateVideo k expected fields =>
      rw [(World.answer_updateVideo hx).1, World.find?_updateVideo] at hrow
      split at hrow
      · rename_i hid
        subst hid
        obtain ⟨old, hold, heq⟩ := Option.map_eq_some_iff.mp hrow
        have hbefore := hrows id old hold
        split at heq
        · rename_i hguard
          subst heq
          apply leads_step hstep hs
          rcases hwrite.urls with ⟨hvideo, hthumbnail⟩ | ⟨job, htask, rfl, rfl, hstatus⟩
          · apply hbefore url
            simpa [Video.assign, hvideo, hthumbnail] using hurl
          · rw [task_stageOf] at htask
            have hprocessing : s.state.statusOf job.data.videoId = some .processing :=
              World.statusOf_eq_some_iff.mpr ⟨old, hold, World.status_of_guard hguard⟩
            obtain ⟨result, given, hanswer, hgiven, rfl, huploaded⟩ :=
              completion_fields hrun hget htask hpending hstatus
            obtain ⟨hvideo, hthumbnail⟩ := hlinks job.data.videoId result
              ⟨hprocessing, i, f, u, job, _, rfl, hf, hget, htask, hpending, hstatus, hanswer⟩
            rcases hurl with hurl | hurl
            · obtain rfl := truthy_some hurl
              by_cases hstored : result.alreadyStored = some true
              · rw [storedUrl, if_pos hstored]
                exact hvideo hstored given hgiven
              · rw [storedUrl, if_neg hstored]
                exact ⟨hextract _ (huuid _ old hold),
                  huploads u (List.mem_of_getElem? hget) job htask (huploaded hstored)⟩
            · cases hresult : result.thumbnailUrl with
              | none =>
                  apply hbefore url
                  right
                  simpa [Video.assign, completeExtra, TransitionExtra.fields, hresult] using hurl
              | some thumbnail =>
                  apply hthumbnail url
                  simpa [Video.assign, completeExtra, TransitionExtra.fields, hresult] using hurl
        · subst heq
          exact leads_step hstep hs (hbefore url hurl)
      · exact leads_step hstep hs (hrows id row hrow url hurl)
  | _ => cases hwrite.writesVideos

structure Linking (extractS3Key : String → String) (s : State) : Prop where
  filing : Filing s
  uuids : ∀ id row, s.state.videos.find? id = some row → IsUuid id
  uploads : ∀ u ∈ s.threads, ∀ job, u.task = .process job → (renditionOf u).uploaded = true →
    s.state.bucket (outputKey job.data.videoId) ≠ none
  rows : RowsLead extractS3Key s.state

theorem linking_run (hrun : Run (system config).step ⟨World.empty, []⟩ ts s)
    (hextract : ∀ id, IsUuid id →
      extractS3Key (getPublicUrl config (outputKey id)) = outputKey id)
    (hinvoke : ∀ t ∈ ts, t.act.InvokesOnly Task.Managed)
    (hgenerates : ∀ t ∈ ts, GeneratesUuid t.act)
    (hlinks : ∀ t ∈ ts, ∀ id result, CompletesWith result id t →
      result.LinksFile extractS3Key t.before.state id) : Linking extractS3Key s := by
  induction hrun with
  | nil => exact ⟨filing_init, by simp [World.empty], by simp, by simp [RowsLead, World.empty]⟩
  | @snoc ts s s' a head last ih =>
      rw [List.forall_mem_append] at hinvoke hgenerates hlinks
      have hs := ih hinvoke.1 hgenerates.1 hlinks.1
      have hlast := List.forall_mem_singleton.mp hlinks.2
      refine ⟨filing_step last (hinvoke.2 _ (List.mem_singleton_self _)) hs.filing, ?_,
        uploads_step last hs.filing hs.uploads,
        rowsLead_step head last hs.filing hs.uuids hextract hs.uploads hlast hs.rows⟩
      intro id row hrow
      rcases uuid_step last hs.filing (hgenerates.2 _ (List.mem_singleton_self _)) hrow with
        hold | hnew
      · obtain ⟨old, hold⟩ := Option.ne_none_iff_exists'.mp hold
        exact hs.uuids id old hold
      · exact hnew

theorem linksFile_of_completes {t : Transition State Step}
    (hrun : Run (system config).step ⟨World.empty, []⟩ ts t.before)
    (hstep : (system config).step t.before t.act = some t.after) {id : String}
    {result : GenerateVideoResult} (hcompletes : CompletesWith result id t)
    {us : List (Transition State Step)} (hstored : LinksStored extractS3Key us t.after.state) :
    result.LinksFile extractS3Key t.before.state id := by
  obtain ⟨hprocessing, i, f, u, job, fields, hact, hf, hget, htask, hpending, hstatus, hanswer⟩ :=
    hcompletes
  obtain ⟨answer, given, hanswer', hgiven, rfl, -⟩ :=
    completion_fields hrun hget htask hpending hstatus
  obtain rfl : answer = result := Option.some.inj (hanswer'.symm.trans hanswer)
  obtain ⟨row, hrow, hbefore⟩ := World.statusOf_eq_some_iff.mp hprocessing
  have hexecutes : Executes t i (.process job) _ := ⟨f, u, hact, hf, hget, htask, hpending⟩
  obtain ⟨b, n, hx⟩ := hexecutes.answer (run_conforming hrun) hstep
  have hafter := (World.answer_updateVideo hx).1
  have hbucket : t.after.state.bucket = t.before.state.bucket := by
    rw [hafter, World.updateVideo_eq]
  obtain ⟨completed, hfind, hdone, hvideo, hthumbnail⟩ : ∃ completed,
      t.after.state.videos.find? id = some completed ∧ completed.status = .completed ∧
        completed.videoUrl = some (storedUrl config job answer given) ∧
        ∀ url, answer.thumbnailUrl = some url → completed.thumbnailUrl = some url := by
    rw [hafter, World.find?_updateVideo, if_pos rfl, hrow, Option.map_some, hbefore]
    refine ⟨_, rfl, rfl, rfl, ?_⟩
    intro url hurl
    rw [hurl]
    rfl
  have htruthy : truthy completed.videoUrl = some (storedUrl config job answer given) := by
    have hne : storedUrl config job answer given ≠ "" := by
      unfold storedUrl
      split
      · exact truthy_ne_empty hgiven
      · exact getPublicUrl_ne_empty _ _
    rw [hvideo, truthy, if_neg hne]
  have hleads {url : String}
      (hurl : truthy completed.videoUrl = some url ∨ truthy completed.thumbnailUrl = some url) :
      t.before.state.LeadsToFile extractS3Key id url := by
    have hrowUrl := leads_of_linksStored hstored hfind hdone htruthy hurl
    exact ⟨hrowUrl.1, hbucket ▸ hrowUrl.2⟩
  constructor
  · intro halready url hurl
    obtain rfl := Option.some.inj (hgiven.symm.trans hurl)
    apply hleads
    rw [htruthy, storedUrl, if_pos halready]
    exact .inl rfl
  · intro url hurl
    apply hleads
    right
    cases hanswered : answer.thumbnailUrl with
    | none => simp [hanswered, truthy] at hurl
    | some given =>
        rw [hthumbnail given hanswered, ← hanswered]
        exact hurl

theorem outputKey_eq (id : String) : outputKey id = objectKey id "output.mp4" := by
  simp [outputKey, objectKey, ← String.toList_inj]

/-- Behind a configured endpoint, download links point at stored files in all states of
exactly those runs in which rows are completed with answers whose urls, where they are taken
over, lead to the uploaded file. -/
theorem linksStored_iff {hosts : Url.HostParser} {scheme : List Char}
    (hbucket : IsBucketName config.bucket) (hstyle : config.PathStyle)
    (hendpoint : config.HasOrigin hosts scheme)
    (hrun : Run (system config).step ⟨World.empty, []⟩ ts s)
    (hinvoke : ∀ t ∈ ts, t.act.InvokesOnly Task.Managed)
    (hgenerates : ∀ t ∈ ts, GeneratesUuid t.act) :
    (∀ pre t post, ts = pre ++ t :: post →
        LinksStored (VideoGen.extractS3Key hosts) (pre ++ [t]) t.after.state) ↔
      ∀ t ∈ ts, ∀ id result, CompletesWith result id t →
        result.LinksFile (VideoGen.extractS3Key hosts) t.before.state id := by
  have hname : IsFileName "output.mp4" := ⟨by decide, by decide⟩
  have hsafe : IsUrlSafe (Url.isSpecial (Url.lower scheme)) "output.mp4" := by
    refine ⟨?_, by decide, by decide⟩
    unfold Url.Kept
    cases Url.isSpecial (Url.lower scheme) <;> decide
  have hextract (id : String) (hid : IsUuid id) :
      VideoGen.extractS3Key hosts (getPublicUrl config (outputKey id)) = outputKey id := by
    rw [outputKey_eq]
    exact (extractS3Key_pathStyle hbucket hstyle hendpoint hid hname).mpr hsafe
  constructor
  · intro hstored t ht id result hcompletes
    obtain ⟨pre, post, rfl, hpre, hstep⟩ := hrun.exists_prefix ht
    exact linksFile_of_completes hpre hstep hcompletes (hstored pre t post rfl)
  · rintro hlinks pre t post rfl
    obtain ⟨hpre, hstep, -⟩ := hrun.at_append_cons
    have hmem : ∀ u ∈ pre ++ [t], u ∈ pre ++ t :: post := by
      intro u hu
      rw [List.append_cons]
      exact List.mem_append_left _ hu
    have hprefix : Run (system config).step ⟨World.empty, []⟩ (pre ++ [t]) t.after :=
      hpre.snoc t.act hstep
    have hlinking := linking_run hprefix hextract (fun u hu ↦ hinvoke u (hmem u hu))
      (fun u hu ↦ hgenerates u (hmem u hu)) fun u hu ↦ hlinks u (hmem u hu)
    apply linksStored_of_rows hlinking.rows
    intro id hfile
    obtain ⟨videoId, hkey, huploaded⟩ := uploaded_of_stored hprefix
      (fun u hu ↦ hinvoke u (hmem u hu)) hfile
    rw [outputKey_injective hkey]
    exact huploaded

end System

/-! ## Two runs -/

def localStorage : StorageConfig := ⟨"bucket", some "http://localhost:9000", "region"⟩

theorem localStorage_bucket : IsBucketName localStorage.bucket := ⟨by decide, by decide⟩

theorem localStorage_pathStyle : localStorage.PathStyle :=
  ⟨"http://localhost:9000", rfl, by decide⟩

theorem localStorage_hasOrigin : localStorage.HasOrigin acceptsDomain "http".toList := by
  intro endpoint he
  obtain rfl := Option.some.inj he
  refine .inr ⟨"localhost".toList, ":9000".toList, by decide, ⟨⟨by decide, by decide⟩,
    ⟨by decide, by decide, .inl (by decide)⟩, .inr ⟨by decide, "9000".toList, by decide, ?_⟩⟩,
    by decide⟩
  decide

instance : DecidablePred IsUuid := fun uuid ↦
  decidable_of_iff (uuid.toList ≠ [] ∧ ∀ c ∈ uuid.toList, c.isAlphanum = true ∨ c = '-')
    ⟨fun h ↦ ⟨h.1, h.2⟩, fun h ↦ ⟨h.1, h.2⟩⟩

instance : DecidablePred GeneratesUuid
  | .invoke _ => isTrue trivial
  | .crash _ => isTrue trivial
  | .env _ => isTrue trivial
  | .call _ (.rejected _) => isTrue trivial
  | .call _ (.ok a) => match a with
    | .uuid id => inferInstanceAs (Decidable (IsUuid id))
    | .unit | .text _ | .generation _ | .bytes _ => isTrue trivial
  | .call _ (.lost a _) => match a with
    | .uuid id => inferInstanceAs (Decidable (IsUuid id))
    | .unit | .text _ | .generation _ | .bytes _ => isTrue trivial

/-- The answers that a thread of the step has got ask for an upload and have no thumbnail. -/
def plainAnswer (t : Transition State Step) : Bool :=
  match t.act with
  | .call i _ => t.before.threads[i]?.all fun u ↦ (renditionOf u).answer.all fun result ↦
      result.alreadyStored ≠ some true ∧ result.thumbnailUrl = none
  | _ => true

/-- An uploaded video is found by its link. -/
theorem linksStored_uploaded : ∃ (ts : List (Transition State Step)) (s : State),
    Run (system localStorage).step ⟨World.empty, []⟩ ts s ∧
      s.state.statusOf "6f9619ff-8b86" = some .completed ∧
      ∀ pre t post, ts = pre ++ t :: post →
        LinksStored (extractS3Key acceptsDomain) (pre ++ [t]) t.after.state := by
  let acts := createActs 0 "6f9619ff-8b86" ++ [.env (.take 1)] ++
    uploadActs 1 "https://provider.example.com/file.mp4"
  obtain ⟨ts, s, hrun, hacts, hobs⟩ := Run.exists_of_follow
    (system localStorage).step ⟨World.empty, []⟩ acts
    (fun p ↦ decide (p.2.state.statusOf "6f9619ff-8b86" = some .completed) && p.1.all plainAnswer)
    true (by decide +kernel)
  rw [Bool.and_eq_true, decide_eq_true_eq] at hobs
  have hok : ∀ a ∈ acts, a.InvokesOnly Task.Managed ∧ GeneratesUuid a := by decide
  have hact (t : Transition State Step) (ht : t ∈ ts) := hok _ (hacts ▸ List.mem_map_of_mem ht)
  refine ⟨ts, s, hrun, hobs.1, (linksStored_iff localStorage_bucket localStorage_pathStyle
    localStorage_hasOrigin hrun (fun t ht ↦ (hact t ht).1) fun t ht ↦ (hact t ht).2).mpr ?_⟩
  rintro t ht id result ⟨-, i, f, u, job, fields, hcall, -, hget, -, -, -, hanswer⟩
  have hplain := List.all_eq_true.mp hobs.2 t ht
  simp only [plainAnswer, hcall, hget, Option.all_some, hanswer, decide_eq_true_eq] at hplain
  refine ⟨fun h ↦ absurd h hplain.1, ?_⟩
  rw [hplain.2]
  rintro url ⟨⟩

/-- The link of a video that the simulated provider keeps names no object. -/
theorem foreign_link : ∃ (ts : List (Transition State Step)) (s : State),
    Run (system localStorage).step ⟨World.empty, []⟩ ts s ∧
      (∀ t ∈ ts, t.act.InvokesOnly Task.Managed ∧ GeneratesUuid t.act) ∧
      ¬∀ pre t post, ts = pre ++ t :: post →
        LinksStored (extractS3Key acceptsDomain) (pre ++ [t]) t.after.state := by
  let videoUrl := "https://fake-cdn.example.com/videos/6f9619ff-8b86/output.mp4"
  let acts := createActs 0 "6f9619ff-8b86" ++ [.env (.take 1), okStep 1, okStep 1] ++
    renderActs 1 videoUrl ++ [okStep 1]
  obtain ⟨ts, s, hrun, hacts, hobs⟩ := Run.exists_of_follow
    (system localStorage).step ⟨World.empty, []⟩ acts
    (fun p ↦ p.1.any fun t ↦ (t.after.state.videos.find? "6f9619ff-8b86").any fun row ↦
      row.status = .completed ∧ row.videoUrl = some videoUrl) true (by decide +kernel)
  obtain ⟨t, ht, hrow⟩ := List.any_eq_true.mp hobs
  obtain ⟨row, hfind, hrow⟩ := (Option.any_eq_true _ _).mp hrow
  obtain ⟨hstatus, hurl⟩ := of_decide_eq_true hrow
  have hok : ∀ a ∈ acts, a.InvokesOnly Task.Managed ∧ GeneratesUuid a := by decide
  refine ⟨ts, s, hrun, fun t ht ↦ hok _ (hacts ▸ List.mem_map_of_mem ht), ?_⟩
  intro hstored
  obtain ⟨pre, post, hts, -, -⟩ := hrun.exists_prefix ht
  have htruthy : truthy row.videoUrl = some videoUrl := by
    rw [hurl]
    decide
  have hleads := leads_of_linksStored (hstored pre t post hts) hfind hstatus htruthy (.inl htruthy)
  have hkey : extractS3Key acceptsDomain videoUrl = "6f9619ff-8b86/output.mp4" := by
    decide +kernel
  have hsame := hkey.symm.trans hleads.1
  exact absurd hsame (by decide)

end VideoGen
