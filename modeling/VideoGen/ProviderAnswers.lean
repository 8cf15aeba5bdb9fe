import VideoGen.Lib.Evaluation
import VideoGen.ProgressReports

/-!
# The provider's answers and the polling loop

An attempt that runs alone, in which every call goes through and the provider
gives its answers in order: the first one to the submission, one to each poll.
The loop goes on while the last status was `processing`, whatever the answer
to the submission carried, and gives up on any other status.
-/

namespace VideoGen

/-! ## An attempt alone with the provider -/

/-- The stores, the number of answers that the provider has given, and the downloads with what
they brought. -/
structure Session where
  world : World
  asked : ℕ
  downloads : List (String × Bytes)

def Session.start (w : World) : Session := ⟨w, 0, []⟩

/-- Every call goes through; the provider gives its answers in order, and a download brings some
bytes. -/
def Session.exec (answers : ℕ → GenerateVideoResult) (s : Session) :
    (c : Call) → Answer → Option (Session × Except Thrown c.Reply)
  | .generateVideo _ _, _ => some ({ s with asked := s.asked + 1 }, .ok (answers s.asked))
  | .getGenerationStatus _, _ => some ({ s with asked := s.asked + 1 }, .ok (answers s.asked))
  | .httpsGet url, .bytes body =>
      some ({ s with downloads := s.downloads ++ [(url, body)] }, .ok body)
  | .httpsGet _, _ => none
  | c, a => (s.world.answer c a).map fun p ↦ ({ s with world := p.1 }, .ok p.2)

def Call.ForProvider : Call → Bool
  | .generateVideo _ _ => true
  | .getGenerationStatus _ => true
  | _ => false

def Call.External : Call → Bool
  | .httpsGet _ => true
  | c => c.ForProvider

def Call.WritesBucket : Call → Bool
  | .s3Put _ _ _ => true
  | .s3Delete _ => true
  | _ => false

section Exec

variable {answers : ℕ → GenerateVideoResult} {s s' : Session} {c : Call} {a : Answer}
  {r : Except Thrown c.Reply}

theorem Session.exec_eq (hc : c.External = false) :
    s.exec answers c a = (s.world.answer c a).map fun p ↦ ({ s with world := p.1 }, .ok p.2) := by
  cases c <;> first | rfl | cases hc

theorem Session.exec_cases (hc : c.External = false)
    (h : s.exec answers c a = some (s', r)) :
    ∃ x, r = .ok x ∧ s.world.answer c a = some (s'.world, x) ∧ s'.asked = s.asked ∧
      s'.downloads = s.downloads := by
  rw [Session.exec_eq hc] at h
  obtain ⟨⟨w, x⟩, hanswer, heq⟩ := Option.map_eq_some_iff.mp h
  obtain ⟨rfl, rfl⟩ := Prod.mk.inj heq
  exact ⟨x, rfl, hanswer, rfl, rfl⟩

theorem Session.exec_httpsGet {url : String} {r : Except Thrown Bytes}
    (h : s.exec answers (.httpsGet url) a = some (s', r)) :
    ∃ body, a = .bytes body ∧ r = .ok body ∧
      s' = { s with downloads := s.downloads ++ [(url, body)] } := by
  cases a with
  | bytes body =>
      obtain ⟨rfl, rfl⟩ := Prod.mk.inj (Option.some.inj h)
      exact ⟨body, rfl, rfl, rfl⟩
  | _ => cases h

theorem Session.exec_world (h : s.exec answers c a = some (s', r)) :
    ∃ b, s.world.exec c (.ok b) = some (s'.world, r) := by
  by_cases hc : c.External = true
  · cases c with
    | generateVideo params videoId =>
        obtain ⟨rfl, rfl⟩ := Prod.mk.inj (Option.some.inj h)
        exact ⟨.generation (answers s.asked), rfl⟩
    | getGenerationStatus jobId =>
        obtain ⟨rfl, rfl⟩ := Prod.mk.inj (Option.some.inj h)
        exact ⟨.generation (answers s.asked), rfl⟩
    | httpsGet url =>
        obtain ⟨body, rfl, rfl, rfl⟩ := Session.exec_httpsGet h
        exact ⟨.bytes body, rfl⟩
    | _ => cases hc
  · obtain ⟨x, rfl, hanswer, -⟩ := Session.exec_cases (by simpa using hc) h
    exact ⟨a, by simp [World.exec, hanswer]⟩

end Exec

/-! ## Rules -/

section Rules

variable {answers : ℕ → GenerateVideoResult} {s : Session} {α β : Type}

abbrev Serves (answers : ℕ → GenerateVideoResult) (p : Prog α) (s : Session)
    (Post : Session → Except Thrown α → Prop) : Prop :=
  p.Keeps (Program.environment (Session.exec answers) fun _ ↦ True) Post s

structure Unstored (s s' : Session) : Prop where
  downloads : s'.downloads = s.downloads
  bucket : s'.world.bucket = s.world.bucket

/-- The rows are as before, the provider was not asked, and nothing was stored. -/
structure Untouched (s s' : Session) : Prop extends Unstored s s' where
  videos : s'.world.videos = s.world.videos
  asked : s'.asked = s.asked

theorem Unstored.trans {s₁ s₂ s₃ : Session} (h : Unstored s₁ s₂) (h' : Unstored s₂ s₃) :
    Unstored s₁ s₃ :=
  ⟨h'.downloads.trans h.downloads, h'.bucket.trans h.bucket⟩

theorem Untouched.refl (s : Session) : Untouched s s := ⟨⟨rfl, rfl⟩, rfl, rfl⟩

theorem Untouched.trans {s₁ s₂ s₃ : Session} (h : Untouched s₁ s₂) (h' : Untouched s₂ s₃) :
    Untouched s₁ s₃ :=
  ⟨h.toUnstored.trans h'.toUnstored, h'.videos.trans h.videos, h'.asked.trans h.asked⟩

/-- The program returns a value with `Q`, touches neither rows nor storage and does not ask the
provider. -/
def Idles (answers : ℕ → GenerateVideoResult) (Q : α → Prop) (p : Prog α) : Prop :=
  ∀ s, Serves answers p s fun s' r ↦ ∃ a, r = .ok a ∧ Q a ∧ Untouched s s'

theorem serves_ask {c : Call} {Post : Session → Except Thrown c.Reply → Prop} :
    Serves answers (ask c) s Post ↔
      ∀ a s' r, s.exec answers c a = some (s', r) → Post s' r := by
  constructor
  · intro h a s' r hexec
    exact h.2 r s' ⟨a, trivial, hexec⟩
  · intro h
    refine ⟨trivial, ?_⟩
    rintro r s' ⟨a, -, hexec⟩
    exact h a s' r hexec

theorem Session.exec_unstored {s s' : Session} {c : Call} {a : Answer}
    {r : Except Thrown c.Reply} (hexternal : c.External = false)
    (hbucket : c.WritesBucket = false) (h : s.exec answers c a = some (s', r)) :
    Unstored s s' := by
  obtain ⟨x, -, hanswer, -, hdownloads⟩ := Session.exec_cases hexternal h
  refine ⟨hdownloads, ?_⟩
  rcases World.answer_bucket_cases hanswer with hsame | ⟨key, body, contentType, rfl, -⟩ |
    ⟨key, rfl, -⟩
  · exact hsame
  · cases hbucket
  · cases hbucket

theorem idles_pure {Q : α → Prop} {a : α} (h : Q a) : Idles answers Q (pure a : Prog α) :=
  fun s ↦ ⟨a, rfl, h, .refl s⟩

theorem idles_ask {c : Call} (hexternal : c.External = false)
    (hbucket : c.WritesBucket = false) (hvideos : c.WritesVideos = false) :
    Idles answers (fun _ ↦ True) (ask c) := by
  intro s
  rw [serves_ask]
  intro a s' r hexec
  obtain ⟨x, rfl, hanswer, hasked, -⟩ := Session.exec_cases hexternal hexec
  exact ⟨x, rfl, trivial, Session.exec_unstored hexternal hbucket hexec,
    (World.answer_frame hanswer).1 hvideos, hasked⟩

theorem Idles.then {Q : α → Prop} {p : Prog α} {f : α → Prog β}
    {Post : Session → Except Thrown β → Prop} (hp : Idles answers Q p)
    (hf : ∀ a s', Q a → Untouched s s' → Serves answers (f a) s' Post) :
    Serves answers (p >>= f) s Post := by
  refine Program.keeps_bind.mpr (Program.Keeps.mono ?_ (hp s))
  rintro s' r ⟨a, rfl, ha, hsame⟩
  exact hf a s' ha hsame

theorem Idles.bind {Q : α → Prop} {R : β → Prop} {p : Prog α} {f : α → Prog β}
    (hp : Idles answers Q p) (hf : ∀ a, Q a → Idles answers R (f a)) :
    Idles answers R (p >>= f) := by
  intro s
  apply hp.then
  intro a s' ha hsame
  refine Program.Keeps.mono ?_ (hf a ha s')
  rintro s'' r ⟨b, rfl, hb, hsame'⟩
  exact ⟨b, rfl, hb, hsame.trans hsame'⟩

theorem serves_catchWith {p : Prog α} {h : Thrown → Prog α} {Post : Session → α → Prop}
    (hp : Serves answers p s fun s' r ↦ ∃ a, r = .ok a ∧ Post s' a) :
    Serves answers (p.catchWith h) s fun s' r ↦ ∃ a, r = .ok a ∧ Post s' a := by
  refine Program.keeps_catchWith.mpr (Program.Keeps.mono ?_ hp)
  rintro s' r ⟨a, rfl, ha⟩
  exact ⟨a, rfl, ha⟩

theorem Idles.catchWith {Q : α → Prop} {p : Prog α} (hp : Idles answers Q p)
    (h : Thrown → Prog α) : Idles answers Q (p.catchWith h) :=
  fun s ↦ serves_catchWith (hp s)

theorem idles_writeCache (videoId : String) (status : VideoStatus) (progress message : JsValue) :
    Idles answers (fun _ ↦ True) (writeCache videoId status progress message) :=
  (idles_ask rfl rfl rfl).bind fun _ _ ↦ idles_ask rfl rfl rfl

theorem idles_enhancePrompt (prompt : String) :
    Idles answers (fun _ ↦ True) (enhancePrompt prompt) :=
  Idles.catchWith ((idles_ask rfl rfl rfl).bind fun _ _ ↦ idles_pure trivial) _

theorem serves_withRetry {p : Prog α} {Post : Session → α → Prop}
    (hp : Serves answers p s fun s' r ↦ ∃ a, r = .ok a ∧ Post s' a) :
    Serves answers (withRetry p maxRetryAttempts) s fun s' r ↦ ∃ a, r = .ok a ∧ Post s' a := by
  refine Program.keeps_bind.mpr (Program.keeps_attempt.mpr (Program.Keeps.mono ?_ hp))
  rintro s' r ⟨a, rfl, ha⟩
  exact ⟨a, rfl, ha⟩

end Rules

/-! ## Storing the video -/

section Storing

variable {answers : ℕ → GenerateVideoResult} {s s' : Session}

def SameCourse (s s' : Session) : Prop :=
  s'.world.videos = s.world.videos ∧ s'.asked = s.asked

/-- What comes of a given url: nothing when its video is already stored, otherwise an object
under the key that was downloaded from the url. -/
def Stores (key : String) (result : GenerateVideoResult) (videoUrl : String)
    (s s' : Session) : Prop :=
  if result.alreadyStored = some true then Unstored s s'
  else ∃ body, s'.downloads = s.downloads ++ [(videoUrl, body)] ∧
    s'.world.bucket key = some (body, "video/mp4")

theorem serves_s3Put (key contentType : String) (body : Bytes) :
    Serves answers (ask (.s3Put key body contentType)) s fun s' r ↦ ∃ u, r = .ok u ∧
      SameCourse s s' ∧ s'.downloads = s.downloads ∧
      s'.world.bucket key = some (body, contentType) := by
  rw [serves_ask]
  intro a s' r hexec
  obtain ⟨u, rfl, hanswer, hasked, hdownloads⟩ := Session.exec_cases rfl hexec
  refine ⟨u, rfl, ⟨(World.answer_frame hanswer).1 rfl, hasked⟩, hdownloads, ?_⟩
  rw [World.answer_s3Put hanswer]
  simp [World.setBucket]

theorem serves_storeVideo (config : StorageConfig) (job : Job) (result : GenerateVideoResult)
    (videoUrl : String) :
    Serves answers (storeVideo config job result videoUrl) s fun s' r ↦ ∃ url, r = .ok url ∧
      url = storedUrl config job result videoUrl ∧ SameCourse s s' ∧
      Stores (outputKey job.data.videoId) result videoUrl s s' := by
  unfold storeVideo storedUrl Stores
  split
  · exact ⟨videoUrl, rfl, rfl, ⟨rfl, rfl⟩, rfl, rfl⟩
  · have hfetch : Serves answers (Program.catchWith (ask (.httpsGet videoUrl)) fun _ ↦
        raise .internal "Failed to fetch video from source URL") s fun s' r ↦ ∃ body, r = .ok body ∧
          s' = { s with downloads := s.downloads ++ [(videoUrl, body)] } := by
      apply serves_catchWith
      rw [serves_ask]
      intro a s' r hexec
      obtain ⟨body, -, rfl, hs⟩ := Session.exec_httpsGet hexec
      exact ⟨body, rfl, hs⟩
    refine Program.keeps_bind.mpr (Program.Keeps.mono ?_ hfetch)
    rintro s₁ r ⟨body, rfl, rfl⟩
    apply serves_catchWith
    refine Program.keeps_bind.mpr (Program.Keeps.mono ?_
      (serves_withRetry (serves_s3Put (outputKey job.data.videoId) "video/mp4" body)))
    rintro s₂ r ⟨u, rfl, hcourse, hdownloads, hbucket⟩
    exact ⟨_, rfl, rfl, hcourse, body, hdownloads, hbucket⟩

end Storing

/-! ## The polling loop -/

/-- Where the loop ends, with the poll that brought a video or with the number of polls: it
has polled `polled` times and polls at most `remaining` times more. -/
def pollOutcome (answers : ℕ → GenerateVideoResult) (polled : ℕ) : ℕ → Except ℕ (ℕ × String)
  | 0 => .error polled
  | remaining + 1 =>
      if (answers polled).status = .processing then
        match truthy (answers (polled + 1)).videoUrl with
        | some url => .ok (polled + 1, url)
        | none => pollOutcome answers (polled + 1) remaining
      else .error polled

/-- The row of the video is being processed, the provider was asked so many times, and nothing
was stored since `s₀`. -/
structure Processing (videoId : String) (s₀ : Session) (asked : ℕ) (s : Session) : Prop
    extends Unstored s₀ s where
  asked_eq : s.asked = asked
  status : s.world.statusOf videoId = some .processing

def CompletedWith (videoId url : String) (s : Session) : Prop :=
  ∃ row, s.world.videos.find? videoId = some row ∧ row.status = .completed ∧
    row.videoUrl = some url

/-- Since `s₀` the row was completed with the video of an answer, which was stored unless it was
stored before. -/
structure CompletedBy (config : StorageConfig) (job : Job) (result : GenerateVideoResult)
    (videoUrl : String) (s₀ s : Session) : Prop where
  completed : CompletedWith job.data.videoId (storedUrl config job result videoUrl) s
  stores : Stores (outputKey job.data.videoId) result videoUrl s₀ s

def Concludes (config : StorageConfig) (job : Job) (answers : ℕ → GenerateVideoResult)
    (s₀ : Session) (outcome : Except ℕ (ℕ × String)) (s : Session) (r : Except Thrown Unit) :
    Prop :=
  match outcome with
  | .ok (k, url) => r = .ok () ∧ CompletedBy config job (answers k) url s₀ s
  | .error polled => (∃ e, r = .error e) ∧ s.asked = polled + 1

section Loop

variable {config : StorageConfig} {job : Job} {answers : ℕ → GenerateVideoResult}
  {s₀ s : Session}

theorem Processing.untouched {videoId : String} {asked : ℕ} {s' : Session}
    (h : Processing videoId s₀ asked s) (hsame : Untouched s s') :
    Processing videoId s₀ asked s' := by
  refine ⟨h.toUnstored.trans hsame.toUnstored, hsame.asked.trans h.asked_eq, ?_⟩
  rw [World.statusOf, hsame.videos]
  exact h.status

theorem CompletedWith.untouched {videoId url : String} {s' : Session}
    (h : CompletedWith videoId url s) (hsame : Untouched s s') : CompletedWith videoId url s' := by
  unfold CompletedWith
  rw [hsame.videos]
  exact h

section Stores

variable {key videoUrl : String} {result : GenerateVideoResult} {s₁ s₂ : Session}

theorem Stores.after (h : Stores key result videoUrl s₁ s₂) (hsame : Unstored s₀ s₁) :
    Stores key result videoUrl s₀ s₂ := by
  unfold Stores at h ⊢
  by_cases hstored : result.alreadyStored = some true
  · rw [if_pos hstored] at h ⊢
    exact hsame.trans h
  · rw [if_neg hstored] at h ⊢
    rw [hsame.downloads] at h
    exact h

theorem Stores.before (h : Stores key result videoUrl s₀ s₁) (hsame : Unstored s₁ s₂) :
    Stores key result videoUrl s₀ s₂ := by
  unfold Stores at h ⊢
  by_cases hstored : result.alreadyStored = some true
  · rw [if_pos hstored] at h ⊢
    exact h.trans hsame
  · rw [if_neg hstored] at h ⊢
    rw [hsame.downloads, hsame.bucket]
    exact h

end Stores

theorem serves_update {videoId : String} {asked : ℕ} {status : VideoStatus}
    {fields : VideoFields} (hasked : s.asked = asked) {row : Video}
    (hrow : s.world.videos.find? videoId = some row) (hstatus : row.status = status)
    {Post : Session → Except Thrown ℕ → Prop}
    (hpost : ∀ s', s'.asked = asked → Unstored s s' → s'.world.videos.find? videoId =
      some (row.assign fields s.world.now) → Post s' (.ok 1)) :
    Serves answers (updateVideo videoId (some status) fields) s Post := by
  refine serves_ask.mpr ?_
  intro a s' r hexec
  obtain ⟨n, rfl, hanswer, hsame, -⟩ := Session.exec_cases rfl hexec
  obtain ⟨hworld, hn⟩ := World.answer_updateVideo hanswer
  have hguard : (some status).all (· = row.status) = true := by simp [hstatus]
  have hone : n = 1 := by
    rw [hn]
    simp [World.updateVideo, hrow, hstatus]
  subst hone
  apply hpost s' (hsame.trans hasked) (Session.exec_unstored rfl rfl hexec)
  rw [hworld, World.find?_updateVideo, if_pos rfl, hrow, Option.map_some, if_pos hguard]

theorem serves_updateProgress {asked : ℕ} (h : Processing job.data.videoId s₀ asked s)
    (percent : ℤ) (message : String) (additionalMeta : JsObject) {f : Prog Unit}
    {Post : Session → Except Thrown Unit → Prop}
    (hf : ∀ s', Processing job.data.videoId s₀ asked s' → Serves answers f s' Post) :
    Serves answers (do
      updateProgress job.data.videoId percent message additionalMeta
      f) s Post := by
  obtain ⟨hunstored, hasked, hstatus⟩ := h
  obtain ⟨row, hrow, hprocessing⟩ := World.statusOf_eq_some_iff.mp hstatus
  refine Program.keeps_bind.mpr (Program.keeps_bind.mpr
    (serves_update hasked hrow hprocessing fun s' hasked' hunstored' hrow' ↦ ?_))
  have hprocessing' : Processing job.data.videoId s₀ asked s' :=
    ⟨hunstored.trans hunstored', hasked',
      World.statusOf_eq_some_iff.mpr ⟨_, hrow', hprocessing⟩⟩
  refine Program.Keeps.mono ?_ (idles_writeCache _ _ _ _ s')
  rintro s'' r ⟨a, rfl, -, hsame⟩
  exact hf s'' (hprocessing'.untouched hsame)

theorem serves_finishGeneration {asked : ℕ} (h : Processing job.data.videoId s₀ asked s)
    (result : GenerateVideoResult) (videoUrl : String) :
    Serves answers (finishGeneration config job result videoUrl) s fun s' r ↦ r = .ok () ∧
      CompletedBy config job result videoUrl s₀ s' := by
  refine Program.keeps_bind.mpr (Program.Keeps.mono ?_
    (serves_storeVideo config job result videoUrl))
  rintro s₁ r ⟨url, rfl, rfl, ⟨hvideos, -⟩, hstores⟩
  obtain ⟨row, hrow, hprocessing⟩ := World.statusOf_eq_some_iff.mp h.status
  rw [← hvideos] at hrow
  have hreport (s₂ : Session) (hdone : CompletedBy config job result videoUrl s₀ s₂) :
      Serves answers (do
        jobUpdateProgress job 100
        emit (.completed ⟨job.data.videoId, storedUrl config job result videoUrl,
          result.thumbnailUrl⟩) : Prog Unit) s₂ fun s' r ↦ r = .ok () ∧
        CompletedBy config job result videoUrl s₀ s' := by
    have hidle : Idles answers (fun _ ↦ True) (do
        jobUpdateProgress job 100
        emit (.completed ⟨job.data.videoId, storedUrl config job result videoUrl,
          result.thumbnailUrl⟩) : Prog Unit) :=
      (idles_ask rfl rfl rfl).bind fun _ _ ↦ idles_ask rfl rfl rfl
    refine Program.Keeps.mono ?_ (hidle s₂)
    rintro s' r ⟨a, rfl, -, hsame⟩
    exact ⟨rfl, hdone.completed.untouched hsame, hdone.stores.before hsame.toUnstored⟩
  change Program.Then _ _ _ s₁ (.ok (storedUrl config job result videoUrl))
  rw [Program.then_ok, transitionStatus, if_pos allowed_processing_completed]
  refine Program.keeps_bind.mpr (Program.keeps_bind.mpr
    (serves_update rfl hrow hprocessing fun s₂ _ hunstored₂ hrow₂ ↦ ?_))
  have hdone : CompletedBy config job result videoUrl s₀ s₂ :=
    ⟨⟨_, hrow₂, rfl, rfl⟩, (hstores.after h.toUnstored).before hunstored₂⟩
  have hcached (progress message : JsValue) : Idles answers (fun _ ↦ True) (do
      writeCache job.data.videoId .completed progress message
      pure true : Prog Bool) :=
    (idles_writeCache _ _ _ _).bind fun _ _ ↦ idles_pure trivial
  refine Program.Keeps.mono ?_ (hcached _ _ s₂)
  rintro s₃ r ⟨a, rfl, -, hsame⟩
  exact hreport s₃ ⟨hdone.completed.untouched hsame, hdone.stores.before hsame.toUnstored⟩

theorem serves_pollLoop (generationJobId : String) (remaining polled : ℕ)
    (h : Processing job.data.videoId s₀ (polled + 1) s) :
    Serves answers (pollLoop config job generationJobId (answers polled).status polled remaining)
      s (Concludes config job answers s₀ (pollOutcome answers polled remaining)) := by
  induction remaining generalizing polled s with
  | zero => exact ⟨⟨_, rfl⟩, h.asked_eq⟩
  | succ remaining ih =>
      unfold pollLoop pollOutcome
      split
      · refine Idles.then (idles_ask rfl rfl rfl) fun _ s₁ _ hsame ↦ ?_
        have h₁ := h.untouched hsame
        refine Program.keeps_bind.mpr (serves_ask.mpr ?_)
        intro a s₂ r hexec
        obtain ⟨rfl, rfl⟩ := Prod.mk.inj (Option.some.inj hexec)
        rw [h₁.asked_eq, Program.then_ok]
        have h₂ : Processing job.data.videoId s₀ (polled + 1 + 1)
            { s₁ with asked := polled + 1 + 1 } := ⟨⟨h₁.downloads, h₁.bucket⟩, rfl, h₁.status⟩
        refine serves_updateProgress h₂ _ _ _ fun s₃ h₃ ↦ ?_
        refine Idles.then (idles_ask rfl rfl rfl) fun _ s₄ _ hsame₄ ↦ ?_
        refine Idles.then (idles_ask rfl rfl rfl) fun _ s₅ _ hsame₅ ↦ ?_
        have h₅ := (h₃.untouched hsame₄).untouched hsame₅
        cases truthy (answers (polled + 1)).videoUrl with
        | some url => exact serves_finishGeneration h₅ _ _
        | none => exact ih (polled + 1) h₅
      · exact ⟨⟨_, rfl⟩, h.asked_eq⟩

theorem serves_generate (video : Video) (h : Processing job.data.videoId s₀ 0 s) :
    Serves answers (generate config job video) s
      (Concludes config job answers s₀ (pollOutcome answers 0 maxPollAttempts)) := by
  refine Idles.then (idles_ask rfl rfl rfl) fun _ s₁ _ hsame₁ ↦ ?_
  refine Idles.then (idles_ask rfl rfl rfl) fun _ s₂ _ hsame₂ ↦ ?_
  refine Idles.then (idles_enhancePrompt _) fun _ s₃ _ hsame₃ ↦ ?_
  have h₃ := ((h.untouched hsame₁).untouched hsame₂).untouched hsame₃
  refine serves_updateProgress h₃ _ _ _ fun s₄ h₄ ↦ ?_
  refine Idles.then (idles_ask rfl rfl rfl) fun _ s₅ _ hsame₅ ↦ ?_
  have h₅ := h₄.untouched hsame₅
  refine Program.keeps_bind.mpr (serves_ask.mpr ?_)
  intro a s₆ r hexec
  obtain ⟨rfl, rfl⟩ := Prod.mk.inj (Option.some.inj hexec)
  rw [h₅.asked_eq, Program.then_ok]
  have h₆ : Processing job.data.videoId s₀ 1 { s₅ with asked := 0 + 1 } :=
    ⟨⟨h₅.downloads, h₅.bucket⟩, rfl, h₅.status⟩
  refine serves_updateProgress h₆ _ _ _ fun s₇ h₇ ↦ ?_
  refine Idles.then (idles_ask rfl rfl rfl) fun _ s₈ _ hsame₈ ↦ ?_
  exact serves_pollLoop _ _ 0 (h₇.untouched hsame₈)

theorem serves_attemptGeneration {row : Video} (hasked : s.asked = 0)
    (hrow : s.world.videos.find? job.data.videoId = some row)
    (hallowed : Allowed row.status .processing) :
    Serves answers (attemptGeneration config job) s
      (Concludes config job answers s (pollOutcome answers 0 maxPollAttempts)) := by
  have hload : Serves answers (findById job.data.videoId) s fun s' r ↦
      r = .ok row ∧ Untouched s s' := by
    refine Program.keeps_bind.mpr (serves_ask.mpr ?_)
    intro a s' r hexec
    obtain ⟨x, rfl, hanswer, hsame, -⟩ := Session.exec_cases rfl hexec
    obtain ⟨hworld, rfl⟩ := World.answer_selectVideo hanswer
    rw [hrow]
    exact ⟨rfl, Session.exec_unstored rfl rfl hexec, congrArg World.videos hworld, hsame⟩
  refine Program.keeps_bind.mpr (Program.Keeps.mono ?_ hload)
  rintro s₁ r ⟨rfl, hsame⟩
  have hrow₁ : s₁.world.videos.find? job.data.videoId = some row := hsame.videos.symm ▸ hrow
  refine Program.keeps_bind.mpr ?_
  rw [transitionStatus, if_pos hallowed]
  refine Program.keeps_bind.mpr
    (serves_update (hsame.asked.trans hasked) hrow₁ rfl fun s₂ hasked₂ hunstored₂ hrow₂ ↦ ?_)
  have h₂ : Processing job.data.videoId s 0 s₂ :=
    ⟨hsame.toUnstored.trans hunstored₂, hasked₂,
      World.statusOf_eq_some_iff.mpr ⟨_, hrow₂, rfl⟩⟩
  have hcached (progress message : JsValue) : Idles answers (fun b ↦ b = true) (do
      writeCache job.data.videoId .processing progress message
      pure true : Prog Bool) :=
    (idles_writeCache _ _ _ _).bind fun _ _ ↦ idles_pure rfl
  refine Program.Keeps.mono ?_ (hcached _ _ s₂)
  rintro s₃ r ⟨started, rfl, rfl, hsame₃⟩
  exact serves_generate row (h₂.untouched hsame₃)

theorem serves_onGenerationError (error : Thrown) :
    Serves answers (onGenerationError job error) s fun s' r ↦
      (∃ e, r = .error e) ∧ s'.asked = s.asked := by
  change Serves answers (if IsFinalAttempt job then _ else _) s _
  split
  · refine Program.keeps_bind.mpr (Program.keeps_bind.mpr (serves_ask.mpr ?_))
    intro a s₁ r hexec
    obtain ⟨n, rfl, -, hasked, -⟩ := Session.exec_cases rfl hexec
    have hevict : Idles answers (fun _ ↦ True) (evictCache job.data.videoId) :=
      Idles.catchWith (idles_ask rfl rfl rfl) _
    refine Program.Keeps.mono ?_ (hevict s₁)
    rintro s₂ r ⟨b, rfl, -, hsame⟩
    refine Idles.then (idles_ask rfl rfl rfl) fun _ s₃ _ hsame' ↦ ?_
    exact ⟨⟨error, rfl⟩, hsame'.asked.trans (hsame.asked.trans hasked)⟩
  · exact ⟨⟨error, rfl⟩, rfl⟩

theorem serves_handleVideoGeneration {row : Video} (hasked : s.asked = 0)
    (hrow : s.world.videos.find? job.data.videoId = some row)
    (hallowed : Allowed row.status .processing) :
    Serves answers (handleVideoGeneration config job) s
      (Concludes config job answers s (pollOutcome answers 0 maxPollAttempts)) := by
  refine Program.keeps_catchWith.mpr (Program.Keeps.mono ?_
    (serves_attemptGeneration hasked hrow hallowed))
  intro s' r hends
  cases r with
  | ok x => exact hends
  | error e =>
      generalize pollOutcome answers 0 maxPollAttempts = outcome at hends ⊢
      cases outcome with
      | ok p => cases hends.1
      | error polled =>
          refine Program.Keeps.mono ?_ (serves_onGenerationError e)
          rintro s'' r ⟨hthrown, hsame⟩
          exact ⟨hthrown, hsame.trans hends.2⟩

end Loop

/-! ## Where the loop ends -/

section Outcome

variable {answers : ℕ → GenerateVideoResult} {polled remaining k : ℕ} {url : String}

theorem pollOutcome_ok (h : pollOutcome answers polled remaining = .ok (k, url)) :
    polled < k ∧ k ≤ polled + remaining ∧ truthy (answers k).videoUrl = some url ∧
      (∀ j, polled ≤ j → j < k → (answers j).status = .processing) ∧
      ∀ j, polled < j → j < k → truthy (answers j).videoUrl = none := by
  induction remaining generalizing polled with
  | zero => cases h
  | succ remaining ih =>
      unfold pollOutcome at h
      split at h
      · rename_i hprocessing
        cases hurl : truthy (answers (polled + 1)).videoUrl with
        | some given =>
            rw [hurl] at h
            obtain ⟨rfl, rfl⟩ := Prod.mk.inj (Except.ok.inj h)
            refine ⟨by omega, by omega, hurl, ?_, fun j _ _ ↦ by omega⟩
            intro j hle hlt
            obtain rfl : j = polled := by omega
            exact hprocessing
        | none =>
            rw [hurl] at h
            obtain ⟨hlt, hle, hk, hstatus, hnone⟩ := ih h
            refine ⟨by omega, by omega, hk, ?_, ?_⟩
            · intro j hj hjk
              rcases Nat.eq_or_lt_of_le hj with rfl | hj
              · exact hprocessing
              · exact hstatus j hj hjk
            · intro j hj hjk
              rcases Nat.eq_or_lt_of_le hj with rfl | hj
              · exact hurl
              · exact hnone j hj hjk
      · cases h

theorem pollOutcome_error (h : pollOutcome answers polled remaining = .error k) :
    polled ≤ k ∧ k ≤ polled + remaining ∧
      (∀ j, polled ≤ j → j < k → (answers j).status = .processing) ∧
      (∀ j, polled < j → j ≤ k → truthy (answers j).videoUrl = none) ∧
      (k = polled + remaining ∨ (answers k).status ≠ .processing) := by
  induction remaining generalizing polled with
  | zero =>
      obtain rfl := Except.error.inj h
      exact ⟨Nat.le_refl _, Nat.le_refl _, fun j _ _ ↦ by omega, fun j _ _ ↦ by omega, .inl rfl⟩
  | succ remaining ih =>
      unfold pollOutcome at h
      split at h
      · rename_i hprocessing
        cases hurl : truthy (answers (polled + 1)).videoUrl with
        | some given =>
            rw [hurl] at h
            cases h
        | none =>
            rw [hurl] at h
            obtain ⟨hle, hbound, hstatus, hnone, hlast⟩ := ih h
            refine ⟨by omega, by omega, ?_, ?_, hlast.imp (fun h ↦ by omega) id⟩
            · intro j hj hjk
              rcases Nat.eq_or_lt_of_le hj with rfl | hj
              · exact hprocessing
              · exact hstatus j hj hjk
            · intro j hj hjk
              rcases Nat.eq_or_lt_of_le hj with rfl | hj
              · exact hurl
              · exact hnone j hj hjk
      · rename_i hstatus
        obtain rfl := Except.error.inj h
        exact ⟨Nat.le_refl _, by omega, fun j _ _ ↦ by omega, fun j _ _ ↦ by omega, .inr hstatus⟩

end Outcome

/-! ## Attempts -/

section Attempts

variable {config : StorageConfig} {job : Job} {answers : ℕ → GenerateVideoResult}

theorem session_serves {phase : Phase} {c : Call} (h : WorkerAllows job phase c) (s : Session) :
    ∃ a s₁ x, s.exec answers c a = some (s₁, .ok x) := by
  by_cases hexternal : c.External = true
  · cases c with
    | generateVideo params videoId => exact ⟨.unit, _, _, rfl⟩
    | getGenerationStatus jobId => exact ⟨.unit, _, _, rfl⟩
    | httpsGet url => exact ⟨.bytes [], _, _, rfl⟩
    | _ => cases hexternal
  · have hanswer : ∃ a p, s.world.answer c a = some p := by
      cases h with
      | quiet c hquiet =>
          cases c with
          | chatCompletion prompt => exact ⟨.text none, _, rfl⟩
          | generateVideo params videoId => exact absurd rfl hexternal
          | getGenerationStatus jobId => exact absurd rfl hexternal
          | httpsGet url => exact absurd rfl hexternal
          | dateNow => exact ⟨.unit, _, rfl⟩
          | redisSetLater key value => exact ⟨.unit, _, rfl⟩
          | jobUpdateProgress jobId percent => exact ⟨.unit, _, rfl⟩
          | s3Put key body contentType => exact ⟨.unit, _, rfl⟩
          | setTimeout ms => exact ⟨.unit, _, rfl⟩
          | emit event => exact ⟨.unit, _, rfl⟩
          | _ => cases hquiet
      | _ => exact ⟨.unit, _, rfl⟩
    obtain ⟨a, p, hp⟩ := hanswer
    refine ⟨a, { s with world := p.1 }, p.2, ?_⟩
    rw [Session.exec_eq (by simpa using hexternal), hp]
    rfl

theorem exists_attempt (config : StorageConfig) (job : Job) (answers : ℕ → GenerateVideoResult)
    (w : World) : ∃ ts r s,
      (handleVideoGeneration config job).Evaluates (Session.exec answers) (.start w) ts r s := by
  refine Program.exists_evaluates (workerProtocol job) ?_ keeps_handleVideoGeneration _
  intro phase s c hallows
  obtain ⟨a, s₁, x, hexec⟩ := session_serves hallows s
  exact ⟨a, s₁, .ok x, hexec, trivial⟩

/-- An attempt in a session is an attempt in which the stores reject no call. -/
theorem attempt_world {w : World} {ts : List (Transition Session Answer)}
    {r : Except Thrown Unit} {s : Session}
    (h : (handleVideoGeneration config job).Evaluates (Session.exec answers) (.start w) ts r s) :
    ∃ us, (handleVideoGeneration config job).Evaluates World.exec w us r s.world ∧
      ∀ u ∈ us, ∃ b, u.act = Fate.ok b := by
  have hcall (s : Session) (c : Call) (a : Answer) (s₁ : Session) (x : Except Thrown c.Reply)
      (hexec : s.exec answers c a = some (s₁, x)) :
      ∃ f, (∃ b, f = Fate.ok b) ∧ s.world.exec c f = some (s₁.world, x) := by
    obtain ⟨b, hb⟩ := Session.exec_world hexec
    exact ⟨.ok b, ⟨b, rfl⟩, hb⟩
  exact h.simulated Session.world hcall

end Attempts

/-! ## Which answers are honoured -/

def GenerateVideoResult.NonTerminal (result : GenerateVideoResult) : Prop :=
  result.status = .pending ∨ result.status = .processing

/-- The attempt completes the row with the video of the first url that comes after answers that
end nothing, and throws only for an answer that ends the generation without a video or after
all polls. -/
structure HonoursAnswers (config : StorageConfig) (job : Job)
    (answers : ℕ → GenerateVideoResult) (s₀ s : Session) (r : Except Thrown Unit) : Prop where
  completes : ∀ k ≤ maxPollAttempts, ∀ url, truthy (answers k).videoUrl = some url →
    (∀ j < k, (answers j).NonTerminal ∧ truthy (answers j).videoUrl = none) →
      r = .ok () ∧ CompletedBy config job (answers k) url s₀ s
  throws : ∀ e, r = .error e →
    (∃ k < s.asked, (answers k).status = .failed ∨
      ((answers k).status = .completed ∧ truthy (answers k).videoUrl = none)) ∨
    (s.asked = maxPollAttempts + 1 ∧
      ∀ k, 1 ≤ k → k ≤ maxPollAttempts → truthy (answers k).videoUrl = none)

def ProcessingUntil (answers : ℕ → GenerateVideoResult) (k : ℕ) : Prop :=
  ∀ j < k, (answers j).status = .processing ∧ (1 ≤ j → truthy (answers j).videoUrl = none)

/-- Answers that the loop deals with. -/
structure Pollable (answers : ℕ → GenerateVideoResult) : Prop where
  /-- A video that comes with the submission comes again with a poll. -/
  submitted : ∀ url, truthy (answers 0).videoUrl = some url → ∃ k, 1 ≤ k ∧
    k ≤ maxPollAttempts ∧ ProcessingUntil answers k ∧ truthy (answers k).videoUrl = some url ∧
    ((answers k).alreadyStored = some true ↔ (answers 0).alreadyStored = some true)
  /-- No answer but the last is `pending`, unless it carries the video. -/
  pending : truthy (answers 0).videoUrl = none → ∀ k < maxPollAttempts,
    ProcessingUntil answers k → (answers k).status = .pending →
      truthy (answers k).videoUrl ≠ none

theorem completedBy_congr {config : StorageConfig} {job : Job} {result result' : GenerateVideoResult}
    {videoUrl videoUrl' : String} {s₀ s : Session}
    (h : CompletedBy config job result videoUrl s₀ s) :
    CompletedBy config job result' videoUrl' s₀ s ↔ videoUrl' = videoUrl ∧
      (result'.alreadyStored = some true ↔ result.alreadyStored = some true) := by
  obtain ⟨⟨row, hrow, hstatus, hurl⟩, hstores⟩ := h
  constructor
  · rintro ⟨⟨row', hrow', -, hurl'⟩, hstores'⟩
    obtain rfl := Option.some.inj (hrow'.symm.trans hrow)
    have hsame := Option.some.inj (hurl'.symm.trans hurl)
    unfold storedUrl at hsame
    unfold Stores at hstores hstores'
    by_cases hold : result.alreadyStored = some true
    · rw [if_pos hold] at hstores hsame
      by_cases hold' : result'.alreadyStored = some true
      · rw [if_pos hold'] at hsame
        exact ⟨hsame, iff_of_true hold' hold⟩
      · rw [if_neg hold', hstores.downloads] at hstores'
        obtain ⟨body, hdownloads, -⟩ := hstores'
        simp at hdownloads
    · rw [if_neg hold] at hstores
      obtain ⟨body, hdownloads, -⟩ := hstores
      by_cases hold' : result'.alreadyStored = some true
      · rw [if_pos hold'] at hstores'
        rw [hstores'.downloads] at hdownloads
        simp at hdownloads
      · rw [if_neg hold'] at hstores'
        obtain ⟨body', hdownloads', -⟩ := hstores'
        have hlast := List.append_cancel_left (hdownloads'.symm.trans hdownloads)
        obtain ⟨hvideoUrl, -⟩ := Prod.mk.inj (List.cons.inj hlast).1
        exact ⟨hvideoUrl, iff_of_false hold' hold⟩
  · rintro ⟨rfl, hiff⟩
    refine ⟨⟨row, hrow, hstatus, ?_⟩, ?_⟩
    · rw [hurl]
      simp only [storedUrl, hiff]
    · unfold Stores at hstores ⊢
      simp only [hiff]
      exact hstores

section Honours

variable {config : StorageConfig} {job : Job} {answers : ℕ → GenerateVideoResult}
  {s₀ s : Session} {r : Except Thrown Unit}

theorem honours_of_ok {k : ℕ} {url : String}
    (houtcome : pollOutcome answers 0 maxPollAttempts = .ok (k, url))
    (h : Pollable answers) (hends : r = .ok () ∧ CompletedBy config job (answers k) url s₀ s) :
    HonoursAnswers config job answers s₀ s r := by
  obtain ⟨hpos, hle, hurl, hstatus, hnone⟩ := pollOutcome_ok houtcome
  constructor
  · intro k' hk' url' hurl' hfirst
    rcases Nat.eq_zero_or_pos k' with rfl | hpos'
    · obtain ⟨n, hn, -, huntil, hgiven, hflag⟩ := h.submitted url' hurl'
      -- The poll that brings the submitted video again is the first one with a url.
      have hnk : n = k := by
        by_contra hne
        rcases Nat.lt_or_gt_of_ne hne with hlt | hlt
        · rw [hnone n hn hlt] at hgiven
          cases hgiven
        · rw [(huntil k hlt).2 hpos] at hurl
          cases hurl
      subst hnk
      obtain rfl := Option.some.inj (hgiven.symm.trans hurl)
      exact ⟨hends.1, (completedBy_congr hends.2).mpr ⟨rfl, hflag.symm⟩⟩
    · have hkk : k' = k := by
        by_contra hne
        rcases Nat.lt_or_gt_of_ne hne with hlt | hlt
        · rw [hnone k' hpos' hlt] at hurl'
          cases hurl'
        · rw [(hfirst k hlt).2] at hurl
          cases hurl
      subst hkk
      obtain rfl := Option.some.inj (hurl'.symm.trans hurl)
      exact hends
  · rintro e he
    rw [hends.1] at he
    cases he

theorem honours_of_error {n : ℕ}
    (houtcome : pollOutcome answers 0 maxPollAttempts = .error n)
    (h : Pollable answers) (hasked : s.asked = n + 1) :
    HonoursAnswers config job answers s₀ s r := by
  obtain ⟨-, hle, hstatus, hnone, hlast⟩ := pollOutcome_error houtcome
  rw [Nat.zero_add] at hle hlast
  have hsubmitted : truthy (answers 0).videoUrl = none := by
    by_contra hsome
    obtain ⟨url, hurl⟩ := Option.ne_none_iff_exists'.mp hsome
    obtain ⟨k, hk, hbound, huntil, hgiven, -⟩ := h.submitted url hurl
    rcases Nat.lt_or_ge n k with hlt | hge
    · rcases hlast with rfl | hne
      · omega
      · exact hne (huntil n hlt).1
    · rw [hnone k hk hge] at hgiven
      cases hgiven
  have hquiet (j : ℕ) (hj : j ≤ n) : truthy (answers j).videoUrl = none := by
    rcases Nat.eq_zero_or_pos j with rfl | hpos
    · exact hsubmitted
    · exact hnone j hpos hj
  have huntil : ProcessingUntil answers n :=
    fun j hj ↦ ⟨hstatus j (Nat.zero_le j) hj, fun _ ↦ hquiet j (Nat.le_of_lt hj)⟩
  constructor
  · intro k hk url hurl hfirst
    exfalso
    rcases Nat.lt_or_ge n k with hlt | hge
    · rcases hlast with rfl | hne
      · omega
      · rcases (hfirst n hlt).1 with hpending | hprocessing
        · exact h.pending hsubmitted n (by omega) huntil hpending (hquiet n (Nat.le_refl n))
        · exact hne hprocessing
    · rw [hquiet k hge] at hurl
      cases hurl
  · intro e _
    rcases Nat.eq_or_lt_of_le hle with rfl | hlt
    · exact .inr ⟨hasked, fun k _ hk ↦ hquiet k hk⟩
    · left
      refine ⟨n, by omega, ?_⟩
      cases hanswer : (answers n).status with
      | pending =>
          exact absurd (hquiet n (Nat.le_refl n)) (h.pending hsubmitted n hlt huntil hanswer)
      | processing =>
          rcases hlast with rfl | hne
          · omega
          · exact absurd hanswer hne
      | completed => exact .inr ⟨rfl, hquiet n (Nat.le_refl n)⟩
      | failed => exact .inl rfl

theorem pollable_of_ok {k : ℕ} {url : String}
    (houtcome : pollOutcome answers 0 maxPollAttempts = .ok (k, url))
    (hends : r = .ok () ∧ CompletedBy config job (answers k) url s₀ s)
    (h : HonoursAnswers config job answers s₀ s r) : Pollable answers := by
  obtain ⟨hpos, hle, hurl, hstatus, hnone⟩ := pollOutcome_ok houtcome
  constructor
  · intro given hgiven
    obtain ⟨-, hcompletedBy⟩ := h.completes 0 (Nat.zero_le _) given hgiven
      fun j hj ↦ absurd hj (Nat.not_lt_zero j)
    obtain ⟨rfl, hflag⟩ := (completedBy_congr hends.2).mp hcompletedBy
    refine ⟨k, hpos, by omega, ?_, hurl, hflag.symm⟩
    exact fun j hj ↦ ⟨hstatus j (Nat.zero_le j) hj, fun hone ↦ hnone j hone hj⟩
  · intro _ n hn huntil hpending hquiet
    rcases Nat.lt_trichotomy n k with hlt | rfl | hgt
    · rw [hstatus n (Nat.zero_le n) hlt] at hpending
      cases hpending
    · rw [hquiet] at hurl
      cases hurl
    · rw [(huntil k hgt).2 hpos] at hurl
      cases hurl

theorem pollable_of_error {n : ℕ}
    (houtcome : pollOutcome answers 0 maxPollAttempts = .error n)
    (hthrows : ∃ e, r = .error e) (hasked : s.asked = n + 1)
    (h : HonoursAnswers config job answers s₀ s r) : Pollable answers := by
  obtain ⟨e, rfl⟩ := hthrows
  obtain ⟨-, hle, hstatus, hnone, hlast⟩ := pollOutcome_error houtcome
  rw [Nat.zero_add] at hle hlast
  constructor
  · intro given hgiven
    have hok := (h.completes 0 (Nat.zero_le _) given hgiven
      fun j hj ↦ absurd hj (Nat.not_lt_zero j)).1
    cases hok
  · intro _ m hm huntil hpending hquiet
    have hmn : m = n := by
      rcases Nat.lt_trichotomy m n with hlt | heq | hgt
      · rw [hstatus m (Nat.zero_le m) hlt] at hpending
        cases hpending
      · exact heq
      · rcases hlast with rfl | hne
        · omega
        · exact absurd (huntil n hgt).1 hne
    subst hmn
    rcases h.throws e rfl with ⟨k, hk, hanswer⟩ | ⟨hall, -⟩
    · rcases Nat.eq_or_lt_of_le (Nat.le_of_lt_succ (hasked ▸ hk)) with rfl | hlt
      · rw [hpending] at hanswer
        rcases hanswer with hanswer | ⟨hanswer, -⟩ <;> cases hanswer
      · rw [hstatus k (Nat.zero_le k) hlt] at hanswer
        rcases hanswer with hanswer | ⟨hanswer, -⟩ <;> cases hanswer
    · omega

/-- An attempt comes to its end whatever the provider answers, and the answers are honoured
exactly if no video that comes with the submission is missed and no `pending` answer ends the
loop. -/
theorem honoursAnswers_iff (config : StorageConfig) (job : Job)
    (answers : ℕ → GenerateVideoResult) {row : Video} {w : World}
    (hrow : w.videos.find? job.data.videoId = some row)
    (hallowed : Allowed row.status .processing) :
    (∃ ts r s, (handleVideoGeneration config job).Evaluates (Session.exec answers) (.start w)
      ts r s) ∧
    ∀ ts r s, (handleVideoGeneration config job).Evaluates (Session.exec answers) (.start w)
      ts r s → (HonoursAnswers config job answers (.start w) s r ↔ Pollable answers) := by
  refine ⟨exists_attempt config job answers w, ?_⟩
  intro ts r s h
  have hends := h.post (serves_handleVideoGeneration (s := .start w) rfl hrow hallowed)
    fun _ _ ↦ trivial
  cases houtcome : pollOutcome answers 0 maxPollAttempts with
  | ok p =>
      rw [houtcome] at hends
      exact ⟨pollable_of_ok houtcome hends, fun hpollable ↦ honours_of_ok houtcome hpollable hends⟩
  | error n =>
      rw [houtcome] at hends
      obtain ⟨hthrows, hasked⟩ := hends
      exact ⟨pollable_of_error houtcome hthrows hasked,
        fun hpollable ↦ honours_of_error houtcome hpollable hasked⟩

end Honours

/-! ## Two providers -/

def waitingWorld : World :=
  { World.empty with
    videos := Table.single (Video.create "video" { status := some .pending } 0) }

def videoJob : Job := ⟨1, videoGenerationJob, ⟨"video"⟩, {}, 0⟩

/-- The answers: the submission, one poll without a video, and a poll that brings it. -/
def deliveringAnswers : ℕ → GenerateVideoResult
  | 0 => { jobId := "job", status := .processing }
  | 1 => { jobId := "job", status := .processing }
  | _ => { jobId := "job", status := .completed, videoUrl := some "url" }

theorem honoursAnswers_delivered : ∃ ts r s,
    (handleVideoGeneration ⟨"bucket", none, "region"⟩ videoJob).Evaluates
      (Session.exec deliveringAnswers) (.start waitingWorld) ts r s ∧
    HonoursAnswers ⟨"bucket", none, "region"⟩ videoJob deliveringAnswers
      (.start waitingWorld) s r := by
  obtain ⟨⟨ts, r, s, h⟩, hall⟩ := honoursAnswers_iff
    ⟨"bucket", none, "region"⟩ videoJob deliveringAnswers (w := waitingWorld) rfl (by decide)
  refine ⟨ts, r, s, h, (hall ts r s h).mpr ⟨?_, ?_⟩⟩
  · rintro url ⟨⟩
  · intro _ k hk huntil hpending
    match k, hpending with
    | 0, hpending => cases hpending
    | 1, hpending => cases hpending
    | k + 2, hpending => cases hpending

/-- The submission is queued, as the provider's interface allows, and the first poll would
bring the video. -/
def queuedAnswers : ℕ → GenerateVideoResult
  | 0 => { jobId := "job", status := .pending }
  | _ => { jobId := "job", status := .completed, videoUrl := some "url" }

theorem pending_gives_up : ∃ (row : Video) (ts : List (Transition Session Answer))
    (r : Except Thrown Unit) (s : Session),
    waitingWorld.videos.find? videoJob.data.videoId = some row ∧ Allowed row.status .processing ∧
    (handleVideoGeneration ⟨"bucket", none, "region"⟩ videoJob).Evaluates
      (Session.exec queuedAnswers) (.start waitingWorld) ts r s ∧
    ¬HonoursAnswers ⟨"bucket", none, "region"⟩ videoJob queuedAnswers
      (.start waitingWorld) s r := by
  obtain ⟨ts, r, s, h⟩ :=
    exists_attempt ⟨"bucket", none, "region"⟩ videoJob queuedAnswers waitingWorld
  have hallowed : Allowed (Video.create "video" { status := some .pending } 0).status
      .processing := by decide
  refine ⟨_, ts, r, s, rfl, hallowed, h, fun hhonours ↦ ?_⟩
  obtain ⟨⟨e, rfl⟩, -⟩ := h.post
    (serves_handleVideoGeneration (s := (.start waitingWorld)) rfl rfl hallowed) fun _ _ ↦ trivial
  have hok := (hhonours.completes 1 (by decide) "url" rfl ?_).1
  · cases hok
  · intro j hj
    obtain rfl : j = 0 := by omega
    exact ⟨.inl rfl, rfl⟩

end VideoGen
