import VideoGen.DownloadLinks
import VideoGen.Lib.Numerals

/-!
# How long a link lives

The lifetime of the links is the number in a query parameter that nobody
validates.  It is clamped by the videos service and again by the storage
service; neither clamp rounds, and neither does anything about `NaN`.
-/

namespace VideoGen

/-- `Number(text)` -/
def JsNumber.ofText (text : JsText) : JsNumber :=
  match Numeral.number text with
  | some x => .real x
  | none => .nan

/-- The parameter `expiresIn = 3600`, and `Number(expiresIn)`. -/
def expiresInNumber : Option JsText → JsNumber
  | none => .ofInt 3600
  | some text => .ofText text

def VideosController.getResult (extractS3Key : String → String) (userId id : String)
    (expiresIn : Option JsText) : Prog VideoResultDto :=
  getVideoResult extractS3Key id userId (expiresInNumber expiresIn)

/-! ## The clamps -/

/-- `Math.min(Math.max(x, 60), 86400)` -/
def clampTtl (x : JsNumber) : JsNumber := (x.max (.ofInt 60)).min (.ofInt maxPresignTtl)

def JsNumber.ofRat (q : ℚ) : JsNumber := .real ((q : WithTop ℚ) : WithBot (WithTop ℚ))

theorem JsNumber.ofRat_intCast (n : ℤ) : JsNumber.ofRat n = .ofInt n := rfl

theorem JsNumber.ofRat_inj {p q : ℚ} : JsNumber.ofRat p = .ofRat q ↔ p = q := by
  simp [JsNumber.ofRat]

theorem clampTtl_eq (x : JsNumber) : clampTtl x = (x.max (.ofRat 60)).min (.ofRat 86400) := by
  have h60 : JsNumber.ofInt 60 = .ofRat 60 := by
    rw [← JsNumber.ofRat_intCast]
    norm_num
  have hmax : JsNumber.ofInt maxPresignTtl = .ofRat 86400 := by
    rw [← JsNumber.ofRat_intCast, maxPresignTtl]
    norm_num
  rw [clampTtl, h60, hmax]

theorem clampTtl_ofRat (q : ℚ) : clampTtl (.ofRat q) = .ofRat (min (max q 60) 86400) := by
  rw [clampTtl_eq]
  rfl

theorem JsNumber.ofRat_sixty : JsNumber.ofRat 60 = .ofInt 60 := by
  rw [← JsNumber.ofRat_intCast]
  norm_num

theorem JsNumber.ofRat_day : JsNumber.ofRat 86400 = .ofInt 86400 := by
  rw [← JsNumber.ofRat_intCast]
  norm_num

theorem clampTtl_bot : clampTtl (.real ⊥) = .ofInt 60 := by
  have hle : ((60 : ℚ) : WithTop ℚ) ≤ (86400 : ℚ) := by
    exact_mod_cast (by norm_num : (60 : ℚ) ≤ 86400)
  rw [clampTtl_eq, ← JsNumber.ofRat_sixty]
  simp only [JsNumber.max, JsNumber.min, JsNumber.ofRat, bot_sup_eq]
  rw [inf_eq_left.mpr (WithBot.coe_le_coe.mpr hle)]

theorem clampTtl_top :
    clampTtl (.real ((⊤ : WithTop ℚ) : WithBot (WithTop ℚ))) = .ofInt 86400 := by
  rw [clampTtl_eq, ← JsNumber.ofRat_day]
  simp only [JsNumber.max, JsNumber.min, JsNumber.ofRat]
  rw [sup_eq_left.mpr (WithBot.coe_le_coe.mpr le_top),
    inf_eq_right.mpr (WithBot.coe_le_coe.mpr le_top)]

theorem JsNumber.cases (x : JsNumber) : x = .nan ∨ x = .real ⊥ ∨
    x = .real ((⊤ : WithTop ℚ) : WithBot (WithTop ℚ)) ∨ ∃ q, x = .ofRat q := by
  cases x with
  | nan => exact .inl rfl
  | real x =>
      right
      cases x using WithBot.recBotCoe with
      | bot => exact .inl rfl
      | coe x =>
          cases x using WithTop.recTopCoe with
          | top => exact .inr (.inl rfl)
          | coe q => exact .inr (.inr ⟨q, rfl⟩)

theorem clampTtl_cases (x : JsNumber) : clampTtl x = .nan ∨ ∃ q, clampTtl x = .ofRat q := by
  rcases x.cases with rfl | rfl | rfl | ⟨q, rfl⟩
  · exact .inl rfl
  · exact .inr ⟨60, by rw [clampTtl_bot, JsNumber.ofRat_sixty]⟩
  · exact .inr ⟨86400, by rw [clampTtl_top, JsNumber.ofRat_day]⟩
  · exact .inr ⟨_, clampTtl_ofRat q⟩

def ClampsWhole (x : JsNumber) : Prop := ∃ n : ℤ, 60 ≤ n ∧ n ≤ 86400 ∧ clampTtl x = .ofInt n

def Fractional (x : JsNumber) : Prop :=
  ∃ q : ℚ, x = .ofRat q ∧ 60 < q ∧ q < 86400 ∧ ∀ n : ℤ, q ≠ n

theorem clampsWhole_iff (x : JsNumber) : ClampsWhole x ↔ x ≠ .nan ∧ ¬Fractional x := by
  constructor
  · rintro ⟨n, -, -, hclamp⟩
    refine ⟨?_, ?_⟩
    · rintro rfl
      cases hclamp
    · rintro ⟨q, rfl, hlow, hhigh, hn⟩
      rw [clampTtl_ofRat, max_eq_left (le_of_lt hlow), min_eq_left (le_of_lt hhigh),
        ← JsNumber.ofRat_intCast, JsNumber.ofRat_inj] at hclamp
      exact hn n hclamp
  · rintro ⟨hnan, hwhole⟩
    rcases x.cases with rfl | rfl | rfl | ⟨q, rfl⟩
    · exact absurd rfl hnan
    · exact ⟨60, by omega, by omega, clampTtl_bot⟩
    · exact ⟨86400, by omega, by omega, clampTtl_top⟩
    · rw [ClampsWhole, clampTtl_ofRat]
      by_cases hlow : q ≤ 60
      · rw [max_eq_right hlow, min_eq_left (by norm_num)]
        exact ⟨60, by omega, by omega, JsNumber.ofRat_sixty⟩
      by_cases hhigh : 86400 ≤ q
      · rw [min_eq_right (le_trans hhigh (le_max_left q 60))]
        exact ⟨86400, by omega, by omega, JsNumber.ofRat_day⟩
      · obtain ⟨n, rfl⟩ : ∃ n : ℤ, q = n := by
          by_contra hnone
          exact hwhole ⟨q, rfl, not_le.mp hlow, not_le.mp hhigh, fun n hn ↦ hnone ⟨n, hn⟩⟩
        have hlow' : (60 : ℤ) < n := by exact_mod_cast not_le.mp hlow
        have hhigh' : n < 86400 := by exact_mod_cast not_le.mp hhigh
        rw [max_eq_left (le_of_lt (not_le.mp hlow)), min_eq_left (le_of_lt (not_le.mp hhigh))]
        exact ⟨n, by omega, by omega, JsNumber.ofRat_intCast n⟩

theorem clampTtl_clampTtl (x : JsNumber) : clampTtl (clampTtl x) = clampTtl x := by
  have hrat (q : ℚ) : clampTtl (clampTtl (.ofRat q)) = clampTtl (.ofRat q) := by
    rw [clampTtl_ofRat, clampTtl_ofRat, JsNumber.ofRat_inj]
    have hlow : (60 : ℚ) ≤ min (max q 60) 86400 := le_min (le_max_right q 60) (by norm_num)
    rw [max_eq_left hlow, min_eq_left (min_le_right _ _)]
  have hint (n : ℤ) (hlow : 60 ≤ n) (hhigh : n ≤ 86400) : clampTtl (.ofInt n) = .ofInt n := by
    rw [← JsNumber.ofRat_intCast, clampTtl_ofRat, max_eq_left (by exact_mod_cast hlow),
      min_eq_left (by exact_mod_cast hhigh)]
  rcases x.cases with rfl | rfl | rfl | ⟨q, rfl⟩
  · rfl
  · rw [clampTtl_bot]
    exact hint 60 (by omega) (by omega)
  · rw [clampTtl_top]
    exact hint 86400 (by omega) (by omega)
  · exact hrat q

/-! ## Requests -/

def AllAnswered (log : List (Exchange interface)) : Prop := ∀ x ∈ log, ∃ v, x.2 = .ok v

/-- Both links are signed for a whole number of seconds, which is what the answer says. -/
def SignedLifetime (log : List (Exchange interface)) (r : Except Thrown VideoResultDto) : Prop :=
  ∃ result n now, r = .ok result ∧ 60 ≤ n ∧ n ≤ 86400 ∧
    result.expiresInSeconds = .ofInt n ∧
    (∀ key ttl x, (⟨.s3Sign key ttl, x⟩ : Exchange interface) ∈ log → ttl = .ofInt n) ∧
    (∃ key, (⟨.s3Sign key (.ofInt n), .ok result.downloadUrl⟩ : Exchange interface) ∈ log) ∧
    (∀ url, result.thumbnailUrl = some url →
      ∃ key, (⟨.s3Sign key (.ofInt n), .ok url⟩ : Exchange interface) ∈ log) ∧
    (⟨.dateNow, .ok now⟩ : Exchange interface) ∈ log ∧
    result.expiresAt = .ofInt (now + n * 1000)

section Requests

variable {extractS3Key : String → String} {video : Video} {x : JsNumber} {key videoUrl : String}
  {log : List (Exchange interface)}

theorem allAnswered_append {log log' : List (Exchange interface)} :
    AllAnswered (log ++ log') ↔ AllAnswered log ∧ AllAnswered log' :=
  List.forall_mem_append

theorem follows_sign (hanswered : AllAnswered log) {r : Except Thrown String}
    (h : (getPresignedDownloadUrl key x).Follows log (.done r)) :
    ∃ url, log = [⟨.s3Sign key (clampTtl x), .ok url⟩] ∧ r = .ok url := by
  obtain ⟨y, rest, rfl, hnext⟩ := Program.Follows.of_call (I := interface) h
  cases y with
  | error e =>
      obtain ⟨v, hv⟩ := hanswered _ List.mem_cons_self
      cases hv
  | ok url =>
      obtain ⟨rfl, rfl⟩ := Program.Follows.of_done hnext
      exact ⟨url, rfl, rfl⟩

theorem follows_thumbnail (hanswered : AllAnswered log) {url : Option String}
    {f : Option String → Prog VideoResultDto} {r : Except Thrown VideoResultDto}
    (h : (match url with
      | some url => some <$> getPresignedDownloadUrl (extractS3Key url) x >>= f
      | none => pure none >>= f : Prog VideoResultDto).Follows log (.done r)) :
    ∃ link signed rest, log = signed ++ rest ∧ (f link).Follows rest (.done r) ∧
      (∀ y ∈ signed, ∃ key url, y = ⟨.s3Sign key (clampTtl x), .ok url⟩) ∧
      ∀ url, link = some url →
        ∃ key, (⟨.s3Sign key (clampTtl x), .ok url⟩ : Exchange interface) ∈ signed := by
  cases url with
  | none => exact ⟨none, [], log, rfl, h, by simp, by simp⟩
  | some url =>
      change ((getPresignedDownloadUrl (extractS3Key url) x >>= fun link ↦ pure (some link)) >>=
        f).Follows log (.done r) at h
      rw [Program.bind_assoc] at h
      rcases Program.follows_bind_done_iff.mp h with ⟨signed, link, rest, hsign, hrest, rfl⟩ |
        ⟨e, hsign, -⟩
      · obtain ⟨link', rfl, heq⟩ := follows_sign (allAnswered_append.mp hanswered).1 hsign
        obtain rfl := Except.ok.inj heq
        refine ⟨some link, _, rest, rfl, hrest, ?_, ?_⟩
        · intro y hy
          exact ⟨_, _, List.mem_singleton.mp hy⟩
        · intro u hu
          obtain rfl := Option.some.inj hu
          exact ⟨_, List.mem_singleton_self _⟩
      · obtain ⟨link, -, heq⟩ := follows_sign hanswered hsign
        cases heq

theorem follows_expiry (hanswered : AllAnswered log) {f : JsNumber → VideoResultDto}
    {r : Except Thrown VideoResultDto}
    (h : (do let now ← dateNow
             let expiresAt ← toExpiryDate now (clampTtl x)
             pure (f expiresAt) : Prog VideoResultDto).Follows log (.done r)) :
    ∃ now : ℕ, log = [⟨.dateNow, .ok now⟩] ∧
      ((clampTtl x = .nan ∧ ∃ e, r = .error e) ∨
        ∃ q, clampTtl x = .ofRat q ∧ r = .ok (f (.ofRat (now + q * 1000)))) := by
  obtain ⟨y, rest, rfl, hnext⟩ := Program.Follows.of_call (I := interface) h
  cases y with
  | error e =>
      obtain ⟨v, hv⟩ := hanswered _ List.mem_cons_self
      cases hv
  | ok now =>
      change (toExpiryDate now (clampTtl x) >>= fun expiresAt ↦ pure (f expiresAt)).Follows rest
        (.done r) at hnext
      rcases clampTtl_cases x with hnan | ⟨q, hq⟩
      · rw [hnan] at hnext
        obtain ⟨rfl, rfl⟩ := Program.Follows.of_done hnext
        exact ⟨now, rfl, .inl ⟨hnan, _, rfl⟩⟩
      · rw [hq] at hnext
        obtain ⟨rfl, rfl⟩ := Program.Follows.of_done hnext
        exact ⟨now, rfl, .inr ⟨q, hq, rfl⟩⟩

theorem follows_completed (hstatus : video.status = .completed)
    (hurl : truthy video.videoUrl = some videoUrl) (hanswered : AllAnswered log)
    {r : Except Thrown VideoResultDto}
    (h : (videoResult extractS3Key video x).Follows log (.done r)) :
    ∃ downloadUrl link signed, ∃ now : ℕ,
      log = ⟨.s3Sign (extractS3Key videoUrl) (clampTtl x), .ok downloadUrl⟩ ::
        (signed ++ [⟨.dateNow, .ok now⟩]) ∧
      (∀ y ∈ signed, ∃ key url, y = ⟨.s3Sign key (clampTtl x), .ok url⟩) ∧
      (∀ url, link = some url →
        ∃ key, (⟨.s3Sign key (clampTtl x), .ok url⟩ : Exchange interface) ∈ signed) ∧
      ((clampTtl x = .nan ∧ ∃ e, r = .error e) ∨
        ∃ result q, clampTtl x = .ofRat q ∧ r = .ok result ∧ result.downloadUrl = downloadUrl ∧
          result.thumbnailUrl = link ∧ result.expiresInSeconds = clampTtl x ∧
          result.expiresAt = .ofRat (now + q * 1000)) := by
  unfold videoResult at h
  rw [hstatus, hurl] at h
  rcases Program.follows_bind_done_iff.mp h with ⟨log₁, downloadUrl, log₂, hsign, hrest, rfl⟩ |
    ⟨e, hsign, -⟩
  · obtain ⟨hanswered₁, hanswered₂⟩ := allAnswered_append.mp hanswered
    obtain ⟨url, rfl, heq⟩ := follows_sign hanswered₁ hsign
    obtain rfl := Except.ok.inj heq
    obtain ⟨link, signed, log₃, rfl, hexpiry, hsigned, hlink⟩ :=
      follows_thumbnail hanswered₂ hrest
    obtain ⟨now, rfl, hend⟩ :=
      follows_expiry (allAnswered_append.mp hanswered₂).2 hexpiry
    have htwice : clampTtl ((x.max (.ofInt 60)).min (.ofInt maxPresignTtl)) = clampTtl x :=
      clampTtl_clampTtl x
    rw [htwice] at hsigned hlink ⊢
    refine ⟨downloadUrl, link, signed, now, rfl, hsigned, hlink, ?_⟩
    rcases hend with hnan | ⟨q, hq, rfl⟩
    · exact .inl hnan
    · exact .inr ⟨_, q, hq, rfl, rfl, rfl, rfl, rfl⟩
  · obtain ⟨url, -, heq⟩ := follows_sign hanswered hsign
    cases heq

theorem signed_of_clampsWhole (hstatus : video.status = .completed)
    (hurl : truthy video.videoUrl = some videoUrl) (hx : ClampsWhole x)
    (hanswered : AllAnswered log) {r : Except Thrown VideoResultDto}
    (h : (videoResult extractS3Key video x).Follows log (.done r)) : SignedLifetime log r := by
  obtain ⟨n, hlow, hhigh, hclamp⟩ := hx
  obtain ⟨downloadUrl, link, signed, now, rfl, hsigned, hlink, hend⟩ :=
    follows_completed hstatus hurl hanswered h
  rw [hclamp] at hsigned hlink hend ⊢
  rcases hend with ⟨hnan, -⟩ | ⟨result, q, hq, rfl, rfl, rfl, hexpires, hat⟩
  · cases hnan
  · rw [← JsNumber.ofRat_intCast, JsNumber.ofRat_inj] at hq
    subst hq
    refine ⟨result, n, now, rfl, hlow, hhigh, hexpires, ?_, ⟨_, List.mem_cons_self⟩, ?_,
      by simp, ?_⟩
    · intro key ttl y hy
      rcases List.mem_cons.mp hy with heq | hy
      · cases heq
        rfl
      · rcases List.mem_append.mp hy with hy | hy
        · obtain ⟨key', url, heq⟩ := hsigned _ hy
          cases heq
          rfl
        · cases List.mem_singleton.mp hy
    · intro url hu
      obtain ⟨key, hmem⟩ := hlink url hu
      exact ⟨key, List.mem_cons_of_mem _ (List.mem_append_left _ hmem)⟩
    · rw [hat, ← JsNumber.ofRat_intCast, JsNumber.ofRat_inj]
      push_cast
      ring

theorem clampsWhole_of_signed (hstatus : video.status = .completed)
    (hurl : truthy video.videoUrl = some videoUrl) (hanswered : AllAnswered log)
    {r : Except Thrown VideoResultDto}
    (h : (videoResult extractS3Key video x).Follows log (.done r))
    (hsigned : SignedLifetime log r) : ClampsWhole x := by
  obtain ⟨result, n, now, rfl, hlow, hhigh, hexpires, -⟩ := hsigned
  obtain ⟨downloadUrl, link, signed, now', -, -, -, hend⟩ :=
    follows_completed hstatus hurl hanswered h
  rcases hend with ⟨-, e, herror⟩ | ⟨result', q, -, hok, -, -, hclamp, -⟩
  · cases herror
  · obtain rfl := Except.ok.inj hok
    exact ⟨n, hlow, hhigh, hclamp.symm.trans hexpires⟩

theorem exists_answered (hstatus : video.status = .completed)
    (hurl : truthy video.videoUrl = some videoUrl) (x : JsNumber) :
    ∃ log r, (videoResult extractS3Key video x).Follows log (.done r) ∧ AllAnswered log := by
  unfold videoResult
  rw [hstatus, hurl]
  let sign (url : String) : Exchange interface :=
    ⟨.s3Sign (extractS3Key url) (clampTtl (clampTtl x)), .ok "link"⟩
  have hexpiry (f : JsNumber → VideoResultDto) : ∃ r, (do
      let expiresAt ← toExpiryDate 0 (clampTtl x)
      pure (f expiresAt) : Prog VideoResultDto).Follows [] (.done r) := by
    rcases clampTtl_cases x with hnan | ⟨q, hq⟩
    · rw [hnan]
      exact ⟨_, rfl⟩
    · rw [hq]
      exact ⟨_, rfl⟩
  cases truthy video.thumbnailUrl with
  | none =>
      exact ⟨[sign videoUrl, ⟨.dateNow, .ok (0 : ℕ)⟩], _,
        ⟨_, rfl, _, rfl, (hexpiry _).choose_spec⟩, by simp [AllAnswered, sign]⟩
  | some thumbnail =>
      exact ⟨[sign videoUrl, sign thumbnail, ⟨.dateNow, .ok (0 : ℕ)⟩], _,
        ⟨_, rfl, _, rfl, _, rfl, (hexpiry _).choose_spec⟩, by simp [AllAnswered, sign]⟩

theorem follows_getResult {id : String} {expiresIn : Option JsText}
    {r : Except Thrown VideoResultDto} :
    (VideosController.getResult extractS3Key video.userId id expiresIn).Follows
      (⟨.selectVideo id, .ok (some video)⟩ :: log) (.done r) ↔
    (videoResult extractS3Key video (expiresInNumber expiresIn)).Follows log (.done r) := by
  have hcaller : ((if video.userId = video.userId then pure video
      else raise .forbidden "Forbidden" : Prog Video) >>= fun video ↦
        videoResult extractS3Key video (expiresInNumber expiresIn)).Follows log (.done r) ↔
      (videoResult extractS3Key video (expiresInNumber expiresIn)).Follows log (.done r) := by
    rw [if_pos rfl]
    rfl
  rw [← hcaller]
  constructor
  · rintro ⟨y, heq, hnext⟩
    cases heq
    exact hnext
  · intro hnext
    exact ⟨_, rfl, hnext⟩

end Requests

/-- For every completed video of the caller: the requests whose calls are all answered report
and sign a whole lifetime in range exactly if the number in the text is not `NaN` and not a
fraction in the range of the clamp. -/
theorem lifetime_iff {video : Video} (hstatus : video.status = .completed)
    (hurl : truthy video.videoUrl ≠ none) (extractS3Key : String → String)
    (expiresIn : Option JsText) :
    (∀ id log r, (VideosController.getResult extractS3Key video.userId id expiresIn).Follows
        (⟨.selectVideo id, .ok (some video)⟩ :: log) (.done r) → AllAnswered log →
      SignedLifetime log r) ↔
    expiresInNumber expiresIn ≠ .nan ∧ ¬Fractional (expiresInNumber expiresIn) := by
  obtain ⟨videoUrl, hvideo⟩ := Option.ne_none_iff_exists'.mp hurl
  rw [← clampsWhole_iff]
  constructor
  · intro hall
    obtain ⟨log, r, hfollows, hanswered⟩ :=
      exists_answered hstatus hvideo (expiresInNumber expiresIn)
    exact clampsWhole_of_signed hstatus hvideo hanswered hfollows
      (hall "" log r (follows_getResult.mpr hfollows) hanswered)
  · intro hwhole id log r hfollows hanswered
    exact signed_of_clampsWhole hstatus hvideo hwhole hanswered (follows_getResult.mp hfollows)

/-! ## Texts -/

def finishedVideo : Video :=
  { Video.create "video" { userId := some "user", prompt := some "prompt" } 0 with
    status := .completed
    videoUrl := some "https://bucket.example.com/video.mp4" }

theorem finishedVideo_url : truthy finishedVideo.videoUrl =
    some "https://bucket.example.com/video.mp4" := by
  decide +kernel

theorem lifetime_ninety : ∃ log r,
    (VideosController.getResult (fun _ ↦ "key") finishedVideo.userId "video"
      (some (.of "90"))).Follows (⟨.selectVideo "video", .ok (some finishedVideo)⟩ :: log)
        (.done r) ∧ SignedLifetime log r := by
  have hnumber : expiresInNumber (some (.of "90")) = .ofRat 90 := by decide +kernel
  obtain ⟨log, r, hfollows, hanswered⟩ :=
      @exists_answered (fun _ ↦ "key") finishedVideo _ rfl finishedVideo_url (.ofRat 90)
  rw [← hnumber] at hfollows
  have hrequest := (@follows_getResult _ finishedVideo _ "video" _ _).mpr hfollows
  refine ⟨log, r, hrequest, (lifetime_iff rfl ?_ _ (some (.of "90"))).mpr ?_ "video" log r hrequest
    hanswered⟩
  · rw [finishedVideo_url]
    exact Option.some_ne_none _
  · rw [hnumber]
    refine ⟨by simp [JsNumber.ofRat], ?_⟩
    rintro ⟨q, heq, -, -, hn⟩
    exact hn 90 (JsNumber.ofRat_inj.mp heq).symm

/-- A text that is no number ends in an invalid date, and a fraction is signed and reported as
it is. -/
theorem lifetime_unvalidated :
    (∃ log e, AllAnswered log ∧
      (VideosController.getResult (fun _ ↦ "key") finishedVideo.userId "video"
        (some (.of "soon"))).Follows (⟨.selectVideo "video", .ok (some finishedVideo)⟩ :: log)
          (.done (.error e))) ∧
    (∃ log result, AllAnswered log ∧
      (VideosController.getResult (fun _ ↦ "key") finishedVideo.userId "video"
        (some (.of "90.5"))).Follows (⟨.selectVideo "video", .ok (some finishedVideo)⟩ :: log)
          (.done (.ok result)) ∧ result.expiresInSeconds = .ofRat (181 / 2)) ∧
    ¬∀ expiresIn log r,
      (VideosController.getResult (fun _ ↦ "key") finishedVideo.userId "video" expiresIn).Follows
        (⟨.selectVideo "video", .ok (some finishedVideo)⟩ :: log) (.done r) → AllAnswered log →
      SignedLifetime log r := by
  have hsoon : expiresInNumber (some (.of "soon")) = .nan := by decide +kernel
  have hfraction : expiresInNumber (some (.of "90.5")) = .ofRat (181 / 2) := by decide +kernel
  have hfails : ∃ log e, AllAnswered log ∧
      (VideosController.getResult (fun _ ↦ "key") finishedVideo.userId "video"
        (some (.of "soon"))).Follows (⟨.selectVideo "video", .ok (some finishedVideo)⟩ :: log)
          (.done (.error e)) := by
    obtain ⟨log, r, hfollows, hanswered⟩ :=
      @exists_answered (fun _ ↦ "key") finishedVideo _ rfl finishedVideo_url .nan
    obtain ⟨-, -, -, -, -, -, -, ⟨-, e, rfl⟩ | ⟨-, q, hq, -⟩⟩ :=
      follows_completed rfl finishedVideo_url hanswered hfollows
    · rw [← hsoon] at hfollows
      exact ⟨log, e, hanswered, follows_getResult.mpr hfollows⟩
    · cases hq
  refine ⟨hfails, ?_, ?_⟩
  · obtain ⟨log, r, hfollows, hanswered⟩ :=
      @exists_answered (fun _ ↦ "key") finishedVideo _ rfl finishedVideo_url (.ofRat (181 / 2))
    have hclamp : clampTtl (.ofRat (181 / 2)) = .ofRat (181 / 2) := by
      rw [clampTtl_ofRat]
      norm_num
    obtain ⟨-, -, -, -, -, -, -, ⟨hnan, -⟩ | ⟨result, q, -, rfl, -, -, hexpires, -⟩⟩ :=
      follows_completed rfl finishedVideo_url hanswered hfollows
    · rw [hclamp] at hnan
      cases hnan
    · rw [← hfraction] at hfollows
      rw [hclamp] at hexpires
      exact ⟨log, result, hanswered, follows_getResult.mpr hfollows, hexpires⟩
  · intro hall
    obtain ⟨log, e, hanswered, hfollows⟩ := hfails
    obtain ⟨result, n, now, hok, -⟩ := hall _ log _ hfollows hanswered
    cases hok

end VideoGen
