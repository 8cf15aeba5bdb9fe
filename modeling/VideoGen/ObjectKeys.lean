import VideoGen.Lib.Url
import VideoGen.StorageService

/-!
# Object keys and their URLs

`getPublicUrl` writes an object's URL in path style behind a configured
endpoint, and in virtual-hosted style otherwise.  `extractS3Key` takes the
path of the URL apart again and strips its first segment, which is the bucket
in the path style only.
-/

namespace VideoGen

/-- `path.replace(/^\/[^/]+\//, '')` -/
def stripBucket : List Char → List Char
  | '/' :: rest =>
      match rest.dropWhile (· ≠ '/') with
      | '/' :: key => if rest.takeWhile (· ≠ '/') = [] then '/' :: rest else key
      | _ => '/' :: rest
  | path => path

/-- `new URL(url).pathname.replace(...)`, and the text itself when it is no URL. -/
def extractS3Key (hosts : Url.HostParser) (url : String) : String :=
  match Url.pathname hosts url.toList with
  | some path => String.ofList (stripBucket path)
  | none => url

/-- `videos/<uuid>/<file name>` -/
def objectKey (uuid fileName : String) : String := "videos/" ++ uuid ++ "/" ++ fileName

/-! ## The domain -/

/-- Letters, digits, dots, hyphens and underscores, with a letter or a digit in front. -/
structure IsBucketName (bucket : String) : Prop where
  head : bucket.toList.head?.any Char.isAlphanum = true
  chars : ∀ c ∈ bucket.toList, c.isAlphanum = true ∨ c = '.' ∨ c = '-' ∨ c = '_'

def IsRegion (region : String) : Prop :=
  ∀ c ∈ region.toList, c.isAlphanum = true ∨ c = '-'

instance : DecidablePred IsRegion :=
  fun region ↦ inferInstanceAs (Decidable (∀ c ∈ region.toList, _))

/-- Hexadecimal digits and hyphens, and other letters. -/
structure IsUuid (uuid : String) : Prop where
  ne_empty : uuid.toList ≠ []
  chars : ∀ c ∈ uuid.toList, c.isAlphanum = true ∨ c = '-'

structure IsFileName (fileName : String) : Prop where
  ne_empty : fileName.toList ≠ []
  not_slash : '/' ∉ fileName.toList

def StorageConfig.PathStyle (config : StorageConfig) : Prop :=
  ∃ endpoint, config.endpoint = some endpoint ∧ endpoint ≠ ""

/-- The configured endpoint, if any, is `scheme://host[:port]` with a valid host. -/
def StorageConfig.HasOrigin (config : StorageConfig) (hosts : Url.HostParser)
    (scheme : List Char) : Prop :=
  ∀ endpoint, config.endpoint = some endpoint → endpoint = "" ∨
    ∃ host port, endpoint.toList = Url.origin scheme host port ∧
      Url.IsOrigin scheme host port ∧ hosts (Url.isSpecial (Url.lower scheme)) host = true

/-- A file name that a URL path takes as it is: its characters are kept, and it is no dot
segment. -/
structure IsUrlSafe (special : Bool) (fileName : String) : Prop where
  kept : ∀ c ∈ fileName.toList, Url.Kept special c
  single : Url.isSingleDot fileName.toList = false
  double : Url.isDoubleDot fileName.toList = false

/-! ## Stripping the bucket -/

theorem stripBucket_cons {bucket : List Char} (hne : bucket ≠ []) (hslash : '/' ∉ bucket)
    (key : List Char) : stripBucket ('/' :: (bucket ++ '/' :: key)) = key := by
  have hkeep : ∀ c ∈ bucket, decide (c ≠ '/') = true := by
    intro c hc
    apply decide_eq_true
    rintro rfl
    exact hslash hc
  have htake : (bucket ++ '/' :: key).takeWhile (· ≠ '/') = bucket := by
    rw [List.takeWhile_append_of_pos hkeep, List.takeWhile_cons_of_neg (by simp),
      List.append_nil]
  have hdrop : (bucket ++ '/' :: key).dropWhile (· ≠ '/') = '/' :: key := by
    rw [List.dropWhile_append_of_pos hkeep, List.dropWhile_cons_of_neg (by simp)]
  simp only [stripBucket, htake, hdrop, if_neg hne]

theorem mem_of_mem_stripBucket {path : List Char} {c : Char} (h : c ∈ stripBucket path) :
    c ∈ path := by
  unfold stripBucket at h
  split at h
  · rename_i rest
    split at h
    · rename_i key hdrop
      split at h
      · exact h
      · have hmem : c ∈ rest.dropWhile (· ≠ '/') := by
          rw [hdrop]
          exact List.mem_cons_of_mem _ h
        exact List.mem_cons_of_mem _ ((List.dropWhile_sublist _).mem hmem)
    · exact h
  · exact h

/-! ## Plain segments -/

theorem toNat_lt_of_alphanum {c : Char} (h : c.isAlphanum = true) : c.toNat < 128 := by
  change (decide ('A'.val ≤ c.val ∧ c.val ≤ 'Z'.val) ||
    (decide ('a'.val ≤ c.val) && decide (c.val ≤ 'z'.val)) ||
    (decide ('0'.val ≤ c.val) && decide (c.val ≤ '9'.val))) = true at h
  simp only [Bool.or_eq_true, Bool.and_eq_true, decide_eq_true_eq, UInt32.le_iff_toNat_le] at h
  have hval : c.toNat = c.val.toNat := rfl
  have hupper : 'Z'.val.toNat = 90 := rfl
  have hlower : 'z'.val.toNat = 122 := rfl
  have hdigit : '9'.val.toNat = 57 := rfl
  omega

/-- A letter, a digit or a mark that means nothing in a URL, except as a dot segment. -/
def IsWordChar (c : Char) : Prop := c.isAlphanum = true ∨ c = '.' ∨ c = '-' ∨ c = '_'

instance : DecidablePred IsWordChar := fun _ ↦ inferInstanceAs (Decidable (_ ∨ _))

structure WordFacts (c : Char) : Prop where
  kept : Url.Kept true c
  not_slash : c ≠ '/'
  not_blank : Url.isC0OrSpace c = false
  not_ends : Url.endsAuthority true c = false
  not_mark : c ≠ '@' ∧ c ≠ '|' ∧ c ≠ ':' ∧ c ≠ '[' ∧ c ≠ ']'
  lower : c ≠ '.' → c.toLower ≠ '.' ∧ c.toLower ≠ '%'

theorem ascii_kept : ∀ n < 128, IsWordChar (Char.ofNat n) →
    Url.inPathSet (Char.ofNat n) = false ∧ Char.ofNat n ≠ '\\' ∧ Char.ofNat n ≠ '/' ∧
      Url.isC0OrSpace (Char.ofNat n) = false ∧
      Url.endsAuthority true (Char.ofNat n) = false := by
  decide

theorem ascii_marks : ∀ n < 128, IsWordChar (Char.ofNat n) →
    Char.ofNat n ≠ '@' ∧ Char.ofNat n ≠ '|' ∧ Char.ofNat n ≠ ':' ∧ Char.ofNat n ≠ '[' ∧
      Char.ofNat n ≠ ']' := by
  decide

theorem ascii_lower : ∀ n < 128, IsWordChar (Char.ofNat n) → Char.ofNat n ≠ '.' →
    (Char.ofNat n).toLower ≠ '.' ∧ (Char.ofNat n).toLower ≠ '%' := by
  decide

theorem IsWordChar.facts {c : Char} (h : IsWordChar c) : WordFacts c := by
  have hlt : c.toNat < 128 := by
    rcases h with h | rfl | rfl | rfl
    · exact toNat_lt_of_alphanum h
    · decide
    · decide
    · decide
  have hkept := ascii_kept c.toNat hlt
  have hmarks := ascii_marks c.toNat hlt
  have hlower := ascii_lower c.toNat hlt
  rw [Char.ofNat_toNat] at hkept hmarks hlower
  obtain ⟨hset, hne, hslash, hblank, hends⟩ := hkept h
  exact ⟨⟨hset, fun _ ↦ hne⟩, hslash, hblank, hends, hmarks h, hlower h⟩

theorem isPlain_of_word {c : Char} {s : List Char} (hchars : ∀ d ∈ c :: s, IsWordChar d)
    (hdot : c ≠ '.') : Url.IsPlain (c :: s) where
  kept d hd := (hchars d hd).facts.kept
  not_slash h := (hchars '/' h).facts.not_slash rfl
  single := by
    obtain ⟨hlower, hpercent⟩ := (hchars c List.mem_cons_self).facts.lower hdot
    simp [Url.isSingleDot, hlower, hpercent]
  double := by
    obtain ⟨hlower, hpercent⟩ := (hchars c List.mem_cons_self).facts.lower hdot
    simp [Url.isDoubleDot, hlower, hpercent]
  drive := by
    match s, hchars with
    | [], _ => rfl
    | [d], hchars =>
        obtain ⟨-, hbar, hcolon, -, -⟩ := (hchars d (by simp)).facts.not_mark
        simp [Url.isDriveLetter, hbar, hcolon]
    | _ :: _ :: _, _ => rfl

theorem IsBucketName.isPlain {bucket : String} (h : IsBucketName bucket) :
    Url.IsPlain bucket.toList := by
  obtain ⟨hhead, hchars⟩ := h
  cases hlist : bucket.toList with
  | nil => simp [hlist] at hhead
  | cons c s =>
      rw [hlist] at hhead hchars
      apply isPlain_of_word hchars
      rintro rfl
      cases hhead

theorem IsUuid.isPlain {uuid : String} (h : IsUuid uuid) : Url.IsPlain uuid.toList := by
  obtain ⟨hne, hchars⟩ := h
  have hword (c : Char) (hc : c.isAlphanum = true ∨ c = '-') : IsWordChar c := by
    rcases hc with hc | rfl
    · exact .inl hc
    · decide
  cases hlist : uuid.toList with
  | nil => exact absurd hlist hne
  | cons c s =>
      rw [hlist] at hchars
      apply isPlain_of_word fun d hd ↦ hword d (hchars d hd)
      rintro rfl
      rcases hchars '.' List.mem_cons_self with hc | hc <;> cases hc

theorem isPlain_videos : Url.IsPlain "videos".toList :=
  isPlain_of_word (by decide) (by decide)

def virtualHost (config : StorageConfig) : List Char :=
  (config.bucket ++ ".s3." ++ config.region ++ ".amazonaws.com").toList

theorem isOrigin_virtual {config : StorageConfig} (hbucket : IsBucketName config.bucket)
    (hregion : IsRegion config.region) :
    Url.IsOrigin "https".toList (virtualHost config) [] := by
  have hword : ∀ c ∈ virtualHost config, IsWordChar c := by
    intro c hc
    simp only [virtualHost, String.toList_append, List.mem_append] at hc
    rcases hc with ((hc | hc) | hc) | hc
    · exact hbucket.chars c hc
    · have hall : ∀ c ∈ ".s3.".toList, IsWordChar c := by decide
      exact hall c hc
    · rcases hregion c hc with hc | rfl
      · exact .inl hc
      · decide
    · have hall : ∀ c ∈ ".amazonaws.com".toList, IsWordChar c := by decide
      exact hall c hc
  refine ⟨⟨by decide, by decide⟩, ⟨by simp [virtualHost], ?_, .inl ?_⟩, .inl rfl⟩
  · intro c hc
    have h := (hword c hc).facts
    exact ⟨h.not_blank, h.not_ends, h.not_mark.1, h.not_mark.2.1⟩
  · intro c hc
    exact (hword c hc).facts.not_mark.2.2

/-! ## The two layouts -/

section Layouts

variable {hosts : Url.HostParser} {config : StorageConfig} {scheme : List Char}
  {uuid fileName : String} {special file : Bool}

theorem toList_objectKey (uuid fileName : String) : (objectKey uuid fileName).toList =
    Url.joined ["videos".toList, uuid.toList] ++ fileName.toList := by
  simp [objectKey, Url.joined]

theorem pathStyle_url {endpoint : String} (he : config.endpoint = some endpoint)
    (hne : endpoint ≠ "") (uuid fileName : String) :
    (getPublicUrl config (objectKey uuid fileName)).toList = endpoint.toList ++
      '/' :: (Url.joined [config.bucket.toList, "videos".toList, uuid.toList] ++
        fileName.toList) := by
  simp [getPublicUrl, he, hne, objectKey, Url.joined]

theorem virtual_url (hstyle : ¬config.PathStyle) (uuid fileName : String) :
    (getPublicUrl config (objectKey uuid fileName)).toList =
      Url.origin "https".toList (virtualHost config) [] ++
        '/' :: (Url.joined ["videos".toList, uuid.toList] ++ fileName.toList) := by
  have hurl : getPublicUrl config (objectKey uuid fileName) = "https://" ++ config.bucket ++
      ".s3." ++ config.region ++ ".amazonaws.com/" ++ objectKey uuid fileName := by
    unfold getPublicUrl
    split
    · rename_i endpoint he
      by_cases hempty : endpoint = ""
      · rw [if_pos hempty]
      · exact absurd ⟨endpoint, he, hempty⟩ hstyle
    · rfl
  rw [hurl]
  simp [Url.origin, virtualHost, objectKey, Url.joined]

theorem stripBucket_serialize {bucket : List Char} (hne : bucket ≠ []) (hslash : '/' ∉ bucket)
    (s : List Char) (rest : List (List Char)) :
    stripBucket (Url.serialize (bucket :: s :: rest)) = s ++ Url.serialize rest := by
  have hpath : Url.serialize (bucket :: s :: rest) =
      '/' :: (bucket ++ '/' :: (s ++ Url.serialize rest)) := by
    simp [Url.serialize]
  rw [hpath, stripBucket_cons hne hslash]

theorem kept_of_stripped {text key : List Char}
    (h : stripBucket (Url.pathState special file text) = key) :
    ∀ c ∈ key, Url.Kept special c := by
  intro c hc
  rw [← h] at hc
  exact Url.kept_of_mem_pathState (mem_of_mem_stripBucket hc)

theorem plain_segments (huuid : IsUuid uuid) :
    ∀ s ∈ ["videos".toList, uuid.toList], Url.IsPlain s := by
  intro s hs
  rcases List.mem_pair.mp hs with rfl | rfl
  · exact isPlain_videos
  · exact huuid.isPlain

/-- Behind a configured endpoint the key comes back exactly if the file name is left alone. -/
theorem stripBucket_pathStyle (hbucket : IsBucketName config.bucket) (huuid : IsUuid uuid)
    (hname : IsFileName fileName) :
    stripBucket (Url.pathState special file (Url.tidy
        (Url.joined [config.bucket.toList, "videos".toList, uuid.toList] ++ fileName.toList))) =
      (objectKey uuid fileName).toList ↔ IsUrlSafe special fileName := by
  have hplain : ∀ s ∈ [config.bucket.toList, "videos".toList, uuid.toList], Url.IsPlain s :=
    List.forall_mem_cons.mpr ⟨hbucket.isPlain, plain_segments huuid⟩
  have hne : config.bucket.toList ≠ [] := by
    intro hnil
    have hhead := hbucket.head
    rw [hnil] at hhead
    cases hhead
  have hstrip := stripBucket_serialize hne hbucket.isPlain.not_slash
  have hlong : 2 ≤ [config.bucket.toList, "videos".toList, uuid.toList].length := by simp
  have huuidLength := List.length_pos_iff.mpr huuid.ne_empty
  have hnameLength := List.length_pos_iff.mpr hname.ne_empty
  rw [toList_objectKey]
  constructor
  · intro h
    have hkept : ∀ c ∈ fileName.toList, Url.Kept special c :=
      fun c hc ↦ kept_of_stripped h c (List.mem_append_right _ hc)
    rw [Url.pathState_kept hplain hkept hname.not_slash] at h
    rcases Url.pushBuffer_last file (List.cons_ne_nil _ _) fileName.toList with
      ⟨-, hpush⟩ | ⟨-, -, hpush⟩ | ⟨hdouble, hsingle, -⟩
    · -- A double dot takes the identifier away.
      rw [hpush, Url.shorten_of_long hlong, List.dropLast_cons_cons, List.dropLast_cons_cons,
        List.cons_append, List.cons_append, hstrip] at h
      have hlength := congrArg List.length h
      simp only [Url.serialize, Url.joined, List.flatMap_cons, List.flatMap_nil,
        List.dropLast_singleton, List.cons_append, List.nil_append, List.length_append,
        List.length_cons, List.length_nil] at hlength
      omega
    · -- A single dot takes itself away.
      rw [hpush, List.cons_append, List.cons_append, hstrip] at h
      have hlength := congrArg List.length h
      simp only [Url.serialize, Url.joined, List.flatMap_cons, List.flatMap_nil,
        List.cons_append, List.nil_append, List.length_append, List.length_cons,
        List.length_nil] at hlength
      omega
    · exact ⟨hkept, hsingle, hdouble⟩
  · intro h
    rcases Url.pushBuffer_last file (List.cons_ne_nil _ _) fileName.toList with
      ⟨hdouble, -⟩ | ⟨-, hsingle, -⟩ | ⟨-, -, hpush⟩
    · rw [h.double] at hdouble
      cases hdouble
    · rw [h.single] at hsingle
      cases hsingle
    · rw [Url.pathState_kept hplain h.kept hname.not_slash, hpush, List.cons_append,
        List.cons_append, hstrip]
      simp [Url.serialize, Url.joined]

/-- In the virtual-hosted style the prefix of the key is stripped instead of a bucket. -/
theorem stripBucket_virtual (huuid : IsUuid uuid) (hname : IsFileName fileName) :
    stripBucket (Url.pathState special file (Url.tidy
        (Url.joined ["videos".toList, uuid.toList] ++ fileName.toList))) ≠
      (objectKey uuid fileName).toList := by
  have hplain := plain_segments huuid
  have hlong : 2 ≤ ["videos".toList, uuid.toList].length := by simp
  have hvideos : "videos".toList ≠ [] := by decide
  have hstrip := stripBucket_serialize hvideos isPlain_videos.not_slash
  have huuidLength := List.length_pos_iff.mpr huuid.ne_empty
  intro h
  rw [toList_objectKey] at h
  have hkept : ∀ c ∈ fileName.toList, Url.Kept special c :=
    fun c hc ↦ kept_of_stripped h c (List.mem_append_right _ hc)
  rw [Url.pathState_kept hplain hkept hname.not_slash] at h
  rcases Url.pushBuffer_last file (List.cons_ne_nil _ _) fileName.toList with
    ⟨-, hpush⟩ | ⟨-, -, hpush⟩ | ⟨-, -, hpush⟩
  · rw [hpush, Url.shorten_of_long hlong, List.dropLast_cons_cons, List.dropLast_singleton,
      List.cons_append, List.nil_append, hstrip] at h
    have hlength := congrArg List.length h
    simp [Url.serialize, Url.joined] at hlength
  · rw [hpush, List.cons_append, List.cons_append, hstrip] at h
    have hlength := congrArg List.length h
    simp only [Url.serialize, Url.joined, List.flatMap_cons, List.flatMap_nil,
      List.cons_append, List.nil_append, List.length_append, List.length_cons,
      List.length_nil] at hlength
    omega
  · rw [hpush, List.cons_append, List.cons_append, hstrip] at h
    have hlength := congrArg List.length h
    simp only [Url.serialize, Url.joined, List.flatMap_cons, List.flatMap_nil,
      List.cons_append, List.nil_append, List.length_append, List.length_cons,
      List.length_nil] at hlength
    omega

theorem extractS3Key_pathStyle (hbucket : IsBucketName config.bucket) (hstyle : config.PathStyle)
    (hendpoint : config.HasOrigin hosts scheme) (huuid : IsUuid uuid)
    (hname : IsFileName fileName) :
    extractS3Key hosts (getPublicUrl config (objectKey uuid fileName)) =
        objectKey uuid fileName ↔
      IsUrlSafe (Url.isSpecial (Url.lower scheme)) fileName := by
  obtain ⟨endpoint, he, hne⟩ := hstyle
  obtain hempty | ⟨host, port, horigin, hvalid, hhost⟩ := hendpoint endpoint he
  · exact absurd hempty hne
  rw [extractS3Key, pathStyle_url he hne, horigin, Url.pathname_origin hvalid, if_pos hhost,
    ← String.toList_inj, String.toList_ofList]
  exact stripBucket_pathStyle hbucket huuid hname

/-- The key comes back from the URL exactly if an endpoint is configured and the file name is
one that a URL path leaves alone. -/
theorem extractS3Key_iff (hbucket : IsBucketName config.bucket) (hregion : IsRegion config.region)
    (hendpoint : config.HasOrigin hosts scheme) (huuid : IsUuid uuid)
    (hname : IsFileName fileName) :
    extractS3Key hosts (getPublicUrl config (objectKey uuid fileName)) =
        objectKey uuid fileName ↔
      config.PathStyle ∧ IsUrlSafe (Url.isSpecial (Url.lower scheme)) fileName := by
  by_cases hstyle : config.PathStyle
  · rw [and_iff_right hstyle]
    exact extractS3Key_pathStyle hbucket hstyle hendpoint huuid hname
  · apply iff_of_false _ fun h ↦ hstyle h.1
    intro h
    unfold extractS3Key at h
    rw [virtual_url hstyle, Url.pathname_origin (isOrigin_virtual hbucket hregion)] at h
    by_cases hhost : hosts (Url.isSpecial (Url.lower "https".toList)) (virtualHost config) = true
    · rw [if_pos hhost, ← String.toList_inj, String.toList_ofList] at h
      exact stripBucket_virtual huuid hname h
    · -- The constructor throws, and the URL itself is taken for the key.
      rw [if_neg hhost, ← String.toList_inj, virtual_url hstyle, toList_objectKey] at h
      simp [Url.origin, Url.joined] at h

end Layouts

/-! ## A development server and AWS -/

def acceptsDomain : Url.HostParser := fun _ host ↦
  host.all fun c ↦ c.isAlphanum || c = '.' || c = '-'

/-- An object behind a local endpoint is found again. -/
theorem extractS3Key_local :
    extractS3Key acceptsDomain (getPublicUrl ⟨"bucket", some "http://localhost:9000", "region"⟩
      (objectKey "6f9619ff-8b86" "output.mp4")) = objectKey "6f9619ff-8b86" "output.mp4" := by
  have hbucket : IsBucketName "bucket" := ⟨by decide, by decide⟩
  have hregion : IsRegion "region" := by decide
  have huuid : IsUuid "6f9619ff-8b86" := ⟨by decide, by decide⟩
  have hname : IsFileName "output.mp4" := ⟨by decide, by decide⟩
  have hendpoint : StorageConfig.HasOrigin ⟨"bucket", some "http://localhost:9000", "region"⟩
      acceptsDomain "http".toList := by
    intro endpoint he
    obtain rfl := Option.some.inj he
    refine .inr ⟨"localhost".toList, ":9000".toList, by decide, ⟨⟨by decide, by decide⟩,
      ⟨by decide, by decide, .inl (by decide)⟩, .inr ⟨by decide, "9000".toList, by decide, ?_⟩⟩,
      by decide⟩
    decide
  refine (extractS3Key_iff hbucket hregion hendpoint huuid hname).mpr
    ⟨⟨_, rfl, by decide⟩, ?_, by decide, by decide⟩
  unfold Url.Kept
  decide

/-- Without an endpoint the key loses its first segment. -/
theorem extractS3Key_aws :
    IsBucketName "ai-gen-video-storage" ∧ IsRegion "us-east-1" ∧ IsUuid "6f9619ff-8b86" ∧
      IsFileName "output.mp4" ∧
      extractS3Key acceptsDomain (getPublicUrl ⟨"ai-gen-video-storage", none, "us-east-1"⟩
        (objectKey "6f9619ff-8b86" "output.mp4")) = "6f9619ff-8b86/output.mp4" ∧
      "6f9619ff-8b86/output.mp4" ≠ objectKey "6f9619ff-8b86" "output.mp4" :=
  ⟨⟨by decide, by decide⟩, by decide, ⟨by decide, by decide⟩, ⟨by decide, by decide⟩,
    by decide +kernel, by decide⟩

end VideoGen
