import Mathlib.Data.List.DropRight

/-!
# The path of a URL

An absolute URL is parsed as browsers and server runtimes do it: the text is
trimmed, the scheme, the authority and the path are cut apart, the segments
of the path are percent-encoded and its dot segments are followed.  Only the
path is kept.  Which hosts are accepted is a parameter.

The second half says for which texts behind an origin the path is the text
itself.
-/

namespace VideoGen

namespace Url

/-- Whether a host is accepted in a URL with a special scheme, or in another one. -/
abbrev HostParser := Bool → List Char → Bool

/-! ## Classes of characters -/

/-- The characters of a text are looked at one by one; all characters there are would be too
many. -/
instance (priority := 2000) decidableForallMem (p : Char → Prop) [DecidablePred p]
    (text : List Char) : Decidable (∀ c ∈ text, p c) := List.decidableBAll p text

def isC0OrSpace (c : Char) : Bool := c.toNat ≤ 0x20

def isTabOrNewline (c : Char) : Bool := c = '\t' || c = '\n' || c = '\r'

def isSchemeChar (c : Char) : Bool := c.isAlphanum || c = '+' || c = '-' || c = '.'

/-- In a URL with a special scheme a backslash is a slash. -/
def isSlash (special : Bool) (c : Char) : Bool := c = '/' || special && c = '\\'

def endsPath (c : Char) : Bool := c = '?' || c = '#'

def endsAuthority (special : Bool) (c : Char) : Bool := isSlash special c || endsPath c

def isC0Control (c : Char) : Bool := c.toNat ≤ 0x1f || 0x7e < c.toNat

/-- The characters of a path that are percent-encoded; a circumflex is not. -/
def inPathSet (c : Char) : Bool :=
  isC0Control c || c = ' ' || c = '"' || c = '#' || c = '<' || c = '>' || c = '?' ||
    c = '\x60' || c = '\x7b' || c = '\x7d'

/-! ## Percent-encoding -/

def hexDigit (n : ℕ) : Char := (Nat.digitChar n).toUpper

def percentEncodeByte (b : UInt8) : List Char :=
  ['%', hexDigit (b.toNat / 16), hexDigit (b.toNat % 16)]

def percentEncode (c : Char) : List Char :=
  (String.utf8EncodeChar c).flatMap percentEncodeByte

def encodeSegment (s : List Char) : List Char :=
  s.flatMap fun c ↦ if inPathSet c then percentEncode c else [c]

/-! ## The path -/

def isSingleDot (s : List Char) : Bool :=
  [".", "%2e"].any fun dot ↦ s.map Char.toLower = dot.toList

def isDoubleDot (s : List Char) : Bool :=
  ["..", ".%2e", "%2e.", "%2e%2e"].any fun dots ↦ s.map Char.toLower = dots.toList

def isDriveLetter : List Char → Bool
  | [letter, c] => letter.isAlpha && (c = ':' || c = '|')
  | _ => false

/-- Leave the last segment, unless it is the drive of a file. -/
def shorten (file : Bool) (path : List (List Char)) : List (List Char) :=
  match file, path with
  | true, [[letter, ':']] => if letter.isAlpha then path else []
  | _, _ => path.dropLast

/-- An encoded segment joins the path; the last one leaves an empty segment behind when it is
a dot segment. -/
def pushBuffer (file : Bool) (path : List (List Char)) (buffer : List Char) (last : Bool) :
    List (List Char) :=
  if isDoubleDot buffer then
    if last then shorten file path ++ [[]] else shorten file path
  else if isSingleDot buffer then
    if last then path ++ [[]] else path
  else if file && path.isEmpty && isDriveLetter buffer then
    path ++ [buffer.take 1 ++ [':']]
  else path ++ [buffer]

def pushSegment (file : Bool) (path : List (List Char)) (s : List Char) (last : Bool) :
    List (List Char) := pushBuffer file path (encodeSegment s) last

def walk (file : Bool) : List (List Char) → List (List Char) → List (List Char)
  | path, [] => path
  | path, [s] => pushSegment file path s true
  | path, s :: segments => walk file (pushSegment file path s false) segments

def serialize (path : List (List Char)) : List Char := path.flatMap fun s ↦ '/' :: s

/-- The path of the text, up to the query or the fragment. -/
def pathState (special file : Bool) (text : List Char) : List Char :=
  let path := text.takeWhile fun c ↦ !endsPath c
  serialize (walk file [] (path.splitOnP (isSlash special)))

def pathStart (special file : Bool) : List Char → List Char
  | [] => if special then pathState special file [] else []
  | c :: text =>
      if isSlash special c then pathState special file text
      else if special then pathState special file (c :: text)
      else []

/-- The path of a URL without an authority that does not start with a slash. -/
def opaquePath : List Char → List Char
  | [] => []
  | c :: text =>
      if endsPath c then []
      else (if isC0Control c then percentEncode c else [c]) ++ opaquePath text

/-! ## The authority -/

/-- Cut at the colon before the port; a colon between brackets belongs to the host. -/
def splitPort : Bool → List Char → List Char × Option (List Char)
  | _, [] => ([], none)
  | brackets, c :: text =>
      if c = ':' && !brackets then ([], some text)
      else
        let rest := splitPort (if c = '[' then true else if c = ']' then false else brackets) text
        (c :: rest.1, rest.2)

def isPort (port : List Char) : Bool :=
  port.all Char.isDigit && decide (Nat.ofDigitChars 10 port 0 ≤ 65535)

def isAuthority (hosts : HostParser) (special : Bool) (authority : List Char) : Bool :=
  let parts := splitPort false (authority.rtakeWhile (· ≠ '@'))
  if parts.1 = [] then !special && parts.2.isNone && !authority.contains '@'
  else hosts special parts.1 && parts.2.all isPort

def authorityState (hosts : HostParser) (special : Bool) (text : List Char) :
    Option (List Char) :=
  if isAuthority hosts special (text.takeWhile fun c ↦ !endsAuthority special c) then
    some (pathStart special false (text.dropWhile fun c ↦ !endsAuthority special c))
  else none

def fileState (hosts : HostParser) : List Char → Option (List Char)
  | c :: d :: text =>
      if isSlash true c && isSlash true d then
        let host := text.takeWhile fun c ↦ !endsAuthority true c
        let rest := text.dropWhile fun c ↦ !endsAuthority true c
        if isDriveLetter host then some (pathState true true text)
        else if host = [] || hosts true host then some (pathStart true true rest)
        else none
      else if isSlash true c then some (pathState true true (d :: text))
      else some (pathState true true (c :: d :: text))
  | [c] => some (pathState true true (if isSlash true c then [] else [c]))
  | [] => some (pathState true true [])

/-! ## The URL -/

/-- Without the blanks at its ends and without tabs and newlines. -/
def preprocess (input : List Char) : List Char :=
  ((input.dropWhile isC0OrSpace).rdropWhile isC0OrSpace).filter fun c ↦ !isTabOrNewline c

def splitScheme (input : List Char) : Option (List Char × List Char) :=
  if input.head?.any Char.isAlpha then
    match input.dropWhile isSchemeChar with
    | ':' :: rest => some ((input.takeWhile isSchemeChar).map Char.toLower, rest)
    | _ => none
  else none

def isSpecial (scheme : List Char) : Bool :=
  ["ftp", "file", "http", "https", "ws", "wss"].any fun s ↦ scheme = s.toList

def schemeState (hosts : HostParser) (scheme rest : List Char) : Option (List Char) :=
  if scheme = "file".toList then fileState hosts rest
  else if isSpecial scheme then authorityState hosts true (rest.dropWhile (isSlash true))
  else
    match rest with
    | '/' :: '/' :: text => authorityState hosts false text
    | '/' :: text => some (pathState false false text)
    | text => some (opaquePath text)

/-- `new URL(url).pathname`, or nothing when the constructor throws. -/
def pathname (hosts : HostParser) (url : List Char) : Option (List Char) :=
  (splitScheme (preprocess url)).bind fun parts ↦ schemeState hosts parts.1 parts.2

/-! ## What a path keeps -/

/-- The character stands for itself in a path. -/
def Kept (special : Bool) (c : Char) : Prop :=
  inPathSet c = false ∧ (special = true → c ≠ '\\')

theorem kept_slash (special : Bool) : Kept special '/' := ⟨rfl, fun _ ↦ by decide⟩

theorem hexDigit_kept : ∀ n < 16, inPathSet (hexDigit n) = false ∧ hexDigit n ≠ '\\' := by
  decide

theorem kept_of_mem_percentEncode {special : Bool} {c d : Char} (h : c ∈ percentEncode d) :
    Kept special c := by
  obtain ⟨b, -, hc⟩ := List.mem_flatMap.mp h
  have hb := b.toNat_lt
  simp only [percentEncodeByte, List.mem_cons, List.not_mem_nil, or_false] at hc
  rcases hc with rfl | rfl | rfl
  · exact ⟨rfl, fun _ ↦ by decide⟩
  · obtain ⟨hset, hne⟩ := hexDigit_kept (b.toNat / 16) (by omega)
    exact ⟨hset, fun _ ↦ hne⟩
  · obtain ⟨hset, hne⟩ := hexDigit_kept (b.toNat % 16) (by omega)
    exact ⟨hset, fun _ ↦ hne⟩

theorem kept_of_mem_encodeSegment {special : Bool} {c : Char} {s : List Char}
    (hs : special = true → '\\' ∉ s) (h : c ∈ encodeSegment s) : Kept special c := by
  obtain ⟨d, hd, hc⟩ := List.mem_flatMap.mp h
  by_cases hset : inPathSet d = true
  · rw [if_pos hset] at hc
    exact kept_of_mem_percentEncode hc
  · rw [if_neg hset] at hc
    obtain rfl := List.mem_singleton.mp hc
    refine ⟨by simpa using hset, ?_⟩
    rintro hspecial rfl
    exact hs hspecial hd

theorem encodeSegment_of_kept {s : List Char} (h : ∀ c ∈ s, inPathSet c = false) :
    encodeSegment s = s := by
  induction s with
  | nil => rfl
  | cons c s ih =>
      obtain ⟨hc, hs⟩ := List.forall_mem_cons.mp h
      have hrest : s.flatMap (fun c ↦ if inPathSet c then percentEncode c else [c]) = s := ih hs
      rw [encodeSegment, List.flatMap_cons, hrest, hc]
      rfl

theorem not_sep_of_mem_splitOnP {α : Type} {p : α → Bool} {text : List α} {s : List α}
    (hs : s ∈ text.splitOnP p) : ∀ c ∈ s, p c = false := by
  induction text generalizing s with
  | nil =>
      intro c hc
      rw [List.splitOnP_nil, List.mem_singleton] at hs
      simp [hs] at hc
  | cons d text ih =>
      rw [List.splitOnP_cons_eq_if_modifyHead] at hs
      by_cases hd : p d = true
      · rw [if_pos hd] at hs
        rcases List.mem_cons.mp hs with rfl | hs
        · simp
        · exact ih hs
      · rw [if_neg hd] at hs
        obtain ⟨head, tail, hsplit⟩ := List.exists_cons_of_ne_nil (List.splitOnP_ne_nil p text)
        rw [hsplit, List.modifyHead_cons] at hs
        rw [hsplit] at ih
        rcases List.mem_cons.mp hs with rfl | hs
        · exact List.forall_mem_cons.mpr ⟨by simpa using hd, ih List.mem_cons_self⟩
        · exact ih (List.mem_cons_of_mem _ hs)

def IsKept (special : Bool) (path : List (List Char)) : Prop :=
  ∀ s ∈ path, ∀ c ∈ s, Kept special c

theorem IsKept.push {special : Bool} {path : List (List Char)} (h : IsKept special path)
    {s : List Char} (hs : ∀ c ∈ s, Kept special c) : IsKept special (path ++ [s]) := by
  intro t ht
  rcases List.mem_append.mp ht with ht | ht
  · exact h t ht
  · rwa [List.mem_singleton.mp ht]

theorem IsKept.shorten {special file : Bool} {path : List (List Char)} (h : IsKept special path) :
    IsKept special (shorten file path) := by
  unfold Url.shorten
  split
  · split
    · exact h
    · intro s hs
      cases hs
  · exact fun s hs ↦ h s (List.dropLast_subset path hs)

theorem IsKept.pushSegment {special file last : Bool} {path : List (List Char)}
    (h : IsKept special path) {s : List Char} (hs : special = true → '\\' ∉ s) :
    IsKept special (pushSegment file path s last) := by
  have hbuffer : ∀ c ∈ encodeSegment s, Kept special c := fun c ↦ kept_of_mem_encodeSegment hs
  unfold Url.pushSegment pushBuffer
  split
  · split
    · exact h.shorten.push (by simp)
    · exact h.shorten
  · split
    · split
      · exact h.push (by simp)
      · exact h
    · split
      · apply h.push
        intro c hc
        rcases List.mem_append.mp hc with hc | hc
        · exact hbuffer c (List.mem_of_mem_take hc)
        · rw [List.mem_singleton.mp hc]
          exact ⟨rfl, fun _ ↦ by decide⟩
      · exact h.push hbuffer

theorem IsKept.walk {special file : Bool} {segments : List (List Char)}
    (hsegments : ∀ s ∈ segments, special = true → '\\' ∉ s) {path : List (List Char)}
    (h : IsKept special path) : IsKept special (walk file path segments) := by
  induction segments generalizing path with
  | nil => exact h
  | cons s segments ih =>
      have hs := hsegments s List.mem_cons_self
      cases segments with
      | nil => exact h.pushSegment hs
      | cons t segments =>
          exact ih (fun u hu ↦ hsegments u (List.mem_cons_of_mem _ hu)) (h.pushSegment hs)

theorem kept_of_mem_serialize {special : Bool} {path : List (List Char)} (h : IsKept special path)
    {c : Char} (hc : c ∈ serialize path) : Kept special c := by
  obtain ⟨s, hs, hc⟩ := List.mem_flatMap.mp hc
  rcases List.mem_cons.mp hc with rfl | hc
  · exact kept_slash special
  · exact h s hs c hc

theorem kept_of_mem_pathState {special file : Bool} {text : List Char} {c : Char}
    (hc : c ∈ pathState special file text) : Kept special c := by
  refine kept_of_mem_serialize (IsKept.walk ?_ ?_) hc
  · rintro s hs rfl hmem
    have hsep := not_sep_of_mem_splitOnP hs _ hmem
    cases hsep
  · intro s hs
    cases hs

/-! ## Segments that are left alone -/

/-- The segment is no dot segment and no drive, and it consists of characters that mean nothing
but themselves anywhere in a path. -/
structure IsPlain (s : List Char) : Prop where
  kept : ∀ c ∈ s, Kept true c
  not_slash : '/' ∉ s
  single : isSingleDot s = false
  double : isDoubleDot s = false
  drive : isDriveLetter s = false

theorem not_ends_of_kept {special : Bool} {c : Char} (h : Kept special c) :
    endsPath c = false := by
  by_contra hends
  simp only [endsPath, Bool.or_eq_true, decide_eq_true_eq, Bool.not_eq_false] at hends
  rcases hends with rfl | rfl
  · cases h.1
  · cases h.1

theorem not_blank_of_kept {special : Bool} {c : Char} (h : Kept special c) :
    isC0OrSpace c = false := by
  by_contra hblank
  have hle : c.toNat ≤ 0x20 := by simpa [isC0OrSpace] using hblank
  have hset := h.1
  simp only [inPathSet, isC0Control, Bool.or_eq_false_iff, decide_eq_false_iff_not] at hset
  have hspace : c ≠ ' ' := by tauto
  have hne : c.toNat ≠ 0x20 := fun heq ↦ hspace (Char.toNat_inj.mp heq)
  have hcontrol : ¬c.toNat ≤ 0x1f := by tauto
  omega

theorem not_newline_of_kept {special : Bool} {c : Char} (h : Kept special c) :
    isTabOrNewline c = false := by
  by_contra hnewline
  simp only [isTabOrNewline, Bool.or_eq_true, decide_eq_true_eq, Bool.not_eq_false] at hnewline
  rcases hnewline with (rfl | rfl) | rfl
  · cases h.1
  · cases h.1
  · cases h.1

theorem not_slash_of_kept {special : Bool} {c : Char} (h : Kept special c) (hne : c ≠ '/') :
    isSlash special c = false := by
  cases special with
  | false => simp [isSlash, hne]
  | true => simp [isSlash, hne, h.2 rfl]

theorem Kept.of_true {special : Bool} {c : Char} (h : Kept true c) : Kept special c :=
  ⟨h.1, fun _ ↦ h.2 rfl⟩

theorem pushSegment_of_plain {file last : Bool} {path : List (List Char)} {s : List Char}
    (h : IsPlain s) : pushSegment file path s last = path ++ [s] := by
  rw [pushSegment, encodeSegment_of_kept fun c hc ↦ (h.kept c hc).1]
  simp [pushBuffer, h.single, h.double, h.drive]

theorem walk_cons {file : Bool} {path segments : List (List Char)} {s : List Char}
    (h : segments ≠ []) :
    walk file path (s :: segments) = walk file (pushSegment file path s false) segments := by
  cases segments with
  | nil => exact absurd rfl h
  | cons t segments => rfl

theorem walk_of_plain {file : Bool} {segments : List (List Char)} (h : segments ≠ [])
    {plain : List (List Char)} (hplain : ∀ s ∈ plain, IsPlain s) (path : List (List Char)) :
    walk file path (plain ++ segments) = walk file (path ++ plain) segments := by
  induction plain generalizing path with
  | nil => simp
  | cons s plain ih =>
      obtain ⟨hs, hrest⟩ := List.forall_mem_cons.mp hplain
      rw [List.cons_append, walk_cons (by simp [h]), pushSegment_of_plain hs, ih hrest,
        List.append_assoc, List.singleton_append]

def joined (segments : List (List Char)) : List Char := segments.flatMap fun s ↦ s ++ ['/']

theorem mem_joined {segments : List (List Char)} {c : Char} (h : c ∈ joined segments) :
    c = '/' ∨ ∃ s ∈ segments, c ∈ s := by
  obtain ⟨s, hs, hc⟩ := List.mem_flatMap.mp h
  rcases List.mem_append.mp hc with hc | hc
  · exact .inr ⟨s, hs, hc⟩
  · exact .inl (List.mem_singleton.mp hc)

theorem splitOnP_joined {special : Bool} {plain : List (List Char)}
    (hplain : ∀ s ∈ plain, IsPlain s) (text : List Char) :
    (joined plain ++ text).splitOnP (isSlash special) =
      plain ++ text.splitOnP (isSlash special) := by
  induction plain with
  | nil => rfl
  | cons s plain ih =>
      obtain ⟨hs, hrest⟩ := List.forall_mem_cons.mp hplain
      have hsep : ∀ c ∈ s, isSlash special c = false := by
        intro c hc
        refine not_slash_of_kept (hs.kept c hc).of_true ?_
        rintro rfl
        exact hs.not_slash hc
      have hjoined : joined (s :: plain) ++ text = s ++ '/' :: (joined plain ++ text) := by
        simp [joined]
      rw [hjoined, List.splitOnP_append_cons_of_forall_mem hsep '/' rfl, ih hrest,
        List.cons_append]

theorem kept_of_mem_joined {plain : List (List Char)} (hplain : ∀ s ∈ plain, IsPlain s)
    {c : Char} (h : c ∈ joined plain) : Kept true c := by
  rcases mem_joined h with rfl | ⟨s, hs, hc⟩
  · exact kept_slash true
  · exact (hplain s hs).kept c hc

theorem pathState_joined {special file : Bool} {plain : List (List Char)}
    (hplain : ∀ s ∈ plain, IsPlain s) (text : List Char) :
    pathState special file (joined plain ++ text) =
      serialize (walk file plain
        ((text.takeWhile fun c ↦ !endsPath c).splitOnP (isSlash special))) := by
  have hkept : ∀ c ∈ joined plain, (!endsPath c) = true := by
    intro c hc
    rw [not_ends_of_kept (kept_of_mem_joined hplain hc)]
    rfl
  rw [pathState, List.takeWhile_append_of_pos hkept, splitOnP_joined hplain,
    walk_of_plain (List.splitOnP_ne_nil _ _) hplain, List.nil_append]

def tidy (text : List Char) : List Char :=
  (text.rdropWhile isC0OrSpace).filter fun c ↦ !isTabOrNewline c

theorem rdropWhile_append_cons {α : Type} {p : α → Bool} {x : α} (hx : p x = false)
    (l text : List α) :
    (l ++ x :: text).rdropWhile p = l ++ x :: text.rdropWhile p := by
  induction text using List.reverseRecOn with
  | nil => exact List.rdropWhile_concat_neg _ _ _ (by simp [hx])
  | append_singleton text y ih =>
      rw [← List.cons_append, ← List.append_assoc]
      by_cases hy : p y = true
      · rw [List.rdropWhile_concat_pos _ _ _ hy, List.rdropWhile_concat_pos _ _ _ hy, ih]
      · rw [List.rdropWhile_concat_neg _ _ _ hy, List.rdropWhile_concat_neg _ _ _ hy]
        simp

theorem tidy_joined {plain : List (List Char)} (hplain : ∀ s ∈ plain, IsPlain s)
    (text : List Char) : tidy (joined plain ++ text) = joined plain ++ tidy text := by
  induction plain with
  | nil => rfl
  | cons s plain ih =>
      obtain ⟨hs, hrest⟩ := List.forall_mem_cons.mp hplain
      have hjoined (t : List Char) : joined (s :: plain) ++ t = s ++ '/' :: (joined plain ++ t) := by
        simp [joined]
      have hfilter : (s.filter fun c ↦ !isTabOrNewline c) = s := by
        rw [List.filter_eq_self]
        intro c hc
        rw [not_newline_of_kept (hs.kept c hc)]
        rfl
      have hrec := ih hrest
      unfold tidy at hrec ⊢
      rw [hjoined, hjoined, rdropWhile_append_cons rfl, List.filter_append, hfilter,
        List.filter_cons_of_pos rfl, hrec]

theorem tidy_of_kept {special : Bool} {text : List Char} (h : ∀ c ∈ text, Kept special c) :
    tidy text = text := by
  have htrim : text.rdropWhile isC0OrSpace = text := by
    rw [List.rdropWhile_eq_self_iff]
    intro hne
    rw [not_blank_of_kept (h _ (List.getLast_mem hne))]
    exact Bool.false_ne_true
  rw [tidy, htrim, List.filter_eq_self]
  intro c hc
  rw [not_newline_of_kept (h c hc)]
  rfl

theorem pathState_kept {special file : Bool} {plain : List (List Char)}
    (hplain : ∀ s ∈ plain, IsPlain s) {name : List Char} (hname : ∀ c ∈ name, Kept special c)
    (hslash : '/' ∉ name) :
    pathState special file (tidy (joined plain ++ name)) =
      serialize (pushBuffer file plain name true) := by
  have hends : ∀ c ∈ name, (!endsPath c) = true := by
    intro c hc
    rw [not_ends_of_kept (hname c hc)]
    rfl
  have hsep : ∀ c ∈ name, isSlash special c = false := by
    intro c hc
    refine not_slash_of_kept (hname c hc) ?_
    rintro rfl
    exact hslash hc
  rw [tidy_joined hplain, tidy_of_kept hname, pathState_joined hplain,
    List.takeWhile_eq_self_iff.mpr hends, List.splitOnP_eq_singleton hsep]
  change serialize (pushSegment file plain name true) = _
  rw [pushSegment, encodeSegment_of_kept fun c hc ↦ (hname c hc).1]

theorem shorten_of_long {file : Bool} {path : List (List Char)} (h : 2 ≤ path.length) :
    shorten file path = path.dropLast := by
  unfold shorten
  split
  · simp at h
  · rfl

theorem pushBuffer_last (file : Bool) {path : List (List Char)} (hpath : path ≠ [])
    (name : List Char) :
    (isDoubleDot name = true ∧ pushBuffer file path name true = shorten file path ++ [[]]) ∨
    (isDoubleDot name = false ∧ isSingleDot name = true ∧
      pushBuffer file path name true = path ++ [[]]) ∨
    (isDoubleDot name = false ∧ isSingleDot name = false ∧
      pushBuffer file path name true = path ++ [name]) := by
  unfold pushBuffer
  by_cases hdouble : isDoubleDot name = true
  · exact .inl ⟨hdouble, by simp [hdouble]⟩
  · by_cases hsingle : isSingleDot name = true
    · exact .inr (.inl ⟨by simpa using hdouble, hsingle, by simp [hdouble, hsingle]⟩)
    · exact .inr (.inr ⟨by simpa using hdouble, by simpa using hsingle,
        by simp [hdouble, hsingle, hpath]⟩)

/-! ## Origins -/

structure IsScheme (scheme : List Char) : Prop where
  head : scheme.head?.any Char.isAlpha = true
  chars : ∀ c ∈ scheme, isSchemeChar c = true

/-- No character of the host divides a URL; only a host in brackets has colons. -/
structure IsHost (host : List Char) : Prop where
  ne_nil : host ≠ []
  chars : ∀ c ∈ host, isC0OrSpace c = false ∧ endsAuthority true c = false ∧ c ≠ '@' ∧ c ≠ '|'
  brackets : (∀ c ∈ host, c ≠ ':' ∧ c ≠ '[' ∧ c ≠ ']') ∨
    ∃ inner, host = '[' :: (inner ++ [']']) ∧ ∀ c ∈ inner, c ≠ '[' ∧ c ≠ ']'

def lower (scheme : List Char) : List Char := scheme.map Char.toLower

def isFile (scheme : List Char) : Bool := lower scheme = "file".toList

/-- `scheme://host[:port]`; a file has no port. -/
structure IsOrigin (scheme host port : List Char) : Prop where
  scheme_valid : IsScheme scheme
  host_valid : IsHost host
  port_valid : port = [] ∨ isFile scheme = false ∧ ∃ digits, port = ':' :: digits ∧ isPort digits = true

def origin (scheme host port : List Char) : List Char :=
  scheme ++ ':' :: '/' :: '/' :: (host ++ port)

section Origin

variable {hosts : HostParser} {special : Bool} {scheme host port digits : List Char}

theorem schemeChar_ofNat : ∀ n ≤ 0x20, isSchemeChar (Char.ofNat n) = false := by decide

theorem not_blank_of_schemeChar {c : Char} (h : isSchemeChar c = true) :
    isC0OrSpace c = false := by
  by_contra hblank
  have hle : c.toNat ≤ 0x20 := by simpa [isC0OrSpace] using hblank
  have hnot := schemeChar_ofNat c.toNat hle
  rw [Char.ofNat_toNat, h] at hnot
  cases hnot

theorem not_newline_of_not_blank {c : Char} (h : isC0OrSpace c = false) :
    isTabOrNewline c = false := by
  by_contra hnewline
  simp only [isTabOrNewline, Bool.or_eq_true, decide_eq_true_eq, Bool.not_eq_false] at hnewline
  rcases hnewline with (rfl | rfl) | rfl
  · cases h
  · cases h
  · cases h

theorem preprocess_append {front : List Char} (hne : front ≠ [])
    (h : ∀ c ∈ front, isC0OrSpace c = false) (text : List Char) :
    preprocess (front ++ '/' :: text) = front ++ '/' :: tidy text := by
  obtain ⟨c, rest, rfl⟩ := List.exists_cons_of_ne_nil hne
  have hhead : ((c :: rest) ++ '/' :: text).dropWhile isC0OrSpace =
      (c :: rest) ++ '/' :: text :=
    List.dropWhile_cons_of_neg (by simp [h c List.mem_cons_self])
  have hfilter : (c :: rest).filter (fun c ↦ !isTabOrNewline c) = c :: rest := by
    rw [List.filter_eq_self]
    intro d hd
    rw [not_newline_of_not_blank (h d hd)]
    rfl
  rw [preprocess, hhead, rdropWhile_append_cons rfl, List.filter_append, hfilter,
    List.filter_cons_of_pos rfl, tidy]

theorem splitScheme_append (h : IsScheme scheme) (rest : List Char) :
    splitScheme (scheme ++ ':' :: rest) = some (lower scheme, rest) := by
  have hhead : (scheme ++ ':' :: rest).head?.any Char.isAlpha = true := by
    have hscheme := h.head
    cases scheme with
    | nil => cases hscheme
    | cons c scheme => exact hscheme
  have hdrop : (scheme ++ ':' :: rest).dropWhile isSchemeChar = ':' :: rest := by
    rw [List.dropWhile_append_of_pos h.chars]
    exact List.dropWhile_cons_of_neg (by decide)
  have htake : (scheme ++ ':' :: rest).takeWhile isSchemeChar = scheme := by
    rw [List.takeWhile_append_of_pos h.chars, List.takeWhile_cons_of_neg (by decide),
      List.append_nil]
  rw [splitScheme, if_pos hhead, hdrop, htake]
  rfl

theorem splitPort_of_no_colon (h : ∀ c ∈ host, c ≠ ':' ∧ c ≠ '[' ∧ c ≠ ']') :
    splitPort false (host ++ port) =
      (host ++ (splitPort false port).1, (splitPort false port).2) := by
  induction host with
  | nil => rfl
  | cons c host ih =>
      obtain ⟨⟨hcolon, hopen, hclose⟩, hrest⟩ := List.forall_mem_cons.mp h
      rw [List.cons_append, splitPort]
      simp [hcolon, hopen, hclose, ih hrest]

theorem splitPort_of_brackets {inner : List Char} (h : ∀ c ∈ inner, c ≠ '[' ∧ c ≠ ']')
    (port : List Char) :
    splitPort true (inner ++ ']' :: port) =
      (inner ++ ']' :: (splitPort false port).1, (splitPort false port).2) := by
  induction inner with
  | nil => rfl
  | cons c inner ih =>
      obtain ⟨⟨hopen, hclose⟩, hrest⟩ := List.forall_mem_cons.mp h
      rw [List.cons_append, splitPort]
      simp [hopen, hclose, ih hrest]

theorem splitPort_host (h : IsHost host) (port : List Char) :
    splitPort false (host ++ port) =
      (host ++ (splitPort false port).1, (splitPort false port).2) := by
  rcases h.brackets with hnone | ⟨inner, rfl, hinner⟩
  · exact splitPort_of_no_colon hnone
  · have hrest := splitPort_of_brackets hinner port
    rw [List.cons_append, List.append_assoc, List.singleton_append, splitPort]
    simp [hrest]

theorem not_ends_of_host (special : Bool) (h : IsHost host) :
    ∀ c ∈ host, (!endsAuthority special c) = true := by
  intro c hc
  have hends := (h.chars c hc).2.1
  cases special with
  | true => rw [hends, Bool.not_false]
  | false =>
      simp only [endsAuthority, isSlash, Bool.or_eq_false_iff] at hends
      simp [endsAuthority, isSlash, hends.1.1, hends.2]

theorem digit_ne {c d : Char} (h : c.isDigit = true) (hd : d.isDigit = false) : c ≠ d := by
  rintro rfl
  rw [h] at hd
  cases hd

theorem not_ends_of_port (special : Bool) (h : isPort digits = true) :
    ∀ c ∈ ':' :: digits, (!endsAuthority special c) = true ∧ c ≠ '@' := by
  have hdigits : ∀ c ∈ digits, c.isDigit = true :=
    List.all_eq_true.mp (Bool.and_eq_true_iff.mp h).1
  intro c hc
  rcases List.mem_cons.mp hc with rfl | hc
  · cases special <;> decide
  · have hdigit := hdigits c hc
    simp [endsAuthority, isSlash, endsPath, digit_ne hdigit (d := '/') rfl,
      digit_ne hdigit (d := '\\') rfl, digit_ne hdigit (d := '?') rfl,
      digit_ne hdigit (d := '#') rfl, digit_ne hdigit (d := '@') rfl]

theorem isAuthority_append (hhost : IsHost host)
    (hport : port = [] ∨ ∃ digits, port = ':' :: digits ∧ isPort digits = true) :
    isAuthority hosts special (host ++ port) = hosts special host := by
  have hat : (host ++ port).rtakeWhile (· ≠ '@') = host ++ port := by
    rw [List.rtakeWhile_eq_self_iff]
    intro c hc
    rcases List.mem_append.mp hc with hc | hc
    · simpa using (hhost.chars c hc).2.2.1
    · rcases hport with rfl | ⟨digits, rfl, hdigits⟩
      · cases hc
      · simpa using (not_ends_of_port special hdigits c hc).2
  rw [isAuthority, hat, splitPort_host hhost]
  rcases hport with rfl | ⟨digits, rfl, hdigits⟩
  · simp [splitPort, hhost.ne_nil]
  · simp [splitPort, hhost.ne_nil, hdigits]

theorem authorityState_append (hhost : IsHost host)
    (hport : port = [] ∨ ∃ digits, port = ':' :: digits ∧ isPort digits = true)
    (text : List Char) :
    authorityState hosts special (host ++ port ++ '/' :: text) =
      if hosts special host then some (pathState special false text) else none := by
  have hends : ∀ c ∈ host ++ port, (!endsAuthority special c) = true := by
    intro c hc
    rcases List.mem_append.mp hc with hc | hc
    · exact not_ends_of_host special hhost c hc
    · rcases hport with rfl | ⟨digits, rfl, hdigits⟩
      · cases hc
      · exact (not_ends_of_port special hdigits c hc).1
  have htake : (host ++ port ++ '/' :: text).takeWhile (fun c ↦ !endsAuthority special c) =
      host ++ port := by
    rw [List.takeWhile_append_of_pos hends, List.takeWhile_cons_of_neg (by simp [endsAuthority,
      isSlash]), List.append_nil]
  have hdrop : (host ++ port ++ '/' :: text).dropWhile (fun c ↦ !endsAuthority special c) =
      '/' :: text := by
    rw [List.dropWhile_append_of_pos hends, List.dropWhile_cons_of_neg (by simp [endsAuthority,
      isSlash])]
  rw [authorityState, htake, hdrop, isAuthority_append hhost hport]
  simp [pathStart, isSlash]

theorem not_drive_of_host (h : IsHost host) : isDriveLetter host = false := by
  by_contra hdrive
  match host, h, hdrive with
  | [a, c], h, hdrive =>
      simp only [isDriveLetter, Bool.and_eq_true, Bool.or_eq_true, decide_eq_true_eq,
        Bool.not_eq_false] at hdrive
      obtain ⟨halpha, rfl | rfl⟩ := hdrive
      · rcases h.brackets with hnone | ⟨inner, heq, -⟩
        · exact (hnone ':' (by simp)).1 rfl
        · obtain ⟨rfl, -⟩ := List.cons.inj heq
          cases halpha
      · exact (h.chars '|' (by simp)).2.2.2 rfl

theorem fileState_append (hhost : IsHost host) (text : List Char) :
    fileState hosts ('/' :: '/' :: (host ++ '/' :: text)) =
      if hosts true host then some (pathState true true text) else none := by
  have hends := not_ends_of_host true hhost
  have htake : (host ++ '/' :: text).takeWhile (fun c ↦ !endsAuthority true c) = host := by
    rw [List.takeWhile_append_of_pos hends, List.takeWhile_cons_of_neg (by decide),
      List.append_nil]
  have hdrop : (host ++ '/' :: text).dropWhile (fun c ↦ !endsAuthority true c) = '/' :: text := by
    rw [List.dropWhile_append_of_pos hends, List.dropWhile_cons_of_neg (by decide)]
  simp [fileState, isSlash, htake, hdrop, not_drive_of_host hhost, hhost.ne_nil, pathStart]

/-- Behind an origin the path begins with the first slash. -/
theorem pathname_origin (h : IsOrigin scheme host port) (text : List Char) :
    pathname hosts (origin scheme host port ++ '/' :: text) =
      if hosts (isSpecial (lower scheme)) host then
        some (pathState (isSpecial (lower scheme)) (isFile scheme) (tidy text))
      else none := by
  obtain ⟨hscheme, hhost, hport⟩ := h
  have hauthority : port = [] ∨ ∃ digits, port = ':' :: digits ∧ isPort digits = true := by
    rcases hport with hnone | ⟨-, hdigits⟩
    · exact .inl hnone
    · exact .inr hdigits
  have hblank : ∀ c ∈ origin scheme host port, isC0OrSpace c = false := by
    intro c hc
    simp only [origin, List.mem_append, List.mem_cons] at hc
    rcases hc with hc | rfl | rfl | rfl | hc | hc
    · exact not_blank_of_schemeChar (hscheme.chars c hc)
    · rfl
    · rfl
    · rfl
    · exact (hhost.chars c hc).1
    · rcases hauthority with rfl | ⟨digits, rfl, hdigits⟩
      · cases hc
      · rcases List.mem_cons.mp hc with rfl | hc
        · rfl
        · have hdigit := List.all_eq_true.mp (Bool.and_eq_true_iff.mp hdigits).1 c hc
          apply not_blank_of_schemeChar
          simp [isSchemeChar, Char.isAlphanum, hdigit]
  have hsplit : splitScheme (preprocess (origin scheme host port ++ '/' :: text)) =
      some (lower scheme, '/' :: '/' :: (host ++ port ++ '/' :: tidy text)) := by
    rw [preprocess_append (by simp [origin]) hblank, origin, List.append_assoc]
    exact splitScheme_append hscheme _
  rw [pathname, hsplit, Option.bind_some, schemeState]
  by_cases hfile : isFile scheme = true
  · have heq : lower scheme = "file".toList := of_decide_eq_true hfile
    have hspecial : isSpecial (lower scheme) = true := by
      rw [heq]
      rfl
    have hnone : port = [] := by
      rcases hport with hnone | ⟨hnot, -⟩
      · exact hnone
      · rw [hfile] at hnot
        cases hnot
    rw [if_pos heq, hfile, hspecial, hnone, List.append_nil]
    exact fileState_append hhost _
  · have hne : lower scheme ≠ "file".toList := fun heq ↦ hfile (decide_eq_true heq)
    have hnot : isFile scheme = false := by simpa using hfile
    rw [if_neg hne, hnot]
    by_cases hspecial : isSpecial (lower scheme) = true
    · rw [if_pos hspecial, hspecial]
      obtain ⟨c, host', rfl⟩ := List.exists_cons_of_ne_nil hhost.ne_nil
      have hc : isSlash true c = false := by
        have hends := (hhost.chars c List.mem_cons_self).2.1
        exact (Bool.or_eq_false_iff.mp hends).1
      have hdrop : ('/' :: '/' :: (c :: host' ++ port ++ '/' :: tidy text)).dropWhile
          (isSlash true) = c :: host' ++ port ++ '/' :: tidy text := by
        rw [List.dropWhile_cons_of_pos rfl, List.dropWhile_cons_of_pos rfl]
        exact List.dropWhile_cons_of_neg (by simp [hc])
      rw [hdrop]
      exact authorityState_append hhost hauthority _
    · have hother : isSpecial (lower scheme) = false := by simpa using hspecial
      rw [if_neg hspecial, hother]
      exact authorityState_append hhost hauthority _

end Origin

end Url

end VideoGen
