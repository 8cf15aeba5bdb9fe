import VideoGen.Lib.Text

/-!
# The monitoring page

Basic authentication in front of the queue monitor.  The credentials are cut
at the first colon of the decoded text, whether there is one or not.
-/

namespace VideoGen

/-- The answer with status 401, or the call of `next`. -/
inductive MonitoringAnswer where
  | next
  | unauthorized (wwwAuthenticate message : String)
  deriving DecidableEq, Repr

structure MonitoringAuthMiddleware where
  user : JsText
  password : JsText

namespace MonitoringAuthMiddleware

/-- The constructor, with the defaults of its configuration keys. -/
def create (monitoringUser monitoringPassword : Option JsText) : MonitoringAuthMiddleware where
  user := monitoringUser.getD (.of "admin")
  password := monitoringPassword.getD (.of "admin")

def colon : UInt16 := 58

def basic : JsText := .of "Basic "

-- `Buffer.from(text, 'base64').toString('utf8')`
variable (decode : JsText → JsText)

def use (m : MonitoringAuthMiddleware) (authHeader : Option JsText) : MonitoringAnswer :=
  match authHeader with
  | none =>
      .unauthorized "Basic realm=\"Queue Monitoring\"" "Queue monitoring requires Basic Auth"
  | some authHeader =>
      if basic.isPrefixOf authHeader then
        let decoded := decode (authHeader.sliceFrom 6)
        let colonIdx := decoded.indexOf colon
        let user := decoded.slice 0 colonIdx
        let password := decoded.sliceFrom (colonIdx + 1)
        if user ≠ m.user ∨ password ≠ m.password then
          .unauthorized "Basic realm=\"Queue Monitoring\"" "Invalid monitoring credentials"
        else .next
      else
        .unauthorized "Basic realm=\"Queue Monitoring\"" "Queue monitoring requires Basic Auth"

/-- `next()` is called exactly for the credentials, and anything else is answered with 401. -/
def Exact (m : MonitoringAuthMiddleware) (authHeader : Option JsText) : Prop :=
  (m.use decode authHeader = .next ↔
    ∃ text, authHeader = some (basic ++ text) ∧ decode text = m.user ++ colon :: m.password) ∧
  (m.use decode authHeader = .next ∨
    ∃ challenge message, m.use decode authHeader = .unauthorized challenge message)

variable {decode}

theorem use_eq_next_iff {m : MonitoringAuthMiddleware} (hcolon : colon ∉ m.user)
    {authHeader : Option JsText} : m.use decode authHeader = .next ↔
      ∃ text, authHeader = some (basic ++ text) ∧
        (decode text = m.user ++ colon :: m.password ∨
          (colon ∉ decode text ∧ (decode text).dropLast = m.user ∧
            decode text = m.password)) := by
  cases authHeader with
  | none => simp [use]
  | some header =>
      by_cases hbasic : basic.isPrefixOf header = true
      · obtain ⟨text, rfl⟩ := List.isPrefixOf_iff_prefix.mp hbasic
        have htext : JsText.sliceFrom (basic ++ text) 6 = text :=
          JsText.sliceFrom_length (a := basic)
        have hcut := JsText.cut_iff (t := decode text) (b := m.password) hcolon
        simp only [use, if_pos hbasic, htext, Option.some.injEq, List.append_cancel_left_eq,
          exists_eq_left', ← hcut]
        split
        · rename_i hne
          simp only [reduceCtorEq, false_iff]
          tauto
        · rename_i heq
          simp only [true_iff]
          tauto
      · simp only [use, if_neg hbasic, reduceCtorEq, false_iff]
        rintro ⟨text, heq, -⟩
        obtain rfl := Option.some.inj heq
        exact hbasic (List.isPrefixOf_iff_prefix.mpr ⟨text, rfl⟩)

/-- The credentials are parsed exactly unless the decoded text has no colon, is the password,
and is the user name up to its last unit. -/
theorem exact_iff {m : MonitoringAuthMiddleware} (hcolon : colon ∉ m.user)
    (authHeader : Option JsText) : m.Exact decode authHeader ↔
      ¬(colon ∉ m.password ∧ m.password.dropLast = m.user ∧
        ∃ text, authHeader = some (basic ++ text) ∧ decode text = m.password) := by
  have hanswer : m.use decode authHeader = .next ∨
      ∃ challenge message, m.use decode authHeader = .unauthorized challenge message := by
    cases m.use decode authHeader with
    | next => exact .inl rfl
    | unauthorized challenge message => exact .inr ⟨challenge, message, rfl⟩
  have hnext := @use_eq_next_iff decode m hcolon authHeader
  constructor
  · rintro ⟨hexact, -⟩ ⟨hpassword, huser, text, rfl, htext⟩
    have haccepted := hnext.mpr ⟨text, rfl, .inr ⟨by rwa [htext], by rwa [htext], htext⟩⟩
    obtain ⟨text', heq, hcredentials⟩ := hexact.mp haccepted
    obtain rfl := List.append_cancel_left (Option.some.inj heq)
    -- The password would contain the colon.
    rw [htext] at hcredentials
    exact hpassword (by rw [hcredentials]; simp)
  · intro hnot
    refine ⟨⟨fun haccepted ↦ ?_, fun ⟨text, heq, h⟩ ↦ hnext.mpr ⟨text, heq, .inl h⟩⟩, hanswer⟩
    obtain ⟨text, heq, h | ⟨hmem, huser, hpassword⟩⟩ := hnext.mp haccepted
    · exact ⟨text, heq, h⟩
    · rw [hpassword] at hmem huser
      exact absurd ⟨hmem, huser, text, heq, hpassword⟩ hnot

/-! ## Two headers -/

def decodeExample (text : JsText) : JsText :=
  if text = .of "YWRtaW46YWRtaW4x" then .of "admin:admin1"
  else if text = .of "YWRtaW4x" then .of "admin1"
  else []

def adminAdmin1 : MonitoringAuthMiddleware := create none (some (.of "admin1"))

theorem exact_credentials :
    adminAdmin1.use decodeExample (some (.of "Basic YWRtaW46YWRtaW4x")) = .next ∧
      adminAdmin1.Exact decodeExample (some (.of "Basic YWRtaW46YWRtaW4x")) := by
  have hnext : adminAdmin1.use decodeExample (some (.of "Basic YWRtaW46YWRtaW4x")) = .next := by
    decide +kernel
  refine ⟨hnext, (exact_iff (by decide +kernel) _).mpr ?_⟩
  rintro ⟨-, -, text, heq, hpassword⟩
  have htext : JsText.of "Basic YWRtaW46YWRtaW4x" = basic ++ .of "YWRtaW46YWRtaW4x" := by
    decide +kernel
  rw [htext, Option.some.injEq, List.append_cancel_left_eq] at heq
  subst heq
  exact absurd hpassword (by decide +kernel)

/-- The password alone opens the page: without a colon the cut gives `admin` and `admin1`. -/
theorem password_alone_accepted :
    colon ∉ adminAdmin1.user ∧
      adminAdmin1.use decodeExample (some (.of "Basic YWRtaW4x")) = .next ∧
      decodeExample (.of "YWRtaW4x") ≠ adminAdmin1.user ++ colon :: adminAdmin1.password ∧
      ¬adminAdmin1.Exact decodeExample (some (.of "Basic YWRtaW4x")) := by
  have hnext : adminAdmin1.use decodeExample (some (.of "Basic YWRtaW4x")) = .next := by
    decide +kernel
  have hother : decodeExample (.of "YWRtaW4x") ≠
      adminAdmin1.user ++ colon :: adminAdmin1.password := by decide +kernel
  refine ⟨by decide +kernel, hnext, hother, ?_⟩
  rintro ⟨hexact, -⟩
  obtain ⟨text, heq, hcredentials⟩ := hexact.mp hnext
  have htext : JsText.of "Basic YWRtaW4x" = basic ++ .of "YWRtaW4x" := by decide +kernel
  rw [htext, Option.some.injEq, List.append_cancel_left_eq] at heq
  subst heq
  exact hother hcredentials

end MonitoringAuthMiddleware

end VideoGen
