import VideoGen.AccountRequests
import VideoGen.Lib.Contract

/-!
# Administrators

No request makes an administrator: registrations give no role, and changes do not
touch it.  However requests interleave, the administrators are among those whom
the table held at first, with the e-mail and the password hash they had, and a
token that says it is an administrator's names one of them.
-/

namespace VideoGen

def AuthState.HasAdmin (w : AuthState) (id : String) : Prop :=
  ∃ u, w.users.find? id = some u ∧ u.role = .admin

/-- The administrators and their tokens go back to those of `w₀`. -/
structure Governed (lib : Libraries) (w₀ w : AuthState) : Prop where
  rows : ∀ id u, w.users.find? id = some u → u.role = .admin →
    ∃ u₀, w₀.users.find? id = some u₀ ∧ u₀.role = .admin ∧ u₀.email = u.email ∧
      u₀.password = u.password
  issued : ∀ token ∈ w.issued, ∃ secret expiresIn now p,
    token = lib.sign secret expiresIn now p ∧ (p.role = .admin → w₀.HasAdmin p.sub)

/-- No administrator is inserted, and no token makes one. -/
def AccountCall.Modest (w₀ : AuthState) : AccountCall → Prop
  | .insertUser dto => dto.role ≠ some .admin
  | .sign _ _ p => p.role = .admin → w₀.HasAdmin p.sub
  | _ => True

section Calls

variable {lib : Libraries} {w₀ w w' : AuthState} {c : AccountCall} {o : Outcome}
  {r : Except AccountError c.Reply}

theorem users_cases (h : w.exec lib c o = some (w', r)) :
    w'.users = w.users ∨
    (∃ dto id, c = .insertUser dto ∧
      w.users.insert? (User.create id dto w.now) = some w'.users) ∨
    (∃ id dto, c = .updateUser id dto ∧ w.users.update? id dto w.now = some w'.users) ∨
    ∃ id, c = .deleteUser id ∧ w'.users = w.users.erase id := by
  have hanswer (fresh : String) (heq : (w.answer lib c fresh).1 = w') :
      w'.users = w.users ∨
      (∃ dto id, c = .insertUser dto ∧
        w.users.insert? (User.create id dto w.now) = some w'.users) ∨
      (∃ id dto, c = .updateUser id dto ∧ w.users.update? id dto w.now = some w'.users) ∨
      ∃ id, c = .deleteUser id ∧ w'.users = w.users.erase id := by
    subst heq
    cases c with
    | insertUser dto =>
        cases hinsert : w.users.insert? (User.create fresh dto w.now) with
        | none => exact .inl (by simp [AuthState.answer, hinsert])
        | some users => exact .inr (.inl ⟨dto, fresh, rfl, by simp [AuthState.answer, hinsert]⟩)
    | updateUser id dto =>
        cases hupdate : w.users.update? id dto w.now with
        | none => exact .inl (by simp [AuthState.answer, hupdate])
        | some users =>
            exact .inr (.inr (.inl ⟨id, dto, rfl, by simp [AuthState.answer, hupdate]⟩))
    | deleteUser id => exact .inr (.inr (.inr ⟨id, rfl, rfl⟩))
    | verify secret token =>
        left
        simp only [AuthState.answer]
        split <;> rfl
    | _ => exact .inl rfl
  cases o with
  | ok fresh => exact hanswer fresh (Prod.mk.inj (Option.some.inj h)).1
  | rejected message =>
      obtain ⟨-, heq⟩ := Option.ite_none_right_eq_some.mp h
      obtain ⟨rfl, -⟩ := Prod.mk.inj (Option.some.inj heq)
      exact .inl rfl
  | lost fresh message =>
      obtain ⟨-, heq⟩ := Option.ite_none_right_eq_some.mp h
      exact hanswer fresh (Prod.mk.inj (Option.some.inj heq)).1

theorem Governed.step (h : Governed lib w₀ w) (hmodest : c.Modest w₀)
    (hexec : w.exec lib c o = some (w', r)) : Governed lib w₀ w' := by
  constructor
  · intro id u hu hadmin
    rcases users_cases hexec with hsame | ⟨dto, newId, rfl, hinsert⟩ | ⟨id', dto, rfl, hupdate⟩ |
      ⟨id', rfl, herase⟩
    · rw [hsame] at hu
      exact h.rows id u hu hadmin
    · rw [UserStore.find?_of_insert? hinsert] at hu
      split at hu
      · obtain rfl := Option.some.inj hu
        have hrole : dto.role.getD .user = .admin := hadmin
        cases hdto : dto.role with
        | none =>
            rw [hdto] at hrole
            cases hrole
        | some role =>
            rw [hdto] at hrole
            obtain rfl : role = .admin := hrole
            exact absurd hdto hmodest
      · exact h.rows id u hu hadmin
    · rw [UserStore.find?_of_update? hupdate] at hu
      split at hu
      · obtain ⟨v, hv, rfl⟩ := Option.map_eq_some_iff.mp hu
        exact h.rows id v hv hadmin
      · exact h.rows id u hu hadmin
    · rw [herase, UserStore.find?_erase] at hu
      split at hu
      · cases hu
      · exact h.rows id u hu hadmin
  · intro token htoken
    rcases issued_cases hexec with hsame | ⟨secret, expiresIn, p, rfl, hnew⟩
    · rw [hsame] at htoken
      exact h.issued token htoken
    · rw [hnew] at htoken
      rcases List.mem_append.mp htoken with hold | htoken
      · exact h.issued token hold
      · obtain rfl := List.mem_singleton.mp htoken
        exact ⟨secret, expiresIn, w.now, p, rfl, hmodest⟩

theorem Governed.happens (h : Governed lib w₀ w) (event : AccountEvent) :
    Governed lib w₀ (w.happens event) := by
  cases event with
  | tick ms => exact ⟨h.rows, h.issued⟩
  | setActive id isActive =>
      refine ⟨fun id' u hu hadmin ↦ ?_, h.issued⟩
      change (w.users.setActive id isActive).find? id' = some u at hu
      rw [UserStore.find?_setActive] at hu
      split at hu
      · obtain ⟨v, hv, rfl⟩ := Option.map_eq_some_iff.mp hu
        exact h.rows id' v hv hadmin
      · exact h.rows id' u hu hadmin

theorem Governed.admin (h : Governed lib w₀ w) {id : String} {u : User}
    (hu : w.users.find? id = some u) (hadmin : u.role = .admin) : w₀.HasAdmin u.id := by
  obtain ⟨u₀, hu₀, hrole, -, -⟩ := h.rows id u hu hadmin
  rw [UserStore.key_of_find? hu]
  exact ⟨u₀, hu₀, hrole⟩

end Calls

def governance (lib : Libraries) (w₀ : AuthState) : Contract (I := accounts) (AuthState.exec lib) where
  Inv := Governed lib w₀
  Later _ _ := True
  Allows _ c := c.Modest w₀
  refl _ := trivial
  trans _ _ _ _ _ := trivial
  step _ _ _ _ _ h hmodest hexec := ⟨h.step hmodest hexec, trivial⟩

theorem reply_of_exec {lib : Libraries} {w w' : AuthState} {c : AccountCall} {o : Outcome}
    {x : c.Reply} (h : w.exec lib c o = some (w', .ok x)) :
    ∃ fresh, o = .ok fresh ∧ w.answer lib c fresh = (w', .ok x) := by
  cases o with
  | ok fresh => exact ⟨fresh, rfl, Option.some.inj h⟩
  | rejected message =>
      obtain ⟨-, heq⟩ := Option.ite_none_right_eq_some.mp h
      cases (Prod.mk.inj (Option.some.inj heq)).2
  | lost fresh message =>
      obtain ⟨-, heq⟩ := Option.ite_none_right_eq_some.mp h
      cases (Prod.mk.inj (Option.some.inj heq)).2

/-! ## The methods -/

section Methods

variable {lib : Libraries} {w₀ w : AuthState} {config : JwtConfig} {id : String} {α β : Type}

/-- The program keeps the contract and returns users who are administrators only if they
were so at first. -/
def Knows (lib : Libraries) (w₀ : AuthState) (p : AccountProg α) (user? : α → Option SafeUser)
    (w : AuthState) : Prop :=
  p.Keeps (governance lib w₀).spec (fun _ r ↦ ∀ a user, r = .ok a → user? a = some user →
    user.role = .admin → w₀.HasAdmin user.id) w

theorem knows_bind {p : AccountProg α} {f : α → AccountProg β} {user? : α → Option SafeUser}
    {user?' : β → Option SafeUser} (hp : Knows lib w₀ p user? w)
    (hf : ∀ a w', (∀ user, user? a = some user → user.role = .admin → w₀.HasAdmin user.id) →
      Knows lib w₀ (f a) user?' w') : Knows lib w₀ (p >>= f) user?' w := by
  refine Program.keeps_bind.mpr (Program.Keeps.mono (fun w' r h ↦ ?_) hp)
  cases r with
  | ok a => exact hf a w' fun user ↦ h a user rfl
  | error e =>
      intro b user heq
      cases heq

theorem knows_request {c : AccountCall} {user? : c.Reply → Option SafeUser}
    (hmodest : c.Modest w₀) (hreply : ∀ w' o w'' x user, Governed lib w₀ w' →
      w'.exec lib c o = some (w'', .ok x) → user? x = some user → user.role = .admin →
        w₀.HasAdmin user.id) : Knows lib w₀ (request c) user? w := by
  refine Contract.keeps_perform fun w' _ hinv ↦ ⟨hmodest, ?_⟩
  rintro o w'' r hexec x user rfl huser hadmin
  exact hreply w' o w'' x user hinv hexec huser hadmin

theorem knows_fail {user? : α → Option SafeUser} (e : AccountError) :
    Knows lib w₀ (fail e : AccountProg α) user? w := by
  intro a user heq
  cases heq

theorem knows_pure {user? : α → Option SafeUser} {a : α}
    (h : ∀ user, user? a = some user → user.role = .admin → w₀.HasAdmin user.id) :
    Knows lib w₀ (pure a : AccountProg α) user? w := by
  intro a' user heq
  obtain rfl := Except.ok.inj heq
  exact h user

theorem knows_nothing {p : AccountProg α} (h : (governance lib w₀).Keeps p w) :
    Knows lib w₀ p (fun _ ↦ none) w := by
  refine Program.Keeps.mono (fun _ _ _ a user heq huser ↦ ?_) h
  cases huser

theorem Knows.then {p : AccountProg α} {f : α → AccountProg β} {user? : α → Option SafeUser}
    (hp : Knows lib w₀ p user? w)
    (hf : ∀ a w', (∀ user, user? a = some user → user.role = .admin → w₀.HasAdmin user.id) →
      (governance lib w₀).Keeps (f a) w') : (governance lib w₀).Keeps (p >>= f) w :=
  Contract.keeps_bind (hp.mono fun w' _ h a heq ↦ hf a w' fun user ↦ h a user heq)

theorem knows_selectUserById :
    Knows lib w₀ (request (.selectUserById id)) (fun user : Option SafeUser ↦ user) w := by
  refine knows_request trivial fun w' o w'' x user hinv hexec huser hadmin ↦ ?_
  obtain ⟨fresh, -, hanswer⟩ := reply_of_exec hexec
  have hx := Except.ok.inj (Prod.mk.inj hanswer).2
  rw [huser] at hx
  obtain ⟨u, hu, rfl⟩ := Option.map_eq_some_iff.mp hx
  exact hinv.admin hu hadmin

theorem knows_findByEmail (email : String) :
    Knows lib w₀ (UsersService.findByEmail email) (Option.map User.toSafeUser) w := by
  refine knows_request trivial fun w' o w'' x user hinv hexec huser hadmin ↦ ?_
  obtain ⟨fresh, -, hanswer⟩ := reply_of_exec hexec
  have hx := Except.ok.inj (Prod.mk.inj hanswer).2
  obtain ⟨u, rfl, rfl⟩ := Option.map_eq_some_iff.mp huser
  exact hinv.admin (UserStore.findByEmail_eq_some hx) hadmin

theorem knows_create {dto : CreateUserDto} (hdto : dto.role = none) :
    Knows lib w₀ (UsersService.create dto) (fun user ↦ some user.toSafeUser) w := by
  refine knows_request (by simp [AccountCall.Modest, hdto]) ?_
  intro w' o w'' x user hinv hexec huser hadmin
  obtain ⟨fresh, -, hanswer⟩ := reply_of_exec hexec
  obtain rfl := Option.some.inj huser
  simp only [AuthState.answer] at hanswer
  split at hanswer
  · obtain rfl := Except.ok.inj (Prod.mk.inj hanswer).2
    have hrole : dto.role.getD .user = .admin := hadmin
    rw [hdto] at hrole
    cases hrole
  · cases (Prod.mk.inj hanswer).2

theorem knows_findById :
    Knows lib w₀ (UsersService.findById id) some w := by
  refine knows_bind knows_selectUserById fun found w' hfound ↦ ?_
  cases found with
  | none => exact knows_fail _
  | some user => exact knows_pure fun user' heq ↦ hfound user' heq

theorem knows_generateTokens {user : SafeUser} (h : user.role = .admin → w₀.HasAdmin user.id) :
    (governance lib w₀).Keeps (AuthService.generateTokens config user) w := by
  refine Contract.keeps_of_calls ?_ w
  refine (Program.calls_perform fun _ _ ↦ h).bind fun _ ↦ ?_
  exact (Program.calls_perform fun _ _ ↦ h).bind fun _ ↦ trivial

theorem knows_validateUser (email password : String) :
    Knows lib w₀ (AuthService.validateUser email password) (fun user ↦ some user.toSafeUser) w := by
  refine knows_bind (knows_findByEmail email) fun found w' hfound ↦ ?_
  cases found with
  | none => exact knows_fail _
  | some user =>
      refine knows_bind (knows_nothing ?_) fun (valid : Bool) w'' _ ↦ ?_
      · exact Contract.keeps_of_calls (Program.calls_perform fun _ _ ↦ trivial) w'
      · cases valid with
        | false => exact knows_fail _
        | true =>
            refine knows_pure fun user' heq ↦ ?_
            obtain rfl := Option.some.inj heq
            exact hfound user.toSafeUser rfl

theorem keeps_login (email password : String) {f : Tokens → AccountProg β}
    (hf : ∀ tokens, (f tokens).Calls (governance lib w₀).Harmless) :
    (governance lib w₀).Keeps (do
      let user ← AuthService.validateUser email password
      let tokens ← AuthService.login config user
      f tokens) w := by
  refine (knows_validateUser email password).then fun user w' huser ↦ ?_
  refine (knows_generateTokens (huser user.toSafeUser rfl)).bind fun tokens w'' ↦ ?_
  exact Contract.keeps_of_calls (hf tokens) w''

theorem keeps_register (dto : RegisterDto) :
    (governance lib w₀).Keeps (AuthService.register config dto) w := by
  refine (knows_findByEmail dto.email).then fun found w₁ _ ↦ ?_
  cases found with
  | some user => trivial
  | none =>
      refine Contract.Keeps.bind ?_ fun hash w₂ ↦ ?_
      · exact Contract.keeps_of_calls (Program.calls_perform fun _ _ ↦ trivial) w₁
      · exact (knows_create rfl).then fun user w₃ huser ↦
          knows_generateTokens (huser user.toSafeUser rfl)

theorem keeps_refreshToken (token : String) :
    (governance lib w₀).Keeps (AuthService.refreshToken config token) w := by
  refine Contract.Keeps.catchWith (Contract.Keeps.bind ?_ fun p w₁ ↦ ?_) fun _ _ ↦ trivial
  · exact Contract.keeps_of_calls (Program.calls_perform fun _ _ ↦ trivial) w
  · exact knows_findById.then fun user w₂ huser ↦ knows_generateTokens (huser user rfl)

theorem harmless_findById : (UsersService.findById id).Calls (governance lib w₀).Harmless := by
  refine (Program.calls_perform fun _ _ ↦ trivial).bind fun found ↦ ?_
  cases found <;> trivial

theorem keeps_path (path : EntryPath) : (governance lib w₀).Keeps (path.identity config) w := by
  cases path with
  | login email password => exact keeps_login email password fun _ ↦ trivial
  | refresh token => exact Contract.keeps_map (keeps_refreshToken token)
  | http token =>
      refine Contract.keeps_of_calls (Program.Calls.map ?_ _) w
      refine (Program.calls_perform fun _ _ ↦ trivial).bind fun p ↦ ?_
      refine harmless_findById.bind fun user ↦ ?_
      split <;> trivial
  | chat token =>
      refine Contract.keeps_of_calls (Program.Calls.map ?_ _) w
      change Program.Calls _ (if token = "" then _ else _)
      split
      · trivial
      · exact (Program.calls_perform fun _ _ ↦ trivial).catchWith fun _ ↦ trivial

theorem governs_body (q : AccountRequest) : (governance lib w₀).Keeps (q.body config) w := by
  cases q with
  | enter path => exact Contract.keeps_map (keeps_path path)
  | call method =>
      refine Contract.keeps_map ?_
      cases method with
      | register dto => exact Contract.keeps_map (keeps_register dto)
      | login email password => exact keeps_login email password fun _ ↦ trivial
      | refreshToken token => exact Contract.keeps_map (keeps_refreshToken token)
      | update id dto =>
          refine Contract.keeps_of_calls (Program.Calls.map ?_ _) w
          exact (Program.calls_perform fun _ _ ↦ trivial).bind fun _ ↦ harmless_findById
      | remove id =>
          refine Contract.keeps_of_calls ?_ w
          exact harmless_findById.bind fun user ↦ Program.calls_perform fun _ _ ↦ trivial

theorem fulfils_governance (lib : Libraries) (config : JwtConfig) (w₀ : AuthState) :
    (accountApi lib config).Fulfils (governance lib w₀) fun _ ↦ True where
  invoked q _ w _ := governs_body q
  forked _ _ _ _ _ _ _ _ q hq := by cases hq
  env w threads event w' tasks h henv := by
    obtain ⟨rfl, rfl⟩ := Prod.mk.inj (Option.some.inj henv)
    exact ⟨h.happens event, trivial, by simp⟩

end Methods

/-- In every run of interleaved account requests over any users, no tokens having been issued
before it, and however the calls are settled: an administrator was one at first, with the same
e-mail and password hash, and a valid token that says it is an administrator's names one of
them.  No request or interleaving of requests makes an administrator. -/
theorem administrators_initial {lib : Libraries} {config : JwtConfig} {w : AuthState}
    {ts : List AccountMove} {s : AccountState}
    (hrun : Run (accountApi lib config).step ⟨w, []⟩ ts s) (hissued : w.issued = []) :
    (∀ id u, s.state.users.find? id = some u → u.role = .admin →
      ∃ u₀, w.users.find? id = some u₀ ∧ u₀.role = .admin ∧ u₀.email = u.email ∧
        u₀.password = u.password) ∧
    ∀ secret token p, s.state.verify lib secret token = some p → p.role = .admin →
      w.HasAdmin p.sub := by
  have hstart : Governed lib w w := by
    constructor
    · intro id u hu hadmin
      exact ⟨u, hu, hadmin, rfl, rfl⟩
    · simp [hissued]
  have hany (a : Act AccountRequest Outcome AccountEvent) : a.InvokesOnly fun _ ↦ True := by
    cases a <;> trivial
  have hgoverned : Governed lib w s.state := ((fulfils_governance lib config w).run hrun
    (Machine.Kept.start hstart) fun t _ ↦ hany t.act).1.inv
  refine ⟨hgoverned.rows, fun secret token p hverify hadmin ↦ ?_⟩
  obtain ⟨hmem, hvalid⟩ := Option.ite_none_right_eq_some.mp hverify
  obtain ⟨secret', expiresIn, now, p', rfl, hroot⟩ := hgoverned.issued token hmem
  obtain rfl := lib.verify_sign secret' secret expiresIn now s.state.now p' p hvalid
  exact hroot hadmin

/-! ### An administrator logs in -/

def root : JwtPayload := ⟨"root", "root@example.com", .admin⟩

def rootLibraries : Libraries where
  compare password hash := hash = "hash:" ++ password
  sign secret _ _ p := if p = root then secret ++ ":root" else ""
  verify secret _ token := if token = secret ++ ":root" then some root else none
  verify_sign := by
    intro secret secret' expiresIn now now' p p' h
    by_cases hp : p = root
    · obtain ⟨-, rfl⟩ := by simpa [hp] using h
      exact hp.symm
    · simp [hp] at h
  verify_before _ _ _ _ _ h _ := h
  verify_empty := by simp

def rootAccounts : AuthState where
  now := 0
  users := (UserStore.empty.insert? (User.create "root"
    { firstName := "Root", lastName := "R", email := "root@example.com"
      password := "hash:toor", role := some .admin } 0)).getD UserStore.empty
  issued := []

def adminActs : List (Act AccountRequest Outcome AccountEvent) :=
  [.invoke (.call (.register ⟨"Alice", "A", "alice@example.com", "password", none⟩)),
    .invoke (.enter (.login "root@example.com" "toor"))] ++ answers 0 1 ++ answers 1 3 ++
    [.call 0 (.ok "hash:password"), .call 0 (.ok "alice")] ++ answers 1 1 ++ answers 0 2

theorem administrators_initial_root : ∃ (ts : List AccountMove) (s : AccountState),
    Run (accountApi rootLibraries aliceConfig).step ⟨rootAccounts, []⟩ ts s ∧
      (s.state.users.find? "alice").isSome = true ∧
      s.state.verify rootLibraries "secret" "secret:root" = some root ∧
      rootAccounts.HasAdmin "root" := by
  obtain ⟨ts, s, hrun, -, hobs⟩ := Run.exists_of_follow
    (accountApi rootLibraries aliceConfig).step ⟨rootAccounts, []⟩ adminActs
    (fun p ↦ ((p.2.state.users.find? "alice").isSome,
      p.2.state.verify rootLibraries "secret" "secret:root"))
    (true, some root) (by decide +kernel)
  obtain ⟨halice, hverify⟩ := Prod.mk.inj hobs
  exact ⟨ts, s, hrun, halice, hverify,
    (administrators_initial hrun rfl).2 "secret" "secret:root" root hverify rfl⟩

end VideoGen
