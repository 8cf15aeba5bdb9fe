import VideoGen.AccountCalls

/-!
# Who gets in

An identity gets in by a password, a refresh token, the access token of an HTTP
request or the access token of a chat handshake.  Only the HTTP path looks at
`isActive`, and the chat handshake does not look at the row at all.  So an
account that is deactivated or deleted stays out exactly when none of its
credentials works any more at that moment.
-/

namespace VideoGen

/-! ## The entry paths -/

inductive EntryPath where
  | login (email password : String)
  | refresh (token : String)
  | http (token : String)
  | chat (token : String)

section Entry

variable (lib : Libraries) (config : JwtConfig)

def EntryPath.identity : EntryPath → AccountProg String
  | .login email password => do
      let user ← AuthService.validateUser email password
      let tokens ← AuthService.login config user
      pure tokens.user.id
  | .refresh token => (·.user.id) <$> AuthService.refreshToken config token
  | .http token => (·.id) <$> JwtStrategy.authenticate config (some token)
  | .chat token => (·.sub) <$> ChatGateway.handshake config (some token)

namespace AuthState

def Admits (w : AuthState) (path : EntryPath) (id : String) : Prop :=
  ∃ ts w', (path.identity config).Evaluates (AuthState.exec lib) w ts (.ok id) w'

def Active (w : AuthState) (id : String) : Prop :=
  ∃ u, w.users.find? id = some u ∧ u.isActive = true

/-- Nobody but active accounts gets in, and a valid access token is accepted by HTTP
exactly when it is accepted by the chat. -/
structure Closed (w : AuthState) : Prop where
  shut : ∀ id path, ¬w.Active id → ¬w.Admits lib config path id
  agree : ∀ token p, w.verify lib config.secret token = some p →
    (w.Admits lib config (.http token) p.sub ↔ w.Admits lib config (.chat token) p.sub)

/-- No credential of the identity works: no access token and, when there is a row, no
refresh token and no password. -/
structure Expired (w : AuthState) (id : String) : Prop where
  access : ∀ token p, w.verify lib config.secret token = some p → p.sub ≠ id
  refresh : ∀ u token p, w.users.find? id = some u →
    w.verify lib config.refreshSecret token = some p → p.sub ≠ id
  password : ∀ u password, w.users.find? id = some u →
    lib.compare password u.password = false

end AuthState

end Entry

/-! ## The state of the credentials -/

namespace AuthState

section Access

variable {lib : Libraries} {config : JwtConfig} {w : AuthState} {id : String}

theorem verify_ne_empty {secret token : String} {p : JwtPayload}
    (h : w.verify lib secret token = some p) : token ≠ "" := by
  rintro rfl
  unfold verify at h
  rw [lib.verify_empty] at h
  simp at h

theorem active_of_admits (hexpired : ∀ id, ¬w.Active id → w.Expired lib config id)
    {path : EntryPath} (h : w.Admits lib config path id) : w.Active id := by
  by_contra hnot
  obtain ⟨haccess, hrefresh, hpassword⟩ := hexpired id hnot
  obtain ⟨ts, w', heval⟩ := h
  have hno : ¬(.ok id : Except AccountError String) = .ok id := by
    refine Ensures.post (fun _ r ↦ ¬r = .ok id) ?_ heval
    cases path with
    | login email password =>
        apply ensures_bind
        apply ensures_validateUser
        · intro u hu hvalid
          apply ensures_bind
          apply ensures_generateTokens
          rintro heq
          obtain rfl := Except.ok.inj heq
          have hfound := UserStore.findByEmail_eq_some hu
          rw [hpassword u password hfound] at hvalid
          cases hvalid
        · intro e heq
          cases heq
    | refresh token =>
        refine Program.keeps_map.mpr ?_
        apply ensures_refreshToken
        · intro p u hp hu heq
          obtain rfl := Except.ok.inj heq
          have hid := UserStore.key_of_find? hu
          refine hrefresh u token p ?_ hp hid.symm
          rw [← hid] at hu
          exact hu
        · intro e heq
          cases heq
    | http token =>
        refine Program.keeps_map.mpr ?_
        apply ensures_authenticate
        · intro p u hp hu hactive heq
          obtain rfl := Except.ok.inj heq
          have hid := UserStore.key_of_find? hu
          exact haccess token p hp hid.symm
        · intro e heq
          cases heq
    | chat token =>
        refine Program.keeps_map.mpr ?_
        apply ensures_handshake
        · intro p hp heq
          obtain rfl := Except.ok.inj heq
          exact haccess token p hp rfl
        · intro e heq
          cases heq
  exact hno rfl

theorem admits_chat {token : String} {p : JwtPayload}
    (h : w.verify lib config.secret token = some p) :
    w.Admits lib config (.chat token) p.sub := by
  have hverify : w.Returns lib (request (.verify config.secret token)) w p := by
    apply returns_request
    simp [answer, h]
  obtain ⟨ts, heval⟩ : w.Returns lib ((EntryPath.chat token).identity config) w p.sub := by
    apply returns_map
    simp only [ChatGateway.handshake, if_neg (verify_ne_empty h)]
    exact returns_catchWith hverify
  exact ⟨ts, w, heval⟩

theorem admits_http {token : String} {p : JwtPayload}
    (h : w.verify lib config.secret token = some p) (hactive : w.Active p.sub) :
    w.Admits lib config (.http token) p.sub := by
  obtain ⟨u, hu, hu'⟩ := hactive
  have hverify : w.Returns lib (request (.verify config.secret token)) w p := by
    apply returns_request
    simp [answer, h]
  obtain ⟨ts, heval⟩ : w.Returns lib ((EntryPath.http token).identity config) w u.id := by
    apply returns_map
    apply returns_bind hverify
    apply returns_bind (returns_findById hu)
    simp only [hu', if_true]
    exact returns_pure _
  rw [UserStore.key_of_find? hu] at heval
  exact ⟨ts, w, heval⟩

theorem admits_refresh {token : String} {p : JwtPayload} {u : User}
    (h : w.verify lib config.refreshSecret token = some p) (hu : w.users.find? p.sub = some u) :
    w.Admits lib config (.refresh token) p.sub := by
  have hverify : w.Returns lib (request (.verify config.refreshSecret token)) w p := by
    apply returns_request
    simp [answer, h]
  have htokens : w.Returns lib (AuthService.refreshToken config token)
      (w.issue lib config u.toSafeUser) (w.tokens lib config u.toSafeUser) := by
    apply returns_catchWith
    apply returns_bind hverify
    apply returns_bind (returns_findById hu)
    exact returns_generateTokens _
  obtain ⟨ts, heval⟩ : w.Returns lib ((EntryPath.refresh token).identity config)
      (w.issue lib config u.toSafeUser) u.id := returns_map htokens
  rw [UserStore.key_of_find? hu] at heval
  exact ⟨ts, _, heval⟩

theorem admits_login {password : String} {u : User} (hu : w.users.find? id = some u)
    (hpassword : lib.compare password u.password = true) :
    w.Admits lib config (.login u.email password) id := by
  have hvalidate : w.Returns lib (AuthService.validateUser u.email password) w u := by
    have hread : w.Returns lib (UsersService.findByEmail u.email) w (some u) := by
      apply returns_request
      simp [answer, UserStore.findByEmail_email hu]
    apply returns_bind hread
    apply returns_bind (returns_request rfl)
    simp only [hpassword, if_true]
    exact returns_pure _
  obtain ⟨ts, heval⟩ : w.Returns lib ((EntryPath.login u.email password).identity config)
      (w.issue lib config u.toSafeUser) u.id := by
    apply returns_bind hvalidate
    apply returns_bind (returns_generateTokens _)
    exact returns_pure _
  rw [UserStore.key_of_find? hu] at heval
  exact ⟨ts, _, heval⟩

theorem closed_iff_expired :
    w.Closed lib config ↔ ∀ id, ¬w.Active id → w.Expired lib config id := by
  constructor
  · intro h id hnot
    constructor
    · rintro token p hp rfl
      exact h.shut p.sub (.chat token) hnot (admits_chat hp)
    · rintro u token p hu hp rfl
      exact h.shut p.sub (.refresh token) hnot (admits_refresh hp hu)
    · intro u password hu
      by_contra hvalid
      exact h.shut id (.login u.email password) hnot
        (admits_login hu (eq_true_of_ne_false hvalid))
  · intro h
    constructor
    · intro id path hnot hadmits
      exact hnot (active_of_admits h hadmits)
    · intro token p hp
      constructor
      · intro _
        exact admits_chat hp
      · intro hchat
        exact admits_http hp (active_of_admits h hchat)

end Access

end AuthState

/-! ## Histories -/

/-- The methods that change the table or hand out tokens. -/
inductive AccountMethod where
  | register (dto : RegisterDto)
  | login (email password : String)
  | refreshToken (token : String)
  | update (id : String) (dto : UpdateUserDto)
  | remove (id : String)

inductive AccountStep where
  /-- A call of a method whose calls are settled as listed. -/
  | serve (method : AccountMethod) (outcomes : List Outcome)
  /-- An operator switches an account on or off. -/
  | setActive (id : String) (isActive : Bool)
  | tick (ms : ℕ)

section History

variable (lib : Libraries) (config : JwtConfig)

def AccountMethod.body : AccountMethod → AccountProg Unit
  | .register dto => (fun _ ↦ ()) <$> AuthService.register config dto
  | .login email password => do
      let user ← AuthService.validateUser email password
      let _ ← AuthService.login config user
  | .refreshToken token => (fun _ ↦ ()) <$> AuthService.refreshToken config token
  | .update id dto => (fun _ ↦ ()) <$> UsersService.update id dto
  | .remove id => UsersService.remove id

namespace AuthState

def step (w : AuthState) : AccountStep → Option AuthState
  | .serve method outcomes =>
      ((method.body config).evalAll (AuthState.exec lib) w outcomes).map Prod.fst
  | .setActive id isActive => some { w with users := w.users.setActive id isActive }
  | .tick ms => some { w with now := w.now + ms }

/-- The accounts that the step deactivates or deletes have no credential left. -/
def Careful (t : Transition AuthState AccountStep) : Prop :=
  ∀ id, t.before.Active id → ¬t.after.Active id → t.after.Expired lib config id

end AuthState

end History

namespace AuthState

variable {lib : Libraries} {config : JwtConfig} {w w' : AuthState}

/-- What a method does to the accounts: a row that is inactive was so before, with the
same password, and tokens are issued to active accounts only. -/
structure Evolves (lib : Libraries) (w w' : AuthState) : Prop where
  now : w'.now = w.now
  rows : ∀ id u', w'.users.find? id = some u' → u'.isActive = true ∨
    ∃ u, w.users.find? id = some u ∧ u.isActive = u'.isActive ∧ u.password = u'.password
  issued : ∀ token ∈ w'.issued, token ∈ w.issued ∨
    ∃ secret expiresIn p, token = lib.sign secret expiresIn w.now p ∧ w'.Active p.sub

theorem Evolves.refl (w : AuthState) : Evolves lib w w where
  now := rfl
  rows _ u' hu' := .inr ⟨u', hu', rfl, rfl⟩
  issued _ htoken := .inl htoken

theorem Evolves.issue {u : User} (h : Evolves lib w w') (hu : w'.users.find? u.id = some u)
    (hactive : u.isActive = true) : Evolves lib w (w'.issue lib config u.toSafeUser) where
  now := h.now
  rows := h.rows
  issued := by
    have hsub : (w'.issue lib config u.toSafeUser).Active u.id := ⟨u, hu, hactive⟩
    intro token htoken
    rcases List.mem_append.mp htoken with htoken | htoken
    · rcases List.mem_append.mp htoken with htoken | htoken
      · rcases h.issued token htoken with hold | ⟨secret, expiresIn, p, rfl, hp⟩
        · exact .inl hold
        · exact .inr ⟨secret, expiresIn, p, rfl, hp⟩
      · obtain rfl := List.mem_singleton.mp htoken
        exact .inr ⟨_, _, payload u.toSafeUser, by rw [← h.now]; rfl, hsub⟩
    · obtain rfl := List.mem_singleton.mp htoken
      exact .inr ⟨_, _, payload u.toSafeUser, by rw [← h.now]; rfl, hsub⟩

theorem evolves_insert {u : User} {users : UserStore} (h : w.users.insert? u = some users)
    (hactive : u.isActive = true) : Evolves lib w { w with users := users } where
  now := rfl
  rows := by
    intro id u' hu'
    change users.find? id = some u' at hu'
    rw [UserStore.find?_of_insert? h] at hu'
    split at hu'
    · obtain rfl := Option.some.inj hu'
      exact .inl hactive
    · exact .inr ⟨u', hu', rfl, rfl⟩
  issued _ htoken := .inl htoken

theorem evolves_update {id : String} {dto : UpdateUserDto} {users : UserStore}
    (h : w.users.update? id dto w.now = some users) :
    Evolves lib w { w with users := users } where
  now := rfl
  rows := by
    intro id' u' hu'
    change users.find? id' = some u' at hu'
    rw [UserStore.find?_of_update? h] at hu'
    split at hu'
    · obtain ⟨u, hu, rfl⟩ := Option.map_eq_some_iff.mp hu'
      exact .inr ⟨u, hu, rfl, rfl⟩
    · exact .inr ⟨u', hu', rfl, rfl⟩
  issued _ htoken := .inl htoken

theorem evolves_erase (id : String) :
    Evolves lib w { w with users := w.users.erase id } where
  now := rfl
  rows := by
    intro id' u' hu'
    change (w.users.erase id).find? id' = some u' at hu'
    rw [UserStore.find?_erase] at hu'
    split at hu'
    · cases hu'
    · exact .inr ⟨u', hu', rfl, rfl⟩
  issued _ htoken := .inl htoken

theorem ensures_body (hexpired : ∀ id, ¬w.Active id → w.Expired lib config id)
    (method : AccountMethod) :
    w.Ensures lib (method.body config) fun w' _ ↦ Evolves lib w w' := by
  have hcredential {u : User} (hu : w.users.find? u.id = some u)
      (hno : ¬w.Expired lib config u.id) : u.isActive = true := by
    by_contra hinactive
    refine hno (hexpired u.id ?_)
    rintro ⟨v, hv, hactive⟩
    obtain rfl := Option.some.inj (hu.symm.trans hv)
    exact hinactive hactive
  cases method with
  | register dto =>
      refine Program.keeps_map.mpr ?_
      apply ensures_bind
      apply ensures_read (fun _ ↦ rfl)
      · cases w.users.findByEmail dto.email with
        | some _ => exact .refl w
        | none =>
            apply ensures_bind
            apply ensures_request
            · intro hash
              apply ensures_bind
              apply ensures_create
              · intro id users hinsert
                apply ensures_generateTokens
                refine (evolves_insert hinsert rfl).issue ?_ rfl
                change users.find? _ = _
                rw [UserStore.find?_of_insert? hinsert, if_pos rfl]
              · intro id users _ hinsert
                exact evolves_insert hinsert rfl
              · intro _
                exact .refl w
            · intro _ _ _
              exact .refl w
            · intro _ _
              exact .refl w
      · intro _
        exact .refl w
  | login email password =>
      apply ensures_bind
      apply ensures_validateUser
      · intro u hu hvalid
        apply ensures_bind
        apply ensures_generateTokens
        have hfound := UserStore.findByEmail_eq_some hu
        apply (Evolves.refl w).issue hfound
        apply hcredential hfound
        intro h
        rw [h.password u password hfound] at hvalid
        cases hvalid
      · intro _
        exact .refl w
  | refreshToken token =>
      refine Program.keeps_map.mpr ?_
      apply ensures_refreshToken
      · intro p u hp hu
        have hid := UserStore.key_of_find? hu
        rw [← hid] at hu
        apply (Evolves.refl w).issue hu
        apply hcredential hu
        intro h
        exact h.refresh u token p hu hp hid.symm
      · intro _
        exact .refl w
  | update id dto =>
      refine Program.keeps_map.mpr ?_
      apply ensures_bind
      apply ensures_updateUser
      · intro users r hupdate
        cases r with
        | error _ => exact evolves_update hupdate
        | ok _ =>
            apply ensures_findById
            · intro _ _
              exact evolves_update hupdate
            · intro _
              exact evolves_update hupdate
      · intro _
        exact .refl w
  | remove id =>
      apply ensures_bind
      apply ensures_findById
      · intro u hu
        apply ensures_request
        · intro _
          exact evolves_erase _
        · intro _ _ _
          exact evolves_erase _
        · intro _ _
          exact .refl w
      · intro _
        exact .refl w

theorem Expired.mono {id : String} (h : w.Expired lib config id)
    (hverify : ∀ secret token p, w'.verify lib secret token = some p → p.sub = id →
      w.verify lib secret token = some p)
    (hrows : ∀ u', w'.users.find? id = some u' →
      ∃ u, w.users.find? id = some u ∧ u.password = u'.password) : w'.Expired lib config id where
  access token p hp hsub := h.access token p (hverify _ token p hp hsub) hsub
  refresh u' token p hu' hp hsub := by
    obtain ⟨u, hu, -⟩ := hrows u' hu'
    exact h.refresh u token p hu (hverify _ token p hp hsub) hsub
  password u' password hu' := by
    obtain ⟨u, hu, hpassword⟩ := hrows u' hu'
    rw [← hpassword]
    exact h.password u password hu

theorem verify_eq_some_iff {secret token : String} {p : JwtPayload} :
    w.verify lib secret token = some p ↔
      token ∈ w.issued ∧ lib.verify secret w.now token = some p := by
  unfold verify
  split <;> simp_all

theorem Evolves.verify {secret token : String} {p : JwtPayload} (h : Evolves lib w w')
    (hp : w'.verify lib secret token = some p) (hnot : ¬w'.Active p.sub) :
    w.verify lib secret token = some p := by
  obtain ⟨htoken, hverify⟩ := verify_eq_some_iff.mp hp
  rw [h.now] at hverify
  rcases h.issued token htoken with hold | ⟨secret', expiresIn, q, rfl, hq⟩
  · exact verify_eq_some_iff.mpr ⟨hold, hverify⟩
  · rw [lib.verify_sign _ _ _ _ _ _ _ hverify] at hnot
    exact absurd hq hnot

theorem step_expired {a : AccountStep} (hstep : w.step lib config a = some w')
    (hcareful : Careful lib config ⟨w, a, w'⟩)
    (hexpired : ∀ id, ¬w.Active id → w.Expired lib config id) :
    ∀ id, ¬w'.Active id → w'.Expired lib config id := by
  intro id hnot
  by_cases hbefore : w.Active id
  · exact hcareful id hbefore hnot
  cases a with
  | serve method outcomes =>
      obtain ⟨⟨w₁, r⟩, heval, rfl⟩ := Option.map_eq_some_iff.mp hstep
      obtain ⟨ts, hts, -⟩ := Program.evaluates_of_evalAll heval
      have hevolves : Evolves lib w w₁ := (ensures_body hexpired method).post _ hts
      apply (hexpired id hbefore).mono
      · rintro secret token p hp rfl
        exact hevolves.verify hp hnot
      · intro u' hu'
        rcases hevolves.rows id u' hu' with hactive | ⟨u, hu, -, hpassword⟩
        · exact absurd ⟨u', hu', hactive⟩ hnot
        · exact ⟨u, hu, hpassword⟩
  | setActive id' isActive =>
      obtain rfl := Option.some.inj hstep
      apply (hexpired id hbefore).mono
      · intro secret token p hp _
        exact hp
      · intro u' hu'
        change (w.users.setActive id' isActive).find? id = some u' at hu'
        rw [UserStore.find?_setActive] at hu'
        split at hu'
        · obtain ⟨u, hu, rfl⟩ := Option.map_eq_some_iff.mp hu'
          exact ⟨u, hu, rfl⟩
        · exact ⟨u', hu', rfl⟩
  | tick ms =>
      obtain rfl := Option.some.inj hstep
      apply (hexpired id hbefore).mono
      · intro secret token p hp _
        obtain ⟨htoken, hverify⟩ := verify_eq_some_iff.mp hp
        exact verify_eq_some_iff.mpr
          ⟨htoken, lib.verify_before _ _ _ _ _ hverify (Nat.le_add_right _ _)⟩
      · intro u' hu'
        exact ⟨u', hu', rfl⟩

/-- In every state of a history only active accounts get in, and HTTP and the chat decide
alike, exactly when no account is deactivated or deleted while one of its credentials
still works. -/
theorem closed_iff_careful {start : AuthState} {ts : List (Transition AuthState AccountStep)}
    (hrun : Run (AuthState.step lib config) start ts w) :
    (start.Closed lib config ∧ ∀ t ∈ ts, t.after.Closed lib config) ↔
      (∀ id, ¬start.Active id → start.Expired lib config id) ∧
        ∀ t ∈ ts, Careful lib config t := by
  simp only [closed_iff_expired]
  constructor
  · rintro ⟨hstart, hafter⟩
    exact ⟨hstart, fun t ht id _ hnot ↦ hafter t ht id hnot⟩
  · rintro ⟨hstart, hcareful⟩
    refine ⟨hstart, fun t ht ↦ step_expired (hrun.step_of_mem ht) (hcareful t ht) ?_⟩
    refine hrun.invariant_before (fun w ↦ ∀ id, ¬w.Active id → w.Expired lib config id) hstart
      (fun t ht hstep ↦ ?_) ht
    exact step_expired hstep (hcareful t ht)

end AuthState

/-! ## A registered user who leaves -/

def alice : JwtPayload := ⟨"alice", "alice@example.com", .user⟩

/-- Tokens of one user that do not expire, and a hash that only adds a mark. -/
def aliceLibraries : Libraries where
  compare password hash := hash = "hash:" ++ password
  sign secret _ _ p := if p = alice then secret ++ ":alice" else ""
  verify secret _ token := if token = secret ++ ":alice" then some alice else none
  verify_sign := by
    intro secret secret' expiresIn now now' p p' h
    by_cases hp : p = alice
    · obtain ⟨-, rfl⟩ := by simpa [hp] using h
      exact hp.symm
    · simp [hp] at h
  verify_before _ _ _ _ _ h _ := h
  verify_empty := by simp

def aliceConfig : JwtConfig := ⟨"secret", "7d", "refresh-secret", "30d"⟩

def registerAlice : AccountStep :=
  .serve (.register ⟨"Alice", "A", "alice@example.com", "password", none⟩)
    [.ok "", .ok "hash:password", .ok "alice", .ok "", .ok ""]

/-- While Alice is active, only she gets in. -/
theorem closed_after_register : ∃ (ts : List (Transition AuthState AccountStep)) (w : AuthState),
    Run (AuthState.step aliceLibraries aliceConfig) AuthState.empty ts w ∧
      ts.map Transition.act = [registerAlice] ∧
      AuthState.empty.Closed aliceLibraries aliceConfig ∧
      ∀ t ∈ ts, t.after.Closed aliceLibraries aliceConfig := by
  obtain ⟨w, hw⟩ := Option.isSome_iff_exists.mp (by decide +kernel :
    (AuthState.empty.step aliceLibraries aliceConfig registerAlice).isSome = true)
  have hrun := Run.cons hw .nil
  refine ⟨_, w, hrun, rfl, (AuthState.closed_iff_careful hrun).mpr ⟨?_, ?_⟩⟩
  · intro id _
    constructor
    · intro token p hp
      cases hp
    · intro u token p hu
      cases hu
    · intro u password hu
      cases hu
  · intro t ht
    obtain rfl := List.mem_singleton.mp ht
    rintro id ⟨u, hu, -⟩
    cases hu

def aliceState (w : AuthState) : Option (Bool × String) × Option JwtPayload × Option JwtPayload :=
  ((w.users.find? "alice").map fun u ↦ (u.isActive, u.password),
    w.verify aliceLibraries aliceConfig.secret "secret:alice",
    w.verify aliceLibraries aliceConfig.refreshSecret "refresh-secret:alice")

/-- Deactivated, Alice still refreshes, logs in and chats; deleted, she still chats. -/
theorem inactive_admitted :
    (∃ (ts : List (Transition AuthState AccountStep)) (w : AuthState),
      Run (AuthState.step aliceLibraries aliceConfig) AuthState.empty ts w ∧
        ts.map Transition.act = [registerAlice, .setActive "alice" false] ∧
        ¬w.Active "alice" ∧
        w.Admits aliceLibraries aliceConfig (.refresh "refresh-secret:alice") "alice" ∧
        w.Admits aliceLibraries aliceConfig (.login "alice@example.com" "password") "alice" ∧
        w.Admits aliceLibraries aliceConfig (.chat "secret:alice") "alice") ∧
    ∃ (ts : List (Transition AuthState AccountStep)) (w : AuthState),
      Run (AuthState.step aliceLibraries aliceConfig) AuthState.empty ts w ∧
        ts.map Transition.act = [registerAlice, .serve (.remove "alice") [.ok "", .ok ""]] ∧
        w.users.find? "alice" = none ∧
        w.Admits aliceLibraries aliceConfig (.chat "secret:alice") "alice" := by
  constructor
  · obtain ⟨ts, w, hrun, hacts, hobs⟩ := Run.exists_of_follow
      (AuthState.step aliceLibraries aliceConfig) AuthState.empty
      [registerAlice, .setActive "alice" false]
      (fun p ↦ decide (aliceState p.2 = (some (false, "hash:password"), some alice, some alice) ∧
        (p.2.users.find? "alice").map (fun u ↦ u.email) = some "alice@example.com"))
      true (by decide +kernel)
    obtain ⟨hstate, hemail⟩ := of_decide_eq_true hobs
    obtain ⟨hrow, htokens⟩ := Prod.mk.inj hstate
    obtain ⟨haccess, hrefresh⟩ := Prod.mk.inj htokens
    obtain ⟨u, hu, hinactive⟩ := Option.map_eq_some_iff.mp hrow
    obtain ⟨hinactive, hpassword⟩ := Prod.mk.inj hinactive
    rw [hu] at hemail
    have hemail : u.email = "alice@example.com" := Option.some.inj hemail
    have hlogin : w.Admits aliceLibraries aliceConfig (.login u.email "password") "alice" := by
      apply AuthState.admits_login hu
      rw [hpassword]
      decide
    rw [hemail] at hlogin
    refine ⟨ts, w, hrun, hacts, ?_, AuthState.admits_refresh hrefresh hu, hlogin,
      AuthState.admits_chat haccess⟩
    rintro ⟨v, hv, hactive⟩
    obtain rfl := Option.some.inj (hu.symm.trans hv)
    rw [hinactive] at hactive
    cases hactive
  · obtain ⟨ts, w, hrun, hacts, hobs⟩ := Run.exists_of_follow
      (AuthState.step aliceLibraries aliceConfig) AuthState.empty
      [registerAlice, .serve (.remove "alice") [.ok "", .ok ""]]
      (fun p ↦ decide (p.2.users.find? "alice" = none ∧
        p.2.verify aliceLibraries aliceConfig.secret "secret:alice" = some alice))
      true (by decide +kernel)
    obtain ⟨hrow, haccess⟩ := of_decide_eq_true hobs
    exact ⟨ts, w, hrun, hacts, hrow, AuthState.admits_chat haccess⟩

end VideoGen
