import VideoGen.Accounts

/-!
# What the account methods do

What selecting from the `users` table returns after each change, and one rule
for each call and method: what holds however its calls are settled
(`AuthState.Ensures`), and what it returns when they are answered
(`AuthState.Returns`).
-/

namespace VideoGen

/-! ## The table -/

namespace UserStore

variable {s s' : UserStore} {id : String} {u : User}

theorem key_of_find? (h : s.find? id = some u) : u.id = id := by
  have hkey : u.key = id := Table.key_of_find? h
  exact hkey

theorem findByEmail_eq_some (h : s.findByEmail id = some u) : s.find? u.id = some u :=
  Table.find?_eq_some_iff.mpr ⟨List.mem_of_find?_eq_some h, rfl⟩

theorem findByEmail_email (h : s.find? id = some u) : s.findByEmail u.email = some u := by
  obtain ⟨hmem, -⟩ := Table.find?_eq_some_iff.mp h
  cases hfind : s.findByEmail u.email with
  | none => simpa using List.find?_eq_none.mp hfind u hmem
  | some v =>
      have hemail : v.email = u.email := by simpa using List.find?_some hfind
      have hv : v ∈ s.rows.rows := List.mem_of_find?_eq_some hfind
      rw [List.inj_on_of_nodup_map s.emails hv hmem hemail]

theorem rows_of_ofTable? {rows : Table User.key} (h : ofTable? rows = some s) : s.rows = rows := by
  unfold ofTable? at h
  split at h
  · obtain rfl := Option.some.inj h
    rfl
  · cases h

theorem find?_of_insert? (h : s.insert? u = some s') (id : String) :
    s'.find? id = if id = u.id then some u else s.find? id := by
  obtain ⟨rows, hrows, h⟩ := Option.bind_eq_some_iff.mp h
  unfold find?
  rw [rows_of_ofTable? h]
  exact Table.find?_of_insert? hrows id

theorem find?_of_update? {dto : UpdateUserDto} {now : ℕ} (h : s.update? id dto now = some s')
    (id' : String) : s'.find? id' =
      if id' = id then (s.find? id').map (·.assign dto now) else s.find? id' := by
  unfold find?
  rw [rows_of_ofTable? h]
  exact Table.find?_modify s.rows id _ _ id'

theorem find?_erase (id' : String) :
    (s.erase id).find? id' = if id' = id then none else s.find? id' :=
  Table.find?_erase s.rows id id'

theorem find?_setActive (isActive : Bool) (id' : String) : (s.setActive id isActive).find? id' =
    if id' = id then (s.find? id').map (·.setActive isActive) else s.find? id' :=
  Table.find?_modify s.rows id (·.setActive isActive) (fun _ ↦ rfl) id'

end UserStore

/-! ## What calls and methods ensure -/

namespace AuthState

section Ensures

variable {lib : Libraries} {w w' : AuthState} {α β : Type}

/-- The program ends in `Post` however its calls are settled. -/
def Ensures (lib : Libraries) (w : AuthState) (p : AccountProg α)
    (Post : AuthState → Except AccountError α → Prop) : Prop :=
  p.Keeps (Program.environment (AuthState.exec lib) fun _ ↦ True) Post w

theorem Ensures.post {p : AccountProg α} (Post : AuthState → Except AccountError α → Prop)
    (h : w.Ensures lib p Post) {ts : List (Transition AuthState Outcome)}
    {r : Except AccountError α} (heval : p.Evaluates (AuthState.exec lib) w ts r w') : Post w' r :=
  heval.post h fun _ _ ↦ trivial

theorem ensures_bind {p : AccountProg α} {f : α → AccountProg β}
    {Post : AuthState → Except AccountError β → Prop}
    (h : w.Ensures lib p fun w r ↦ match r with
      | .ok a => w.Ensures lib (f a) Post
      | .error e => Post w (.error e)) : w.Ensures lib (p >>= f) Post := by
  refine Program.keeps_bind.mpr (Program.Keeps.mono ?_ h)
  intro w r hr
  cases r with
  | ok a => exact hr
  | error e => exact hr

/-- A call either has the effect of its answer or it throws, and then it may or may
not have had the effect. -/
theorem ensures_request {c : AccountCall} {Post : AuthState → Except AccountError c.Reply → Prop}
    (hanswer : ∀ fresh, Post (w.answer lib c fresh).1 (w.answer lib c fresh).2)
    (hlost : ∀ fresh e, c.Fallible = true → Post (w.answer lib c fresh).1 (.error e))
    (hrejected : ∀ e, c.Fallible = true → Post w (.error e)) :
    w.Ensures lib (request c) Post := by
  refine Program.keeps_perform.mpr ⟨trivial, ?_⟩
  rintro r w' ⟨o, -, h⟩
  cases o with
  | ok fresh =>
      have heq := Option.some.inj h
      have hpost := hanswer fresh
      rw [heq] at hpost
      exact hpost
  | rejected m =>
      obtain ⟨hc, heq⟩ := Option.ite_none_right_eq_some.mp h
      obtain ⟨rfl, rfl⟩ := Prod.mk.inj (Option.some.inj heq)
      exact hrejected _ hc
  | lost fresh m =>
      obtain ⟨hc, heq⟩ := Option.ite_none_right_eq_some.mp h
      obtain ⟨rfl, rfl⟩ := Prod.mk.inj (Option.some.inj heq)
      exact hlost fresh _ hc

theorem ensures_read {c : AccountCall} {x : c.Reply}
    {Post : AuthState → Except AccountError c.Reply → Prop}
    (hread : ∀ fresh, w.answer lib c fresh = (w, .ok x)) (hok : Post w (.ok x))
    (herr : ∀ e, Post w (.error e)) : w.Ensures lib (request c) Post := by
  apply ensures_request
  · intro fresh
    rw [hread]
    exact hok
  · intro fresh e _
    rw [hread]
    exact herr e
  · exact fun e _ ↦ herr e

theorem ensures_verify {secret token : String}
    {Post : AuthState → Except AccountError JwtPayload → Prop}
    (hok : ∀ p, w.verify lib secret token = some p → Post w (.ok p))
    (herr : ∀ e, Post w (.error e)) : w.Ensures lib (request (.verify secret token)) Post := by
  apply ensures_request
  · intro fresh
    simp only [answer]
    cases hverify : w.verify lib secret token with
    | none => exact herr _
    | some p => exact hok p hverify
  · intro _ _ hc
    cases hc
  · intro _ hc
    cases hc

theorem ensures_create {dto : CreateUserDto} {Post : AuthState → Except AccountError User → Prop}
    (hok : ∀ id users, w.users.insert? (User.create id dto w.now) = some users →
      Post { w with users := users } (.ok (User.create id dto w.now)))
    (hlost : ∀ id users e, w.users.insert? (User.create id dto w.now) = some users →
      Post { w with users := users } (.error e))
    (herr : ∀ e, Post w (.error e)) : w.Ensures lib (UsersService.create dto) Post := by
  apply ensures_request
  · intro id
    simp only [answer]
    cases hinsert : w.users.insert? (User.create id dto w.now) with
    | none => exact herr _
    | some users => exact hok id users hinsert
  · intro id e _
    simp only [answer]
    cases hinsert : w.users.insert? (User.create id dto w.now) with
    | none => exact herr _
    | some users => exact hlost id users e hinsert
  · exact fun e _ ↦ herr e

theorem ensures_updateUser {id : String} {dto : UpdateUserDto}
    {Post : AuthState → Except AccountError Unit → Prop}
    (hupdated : ∀ users r, w.users.update? id dto w.now = some users →
      Post { w with users := users } r)
    (herr : ∀ e, Post w (.error e)) : w.Ensures lib (request (.updateUser id dto)) Post := by
  apply ensures_request
  · intro _
    simp only [answer]
    cases hupdate : w.users.update? id dto w.now with
    | none => exact herr _
    | some users => exact hupdated users _ hupdate
  · intro _ e _
    simp only [answer]
    cases hupdate : w.users.update? id dto w.now with
    | none => exact herr _
    | some users => exact hupdated users _ hupdate
  · exact fun e _ ↦ herr e

theorem ensures_findById {id : String} {Post : AuthState → Except AccountError SafeUser → Prop}
    (hok : ∀ u, w.users.find? id = some u → Post w (.ok u.toSafeUser))
    (herr : ∀ e, Post w (.error e)) : w.Ensures lib (UsersService.findById id) Post := by
  apply ensures_bind
  apply ensures_read (fun _ ↦ rfl)
  · cases hfind : w.users.find? id with
    | none => exact herr _
    | some u => exact hok u hfind
  · exact herr

def payload (user : SafeUser) : JwtPayload := ⟨user.id, user.email, user.role⟩

def tokens (lib : Libraries) (config : JwtConfig) (w : AuthState) (user : SafeUser) : Tokens where
  accessToken := lib.sign config.secret config.expiresIn w.now (payload user)
  refreshToken := lib.sign config.refreshSecret config.refreshExpiresIn w.now (payload user)
  user := user

/-- The accounts after the two tokens were handed out. -/
def issue (lib : Libraries) (config : JwtConfig) (w : AuthState) (user : SafeUser) : AuthState :=
  { w with issued := w.issued ++
      [(w.tokens lib config user).accessToken] ++ [(w.tokens lib config user).refreshToken] }

theorem ensures_generateTokens {config : JwtConfig} {user : SafeUser}
    {Post : AuthState → Except AccountError Tokens → Prop}
    (h : Post (w.issue lib config user) (.ok (w.tokens lib config user))) :
    w.Ensures lib (AuthService.generateTokens config user) Post := by
  apply ensures_bind
  apply ensures_request
  · intro _
    apply ensures_bind
    apply ensures_request
    · intro _
      exact h
    · intro _ _ hc
      cases hc
    · intro _ hc
      cases hc
  · intro _ _ hc
    cases hc
  · intro _ hc
    cases hc

theorem ensures_validateUser {email password : String}
    {Post : AuthState → Except AccountError User → Prop}
    (hok : ∀ u, w.users.findByEmail email = some u → lib.compare password u.password = true →
      Post w (.ok u))
    (herr : ∀ e, Post w (.error e)) :
    w.Ensures lib (AuthService.validateUser email password) Post := by
  apply ensures_bind
  apply ensures_read (fun _ ↦ rfl)
  · cases hfind : w.users.findByEmail email with
    | none => exact herr _
    | some u =>
        apply ensures_bind
        apply ensures_read (fun _ ↦ rfl)
        · simp only
          split
          · rename_i hvalid
            exact hok u hfind hvalid
          · exact herr _
        · exact herr
  · exact herr

/-- Tokens are only given to the user whose row a valid refresh token names. -/
theorem ensures_refreshToken {config : JwtConfig} {token : String}
    {Post : AuthState → Except AccountError Tokens → Prop}
    (hok : ∀ p u, w.verify lib config.refreshSecret token = some p →
      w.users.find? p.sub = some u →
      Post (w.issue lib config u.toSafeUser) (.ok (w.tokens lib config u.toSafeUser)))
    (herr : ∀ e, Post w (.error e)) :
    w.Ensures lib (AuthService.refreshToken config token) Post := by
  refine Program.keeps_catchWith.mpr ?_
  apply ensures_bind
  apply ensures_verify
  · intro p hp
    apply ensures_bind
    apply ensures_findById
    · intro u hu
      apply ensures_generateTokens
      exact hok p u hp hu
    · intro _
      exact herr _
  · intro _
    exact herr _

theorem ensures_authenticate {config : JwtConfig} {token : String}
    {Post : AuthState → Except AccountError SafeUser → Prop}
    (hok : ∀ p u, w.verify lib config.secret token = some p → w.users.find? p.sub = some u →
      u.isActive = true → Post w (.ok u.toSafeUser))
    (herr : ∀ e, Post w (.error e)) :
    w.Ensures lib (JwtStrategy.authenticate config (some token)) Post := by
  apply ensures_bind
  apply ensures_verify
  · intro p hp
    apply ensures_bind
    apply ensures_findById
    · intro u hu
      simp only
      split
      · rename_i hactive
        exact hok p u hp hu hactive
      · exact herr _
    · exact herr
  · exact herr

theorem ensures_handshake {config : JwtConfig} {token : String}
    {Post : AuthState → Except AccountError JwtPayload → Prop}
    (hok : ∀ p, w.verify lib config.secret token = some p → Post w (.ok p))
    (herr : ∀ e, Post w (.error e)) :
    w.Ensures lib (ChatGateway.handshake config (some token)) Post := by
  by_cases hempty : token = ""
  · simp only [ChatGateway.handshake, if_pos hempty]
    exact herr _
  · simp only [ChatGateway.handshake, if_neg hempty]
    refine Program.keeps_catchWith.mpr ?_
    apply ensures_verify
    · exact hok
    · intro _
      exact herr _

end Ensures

section Returns

variable {lib : Libraries} {config : JwtConfig} {w : AuthState} {id : String}

/-- The program can return `a` and leave the accounts `w'`. -/
def Returns {α : Type} (lib : Libraries) (w : AuthState) (p : AccountProg α) (w' : AuthState)
    (a : α) : Prop :=
  ∃ ts, p.Evaluates (AuthState.exec lib) w ts (.ok a) w'

theorem returns_pure {α : Type} (a : α) : w.Returns lib (pure a) w a := ⟨[], .done _ _⟩

theorem returns_request {c : AccountCall} {w' : AuthState} {x : c.Reply}
    (h : w.answer lib c "" = (w', .ok x)) : w.Returns lib (request c) w' x := by
  have hexec : w.exec lib c (.ok "") = some (w', .ok x) := congrArg some h
  exact ⟨_, .call hexec (.done _ _)⟩

theorem returns_bind {α β : Type} {p : AccountProg α} {f : α → AccountProg β} {w₁ w' : AuthState}
    {a : α} {b : β} (hp : w.Returns lib p w₁ a) (hf : w₁.Returns lib (f a) w' b) :
    w.Returns lib (p >>= f) w' b := by
  obtain ⟨ts₁, hp⟩ := hp
  obtain ⟨ts₂, hf⟩ := hf
  exact ⟨_, Program.evaluates_bind_iff.mpr (.inl ⟨ts₁, a, w₁, ts₂, hp, hf, rfl⟩)⟩

theorem returns_map {α β : Type} {p : AccountProg α} {f : α → β} {w' : AuthState} {a : α}
    (hp : w.Returns lib p w' a) : w.Returns lib (f <$> p) w' (f a) :=
  returns_bind hp (returns_pure (f a))

theorem returns_catchWith {α : Type} {p : AccountProg α} {h : AccountError → AccountProg α}
    {w' : AuthState} {a : α} (hp : w.Returns lib p w' a) :
    w.Returns lib (p.catchWith h) w' a := by
  obtain ⟨ts, hp⟩ := hp
  have hattempt : w.Returns lib p.attempt w' (.ok a) := ⟨ts, hp.attempt⟩
  exact returns_bind hattempt (returns_pure a)

theorem returns_findById {u : User} (hu : w.users.find? id = some u) :
    w.Returns lib (UsersService.findById id) w u.toSafeUser := by
  have hread : w.Returns lib (request (.selectUserById id)) w (some u.toSafeUser) := by
    apply returns_request
    simp [answer, hu]
  exact returns_bind hread (returns_pure _)

theorem returns_generateTokens (user : SafeUser) :
    w.Returns lib (AuthService.generateTokens config user) (w.issue lib config user)
      (w.tokens lib config user) := by
  apply returns_bind (returns_request rfl)
  apply returns_bind (returns_request rfl)
  exact returns_pure _

end Returns

end AuthState

end VideoGen
