import Mathlib.Data.List.Nodup
import VideoGen.Lib.Evaluation
import VideoGen.Lib.Table

/-!
# Accounts

The `users` table, the users service, the authentication service and the two
places that check an access token: the HTTP strategy and the handshake of the
chat namespace.  The password hash and the token library are parameters; a
token that was never issued has no valid signature.
-/

namespace VideoGen

inductive UserRole where
  | admin
  | user
  deriving DecidableEq, Repr

/-- A user without the password, as `safeFields()` selects it. -/
structure SafeUser where
  id : String
  firstName : String
  lastName : String
  email : String
  username : Option String
  role : UserRole
  isActive : Bool
  createdAt : ℕ
  updatedAt : ℕ
  deriving DecidableEq, Repr

structure User extends SafeUser where
  password : String
  deriving DecidableEq, Repr

structure CreateUserDto where
  firstName : String
  lastName : String
  email : String
  password : String
  username : Option String := none
  role : Option UserRole := none

structure RegisterDto where
  firstName : String
  lastName : String
  email : String
  password : String
  username : Option String

/-- `PartialType(OmitType(CreateUserDto, ['email', 'password', 'role']))`; a `null` user name
clears the column. -/
structure UpdateUserDto where
  firstName : Option String
  lastName : Option String
  username : Option (Option String)

namespace User

/-- The row that `INSERT` makes of an entity, with the defaults of its columns. -/
def create (id : String) (dto : CreateUserDto) (now : ℕ) : User where
  id := id
  firstName := dto.firstName
  lastName := dto.lastName
  email := dto.email
  username := dto.username
  role := dto.role.getD .user
  isActive := true
  createdAt := now
  updatedAt := now
  password := dto.password

def assign (u : User) (dto : UpdateUserDto) (now : ℕ) : User :=
  { u with
    firstName := dto.firstName.getD u.firstName
    lastName := dto.lastName.getD u.lastName
    username := dto.username.getD u.username
    updatedAt := now }

def setActive (u : User) (isActive : Bool) : User := { u with isActive := isActive }

end User

/-! ## The table -/

def User.key (u : User) : String := u.id

/-- The `users` table: ids, e-mails and user names are unique. -/
structure UserStore where
  rows : Table User.key
  emails : (rows.rows.map fun u ↦ u.email).Nodup
  usernames : (rows.rows.filterMap fun u ↦ u.username).Nodup

namespace UserStore

def empty : UserStore := ⟨Table.empty, List.nodup_nil, List.nodup_nil⟩

def find? (s : UserStore) (id : String) : Option User := s.rows.find? id

def findByEmail (s : UserStore) (email : String) : Option User :=
  s.rows.rows.find? fun u ↦ u.email = email

def ofTable? (rows : Table User.key) : Option UserStore :=
  if h : (rows.rows.map fun u ↦ u.email).Nodup ∧ (rows.rows.filterMap fun u ↦ u.username).Nodup
  then some ⟨rows, h.1, h.2⟩ else none

def insert? (s : UserStore) (u : User) : Option UserStore := (s.rows.insert? u).bind ofTable?

def update? (s : UserStore) (id : String) (dto : UpdateUserDto) (now : ℕ) : Option UserStore :=
  ofTable? (s.rows.modify id (fun u ↦ u.assign dto now) fun _ ↦ rfl)

def erase (s : UserStore) (id : String) : UserStore where
  rows := s.rows.erase id
  emails := s.emails.sublist (List.filter_sublist.map _)
  usernames := s.usernames.sublist (List.filter_sublist.filterMap _)

theorem email_modify (id : String) (isActive : Bool) (u : User) :
    (if u.key = id then u.setActive isActive else u).email = u.email := by
  by_cases hu : u.key = id <;> simp [hu, User.setActive]

theorem username_modify (id : String) (isActive : Bool) (u : User) :
    (if u.key = id then u.setActive isActive else u).username = u.username := by
  by_cases hu : u.key = id <;> simp [hu, User.setActive]

def setActive (s : UserStore) (id : String) (isActive : Bool) : UserStore where
  rows := s.rows.modify id (fun u ↦ u.setActive isActive) fun _ ↦ rfl
  emails := by
    simpa [Table.modify, Function.comp_def, email_modify] using s.emails
  usernames := by
    simpa [Table.modify, List.filterMap_map, Function.comp_def, username_modify] using s.usernames

end UserStore

/-! ## The libraries and the calls -/

structure JwtPayload where
  sub : String
  email : String
  role : UserRole
  deriving DecidableEq, Repr

/-- `bcryptjs` and `@nestjs/jwt`: a verified token has the payload it was signed with,
a token that verifies has verified before, and the empty text is no token. -/
structure Libraries where
  compare : (password hash : String) → Bool
  sign : (secret expiresIn : String) → (now : ℕ) → JwtPayload → String
  verify : (secret : String) → (now : ℕ) → (token : String) → Option JwtPayload
  verify_sign : ∀ secret secret' expiresIn now now' p p',
    verify secret' now' (sign secret expiresIn now p) = some p' → p' = p
  verify_before : ∀ secret now now' token p,
    verify secret now' token = some p → now ≤ now' → verify secret now token = some p
  verify_empty : ∀ secret now, verify secret now "" = none

structure JwtConfig where
  secret : String
  expiresIn : String
  refreshSecret : String
  refreshExpiresIn : String

inductive AccountCall where
  | selectUserByEmail (email : String)
  | selectUserById (id : String)
  | insertUser (dto : CreateUserDto)
  | updateUser (id : String) (dto : UpdateUserDto)
  | deleteUser (id : String)
  | hash (password : String) (rounds : ℕ)
  | compare (password hash : String)
  | sign (secret expiresIn : String) (payload : JwtPayload)
  | verify (secret token : String)

namespace AccountCall

abbrev Reply : AccountCall → Type
  | .selectUserByEmail _ => Option User
  | .selectUserById _ => Option SafeUser
  | .insertUser _ => User
  | .updateUser _ _ => Unit
  | .deleteUser _ => Unit
  | .hash _ _ => String
  | .compare _ _ => Bool
  | .sign _ _ _ => String
  | .verify _ _ => JwtPayload

/-- The call is asynchronous and can be rejected; tokens are signed and verified
synchronously. -/
def Fallible : AccountCall → Bool
  | .sign _ _ _ => false
  | .verify _ _ => false
  | _ => true

end AccountCall

inductive AccountError where
  | unauthorized (message : String)
  | conflict (message : String)
  | notFound (message : String)
  | library (message : String)
  deriving DecidableEq, Repr

abbrev accounts : Interface where
  Call := AccountCall
  Reply := AccountCall.Reply
  Error := AccountError

abbrev AccountProg (α : Type) := Program accounts α

def request (c : AccountCall) : AccountProg c.Reply := Program.perform (I := accounts) c

def fail {α : Type} (e : AccountError) : AccountProg α := Program.throw (I := accounts) e

structure AuthState where
  now : ℕ
  users : UserStore
  issued : List String

/-- How the environment settles a call; `fresh` is a new id or a salted hash. -/
inductive Outcome where
  | ok (fresh : String)
  | rejected (message : String)
  | lost (fresh message : String)

namespace AuthState

def empty : AuthState := ⟨0, UserStore.empty, []⟩

section Effects

variable (lib : Libraries)

def verify (w : AuthState) (secret token : String) : Option JwtPayload :=
  if token ∈ w.issued then lib.verify secret w.now token else none

def answer (w : AuthState) : (c : AccountCall) → String → AuthState × Except AccountError c.Reply
  | .selectUserByEmail email, _ => (w, .ok (w.users.findByEmail email))
  | .selectUserById id, _ => (w, .ok ((w.users.find? id).map User.toSafeUser))
  | .insertUser dto, id =>
      match w.users.insert? (User.create id dto w.now) with
      | some users => ({ w with users := users }, .ok (User.create id dto w.now))
      | none => (w, .error (.library "duplicate key value violates unique constraint"))
  | .updateUser id dto, _ =>
      match w.users.update? id dto w.now with
      | some users => ({ w with users := users }, .ok ())
      | none => (w, .error (.library "duplicate key value violates unique constraint"))
  | .deleteUser id, _ => ({ w with users := w.users.erase id }, .ok ())
  | .hash _ _, hash => (w, .ok hash)
  | .compare password hash, _ => (w, .ok (lib.compare password hash))
  | .sign secret expiresIn payload, _ =>
      let token := lib.sign secret expiresIn w.now payload
      ({ w with issued := w.issued ++ [token] }, .ok token)
  | .verify secret token, _ =>
      match w.verify lib secret token with
      | some payload => (w, .ok payload)
      | none => (w, .error (.library "invalid token"))

def exec (w : AuthState) (c : AccountCall) :
    Outcome → Option (AuthState × Except AccountError c.Reply)
  | .ok fresh => some (w.answer lib c fresh)
  | .rejected message => if c.Fallible then some (w, .error (.library message)) else none
  | .lost fresh message =>
      if c.Fallible then some ((w.answer lib c fresh).1, .error (.library message)) else none

end Effects

end AuthState

/-! ## The users service -/

namespace UsersService

def create (dto : CreateUserDto) : AccountProg User := request (.insertUser dto)

def findById (id : String) : AccountProg SafeUser := do
  let found : Option SafeUser ← request (.selectUserById id)
  match found with
  | none => fail (.notFound ("User " ++ id ++ " not found"))
  | some user => pure user

def findByEmail (email : String) : AccountProg (Option User) :=
  request (.selectUserByEmail email)

def update (id : String) (dto : UpdateUserDto) : AccountProg SafeUser := do
  let _ ← request (.updateUser id dto)
  findById id

def remove (id : String) : AccountProg Unit := do
  let user ← findById id
  request (.deleteUser user.id)

end UsersService

/-! ## The authentication service -/

structure Tokens where
  accessToken : String
  refreshToken : String
  user : SafeUser

namespace AuthService

/-- `bcrypt.hash(password, 12)` -/
def hashRounds : ℕ := 12

variable (config : JwtConfig)

def generateTokens (user : SafeUser) : AccountProg Tokens := do
  let payload : JwtPayload := { sub := user.id, email := user.email, role := user.role }
  let accessToken ← request (.sign config.secret config.expiresIn payload)
  let refreshToken ← request (.sign config.refreshSecret config.refreshExpiresIn payload)
  pure { accessToken := accessToken, refreshToken := refreshToken, user := user }

def register (dto : RegisterDto) : AccountProg Tokens := do
  match ← UsersService.findByEmail dto.email with
  | some _ => fail (.conflict "Email already registered")
  | none => do
      let hashedPassword ← request (.hash dto.password hashRounds)
      let user ← UsersService.create
        { firstName := dto.firstName
          lastName := dto.lastName
          email := dto.email
          password := hashedPassword
          username := dto.username }
      generateTokens config user.toSafeUser

def validateUser (email password : String) : AccountProg User := do
  match ← UsersService.findByEmail email with
  | none => fail (.unauthorized "Invalid credentials")
  | some user => do
      let isPasswordValid : Bool ← request (.compare password user.password)
      if isPasswordValid then pure user else fail (.unauthorized "Invalid credentials")

def login (user : User) : AccountProg Tokens := generateTokens config user.toSafeUser

def refreshToken (token : String) : AccountProg Tokens :=
  Program.catchWith (do
    let payload : JwtPayload ← request (.verify config.refreshSecret token)
    let user ← UsersService.findById payload.sub
    generateTokens config user)
    fun _ ↦ fail (.unauthorized "Invalid or expired refresh token")

end AuthService

def JwtStrategy.validate (payload : JwtPayload) : AccountProg SafeUser := do
  let user ← UsersService.findById payload.sub
  if user.isActive then pure user else fail (.unauthorized "User not found or inactive")

/-- The `jwt` strategy on the bearer token of a request. -/
def JwtStrategy.authenticate (config : JwtConfig) : Option String → AccountProg SafeUser
  | none => fail (.unauthorized "No auth token")
  | some token => do
      let payload : JwtPayload ← request (.verify config.secret token)
      JwtStrategy.validate payload

/-- The middleware that `afterInit` installs; an empty token is falsy. -/
def ChatGateway.handshake (config : JwtConfig) : Option String → AccountProg JwtPayload
  | none => fail (.unauthorized "Unauthorized")
  | some token =>
      if token = "" then fail (.unauthorized "Unauthorized")
      else (request (.verify config.secret token)).catchWith
        fun _ ↦ fail (.unauthorized "Unauthorized")

end VideoGen
