import VideoGen.Accounts
import VideoGen.DlqService

/-!
# The controllers

The methods of the five controllers and the guards in front of them.  A method
gets what the pipes make of the parameters, and the user that the guards have
put into the request, if any; `@CurrentUser()` hands on whatever is there.
-/

namespace VideoGen

/-! ## Replies -/

structure VideoGenerationParamsDto where
  width : Option ℤ
  height : Option ℤ
  fps : Option ℤ
  model : Option String

structure VideoResponseDto where
  id : String
  title : String
  prompt : String
  negativePrompt : Option String
  status : VideoStatus
  queueJobId : Option String
  videoUrl : Option String
  thumbnailUrl : Option String
  durationSeconds : Option ℤ
  generationParams : VideoGenerationParamsDto
  errorMessage : Option String
  createdAt : ℕ
  updatedAt : ℕ

def VideoResponseDto.from (video : Video) : VideoResponseDto where
  id := video.id
  title := video.title
  prompt := video.prompt
  negativePrompt := video.negativePrompt
  status := video.status
  queueJobId := video.queueJobId
  videoUrl := video.videoUrl
  thumbnailUrl := video.thumbnailUrl
  durationSeconds := video.durationSeconds
  generationParams :=
    { width := video.width, height := video.height, fps := video.fps, model := video.model }
  errorMessage := video.errorMessage
  createdAt := video.createdAt
  updatedAt := video.updatedAt

structure FailedJobDto where
  id : String
  videoId : String
  queueJobId : Option String
  errorMessage : String
  jobName : String
  attemptsMade : ℕ
  retried : Bool
  retriedAt : Option String
  retryJobId : Option String
  failedAt : String

/-- `toDto` of the dead letter service. -/
def FailedJobDto.from (record : FailedJob) : FailedJobDto where
  id := record.id
  videoId := record.videoId
  queueJobId := record.queueJobId
  errorMessage := record.errorMessage
  jobName := record.jobName
  attemptsMade := record.attemptsMade
  retried := record.retried
  retriedAt := record.retriedAt.map toIsoString
  retryJobId := record.retryJobId
  failedAt := toIsoString record.failedAt

def getFailedJob (id : String) : Prog FailedJobDto := do
  let record : Option FailedJob ← ask (.selectFailedJob id)
  match record with
  | none => raise .notFound ("DLQ record " ++ id ++ " not found")
  | some record => pure (FailedJobDto.from record)

/-! ## Methods -/

/-- What a method does: calls of the stores, calls of the accounts, or a query that
changes nothing. -/
inductive Method : Type 1 where
  | stores {α : Type} (body : Prog α)
  | accounts {α : Type} (body : AccountProg α)
  | query

/-- `user.id`, which throws when there is no user. -/
def userId {I : Interface} (e : I.Error) : Option SafeUser → Program I String
  | some user => pure user.id
  | none => Program.throw e

def noUser : Thrown := .instance .error "Cannot read properties of undefined (reading 'id')"

def noAccount : AccountError := .library "Cannot read properties of undefined (reading 'id')"

inductive VideosRoute where
  | create (dto : CreateVideoDto)
  | findAll (status : Option VideoStatus) (page limit : ℤ)
  | getStatus (id : String)
  | getResult (id : String) (expiresIn : JsNumber)
  | update (id : String) (dto : UpdateVideoDto)
  | remove (id : String)

inductive QueueRoute where
  | getJobStatus (jobId : String)
  | listFailedJobs (page limit : ℤ)
  | retryFailedJob (id : String)
  | getFailedJob (id : String)

inductive UsersRoute where
  | getMe
  | updateMe (dto : UpdateUserDto)
  | findAll
  | findOne (id : String)
  | remove (id : String)

inductive AuthRoute where
  | register (dto : RegisterDto)
  | login
  | refreshToken (token : String)
  | getProfile
  | logout

inductive Route where
  | videos (route : VideosRoute)
  | queue (route : QueueRoute)
  | users (route : UsersRoute)
  | auth (route : AuthRoute)
  | health

section Methods

variable (extractS3Key : String → String) (config : JwtConfig) (user : Option SafeUser)

def VideosRoute.method : VideosRoute → Method
  | .create dto => .stores do
      let id ← userId noUser user
      VideoResponseDto.from <$> createAndQueue id dto
  | .findAll _ _ _ => .query
  | .getStatus id => .stores do
      let userId ← userId noUser user
      VideoStatusResponseDto.from <$> findOneForUser id userId
  | .getResult id expiresIn => .stores do
      let userId ← userId noUser user
      getVideoResult extractS3Key id userId expiresIn
  | .update id dto => .stores do
      let userId ← userId noUser user
      VideoResponseDto.from <$> VideoGen.update id userId dto
  | .remove id => .stores do
      let userId ← userId noUser user
      VideoGen.remove id userId

def QueueRoute.method : QueueRoute → Method
  | .getJobStatus _ => .query
  | .listFailedJobs _ _ => .query
  | .retryFailedJob id => .stores (VideoGen.retryFailedJob id)
  | .getFailedJob id => .stores (VideoGen.getFailedJob id)

def UsersRoute.method : UsersRoute → Method
  | .getMe => .accounts do
      let id ← userId noAccount user
      UsersService.findById id
  | .updateMe dto => .accounts do
      let id ← userId noAccount user
      UsersService.update id dto
  | .findAll => .query
  | .findOne id => .accounts (UsersService.findById id)
  | .remove id => .accounts (UsersService.remove id)

/-- `login` gets the user that the local strategy has found. -/
def AuthRoute.method : AuthRoute → Method
  | .register dto => .accounts (AuthService.register config dto)
  | .login => .accounts do
      match user with
      | some user => AuthService.generateTokens config user
      | none => fail noAccount
  | .refreshToken token => .accounts (AuthService.refreshToken config token)
  | .getProfile => .query
  | .logout => .query

def Route.method : Route → Method
  | .videos route => route.method extractS3Key user
  | .queue route => route.method
  | .users route => route.method user
  | .auth route => route.method config user
  | .health => .query

end Methods

/-! ## Guards -/

inductive Guard where
  | throttler
  | jwt
  | local
  | roles
  deriving DecidableEq, Repr

namespace Route

/-- `@Public()` -/
def IsPublic : Route → Bool
  | .auth (.register _) => true
  | .auth .login => true
  | .auth (.refreshToken _) => true
  | .health => true
  | _ => false

/-- `@Roles(...)` -/
def requiredRoles : Route → Option (List UserRole)
  | .users .findAll => some [.admin]
  | .users (.findOne _) => some [.admin]
  | .users (.remove _) => some [.admin]
  | _ => none

def SkipThrottle : Route → Bool
  | .health => true
  | _ => false

/-- `@UseGuards(...)` of the method; no controller has any. -/
def useGuards : Route → List Guard
  | .auth .login => [.local]
  | .users .findAll => [.roles]
  | .users (.findOne _) => [.roles]
  | .users (.remove _) => [.roles]
  | _ => []

end Route

/-- The guards that `AppModule` provides as `APP_GUARD`. -/
def appGuards : List Guard := [.throttler]

/-- A request as the guards see it; whether the throttler lets it pass depends on the
requests before it. -/
structure Request where
  route : Route
  bearer : Option String
  credentials : Option (String × String)
  throttled : Bool

section Guards

variable (config : JwtConfig) (request : Request)

/-- A guard rejects the request by throwing, or returns `request.user`. -/
def Guard.canActivate : Guard → Option SafeUser → AccountProg (Option SafeUser)
  | .throttler, user =>
      if request.throttled ∧ request.route.SkipThrottle = false then
        fail (.library "ThrottlerException: Too Many Requests")
      else pure user
  | .jwt, user =>
      if request.route.IsPublic then pure user
      else some <$> JwtStrategy.authenticate config request.bearer
  | .local, _ =>
      match request.credentials with
      | none => fail (.unauthorized "Unauthorized")
      | some (email, password) =>
          (fun user ↦ some user.toSafeUser) <$> AuthService.validateUser email password
  | .roles, user =>
      match request.route.requiredRoles with
      | none => pure user
      | some required =>
          if required.any fun role ↦ user.map SafeUser.role = some role then pure user
          else fail (.library "Forbidden resource")

def runGuards : List Guard → Option SafeUser → AccountProg (Option SafeUser)
  | [], user => pure user
  | guard :: guards, user => do
      let user ← guard.canActivate config request user
      runGuards guards user

def enter : AccountProg (Option SafeUser) :=
  runGuards config request (appGuards ++ request.route.useGuards) none

end Guards

end VideoGen
