import VideoGen.AccountAccess
import VideoGen.Controllers
import VideoGen.RetryCalls

/-!
# What the guards cover

`AppModule` registers only the throttler, so no request is ever authenticated:
a method that is not public is entered without a user, unless it asks for a
role, and then nobody enters it.
-/

namespace VideoGen

structure Api where
  world : World
  accounts : AuthState

/-- A request and how its calls are settled: those of the guards, those of the method to
the stores and those of the method to the accounts. -/
structure ServedRequest where
  request : Request
  guardOutcomes : List Outcome
  fates : List Fate
  outcomes : List Outcome

inductive ApiStep where
  | serve (r : ServedRequest)
  | tick (ms : ℕ)

namespace Api

/-- `onDelete: 'CASCADE'` of the owner of a video. -/
def cascade (s : Api) (users : UserStore) : Api :=
  { s with world := { s.world with videos := s.world.videos.filter fun r ↦
      (users.find? r.userId).isNone || (s.accounts.users.find? r.userId).isSome } }

section System

variable (lib : Libraries) (config : JwtConfig) (extractS3Key : String → String)

def run (s : Api) : Method → List Fate → List Outcome → Option Api
  | .stores body, fates, [] =>
      (body.evalAll World.exec s.world fates).map fun p ↦ { s with world := p.1 }
  | .accounts body, [], outcomes =>
      (body.evalAll (AuthState.exec lib) s.accounts outcomes).map fun p ↦
        cascade { s with accounts := p.1 } s.accounts.users
  | .query, [], [] => some s
  | _, _, _ => none

/-- The guards run, then, when none of them rejects the request, the method. -/
def step (s : Api) : ApiStep → Option Api
  | .serve r =>
      match (enter config r.request).evalAll (AuthState.exec lib) s.accounts r.guardOutcomes with
      | some (accounts, .ok user) =>
          run lib { s with accounts := accounts }
            (r.request.route.method extractS3Key config user) r.fates r.outcomes
      | some (accounts, .error _) => some { s with accounts := accounts }
      | none => none
  | .tick ms =>
      some { world := { s.world with now := s.world.now + ms }
             accounts := { s.accounts with now := s.accounts.now + ms } }

def Enters (s : Api) (r : Request) (user : Option SafeUser) : Prop :=
  ∃ accounts, s.accounts.Returns lib (enter config r) accounts user

/-- The bearer token is verified and `JwtStrategy.validate` returns this active user. -/
def Authenticated (s : Api) (bearer : Option String) (user : SafeUser) : Prop :=
  user.isActive = true ∧
    ∃ accounts, s.accounts.Returns lib (JwtStrategy.authenticate config bearer) accounts user

def HasToken (s : Api) (bearer : Option String) : Prop :=
  ∃ token p, bearer = some token ∧ s.accounts.verify lib config.secret token = some p

/-- A method that is not public is entered with the authenticated user only, and one that
asks for the role of an administrator exactly by administrators. -/
structure Covered (s : Api) (r : Request) : Prop where
  user : r.route.IsPublic = false → ∀ user, s.Enters lib config r user →
    ∃ u, s.Authenticated lib config r.bearer u ∧ user = some u
  admin : r.route.requiredRoles = some [.admin] → r.throttled = false →
    ((∃ user, s.Enters lib config r user) ↔
      ∃ u, s.Authenticated lib config r.bearer u ∧ u.role = .admin)

/-- The method is public, the throttler rejects the request, or the method asks for an
administrator and the bearer is not one. -/
def Spared (s : Api) (r : Request) : Prop :=
  r.route.IsPublic = true ∨ r.throttled = true ∨
    r.route.requiredRoles = some [.admin] ∧
      ¬∃ u, s.Authenticated lib config r.bearer u ∧ u.role = .admin

end System

structure SameStores (s s' : Api) : Prop where
  videos : s'.world.videos = s.world.videos
  failedJobs : s'.world.failedJobs = s.world.failedJobs
  queue : s'.world.queue = s.world.queue
  users : s'.accounts.users = s.accounts.users

end Api

def Route.IsPublicAuth : Route → Bool
  | .auth route => Route.IsPublic (.auth route)
  | _ => false

/-! ## The guards of a request -/

section Guards

variable {config : JwtConfig} {r : Request}

theorem useGuards_of_not_public (h : r.route.IsPublicAuth = false) :
    r.route.useGuards = [] ∧ r.route.requiredRoles = none ∨
      r.route.useGuards = [.roles] ∧ r.route.requiredRoles = some [.admin] := by
  cases hroute : r.route with
  | users route => cases route <;> simp [Route.useGuards, Route.requiredRoles]
  | auth route =>
      rw [hroute] at h
      cases route <;> simp_all [Route.useGuards, Route.requiredRoles, Route.IsPublicAuth,
        Route.IsPublic]
  | _ => simp [Route.useGuards, Route.requiredRoles]

/-- Only the throttler stands in front of a method that asks for no role; one that asks for a
role rejects everybody. -/
theorem enter_eq (h : r.route.IsPublicAuth = false) : enter config r =
    if r.throttled ∧ r.route.SkipThrottle = false then
      fail (.library "ThrottlerException: Too Many Requests")
    else if r.route.requiredRoles = none then pure none
    else fail (.library "Forbidden resource") := by
  by_cases hthrottled : r.throttled ∧ r.route.SkipThrottle = false
  · rw [if_pos hthrottled]
    simp only [enter, appGuards, List.cons_append, runGuards, Guard.canActivate, if_pos hthrottled]
    rfl
  · rw [if_neg hthrottled]
    rcases useGuards_of_not_public h with ⟨hguards, hroles⟩ | ⟨hguards, hroles⟩
    · rw [if_pos hroles]
      simp only [enter, appGuards, hguards, List.append_nil, runGuards, Guard.canActivate,
        if_neg hthrottled]
      rfl
    · rw [if_neg (by simp [hroles])]
      simp only [enter, appGuards, hguards, List.cons_append, List.nil_append, runGuards,
        Guard.canActivate, if_neg hthrottled]
      change Guard.canActivate config r .roles none >>= _ = _
      simp only [Guard.canActivate, hroles]
      rfl

theorem isPublicAuth_of_not_public (h : r.route.IsPublic = false) :
    r.route.IsPublicAuth = false := by
  cases hroute : r.route <;> simp_all [Route.IsPublicAuth]

theorem not_skipThrottle (h : r.route.IsPublic = false) : r.route.SkipThrottle = false := by
  cases hroute : r.route <;> simp_all [Route.SkipThrottle, Route.IsPublic]

end Guards

namespace Api

variable {lib : Libraries} {config : JwtConfig} {extractS3Key : String → String} {s s' : Api}
  {r : Request}

theorem enters_iff (h : r.route.IsPublic = false) {user : Option SafeUser} :
    s.Enters lib config r user ↔
      r.throttled = false ∧ r.route.requiredRoles = none ∧ user = none := by
  unfold Enters AuthState.Returns
  rw [enter_eq (isPublicAuth_of_not_public h)]
  simp only [not_skipThrottle h, and_true]
  cases r.throttled with
  | true =>
      constructor
      · rintro ⟨accounts, ts, heval⟩
        cases heval
      · rintro ⟨hthrottled, -⟩
        cases hthrottled
  | false =>
      by_cases hroles : r.route.requiredRoles = none
      · simp only [Bool.false_eq_true, if_false, if_pos hroles]
        constructor
        · rintro ⟨accounts, ts, heval⟩
          cases heval
          exact ⟨trivial, hroles, rfl⟩
        · rintro ⟨-, -, rfl⟩
          exact ⟨_, _, .done _ _⟩
      · simp only [Bool.false_eq_true, if_false, if_neg hroles]
        constructor
        · rintro ⟨accounts, ts, heval⟩
          cases heval
        · rintro ⟨-, hnone, -⟩
          exact absurd hnone hroles

theorem covered_iff_spared : s.Covered lib config r ↔ s.Spared lib config r := by
  by_cases hpublic : r.route.IsPublic = true
  · refine iff_of_true ⟨fun h ↦ ?_, fun h ↦ ?_⟩ (.inl hpublic)
    · rw [hpublic] at h
      cases h
    · cases hroute : r.route <;> simp_all [Route.requiredRoles, Route.IsPublic]
  · have hpublic : r.route.IsPublic = false := by simpa using hpublic
    constructor
    · rintro ⟨huser, hadmin⟩
      cases hthrottled : r.throttled with
      | true => exact .inr (.inl hthrottled)
      | false =>
          rcases useGuards_of_not_public (isPublicAuth_of_not_public hpublic) with
            ⟨-, hroles⟩ | ⟨-, hroles⟩
          · obtain ⟨u, -, hu⟩ := huser hpublic none
              ((enters_iff hpublic).mpr ⟨hthrottled, hroles, rfl⟩)
            cases hu
          · refine .inr (.inr ⟨hroles, fun h ↦ ?_⟩)
            obtain ⟨user, henters⟩ := (hadmin hroles hthrottled).mpr h
            rw [((enters_iff hpublic).mp henters).2.1] at hroles
            cases hroles
    · intro hspared
      constructor
      · intro _ user henters
        obtain ⟨hthrottled, hroles, -⟩ := (enters_iff hpublic).mp henters
        rcases hspared with h | h | ⟨h, -⟩
        · rw [hpublic] at h
          cases h
        · rw [hthrottled] at h
          cases h
        · rw [hroles] at h
          cases h
      · intro hroles hthrottled
        refine iff_of_false ?_ ?_
        · rintro ⟨user, henters⟩
          rw [((enters_iff hpublic).mp henters).2.1] at hroles
          cases hroles
        · rcases hspared with h | h | ⟨-, h⟩
          · rw [hpublic] at h
            cases h
          · rw [hthrottled] at h
            cases h
          · exact h

theorem serve_cases {a : ServedRequest}
    (h : s.step lib config extractS3Key (.serve a) = some s') :
    ∃ accounts r ts, (enter config a.request).Evaluates (AuthState.exec lib) s.accounts ts r
        accounts ∧
      ((∃ user, r = .ok user ∧ run lib { s with accounts := accounts }
          (a.request.route.method extractS3Key config user) a.fates a.outcomes = some s') ∨
        ∃ e, r = .error e ∧ s' = { s with accounts := accounts }) := by
  unfold step at h
  simp only at h
  split at h
  · rename_i accounts user heval
    obtain ⟨ts, heval, -⟩ := Program.evaluates_of_evalAll heval
    exact ⟨accounts, _, ts, heval, .inl ⟨user, rfl, h⟩⟩
  · rename_i accounts e heval
    obtain ⟨ts, heval, -⟩ := Program.evaluates_of_evalAll heval
    exact ⟨accounts, _, ts, heval, .inr ⟨e, rfl, (Option.some.inj h).symm⟩⟩
  · cases h

theorem run_query {fates : List Fate} {outcomes : List Outcome}
    (h : s.run lib .query fates outcomes = some s') : s' = s := by
  cases fates with
  | cons f fs => cases h
  | nil =>
      cases outcomes with
      | cons o os => cases h
      | nil => exact (Option.some.inj h).symm

theorem eq_of_spared {a : ServedRequest}
    (hstep : s.step lib config extractS3Key (.serve a) = some s')
    (hauth : a.request.route.IsPublicAuth = false) (h : s.Spared lib config a.request) :
    s' = s := by
  obtain ⟨accounts, r, ts, heval, hr⟩ := serve_cases hstep
  rw [enter_eq hauth] at heval
  have hdone : accounts = s.accounts := by
    split at heval
    · exact (Program.evaluates_done_iff.mp heval).2.2
    · split at heval <;> exact (Program.evaluates_done_iff.mp heval).2.2
  rw [hdone] at hr heval
  rcases hr with ⟨user, rfl, hrun⟩ | ⟨e, -, rfl⟩
  · cases hroute : a.request.route.IsPublic with
    | true =>
        have hhealth : a.request.route = .health := by
          cases hr : a.request.route <;> simp_all [Route.IsPublicAuth, Route.IsPublic]
        rw [hhealth] at hrun
        exact run_query hrun
    | false =>
        rw [← enter_eq hauth] at heval
        have henters : s.Enters lib config a.request user := ⟨_, ts, heval⟩
        obtain ⟨hthrottled, hroles, -⟩ := (enters_iff hroute).mp henters
        rcases h with h | h | ⟨h, -⟩
        · rw [hroute] at h
          cases h
        · rw [hthrottled] at h
          cases h
        · rw [hroles] at h
          cases h
  · rfl

/-- Every request is covered by the guards, and without a valid token only the public
authentication methods change anything, exactly when every request goes to a public
method, is rejected by the throttler, or asks for an administrator without being one. -/
theorem covered_iff {ts : List (Transition Api ApiStep)}
    (hrun : Run (Api.step lib config extractS3Key) s ts s') :
    ((∀ t ∈ ts, ∀ a, t.act = .serve a → t.before.Covered lib config a.request) ∧
      ∀ t ∈ ts, ∀ a, t.act = .serve a → a.request.route.IsPublicAuth = false →
        ¬t.before.HasToken lib config a.request.bearer → t.before.SameStores t.after) ↔
      ∀ t ∈ ts, ∀ a, t.act = .serve a → t.before.Spared lib config a.request := by
  simp only [covered_iff_spared]
  constructor
  · exact And.left
  · intro h
    refine ⟨h, fun t ht a hact hauth _ ↦ ?_⟩
    have hstep := hrun.step_of_mem ht
    rw [hact] at hstep
    rw [eq_of_spared hstep hauth (h t ht a hact)]
    exact ⟨rfl, rfl, rfl, rfl⟩

end Api

/-! ## Requests without a token -/

def failedApi : Api := ⟨failedWorld, AuthState.empty⟩

def healthRequest : ServedRequest where
  request := ⟨.health, none, none, false⟩
  guardOutcomes := []
  fates := []
  outcomes := []

def retryRequest : ServedRequest where
  request := ⟨.queue (.retryFailedJob "record"), none, none, false⟩
  guardOutcomes := []
  fates := List.replicate 6 (.ok .unit)
  outcomes := []

/-- The health check is public. -/
theorem covered_health : ∃ (ts : List (Transition Api ApiStep)) (s : Api),
    Run (Api.step aliceLibraries aliceConfig id) failedApi ts s ∧
      ts.map Transition.act = [.serve healthRequest] ∧
      ∀ t ∈ ts, ∀ a, t.act = .serve a →
        t.before.Covered aliceLibraries aliceConfig a.request := by
  have hstep : failedApi.step aliceLibraries aliceConfig id (.serve healthRequest) =
      some failedApi := rfl
  have hrun := Run.cons hstep .nil
  refine ⟨_, _, hrun, rfl, ((Api.covered_iff hrun).mpr ?_).1⟩
  intro t ht a hact
  obtain rfl := List.mem_singleton.mp ht
  obtain rfl := ApiStep.serve.inj hact
  exact .inl rfl

/-- Nobody has to log in to retry a failed job: the row is reset, a job is enqueued and the
record is marked. -/
theorem retry_unauthenticated : ∃ (ts : List (Transition Api ApiStep)) (s : Api),
    Run (Api.step aliceLibraries aliceConfig id) failedApi ts s ∧
      ts.map Transition.act = [.serve retryRequest] ∧
      retryRequest.request.bearer = none ∧
      retryRequest.request.route.IsPublic = false ∧
      failedApi.Enters aliceLibraries aliceConfig retryRequest.request none ∧
      ¬failedApi.Covered aliceLibraries aliceConfig retryRequest.request ∧
      failedApi.world.statusOf "video" = some .failed ∧
      s.world.statusOf "video" = some .pending ∧
      failedApi.world.queue.lastId = 0 ∧ s.world.queue.lastId = 1 ∧
      (s.world.failedJobs.find? "record").map FailedJob.retried = some true := by
  obtain ⟨ts, s, hrun, hacts, hobs⟩ := Run.exists_of_follow
    (Api.step aliceLibraries aliceConfig id) failedApi [.serve retryRequest]
    (fun p ↦ decide (p.2.world.statusOf "video" = some .pending ∧ p.2.world.queue.lastId = 1 ∧
      (p.2.world.failedJobs.find? "record").map FailedJob.retried = some true))
    true (by decide +kernel)
  obtain ⟨hstatus, hqueue, hrecord⟩ := of_decide_eq_true hobs
  have henters : failedApi.Enters aliceLibraries aliceConfig retryRequest.request none :=
    (Api.enters_iff rfl).mpr ⟨rfl, rfl, rfl⟩
  refine ⟨ts, s, hrun, hacts, rfl, rfl, henters, fun h ↦ ?_, by decide +kernel, hstatus, rfl,
    hqueue, hrecord⟩
  obtain ⟨u, -, hu⟩ := h.user rfl none henters
  cases hu

end VideoGen
