import VideoGen.AccountAccess
import VideoGen.Lib.Pool

/-!
# Interleaved account requests

Any number of registrations, logins, refreshes, changes, removals and entries go
on at the same time.  A token goes back, through the tokens that it was refreshed
from, to a registration that created its user or to a login with the password of
its user; so nobody is taken for a user who has done neither.
-/

namespace VideoGen

inductive AccountRequest where
  | call (method : AccountMethod)
  | enter (path : EntryPath)

def AccountRequest.credentials? : AccountRequest → Option (String × String)
  | .call (.login email password) => some (email, password)
  | .enter (.login email password) => some (email, password)
  | _ => none

inductive AccountEvent where
  | setActive (id : String) (isActive : Bool)
  | tick (ms : ℕ)

def AuthState.happens (w : AuthState) : AccountEvent → AuthState
  | .setActive id isActive => { w with users := w.users.setActive id isActive }
  | .tick ms => { w with now := w.now + ms }

abbrev AccountLog := List (Exchange accounts)

abbrev AccountThread := Thread accounts AccountRequest (Option String)

abbrev AccountState := Config accounts AccountRequest (Option String) AuthState

abbrev AccountMove := Transition AccountState (Act AccountRequest Outcome AccountEvent)

section Machine

variable (lib : Libraries) (config : JwtConfig)

def AccountRequest.body : AccountRequest → AccountProg (Option String)
  | .call method => (fun _ ↦ none) <$> method.body config
  | .enter path => some <$> path.identity config

def accountApi : Machine accounts AccountRequest (Option String) AuthState Outcome AccountEvent where
  body := AccountRequest.body config
  exec := AuthState.exec lib
  forks _ := []
  env w _ event := some (w.happens event, [])

end Machine

/-! ## What a request knows of an identity -/

/-- The request has created the user, or it has found that the password it gives is the
user's. -/
def Establishes (request : AccountRequest) (log : AccountLog) (id : String) : Prop :=
  (∃ dto user, (⟨.insertUser dto, .ok user⟩ : Exchange accounts) ∈ log ∧ user.id = id) ∨
  ∃ email password user, request.credentials? = some (email, password) ∧ user.id = id ∧
    (⟨.selectUserByEmail email, .ok (some user)⟩ : Exchange accounts) ∈ log ∧
    (⟨.compare password user.password, .ok true⟩ : Exchange accounts) ∈ log

def Presents (log : AccountLog) (id : String) : Prop :=
  ∃ secret token p, (⟨.verify secret token, .ok p⟩ : Exchange accounts) ∈ log ∧ p.sub = id

def Vouched (request : AccountRequest) (log : AccountLog) (id : String) : Prop :=
  Establishes request log id ∨ Presents log id

def AccountCall.Faithful : (c : AccountCall) → Except AccountError c.Reply → Prop
  | .selectUserById id, .ok (some user) => user.id = id
  | _, _ => True

def AccountCall.SignsVouched (s : AccountRequest × AccountLog) : AccountCall → Prop
  | .sign _ _ payload => Vouched s.1 s.2 payload.sub
  | _ => True

def vouching : Protocol accounts (AccountRequest × AccountLog) :=
  Machine.logging AccountCall.SignsVouched AccountCall.Faithful

section Programs

variable {request : AccountRequest} {log log' : AccountLog} {id : String} {config : JwtConfig}
  {α β : Type} {s : AccountRequest × AccountLog}

theorem Establishes.append (h : Establishes request log id) :
    Establishes request (log ++ log') id := by
  rcases h with ⟨dto, user, hmem, hid⟩ | ⟨email, password, user, hgiven, hid, hfound, hequal⟩
  · exact .inl ⟨dto, user, List.mem_append_left _ hmem, hid⟩
  · exact .inr ⟨email, password, user, hgiven, hid, List.mem_append_left _ hfound,
      List.mem_append_left _ hequal⟩

theorem Vouched.append (h : Vouched request log id) : Vouched request (log ++ log') id := by
  rcases h with hest | ⟨secret, token, p, hmem, hid⟩
  · exact .inl hest.append
  · exact .inr ⟨secret, token, p, List.mem_append_left _ hmem, hid⟩

/-- The program conforms and vouches for the identity in what it returns. -/
def Vouches (p : AccountProg α) (identity : α → Option String) (s : AccountRequest × AccountLog) :
    Prop := p.Keeps vouching.spec (fun s' r ↦ ∀ a id, r = .ok a → identity a = some id →
      Vouched s'.1 s'.2 id) s

theorem vouches_bind {p : AccountProg α} {f : α → AccountProg β} {identity : β → Option String}
    (Post : AccountRequest × AccountLog → α → Prop)
    (hp : p.Keeps vouching.spec (fun s' r ↦ ∀ a, r = .ok a → Post s' a) s)
    (hf : ∀ s' a, Post s' a → Vouches (f a) identity s') : Vouches (p >>= f) identity s := by
  refine Program.keeps_bind.mpr (Program.Keeps.mono (fun s' r h ↦ ?_) hp)
  cases r with
  | ok a => exact hf s' a (h a rfl)
  | error e =>
      intro a id heq
      cases heq

theorem keeps_request {c : AccountCall} {Post : AccountRequest × AccountLog → c.Reply → Prop}
    (hallows : c.SignsVouched s)
    (hpost : ∀ x, c.Faithful (.ok x) → Post (s.1, s.2 ++ [⟨c, .ok x⟩]) x) :
    (VideoGen.request c).Keeps vouching.spec (fun s' r ↦ ∀ a, r = .ok a → Post s' a) s := by
  refine Program.keeps_perform.mpr ⟨hallows, ?_⟩
  rintro r s' ⟨hfaithful, rfl⟩ x rfl
  exact hpost x hfaithful

theorem vouches_fail {identity : α → Option String} (e : AccountError) :
    Vouches (fail e : AccountProg α) identity s := by
  intro a id heq
  cases heq

theorem vouches_pure {identity : α → Option String} {a : α}
    (h : ∀ id, identity a = some id → Vouched s.1 s.2 id) :
    Vouches (pure a : AccountProg α) identity s := by
  intro a' id heq hid
  obtain rfl := Except.ok.inj heq
  exact h id hid

theorem vouches_map {p : AccountProg α} {f : α → β} {identity : β → Option String}
    (h : Vouches p (fun a ↦ identity (f a)) s) : Vouches (f <$> p) identity s := by
  refine Program.keeps_map.mpr (Program.Keeps.mono (fun s' r hr ↦ ?_) h)
  intro b id heq hid
  cases r with
  | ok a =>
      obtain rfl := Except.ok.inj heq
      exact hr a id rfl hid
  | error e => cases heq

theorem vouches_catch {p : AccountProg α} {identity : α → Option String} {e : AccountError}
    (h : Vouches p identity s) : Vouches (p.catchWith fun _ ↦ fail e) identity s := by
  refine Program.keeps_catchWith.mpr (Program.Keeps.mono (fun s' r hr ↦ ?_) h)
  cases r with
  | ok a => exact hr
  | error e => exact vouches_fail _

theorem vouches_generateTokens {user : SafeUser} (h : Vouched s.1 s.2 user.id) :
    Vouches (AuthService.generateTokens config user) (fun tokens ↦ some tokens.user.id) s := by
  refine vouches_bind (fun s' _ ↦ Vouched s'.1 s'.2 user.id)
    (keeps_request h fun _ _ ↦ h.append) fun s' _ h' ↦ ?_
  refine vouches_bind (fun s' _ ↦ Vouched s'.1 s'.2 user.id)
    (keeps_request h' fun _ _ ↦ h'.append) fun s'' _ h'' ↦ ?_
  refine vouches_pure fun id hid ↦ ?_
  obtain rfl := Option.some.inj hid
  exact h''

theorem Vouches.bind {p : AccountProg α} {f : α → AccountProg β} {sub : α → String}
    {identity : β → Option String} (hp : Vouches p (fun a ↦ some (sub a)) s)
    (hf : ∀ s' a, Vouched s'.1 s'.2 (sub a) → Vouches (f a) identity s') :
    Vouches (p >>= f) identity s :=
  vouches_bind (fun s' a ↦ Vouched s'.1 s'.2 (sub a))
    (hp.mono fun _ _ h a heq ↦ h a _ heq rfl) hf

theorem vouches_findById (h : Vouched s.1 s.2 id) :
    Vouches (UsersService.findById id) (fun user ↦ some user.id) s := by
  refine vouches_bind (fun s' found ↦ Vouched s'.1 s'.2 id ∧ ∀ user, found = some user →
    user.id = id) (keeps_request trivial fun found hfaithful ↦ ⟨h.append, ?_⟩) fun s' found h' ↦ ?_
  · rintro user rfl
    exact hfaithful
  · cases found with
    | none => exact vouches_fail _
    | some user =>
        refine vouches_pure fun id' hid ↦ ?_
        obtain rfl := Option.some.inj hid
        rw [h'.2 user rfl]
        exact h'.1

theorem vouches_verify (secret token : String) :
    Vouches (VideoGen.request (.verify secret token)) (fun p : JwtPayload ↦ some p.sub) s := by
  refine Program.keeps_perform.mpr ⟨trivial, ?_⟩
  rintro r s' ⟨-, rfl⟩ p id rfl hid
  obtain rfl := Option.some.inj hid
  exact .inr ⟨secret, token, p, List.mem_append_right _ (List.mem_singleton_self _), rfl⟩

theorem vouches_validateUser {email password : String}
    (hgiven : s.1.credentials? = some (email, password)) :
    Vouches (AuthService.validateUser email password) (fun user ↦ some user.id) s := by
  refine vouches_bind (fun s' found ↦ s'.1 = s.1 ∧
    (⟨.selectUserByEmail email, .ok found⟩ : Exchange accounts) ∈ s'.2)
    (keeps_request trivial fun _ _ ↦
      ⟨rfl, List.mem_append_right _ (List.mem_singleton_self _)⟩) ?_
  rintro s' found ⟨hsame, hfound⟩
  cases found with
  | none => exact vouches_fail _
  | some user =>
      refine vouches_bind (fun s'' (valid : Bool) ↦ valid = true → Vouched s''.1 s''.2 user.id)
        (keeps_request trivial ?_) fun s'' valid h ↦ ?_
      · rintro valid - rfl
        exact .inl (.inr ⟨email, password, user, hsame ▸ hgiven, rfl,
          List.mem_append_left _ hfound, List.mem_append_right _ (List.mem_singleton_self _)⟩)
      · cases valid with
        | false => exact vouches_fail _
        | true =>
            refine vouches_pure fun id hid ↦ ?_
            obtain rfl := Option.some.inj hid
            exact h rfl

theorem vouches_register (dto : RegisterDto) :
    Vouches (AuthService.register config dto) (fun tokens ↦ some tokens.user.id) s := by
  refine vouches_bind (fun _ _ ↦ True) (keeps_request trivial fun _ _ ↦ trivial)
    fun s₁ found _ ↦ ?_
  cases found with
  | some user => exact vouches_fail _
  | none =>
      refine vouches_bind (fun _ _ ↦ True) (keeps_request trivial fun _ _ ↦ trivial)
        fun s₂ hash _ ↦ ?_
      refine vouches_bind (fun s' user ↦ Vouched s'.1 s'.2 user.id)
        (keeps_request trivial fun user _ ↦ .inl (.inl ⟨_, user,
          List.mem_append_right _ (List.mem_singleton_self _), rfl⟩)) fun s₃ user h ↦ ?_
      exact vouches_generateTokens h

theorem vouches_refreshToken (token : String) :
    Vouches (AuthService.refreshToken config token) (fun tokens ↦ some tokens.user.id) s := by
  refine vouches_catch ?_
  refine (vouches_verify config.refreshSecret token).bind fun s₁ p hp ↦ ?_
  exact (vouches_findById hp).bind fun s₂ user huser ↦ vouches_generateTokens huser

theorem vouches_login {email password : String}
    (hgiven : s.1.credentials? = some (email, password)) {f : Tokens → AccountProg β}
    {identity : β → Option String} (hf : ∀ s' tokens, Vouched s'.1 s'.2 tokens.user.id →
      Vouches (f tokens) identity s') :
    Vouches (do
      let user ← AuthService.validateUser email password
      let tokens ← AuthService.login config user
      f tokens) identity s := by
  refine (vouches_validateUser hgiven).bind fun s' user huser ↦ ?_
  have hsafe : Vouched s'.1 s'.2 user.toSafeUser.id := huser
  exact (vouches_generateTokens hsafe).bind hf

theorem vouches_path (path : EntryPath) (hgiven : ∀ email password,
    path = .login email password → s.1.credentials? = some (email, password)) :
    Vouches (path.identity config) some s := by
  cases path with
  | login email password =>
      refine vouches_login (hgiven email password rfl) fun s' tokens htokens ↦ ?_
      refine vouches_pure fun id hid ↦ ?_
      obtain rfl := Option.some.inj hid
      exact htokens
  | refresh token => exact vouches_map (vouches_refreshToken token)
  | http token =>
      refine vouches_map ?_
      refine (vouches_verify config.secret token).bind fun s₁ p hp ↦ ?_
      refine (vouches_findById hp).bind fun s₂ user huser ↦ ?_
      split
      · refine vouches_pure fun id hid ↦ ?_
        obtain rfl := Option.some.inj hid
        exact huser
      · exact vouches_fail _
  | chat token =>
      refine vouches_map ?_
      change Vouches (if token = "" then _ else _) _ s
      split
      · exact vouches_fail _
      · exact vouches_catch (vouches_verify config.secret token)

def AccountCall.Silent (c : AccountCall) : Prop := ∀ s, c.SignsVouched s

theorem calls_findById : (UsersService.findById id).Calls AccountCall.Silent := by
  refine (Program.calls_perform fun _ ↦ trivial).bind fun found ↦ ?_
  cases found <;> trivial

theorem vouches_silent {p : AccountProg α} (h : p.Calls AccountCall.Silent) :
    Vouches p (fun _ ↦ none) s := by
  refine Program.Keeps.mono (fun s r _ a id heq hid ↦ ?_)
    (h.keeps_anywhere (P := vouching) (fun s c hc ↦ hc s) s)
  cases hid

theorem vouches_body (q : AccountRequest) : Vouches (q.body config) (fun id ↦ id) (q, []) := by
  cases q with
  | enter path =>
      refine vouches_map (vouches_path path fun email password hlogin ↦ ?_)
      rw [hlogin]
      rfl
  | call method =>
      have hnothing {s : AccountRequest × AccountLog} {p : AccountProg Unit}
          (h : Vouches p (fun _ ↦ none) s) :
          Vouches ((fun _ ↦ none) <$> p) (fun id : Option String ↦ id) s := vouches_map h
      refine hnothing ?_
      cases method with
      | register dto =>
          refine vouches_map (Program.Keeps.mono (fun s' r h a id heq hid ↦ ?_)
            (vouches_register dto))
          cases hid
      | login email password =>
          refine vouches_login rfl fun s' tokens _ ↦ ?_
          exact vouches_pure fun id hid ↦ nomatch hid
      | refreshToken token =>
          refine vouches_map (Program.Keeps.mono (fun s' r h a id heq hid ↦ ?_)
            (vouches_refreshToken token))
          cases hid
      | update id dto =>
          refine vouches_silent (Program.Calls.map ?_ _)
          exact (Program.calls_perform fun _ ↦ trivial).bind fun _ ↦ calls_findById
      | remove id =>
          refine vouches_silent ?_
          exact calls_findById.bind fun user ↦ Program.calls_perform fun _ ↦ trivial

end Programs

/-! ## Runs -/

section Runs

variable {lib : Libraries} {config : JwtConfig} {s s' : AccountState} {id : String}
  {a : Act AccountRequest Outcome AccountEvent}

theorem faithful_of_exec {w w' : AuthState} {c : AccountCall} {o : Outcome}
    {r : Except AccountError c.Reply} (h : w.exec lib c o = some (w', r)) : c.Faithful r := by
  cases r with
  | error e => cases c <;> trivial
  | ok x =>
      cases c with
      | selectUserById id =>
          cases o with
          | ok fresh =>
              obtain ⟨-, hx⟩ := Prod.mk.inj (Option.some.inj h)
              cases x with
              | none => trivial
              | some user =>
                  obtain ⟨u, hu, rfl⟩ := Option.map_eq_some_iff.mp (Except.ok.inj hx)
                  exact UserStore.key_of_find? hu
          | rejected message => cases h
          | lost fresh message => cases h
      | _ => trivial

def AnswersVouched (s : AccountRequest × AccountLog) (r : Except AccountError (Option String)) :
    Prop := ∀ a id, r = .ok a → a = some id → Vouched s.1 s.2 id

def Conformant (s : AccountState) : Prop :=
  ∀ t ∈ s.threads, Machine.Conforms vouching (fun q ↦ (q, [])) AnswersVouched t

theorem conformant_of_run {w : AuthState} {ts : List AccountMove}
    (hrun : Run (accountApi lib config).step ⟨w, []⟩ ts s) : Conformant s :=
  Machine.run_conforms (M := accountApi lib config) vouching (fun q ↦ (q, [])) AnswersVouched
    (fun q ↦ vouches_body q) (fun _ _ _ _ _ h ↦ faithful_of_exec h) hrun (by simp)

theorem stage_vouching (t : AccountThread) :
    Machine.stage vouching (fun q ↦ (q, [])) t = (t.task, t.log) := Machine.stage_logging t

/-- Some request has created the user or has given its password. -/
def Established (s : AccountState) (id : String) : Prop :=
  ∃ t ∈ s.threads, Establishes t.task t.log id

/-- What tokens have been issued and presented for. -/
structure Rooted (lib : Libraries) (s : AccountState) : Prop where
  issued : ∀ token ∈ s.state.issued, ∃ secret expiresIn now p,
    token = lib.sign secret expiresIn now p ∧ Established s p.sub
  presented : ∀ t ∈ s.threads, ∀ secret token p,
    (⟨.verify secret token, .ok p⟩ : Exchange accounts) ∈ t.log → Established s p.sub

theorem Established.step (h : Established s id)
    (hstep : (accountApi lib config).step s a = some s') : Established s' id := by
  obtain ⟨t, ht, hest⟩ := h
  obtain ⟨i, hi⟩ := List.getElem?_of_mem ht
  obtain ⟨u, hu, ⟨rfl | ⟨-, rfl⟩⟩ | ⟨o, c, next, r, -, -, -, hcalled⟩⟩ :=
    Machine.called_or_kept hstep hi
  · exact ⟨u, List.mem_of_getElem? hu, hest⟩
  · exact ⟨_, List.mem_of_getElem? hu, hest⟩
  · refine ⟨u, List.mem_of_getElem? hu, ?_⟩
    rw [hcalled.task_eq, hcalled.log_eq]
    exact hest.append

theorem Rooted.established (h : Rooted lib s) {t : AccountThread} (ht : t ∈ s.threads)
    (hvouched : Vouched t.task t.log id) : Established s id := by
  rcases hvouched with hest | ⟨secret, token, p, hmem, rfl⟩
  · exact ⟨t, ht, hest⟩
  · exact h.presented t ht secret token p hmem

theorem issued_cases {w w' : AuthState} {c : AccountCall} {o : Outcome}
    {r : Except AccountError c.Reply} (h : w.exec lib c o = some (w', r)) :
    w'.issued = w.issued ∨ ∃ secret expiresIn p, c = .sign secret expiresIn p ∧
      w'.issued = w.issued ++ [lib.sign secret expiresIn w.now p] := by
  have hanswer (fresh : String) : (w.answer lib c fresh).1.issued = w.issued ∨
      ∃ secret expiresIn p, c = .sign secret expiresIn p ∧ (w.answer lib c fresh).1.issued =
        w.issued ++ [lib.sign secret expiresIn w.now p] := by
    cases c with
    | sign secret expiresIn p => exact .inr ⟨secret, expiresIn, p, rfl, rfl⟩
    | insertUser dto =>
        left
        simp only [AuthState.answer]
        split <;> rfl
    | updateUser id dto =>
        left
        simp only [AuthState.answer]
        split <;> rfl
    | verify secret token =>
        left
        simp only [AuthState.answer]
        split <;> rfl
    | _ => exact .inl rfl
  cases o with
  | ok fresh =>
      obtain ⟨rfl, -⟩ := Prod.mk.inj (Option.some.inj h)
      exact hanswer fresh
  | rejected message =>
      obtain ⟨-, heq⟩ := Option.ite_none_right_eq_some.mp h
      obtain ⟨rfl, -⟩ := Prod.mk.inj (Option.some.inj heq)
      exact .inl rfl
  | lost fresh message =>
      obtain ⟨-, heq⟩ := Option.ite_none_right_eq_some.mp h
      obtain ⟨rfl, -⟩ := Prod.mk.inj (Option.some.inj heq)
      exact hanswer fresh

theorem verify_of_exec {w w' : AuthState} {secret token : String} {o : Outcome} {p : JwtPayload}
    (h : w.exec lib (.verify secret token) o = some (w', .ok p)) :
    w.verify lib secret token = some p := by
  cases o with
  | ok fresh =>
      have hreply := (Prod.mk.inj (Option.some.inj h)).2
      cases hverify : w.verify lib secret token with
      | none =>
          simp [hverify] at hreply
      | some p' =>
          simpa [AuthState.answer, hverify] using hreply
  | rejected message => cases h
  | lost fresh message => cases h

theorem Rooted.verified (h : Rooted lib s) {secret token : String} {p : JwtPayload}
    (hverify : s.state.verify lib secret token = some p) : Established s p.sub := by
  obtain ⟨hissued, hvalid⟩ := Option.ite_none_right_eq_some.mp hverify
  obtain ⟨secret', expiresIn, now, p', rfl, hroot⟩ := h.issued token hissued
  obtain rfl := lib.verify_sign secret' secret expiresIn now s.state.now p' p hvalid
  exact hroot

theorem Rooted.step (h : Rooted lib s) (hs : Conformant s)
    (hstep : (accountApi lib config).step s a = some s') : Rooted lib s' := by
  have hissued (hsame : s'.state.issued = s.state.issued) : ∀ token ∈ s'.state.issued,
      ∃ secret expiresIn now p, token = lib.sign secret expiresIn now p ∧
        Established s' p.sub := by
    intro token htoken
    rw [hsame] at htoken
    obtain ⟨secret, expiresIn, now, p, hsign, hroot⟩ := h.issued token htoken
    exact ⟨secret, expiresIn, now, p, hsign, hroot.step hstep⟩
  have hpresented {u : AccountThread} (hu : ∃ t ∈ s.threads, u.log = t.log) :
      ∀ secret token p, (⟨.verify secret token, .ok p⟩ : Exchange accounts) ∈ u.log →
        Established s' p.sub := by
    obtain ⟨t, ht, hlog⟩ := hu
    intro secret token p hmem
    rw [hlog] at hmem
    exact (h.presented t ht secret token p hmem).step hstep
  have hkept (hold : ∀ u ∈ s'.threads, (∃ t ∈ s.threads, u.log = t.log) ∨ u.log = []) :
      ∀ u ∈ s'.threads, ∀ secret token p,
        (⟨.verify secret token, .ok p⟩ : Exchange accounts) ∈ u.log → Established s' p.sub := by
    intro u hu secret token p hmem
    rcases hold u hu with hold | hnew
    · exact hpresented hold secret token p hmem
    · rw [hnew] at hmem
      cases hmem
  cases a with
  | invoke q =>
      obtain rfl := Option.some.inj hstep
      refine ⟨hissued rfl, hkept fun u hu ↦ ?_⟩
      rcases List.mem_append.mp hu with hu | hu
      · exact .inl ⟨u, hu, rfl⟩
      · obtain rfl := List.mem_singleton.mp hu
        exact .inr rfl
  | crash i =>
      obtain ⟨t, ht, rfl⟩ := (accountApi lib config).step_crash_cases hstep
      refine ⟨hissued rfl, hkept fun u hu ↦ ?_⟩
      rcases List.mem_or_eq_of_mem_set hu with hu | rfl
      · exact .inl ⟨u, hu, rfl⟩
      · exact .inl ⟨t, List.mem_of_getElem? ht, rfl⟩
  | env event =>
      obtain ⟨w, tasks, henv, rfl⟩ := (accountApi lib config).step_env_cases hstep
      obtain ⟨rfl, rfl⟩ := Prod.mk.inj (Option.some.inj henv)
      refine ⟨hissued (by cases event <;> rfl), hkept fun u hu ↦ .inl ⟨u, ?_, rfl⟩⟩
      simpa using hu
  | call i o =>
      obtain ⟨t, c, next, r, hprog, hcalled⟩ := Machine.called_of_step hstep
      have ht := List.mem_of_getElem? hcalled.get
      constructor
      · rcases issued_cases hcalled.exec with hsame | ⟨secret, expiresIn, p, rfl, hnew⟩
        · exact hissued hsame
        · have hallows := (hs t ht).allows vouching (fun q ↦ (q, [])) AnswersVouched hprog
          rw [stage_vouching] at hallows
          have hvouched : Vouched t.task t.log p.sub := hallows
          intro token htoken
          rw [hnew] at htoken
          rcases List.mem_append.mp htoken with hold | htoken
          · obtain ⟨secret', expiresIn', now, p', hsign, hroot⟩ := h.issued token hold
            exact ⟨secret', expiresIn', now, p', hsign, hroot.step hstep⟩
          · obtain rfl := List.mem_singleton.mp htoken
            exact ⟨secret, expiresIn, _, p, rfl, (h.established ht hvouched).step hstep⟩
      · intro u hu secret token p hmem
        obtain ⟨j, hj⟩ := List.getElem?_of_mem hu
        rcases hcalled.get_cases hj with ⟨rfl, rfl⟩ | ⟨-, hj⟩ | ⟨-, task, hforks, -⟩
        · rw [hcalled.log_eq] at hmem
          rcases List.mem_append.mp hmem with hold | hnew
          · exact (h.presented t ht secret token p hold).step hstep
          · obtain ⟨rfl, hr⟩ := Sigma.mk.inj (List.mem_singleton.mp hnew)
            obtain rfl := eq_of_heq hr
            exact (h.verified (verify_of_exec hcalled.exec)).step hstep
        · exact (h.presented u (List.mem_of_getElem? hj) secret token p hmem).step hstep
        · cases hforks

end Runs

/-- In every run of interleaved account requests over any users, no tokens having been issued
before it, and however the calls are settled: a valid token, and every entry that is accepted,
is of a user whom some request of the run has created by registration or whose password some
request of the run has given.  This holds whatever tokens are refreshed from whatever tokens. -/
theorem identities_established {lib : Libraries} {config : JwtConfig} {w : AuthState}
    {ts : List AccountMove} {s : AccountState}
    (hrun : Run (accountApi lib config).step ⟨w, []⟩ ts s) (hissued : w.issued = []) :
    (∀ secret token p, s.state.verify lib secret token = some p → Established s p.sub) ∧
    ∀ t ∈ s.threads, ∀ id, t.prog = .done (.ok (some id)) → Established s id := by
  suffices hrooted : Rooted lib s by
    refine ⟨fun secret token p ↦ hrooted.verified, fun t ht id hdone ↦ ?_⟩
    have hpost := (conformant_of_run hrun t ht).post vouching (fun q ↦ (q, [])) AnswersVouched
      hdone
    rw [stage_vouching] at hpost
    exact hrooted.established ht (hpost (some id) id rfl rfl)
  induction hrun with
  | nil => exact ⟨by simp [hissued], by simp⟩
  | snoc a head last ih => exact ih.step (conformant_of_run head) last

/-! ### An entry with a refreshed token -/

def aliceAccounts : AuthState where
  now := 0
  users := (UserStore.empty.insert? (User.create "alice"
    { firstName := "Alice", lastName := "A", email := "alice@example.com"
      password := "hash:password" } 0)).getD UserStore.empty
  issued := []

def answers (i n : ℕ) : List (Act AccountRequest Outcome AccountEvent) :=
  List.replicate n (.call i (.ok ""))

def refreshedActs : List (Act AccountRequest Outcome AccountEvent) :=
  [.invoke (.enter (.login "alice@example.com" "password"))] ++ answers 0 4 ++
    [.invoke (.call (.refreshToken "refresh-secret:alice"))] ++ answers 1 4 ++
    [.invoke (.enter (.chat "secret:alice"))] ++ answers 2 1

def accepted? (t : AccountThread) : Option String :=
  match t.prog with
  | .done (.ok id) => id
  | _ => none

theorem of_accepted? {t : AccountThread} {id : String} (h : accepted? t = some id) :
    t.prog = .done (.ok (some id)) := by
  unfold accepted? at h
  split at h
  · rename_i hdone
    rw [hdone, h]
  · cases h

theorem identities_established_refreshed : ∃ (ts : List AccountMove) (s : AccountState),
    Run (accountApi aliceLibraries aliceConfig).step ⟨aliceAccounts, []⟩ ts s ∧
      (∃ t ∈ s.threads, t.prog = .done (.ok (some "alice"))) ∧ Established s "alice" := by
  obtain ⟨ts, s, hrun, -, hobs⟩ := Run.exists_of_follow
    (accountApi aliceLibraries aliceConfig).step ⟨aliceAccounts, []⟩ refreshedActs
    (fun p ↦ p.2.threads[2]?.bind accepted?) (some "alice") (by decide +kernel)
  obtain ⟨t, hget, haccepted⟩ := Option.bind_eq_some_iff.mp hobs
  have ht := List.mem_of_getElem? hget
  have hdone := of_accepted? haccepted
  exact ⟨ts, s, hrun, ⟨t, ht, hdone⟩, (identities_established hrun rfl).2 t ht "alice" hdone⟩

end VideoGen
