import VideoGen.AccountAccess
import VideoGen.Lib.Pool

/-!
# Concurrent registrations

Any number of `register` calls run over one `users` table.  The table keeps
e-mails and user names unique, and a call whose lookup finds the e-mail is
refused with a conflict.  What the insertion violates was not looked up, or was
looked up too early, and is the error of the database.
-/

namespace VideoGen

/-! ## The table -/

namespace UserStore

variable {s s' : UserStore} {u v : User} {name : String}

theorem eq_of_email (hu : u ∈ s.rows.rows) (hv : v ∈ s.rows.rows) (h : u.email = v.email) :
    u = v :=
  List.inj_on_of_nodup_map s.emails hu hv h

theorem eq_of_username (hu : u ∈ s.rows.rows) (hv : v ∈ s.rows.rows)
    (hname : u.username = some name) (hname' : v.username = some name) : u = v := by
  have hapart : s.rows.rows.Pairwise fun u v ↦
      ¬(u.username = some name ∧ v.username = some name) := by
    refine (List.pairwise_filterMap.mp s.usernames).imp ?_
    rintro u v hne ⟨hu, hv⟩
    exact hne name hu name hv rfl
  have hsame := List.Pairwise.forall_of_forall_of_flip
    (R := fun u v ↦ u.username = some name → v.username = some name → u = v)
    (fun _ _ _ _ ↦ rfl) (hapart.imp fun h hu hv ↦ absurd ⟨hu, hv⟩ h)
    (hapart.imp fun h hv hu ↦ absurd ⟨hu, hv⟩ h)
  exact hsame hu hv hname hname'

/-- No row has the id, the e-mail or, if there is one, the user name. -/
def Free (s : UserStore) (u : User) : Prop :=
  s.find? u.id = none ∧ ∀ v ∈ s.rows.rows,
    v.email ≠ u.email ∧ (v.username = u.username → u.username = none)

instance (s : UserStore) (u : User) : Decidable (s.Free u) := inferInstanceAs (Decidable (_ ∧ _))

theorem nodup_emails_append {rows : List User} (h : (rows.map fun u ↦ u.email).Nodup) :
    ((rows ++ [u]).map fun u ↦ u.email).Nodup ↔ ∀ v ∈ rows, v.email ≠ u.email := by
  rw [List.map_append, List.nodup_append]
  simp [h]

theorem nodup_usernames_append {rows : List User}
    (h : (rows.filterMap fun u ↦ u.username).Nodup) :
    ((rows ++ [u]).filterMap fun u ↦ u.username).Nodup ↔
      ∀ v ∈ rows, v.username = u.username → u.username = none := by
  rw [List.filterMap_append, List.nodup_append]
  cases hname : u.username with
  | none => simp [h, hname]
  | some name =>
      have hone : [u].filterMap (fun u ↦ u.username) = [name] := by simp [hname]
      rw [hone]
      constructor
      · rintro ⟨-, -, hnot⟩ v hv hsame
        exact absurd rfl (hnot name (List.mem_filterMap.mpr ⟨v, hv, hsame⟩) name (by simp))
      · intro hnot
        refine ⟨h, List.nodup_singleton name, ?_⟩
        intro a ha b hb
        obtain rfl := List.mem_singleton.mp hb
        obtain ⟨v, hv, hsame⟩ := List.mem_filterMap.mp ha
        rintro rfl
        cases hnot v hv hsame

theorem insert?_isSome_iff : (s.insert? u).isSome = true ↔ s.Free u := by
  have hkey : s.find? u.id = none ↔ u.key ∉ s.rows.rows.map User.key := Table.find?_eq_none_iff
  unfold Free insert? Table.insert?
  rw [hkey]
  by_cases hid : u.key ∈ s.rows.rows.map User.key
  · simp [hid]
  · simp only [dif_neg hid, Option.bind_some, ofTable?, Table.insert, hid,
      nodup_emails_append s.emails, nodup_usernames_append s.usernames, ← forall₂_and]
    split
    · rename_i h
      simpa using h
    · rename_i h
      simpa using h

theorem find?_fresh_of_insert? (h : s.insert? u = some s') : s.find? u.id = none := by
  obtain ⟨rows, hrows, -⟩ := Option.bind_eq_some_iff.mp h
  exact Table.find?_fresh_of_insert? hrows

end UserStore

/-! ## The calls -/

abbrev Registrations := Config accounts RegisterDto Tokens AuthState

abbrev RegisterMove := Transition Registrations (Act RegisterDto Outcome ℕ)

/-- `register` calls over the accounts; meanwhile time passes. -/
def registrations (lib : Libraries) (config : JwtConfig) :
    Machine accounts RegisterDto Tokens AuthState Outcome ℕ where
  body := AuthService.register config
  exec := AuthState.exec lib
  forks _ := []
  env w _ time := some ({ w with now := w.now + time }, [])

def Creates (ts : List RegisterMove) (i : ℕ) : Prop :=
  ∃ t ∈ ts, ∃ o, t.act = .call i o ∧ ∃ u : User,
    t.before.state.users.find? u.id = none ∧ t.after.state.users.find? u.id = some u

/-- No step of the call changes the users or hands out a token. -/
def LeavesAccounts (ts : List RegisterMove) (i : ℕ) : Prop :=
  ∀ t ∈ ts, ∀ o, t.act = .call i o →
    t.after.state.users = t.before.state.users ∧ t.after.state.issued = t.before.state.issued

/-- No two accounts share an e-mail or a user name, and a call that ends without having
created one has thrown a `ConflictException` and left the accounts alone. -/
structure OneWinner (ts : List RegisterMove) (s : Registrations) : Prop where
  emails : ∀ u ∈ s.state.users.rows.rows, ∀ v ∈ s.state.users.rows.rows,
    u.email = v.email → u = v
  usernames : ∀ u ∈ s.state.users.rows.rows, ∀ v ∈ s.state.users.rows.rows, ∀ name,
    u.username = some name → v.username = some name → u = v
  losers : ∀ i t r, s.threads[i]? = some t → t.prog = .done r → ¬Creates ts i →
    (∃ message, r = .error (.conflict message)) ∧ LeavesAccounts ts i

def AccountCall.inserted? : AccountCall → Option CreateUserDto
  | .insertUser dto => some dto
  | _ => none

/-- The database and `bcrypt` do not fail by themselves, other than after the insertion, and
the row to be inserted is free. -/
def AuthState.Passes (w : AuthState) (c : AccountCall) : Outcome → Prop
  | .ok id => ∀ dto ∈ c.inserted?, w.users.Free (User.create id dto w.now)
  | .lost id _ => ∃ dto ∈ c.inserted?, w.users.Free (User.create id dto w.now)
  | .rejected _ => False

instance (w : AuthState) (c : AccountCall) : DecidablePred (w.Passes c)
  | .ok _ => inferInstanceAs (Decidable (∀ dto ∈ c.inserted?, _))
  | .lost _ _ => inferInstanceAs (Decidable (∃ dto ∈ c.inserted?, _))
  | .rejected _ => isFalse id

def StepPasses (t : RegisterMove) : Prop :=
  match t.act with
  | .call i o => ∀ c ∈ t.before.threads[i]?.bind Thread.pending?, t.before.state.Passes c o
  | _ => True

instance : DecidablePred StepPasses := fun t ↦
  match t with
  | ⟨s, .call i o, _⟩ =>
      inferInstanceAs (Decidable (∀ c ∈ s.threads[i]?.bind Thread.pending?, s.state.Passes c o))
  | ⟨_, .invoke _, _⟩ => isTrue trivial
  | ⟨_, .crash _, _⟩ => isTrue trivial
  | ⟨_, .env _, _⟩ => isTrue trivial

/-! ## What a call has done so far -/

def hashAndCreate (config : JwtConfig) (dto : RegisterDto) : AccountProg Tokens := do
  let hashedPassword ← request (.hash dto.password AuthService.hashRounds)
  let user ← UsersService.create
    { firstName := dto.firstName
      lastName := dto.lastName
      email := dto.email
      password := hashedPassword
      username := dto.username }
  AuthService.generateTokens config user.toSafeUser

def createAndSign (config : JwtConfig) (dto : CreateUserDto) : AccountProg Tokens := do
  let user ← UsersService.create dto
  AuthService.generateTokens config user.toSafeUser

def CallPasses (ts : List RegisterMove) (i : ℕ) : Prop :=
  ∀ t ∈ ts, ∀ o, t.act = .call i o → StepPasses t

/-- Where a call stands, by what is left of its program. -/
inductive Standing (config : JwtConfig) (dto : RegisterDto) (ts : List RegisterMove) (i : ℕ)
    (p : AccountProg Tokens) : Prop where
  | looking (left : p = AuthService.register config dto) (quiet : LeavesAccounts ts i)
      (passes : CallPasses ts i)
  | hashing (left : p = hashAndCreate config dto) (quiet : LeavesAccounts ts i)
      (passes : CallPasses ts i)
  | inserting (row : CreateUserDto) (left : p = createAndSign config row)
      (quiet : LeavesAccounts ts i) (passes : CallPasses ts i)
  | created (left : p.Calls fun c : AccountCall ↦ c.Fallible = false) (creates : Creates ts i)
      (passes : CallPasses ts i)
  | refused (message : String) (left : p = .done (.error (.conflict message)))
      (quiet : LeavesAccounts ts i) (passes : CallPasses ts i)
  | failed (message : String) (left : p = .done (.error (.library message)))
      (quiet : LeavesAccounts ts i) (stuck : ¬CallPasses ts i)

section Standing

variable {lib : Libraries} {config : JwtConfig} {s s' : Registrations} {w w' : AuthState}
  {ts : List RegisterMove} {i : ℕ} {c : AccountCall} {o : Outcome}

theorem not_creates_of_leavesAccounts (h : LeavesAccounts ts i) : ¬Creates ts i := by
  rintro ⟨t, ht, o, hact, u, hnone, hsome⟩
  rw [(h t ht o hact).1, hnone] at hsome
  cases hsome

theorem exec_read {x : String → c.Reply} {r : Except AccountError c.Reply}
    (hread : ∀ fresh, w.answer lib c fresh = (w, .ok (x fresh))) (hc : c.inserted? = none)
    (h : w.exec lib c o = some (w', r)) : w' = w ∧
      ((w.Passes c o ∧ ∃ fresh, r = .ok (x fresh)) ∨
        (¬w.Passes c o ∧ ∃ message, r = .error (.library message))) := by
  cases o with
  | ok fresh =>
      have heq : w.answer lib c fresh = (w', r) := Option.some.inj h
      rw [hread] at heq
      obtain ⟨rfl, rfl⟩ := Prod.mk.inj heq
      exact ⟨rfl, .inl ⟨by simp [AuthState.Passes, hc], fresh, rfl⟩⟩
  | rejected message =>
      obtain ⟨-, heq⟩ := Option.ite_none_right_eq_some.mp h
      obtain ⟨rfl, rfl⟩ := Prod.mk.inj (Option.some.inj heq)
      exact ⟨rfl, .inr ⟨id, message, rfl⟩⟩
  | lost fresh message =>
      obtain ⟨-, heq⟩ := Option.ite_none_right_eq_some.mp h
      rw [hread] at heq
      obtain ⟨rfl, rfl⟩ := Prod.mk.inj (Option.some.inj heq)
      exact ⟨rfl, .inr ⟨by simp [AuthState.Passes, hc], message, rfl⟩⟩

theorem answer_insertUser (lib : Libraries) (w : AuthState) (dto : CreateUserDto) (id : String) :
    (w.users.Free (User.create id dto w.now) ∧ ∃ u : User, w.users.find? u.id = none ∧
      (w.answer lib (.insertUser dto) id).1.users.find? u.id = some u) ∨
    (¬w.users.Free (User.create id dto w.now) ∧ ∃ message,
      w.answer lib (.insertUser dto) id = (w, .error (.library message))) := by
  by_cases hfree : w.users.Free (User.create id dto w.now)
  · obtain ⟨users, husers⟩ := Option.isSome_iff_exists.mp (UserStore.insert?_isSome_iff.mpr hfree)
    refine .inl ⟨hfree, User.create id dto w.now, UserStore.find?_fresh_of_insert? husers, ?_⟩
    simp only [AuthState.answer, husers]
    rw [UserStore.find?_of_insert? husers, if_pos rfl]
  · have hnone : w.users.insert? (User.create id dto w.now) = none := by
      rw [← Option.not_isSome_iff_eq_none]
      exact fun h ↦ hfree (UserStore.insert?_isSome_iff.mp h)
    refine .inr ⟨hfree, "duplicate key value violates unique constraint", ?_⟩
    simp only [AuthState.answer, hnone]

theorem exec_insertUser {dto : CreateUserDto} {r : Except AccountError User}
    (h : w.exec lib (.insertUser dto) o = some (w', r)) :
    (w.Passes (.insertUser dto) o ∧ ∃ u : User, w.users.find? u.id = none ∧
      w'.users.find? u.id = some u) ∨
    (¬w.Passes (.insertUser dto) o ∧ w' = w ∧ ∃ message, r = .error (.library message)) := by
  cases o with
  | ok id =>
      have heq : w.answer lib (.insertUser dto) id = (w', r) := Option.some.inj h
      rcases answer_insertUser lib w dto id with ⟨hfree, hu⟩ | ⟨hfree, message, hstuck⟩
      · rw [heq] at hu
        exact .inl ⟨by simpa [AuthState.Passes, AccountCall.inserted?] using hfree, hu⟩
      · rw [hstuck] at heq
        obtain ⟨rfl, rfl⟩ := Prod.mk.inj heq
        exact .inr ⟨by simpa [AuthState.Passes, AccountCall.inserted?] using hfree, rfl, message, rfl⟩
  | rejected message =>
      obtain ⟨rfl, rfl⟩ := Prod.mk.inj (Option.some.inj h)
      exact .inr ⟨id, rfl, message, rfl⟩
  | lost id message =>
      obtain ⟨rfl, rfl⟩ := Prod.mk.inj (Option.some.inj h)
      rcases answer_insertUser lib w dto id with ⟨hfree, hu⟩ | ⟨hfree, m, hstuck⟩
      · exact .inl ⟨by simpa [AuthState.Passes, AccountCall.inserted?] using hfree, hu⟩
      · rw [hstuck]
        exact .inr ⟨by simpa [AuthState.Passes, AccountCall.inserted?] using hfree, rfl, message, rfl⟩

/-! ### Steps -/

theorem stepPasses_iff {t t' : Thread accounts RegisterDto Tokens} {r : Except AccountError c.Reply}
    (h : Machine.Called (registrations lib config) s s' i o t t' c r) :
    StepPasses ⟨s, .call i o, s'⟩ ↔ s.state.Passes c o := by
  simp [StepPasses, h.get, h.pending]

theorem leavesAccounts_snoc {v : RegisterMove} : LeavesAccounts (ts ++ [v]) i ↔
    LeavesAccounts ts i ∧ ∀ o, v.act = .call i o →
      v.after.state.users = v.before.state.users ∧
        v.after.state.issued = v.before.state.issued := by
  unfold LeavesAccounts
  rw [List.forall_mem_append, List.forall_mem_singleton]

theorem callPasses_snoc {v : RegisterMove} : CallPasses (ts ++ [v]) i ↔
    CallPasses ts i ∧ ∀ o, v.act = .call i o → StepPasses v := by
  unfold CallPasses
  rw [List.forall_mem_append, List.forall_mem_singleton]

theorem creates_snoc {v : RegisterMove} (h : Creates ts i) : Creates (ts ++ [v]) i := by
  obtain ⟨t, ht, hcreates⟩ := h
  exact ⟨t, by simp [ht], hcreates⟩

theorem standing_aside {dto : RegisterDto} {p : AccountProg Tokens} {v : RegisterMove}
    (hv : ∀ o, v.act ≠ .call i o) (h : Standing config dto ts i p) :
    Standing config dto (ts ++ [v]) i p := by
  have hquiet (h : LeavesAccounts ts i) : LeavesAccounts (ts ++ [v]) i :=
    leavesAccounts_snoc.mpr ⟨h, fun o ho ↦ absurd ho (hv o)⟩
  have hpasses (h : CallPasses ts i) : CallPasses (ts ++ [v]) i :=
    callPasses_snoc.mpr ⟨h, fun o ho ↦ absurd ho (hv o)⟩
  cases h with
  | looking left quiet passes => exact .looking left (hquiet quiet) (hpasses passes)
  | hashing left quiet passes => exact .hashing left (hquiet quiet) (hpasses passes)
  | inserting row left quiet passes =>
      exact .inserting row left (hquiet quiet) (hpasses passes)
  | created left creates passes => exact .created left (creates_snoc creates) (hpasses passes)
  | refused message left quiet passes =>
      exact .refused message left (hquiet quiet) (hpasses passes)
  | failed message left quiet stuck =>
      exact .failed message left (hquiet quiet) fun h ↦ stuck (callPasses_snoc.mp h).1

theorem calls_generateTokens (user : SafeUser) :
    (AuthService.generateTokens config user).Calls fun c : AccountCall ↦ c.Fallible = false := by
  refine Program.Calls.bind (Program.calls_perform ?_) fun _ ↦
    Program.Calls.bind (Program.calls_perform ?_) fun _ ↦ trivial
  · rfl
  · rfl

theorem standing_called {t : Thread accounts RegisterDto Tokens} {next}
    {r : Except AccountError c.Reply} (hprog : t.prog = .call c next)
    (h : Machine.Called (registrations lib config) s s' i o t (t.resume c next r) c r)
    (hstand : Standing config t.task ts i t.prog) :
    Standing config t.task (ts ++ [⟨s, .call i o, s'⟩]) i (next r) := by
  have hexec : s.state.exec lib c o = some (s'.state, r) := h.exec
  have hiff := stepPasses_iff h
  have hpasses (hold : CallPasses ts i) (hpass : s.state.Passes c o) :
      CallPasses (ts ++ [⟨s, .call i o, s'⟩]) i :=
    callPasses_snoc.mpr ⟨hold, fun _ _ ↦ hiff.mpr hpass⟩
  have hstuck (hpass : ¬s.state.Passes c o) : ¬CallPasses (ts ++ [⟨s, .call i o, s'⟩]) i :=
    fun hall ↦ hpass (hiff.mp ((callPasses_snoc.mp hall).2 o rfl))
  have hquiet (hold : LeavesAccounts ts i) (hsame : s'.state = s.state) :
      LeavesAccounts (ts ++ [⟨s, .call i o, s'⟩]) i := by
    refine leavesAccounts_snoc.mpr ⟨hold, fun _ _ ↦ ?_⟩
    change s'.state.users = s.state.users ∧ s'.state.issued = s.state.issued
    rw [hsame]
    exact ⟨rfl, rfl⟩
  cases hstand with
  | looking left quiet passes =>
      have hcall : Program.call c next = Program.call (I := accounts)
        (.selectUserByEmail t.task.email) _ := hprog.symm.trans left
      cases hcall
      obtain ⟨hsame, ⟨hpass, -, rfl⟩ | ⟨hpass, message, rfl⟩⟩ :=
        exec_read (fun _ ↦ rfl) rfl hexec
      · change Standing config t.task _ i (Program.bind _ _)
        cases hfind : s.state.users.findByEmail t.task.email with
        | none => exact .hashing rfl (hquiet quiet hsame) (hpasses passes hpass)
        | some user =>
            exact .refused "Email already registered" rfl (hquiet quiet hsame)
              (hpasses passes hpass)
      · exact .failed message rfl (hquiet quiet hsame) (hstuck hpass)
  | hashing left quiet passes =>
      have hcall : Program.call c next = Program.call (I := accounts)
        (.hash t.task.password AuthService.hashRounds) _ := hprog.symm.trans left
      cases hcall
      obtain ⟨hsame, ⟨hpass, hash, rfl⟩ | ⟨hpass, message, rfl⟩⟩ :=
        exec_read (fun _ ↦ rfl) rfl hexec
      · exact .inserting _ rfl (hquiet quiet hsame) (hpasses passes hpass)
      · exact .failed message rfl (hquiet quiet hsame) (hstuck hpass)
  | inserting row left quiet passes =>
      have hcall : Program.call c next = Program.call (I := accounts) (.insertUser row) _ :=
        hprog.symm.trans left
      cases hcall
      rcases exec_insertUser hexec with ⟨hpass, hu⟩ | ⟨hpass, hsame, message, rfl⟩
      · refine .created ?_ ⟨_, List.mem_append_right _ (List.mem_singleton_self _), o, rfl, hu⟩
          (hpasses passes hpass)
        cases r with
        | ok user => exact calls_generateTokens user.toSafeUser
        | error e => trivial
      · exact .failed message rfl (hquiet quiet hsame) (hstuck hpass)
  | created left creates passes =>
      rw [hprog] at left
      obtain ⟨hc, hnext⟩ := left
      refine .created (hnext r) (creates_snoc creates) (hpasses passes ?_)
      cases o with
      | ok fresh =>
          intro dto hdto
          cases c <;> cases hdto
          cases hc
      | rejected message => simp [AuthState.exec, hc] at hexec
      | lost fresh message => simp [AuthState.exec, hc] at hexec
  | refused message left quiet passes =>
      rw [hprog] at left
      cases left
  | failed message left quiet stuck =>
      rw [hprog] at left
      cases left

theorem no_call_of_length_le {w : AuthState}
    (hrun : Run (registrations lib config).step ⟨w, []⟩ ts s) (hle : s.threads.length ≤ i) :
    ∀ t ∈ ts, ∀ o, t.act ≠ .call i o := by
  rintro ⟨u, a, u'⟩ ht o rfl
  obtain ⟨t, c, next, r, -, h⟩ := Machine.called_of_step (hrun.step_of_mem ht)
  have hlt : i < u.threads.length := (List.getElem?_eq_some_iff.mp h.get).1
  have hlen := Machine.length_le_of_mem hrun ht
  have hlen : u.threads.length ≤ s.threads.length := hlen
  omega

theorem standing_of_run {w : AuthState}
    (hrun : Run (registrations lib config).step ⟨w, []⟩ ts s)
    {t : Thread accounts RegisterDto Tokens} (hget : s.threads[i]? = some t) :
    Standing config t.task ts i t.prog := by
  induction hrun generalizing t i with
  | nil => simp at hget
  | @snoc ts s s' a head last ih =>
      by_cases hcall : ∃ o, a = .call i o
      · obtain ⟨o, rfl⟩ := hcall
        obtain ⟨t₀, c, next, r, hprog, h⟩ := Machine.called_of_step last
        obtain rfl := Option.some.inj (hget.symm.trans h.get_self)
        have hstand := standing_called hprog h (ih h.get)
        exact hstand
      have haside : ∀ o, a ≠ .call i o := fun o ho ↦ hcall ⟨o, ho⟩
      rcases Machine.called_cases last hget with ⟨t₀, ht₀, rfl | ⟨-, rfl⟩⟩ | ⟨hle, dto, rfl⟩ |
        ⟨o, t₀, c, next, r, ha, -⟩
      · exact standing_aside haside (ih ht₀)
      · exact standing_aside haside (ih (t := t₀) ht₀)
      · have hnone := no_call_of_length_le head hle
        refine standing_aside haside (.looking rfl ?_ ?_)
        · exact fun t ht o ho ↦ absurd ho (hnone t ht o)
        · exact fun t ht o ho ↦ absurd ho (hnone t ht o)
      · exact absurd ha (haside o)

/-- There is one winner and all losers are clean exactly if every call passes: the rows to
be inserted are free, and nothing fails by itself. -/
theorem oneWinner_iff {w : AuthState} (hrun : Run (registrations lib config).step ⟨w, []⟩ ts s) :
    OneWinner ts s ↔ ∀ t ∈ ts, StepPasses t := by
  constructor
  · rintro hwinner ⟨u, a, u'⟩ ht
    cases a with
    | call i o =>
        obtain ⟨t₀, c, next, r, -, h⟩ := Machine.called_of_step (hrun.step_of_mem ht)
        have hlt : i < u.threads.length := (List.getElem?_eq_some_iff.mp h.get).1
        have hlen : u.threads.length ≤ s.threads.length := Machine.length_le_of_mem hrun ht
        have hget := List.getElem?_eq_getElem (Nat.lt_of_lt_of_le hlt hlen)
        have hpass (passes : CallPasses ts i) : StepPasses ⟨u, .call i o, u'⟩ :=
          passes _ ht o rfl
        cases standing_of_run hrun hget with
        | looking left quiet passes => exact hpass passes
        | hashing left quiet passes => exact hpass passes
        | inserting row left quiet passes => exact hpass passes
        | created left creates passes => exact hpass passes
        | refused message left quiet passes => exact hpass passes
        | failed message left quiet stuck =>
            have hloser := hwinner.losers i _ _ hget left (not_creates_of_leavesAccounts quiet)
            obtain ⟨⟨message', hconflict⟩, -⟩ := hloser
            cases hconflict
    | _ => trivial
  · intro hall
    constructor
    · exact fun u hu v hv ↦ UserStore.eq_of_email hu hv
    · exact fun u hu v hv name ↦ UserStore.eq_of_username hu hv
    · intro i t r hget hdone hnot
      cases standing_of_run hrun hget with
      | looking left quiet passes =>
          rw [hdone] at left
          cases left
      | hashing left quiet passes =>
          rw [hdone] at left
          cases left
      | inserting row left quiet passes =>
          rw [hdone] at left
          cases left
      | created left creates passes => exact absurd creates hnot
      | refused message left quiet passes =>
          rw [hdone] at left
          exact ⟨⟨message, Program.done.inj left⟩, quiet⟩
      | failed message left quiet stuck => exact absurd (fun t ht _ _ ↦ hall t ht) stuck

end Standing

/-! ## Two who want one name -/

def registerDto (email : String) (username : Option String) : RegisterDto :=
  ⟨"Alice", "A", email, "password", username⟩

/-- One after the other: the second call finds the e-mail. -/
def oneByOne : List (Act RegisterDto Outcome ℕ) :=
  [.invoke (registerDto "alice@example.com" (some "alice")),
    .invoke (registerDto "alice@example.com" none),
    .call 0 (.ok ""), .call 0 (.ok "hash:password"), .call 0 (.ok "user-1"),
    .call 1 (.ok ""), .call 0 (.ok ""), .call 0 (.ok "")]

theorem oneWinner_oneByOne : ∃ (ts : List RegisterMove) (s : Registrations),
    Run (registrations aliceLibraries aliceConfig).step ⟨AuthState.empty, []⟩ ts s ∧
      ts.map Transition.act = oneByOne ∧ OneWinner ts s := by
  obtain ⟨ts, s, hrun, hacts, hobs⟩ := Run.exists_of_follow
    (registrations aliceLibraries aliceConfig).step ⟨AuthState.empty, []⟩ oneByOne
    (fun p ↦ decide (∀ t ∈ p.1, StepPasses t)) true (by decide +kernel)
  exact ⟨ts, s, hrun, hacts, (oneWinner_iff hrun).mpr (of_decide_eq_true hobs)⟩

def thrown : AccountProg Tokens → Option AccountError
  | .done (.error e) => some e
  | _ => none

theorem eq_done_of_thrown {p : AccountProg Tokens} {e : AccountError} (h : thrown p = some e) :
    p = .done (.error e) := by
  unfold thrown at h
  split at h
  · obtain rfl := Option.some.inj h
    rfl
  · cases h

/-- Both look the e-mail up before one of them is inserted; a third call has the user name. -/
def atOnce : List (Act RegisterDto Outcome ℕ) :=
  [.invoke (registerDto "alice@example.com" (some "alice")),
    .invoke (registerDto "alice@example.com" none),
    .invoke (registerDto "ally@example.com" (some "alice")),
    .call 0 (.ok ""), .call 1 (.ok ""), .call 0 (.ok "hash:password"),
    .call 1 (.ok "hash:password"), .call 0 (.ok "user-1"), .call 1 (.ok "user-2"),
    .call 2 (.ok ""), .call 2 (.ok "hash:password"), .call 2 (.ok "user-3")]

def violated : AccountError := .library "duplicate key value violates unique constraint"

def callsThread (i : ℕ) : Act RegisterDto Outcome ℕ → Bool
  | .call j _ => i = j
  | _ => false

/-- The loser by e-mail and the loser by user name get the error of the database. -/
theorem dirty_losers : ∃ (ts : List RegisterMove) (s : Registrations),
    Run (registrations aliceLibraries aliceConfig).step ⟨AuthState.empty, []⟩ ts s ∧
      ts.map Transition.act = atOnce ∧
      s.threads.map (fun t ↦ thrown t.prog) = [none, some violated, some violated] ∧
      ¬Creates ts 1 ∧ ¬Creates ts 2 ∧ ¬OneWinner ts s := by
  obtain ⟨ts, s, hrun, hacts, hobs⟩ := Run.exists_of_follow
    (registrations aliceLibraries aliceConfig).step ⟨AuthState.empty, []⟩ atOnce
    (fun p ↦ decide (p.2.threads.map (fun t ↦ thrown t.prog) =
        [none, some violated, some violated] ∧
      ∀ t ∈ p.1, callsThread 1 t.act = true ∨ callsThread 2 t.act = true →
        t.after.state.users.rows.rows = t.before.state.users.rows.rows)) true (by decide +kernel)
  obtain ⟨hthrown, hrows⟩ := of_decide_eq_true hobs
  have hnot (i : ℕ) (hi : i = 1 ∨ i = 2) : ¬Creates ts i := by
    rintro ⟨t, ht, o, hact, u, hnone, hsome⟩
    have hsame := hrows t ht (by simpa [hact, callsThread, eq_comm] using hi)
    unfold UserStore.find? Table.find? at hnone hsome
    rw [hsame, hnone] at hsome
    cases hsome
  refine ⟨ts, s, hrun, hacts, hthrown, hnot 1 (.inl rfl), hnot 2 (.inr rfl), fun hwinner ↦ ?_⟩
  have hget := congrArg (fun l ↦ l[1]?) hthrown
  obtain ⟨t, ht, hthrown⟩ := Option.map_eq_some_iff.mp (List.getElem?_map ▸ hget)
  obtain ⟨⟨message, hconflict⟩, -⟩ :=
    hwinner.losers 1 t _ ht (eq_done_of_thrown hthrown) (hnot 1 (.inl rfl))
  cases hconflict

end VideoGen
