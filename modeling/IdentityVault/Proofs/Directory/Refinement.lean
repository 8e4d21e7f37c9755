import IdentityVault.Proofs.Directory.Roster

/-! A directory of accounts answers like a plain directory of passwords, call after call, where its surroundings can
    be relied on: nothing fails, no deadline is set, ids are not repeated, and hashes are faithful. -/

namespace IdentityVault

namespace Directory
variable {α : Type} {s : Surroundings} {d : Directory} {ids : Nat → Id} {w w' : World} {r : Roster}

/-- What a call asks of the directory. -/
def Call.perform (d : Directory) (parent : Context) : Call → Action Session.Reply
  | .create name email password => do pure (.user (← d.createUser parent name email password))
  | .get id => do pure (.user (← d.getUser parent id))
  | .find f => do pure (.users (← d.findUsers parent f))
  | .authenticate email password => do pure (.user (← d.authenticate parent email password))
  | .change email current new => do
    d.changePassword parent email current new
    pure .done

/-- The answers to calls that are made one after the other, each under the name of a request. -/
def answers (d : Directory) : List (Token × Call) → Program Effect (List (Outcome Session.Reply))
  | [] => pure []
  | (request, call) :: calls => do
    let answer ← (call.perform d (.background request)).result
    pure (answer :: (← d.answers calls))

/-- Between two calls, the database holds the accounts of the plain directory, and has room for another scope. -/
structure Ready (s : Surroundings) (ids : Nat → Id) (w : World) (r : Roster) : Prop where
  named : w.database.Named
  free : w.database.available ≠ 0
  stored : r.Stored s.hasher w.database.tables
  drawn : w.ids = 2 * r.registered
  known : ∀ {id a}, r.accounts.get? id = some a → ∃ n < r.registered, id = ids (2 * n)

namespace Ready

theorem new (s : Surroundings) (ids : Nat → Id) {capacity : Nat} (h : 0 < capacity) :
    Ready s ids (.new (.new capacity)) .empty :=
  ⟨.new capacity, Nat.ne_of_gt h, .empty _, rfl, nofun⟩

/-- The id of the next registration is not known yet. -/
theorem unused (h : Ready s ids w r) (hinj : ids.Injective) : r.accounts.get? (ids (2 * r.registered)) = none := by
  cases ha : r.accounts.get? (ids (2 * r.registered)) with
  | none => rfl
  | some a =>
    obtain ⟨n, hn, hid⟩ := h.known ha
    have := hinj hid
    omega

theorem congr (h : Ready s ids w r) (hdb : w'.database = w.database) (hids : w'.ids = w.ids) : Ready s ids w' r where
  named := hdb ▸ h.named
  free := hdb ▸ h.free
  stored := hdb ▸ h.stored
  drawn := hids ▸ h.drawn
  known := h.known

theorem left (h : Ready s ids w r) {tables : Tables} {r' : Roster} (hdb : w'.database = w.database.left tables)
    (hstored : r'.Stored s.hasher tables) (hdrawn : w'.ids = 2 * r'.registered)
    (hknown : ∀ {id a}, r'.accounts.get? id = some a → ∃ n < r'.registered, id = ids (2 * n)) :
    Ready s ids w' r' where
  named := hdb ▸ h.named.left tables
  free := hdb ▸ h.free
  stored := hdb ▸ hstored
  drawn := hdrawn
  known := hknown

end Ready

/-! ### In the scope of a call -/

section
variable (hr : s.Reliable) (h : Ready s ids w r) {c : Context} (hc : c.Open w.database.nextTx)
  (hw : w'.Working w.database ⟨w.database.tables, []⟩ w.ids)
include hr h hc hw

/-- A login attempt succeeds in a scope if it does with the plain directory, with the credential of the account. -/
theorem ends_check {email : Email} {password : Password} {id : Id} {account : Account}
    (hlogin : r.login? email password = some (id, account)) :
    (Credentials.check c email password).result.Ends s w' fun a w'' => ∃ credential, a = .ok credential ∧
      credential.user = id ∧ w''.Working w.database ⟨w.database.tables, []⟩ w.ids := by
  obtain ⟨hemail, hpassword⟩ := Roster.login?_eq_some.mp hlogin
  obtain ⟨credential, hcredential, hkey, hfits⟩ := h.stored.credentialOf? hemail
  have huser := (h.stored.userByEmail? email).trans (congrArg _ hemail)
  refine (Credentials.ends_check hr.faultless h.named hc hw huser hcredential hfits password).mono ?_
  rintro a w'' ⟨ha, hw''⟩
  exact ⟨credential, ha.trans (if_pos hpassword), hkey, hw''⟩

theorem ends_check_of_failed {email : Email} {password : Password} (hlogin : r.login? email password = none) :
    (Credentials.check c email password).result.Ends s w' fun a w'' => a = .error .invalidCredential ∧
      w''.Working w.database ⟨w.database.tables, []⟩ w.ids := by
  have huser := h.stored.userByEmail? email
  cases hemail : r.byEmail? email with
  | none =>
    rw [hemail] at huser
    exact Credentials.ends_check_of_unknown hr.faultless h.named hc hw huser password
  | some found =>
    obtain ⟨id, account⟩ := found
    rw [hemail] at huser
    obtain ⟨credential, hcredential, -, hfits⟩ := h.stored.credentialOf? hemail
    have hwrong : account.password ≠ password := fun hp => by
      cases hlogin.symm.trans (Roster.login?_eq_some.mpr ⟨hemail, hp⟩)
    refine (Credentials.ends_check hr.faultless h.named hc hw huser hcredential hfits password).mono ?_
    rintro a w'' ⟨ha, hw''⟩
    exact ⟨ha.trans (if_neg hwrong), hw''⟩

/-- A registration in a scope: the identity and its credential get the next two ids. -/
theorem ends_register (hinj : ids.Injective) (hids : ∀ n, s.id n = .ok (ids n)) (name : String) {email : Email}
    {password : Password} (hfree : r.byEmail? email = none) {hash : PasswordHash}
    (hfits : s.hasher.Fits hash password) :
    (do
      let user ← Users.create c name email
      let _ ← Credentials.create c ⟨user.id, user.email, hash⟩
      pure user : Action User).result.Ends s w' fun a w'' => ∃ x n, w''.Working w.database x n ∧
        a = .ok ⟨ids (2 * r.registered), name, email⟩ ∧ n = 2 * (r.registered + 1) ∧
          Roster.Stored s.hasher x.snapshot
            ⟨r.accounts.insert (ids (2 * r.registered)) ⟨name, email, password⟩, r.registered + 1⟩ := by
  have hnew := h.unused hinj
  let user : User := ⟨ids (2 * r.registered), name, email⟩
  have hallowed : w.database.tables.apply (.insertUser user) = .ok (w.database.tables.putUser user) := by
    refine Tables.apply_insertUser.mpr ⟨?_, ?_, rfl⟩
    · rw [h.stored.get?_users, hnew]
      rfl
    · rw [h.stored.userByEmail?, hfree]
      rfl
  have hlisted := (h.stored.list_byEmail email).mpr hfree
  refine Action.ends_bind_ok
    (Users.ends_create hr.faultless h.named hc hw hlisted (h.drawn ▸ hids _) hallowed) fun hw₁ => ?_
  have howner : (w.database.tables.putUser user).users.get? user.id = some user := by
    rw [Tables.get?_users_putUser, if_pos rfl]
  have hnone : (w.database.tables.putUser user).credentials.get? user.id = none := h.stored.owners hnew
  refine Action.ends_bind_some (Credentials.ends_create hr.faultless h.named hc hw₁ howner hnone email hash (hids _)) ?_
  rintro _ w₂ ⟨⟨now, rfl⟩, hw₂⟩
  exact .done ⟨_, _, hw₂, rfl, by rw [h.drawn]; omega, h.stored.register (a := ⟨name, email, password⟩) rfl hfits⟩

end

/-! ### Calls -/

/-- The ids that registrations get: every other one goes to a credential. -/
def ownersOf (ids : Nat → Id) (n : Nat) : Id := ids (2 * n)

/-- An answer that is put in another form. -/
theorem ends_answer {β : Type} {action : Action α} {f : α → β} {answer : Outcome α} {Q : World → Prop}
    (h : action.result.Ends s w fun a w' => a = answer ∧ Q w') :
    (do pure (f (← action)) : Action β).result.Ends s w fun a w' => a = answer.map f ∧ Q w' := by
  refine Action.ends_bind h ?_ ?_
  · rintro b w' ⟨rfl, hw'⟩
    exact .done ⟨rfl, hw'⟩
  · rintro e w' ⟨rfl, hw'⟩
    exact ⟨rfl, hw'⟩

section
variable (request : Token) (hr : s.Reliable) (hd : d.scopes.timeout = none) (h : Ready s ids w r)
include hr hd h

/-- A scope in which nothing is written. -/
theorem ends_read {action : Context → Action α} {answer : Outcome α}
    (ha : ∀ {c w'}, c.Open w.database.nextTx → w'.Working w.database ⟨w.database.tables, []⟩ w.ids →
      (action c).result.Ends s w' fun r w'' => r = answer ∧ w''.Working w.database ⟨w.database.tables, []⟩ w.ids) :
    (d.scopes.within (.background request) action).result.Ends s w fun a w' => a = answer ∧ Ready s ids w' r := by
  refine (ScopeManager.ends_within (P := fun a x n => a = answer ∧ x = ⟨w.database.tables, []⟩ ∧ n = w.ids)
    hr.faultless hd request h.named h.free fun hc hw => (ha hc hw).mono ?_).mono ?_
  · rintro a w'' ⟨rfl, hw''⟩
    exact ⟨_, _, hw'', rfl, rfl, rfl⟩
  rintro a w' ⟨_, ⟨rfl, rfl, hids⟩, hdb⟩
  have hkept : ScopeManager.kept w.database ⟨w.database.tables, []⟩ a = w.database.tables := by cases a <;> rfl
  rw [hkept] at hdb
  exact ⟨rfl, h.left hdb h.stored (hids.trans h.drawn) h.known⟩

theorem ends_getUser (id : Id) :
    (d.getUser (.background request) id).result.Ends s w fun a w' =>
      a = Transaction.found ((r.accounts.get? id).map (Account.user id)) ∧ Ready s ids w' r := by
  refine ends_read request hr hd h fun hc hw => (Users.ends_get hr.faultless h.named hc hw id).mono ?_
  rintro _ w' ⟨rfl, hw'⟩
  exact ⟨by rw [h.stored.get?_users], hw'⟩

theorem ends_findUsers (f : UserFilter) :
    (d.findUsers (.background request) f).result.Ends s w fun a w' =>
      a = .ok (r.users.rows.filter f.isMatch) ∧ Ready s ids w' r := by
  refine ends_read request hr hd h fun hc hw => (Users.ends_list hr.faultless h.named hc hw f).mono ?_
  rintro _ w' ⟨rfl, hw'⟩
  exact ⟨by rw [Tables.list, h.stored.users], hw'⟩

theorem ends_authenticate (email : Email) (password : Password) :
    (d.authenticate (.background request) email password).result.Ends s w fun a w' =>
      a = (match r.login? email password with
        | some (id, account) => .ok (account.user id)
        | none => .error .invalidCredential) ∧ Ready s ids w' r := by
  refine ends_read request hr hd h fun hc hw => ?_
  cases hlogin : r.login? email password with
  | none => exact Action.ends_bind_error (ends_check_of_failed hr h hc hw hlogin) fun hw₁ => ⟨rfl, hw₁⟩
  | some found =>
    obtain ⟨id, account⟩ := found
    refine Action.ends_bind_some (ends_check hr h hc hw hlogin) ?_
    rintro credential w₁ ⟨rfl, hw₁⟩
    refine (Users.ends_get hr.faultless h.named hc hw₁ credential.user).mono ?_
    rintro _ w₂ ⟨rfl, hw₂⟩
    refine ⟨?_, hw₂⟩
    rw [h.stored.get?_users, (Roster.get?_of_byEmail? (Roster.login?_eq_some.mp hlogin).1).1]
    rfl

theorem ends_createUser_of_taken (name : String) {email : Email} (password : Password)
    (htaken : r.byEmail? email ≠ none) :
    (d.createUser (.background request) name email password).result.Ends s w fun a w' =>
      a = .error .alreadyExists ∧ Ready s ids w' r := by
  refine Action.ends_bind_some (Passwords.ends_hash hr.hasher w password) ?_
  rintro hash w₁ ⟨-, hdb, hdrawn⟩
  have h := h.congr hdb hdrawn
  refine ends_read request hr hd h fun hc hw => ?_
  have hlisted := (h.stored.list_byEmail email).not.mpr htaken
  exact Action.ends_bind_error (Users.ends_create_of_taken hr.faultless h.named hc hw hlisted) fun hw₂ => ⟨rfl, hw₂⟩

theorem ends_createUser (hinj : ids.Injective) (hids : ∀ n, s.id n = .ok (ids n)) (name : String) {email : Email}
    (password : Password) (hfree : r.byEmail? email = none) :
    (d.createUser (.background request) name email password).result.Ends s w fun a w' =>
      a = .ok ⟨ids (2 * r.registered), name, email⟩ ∧
        Ready s ids w' ⟨r.accounts.insert (ids (2 * r.registered)) ⟨name, email, password⟩, r.registered + 1⟩ := by
  refine Action.ends_bind_some (Passwords.ends_hash hr.hasher w password) ?_
  rintro hash w₁ ⟨hfits, hdb, hdrawn⟩
  have h := h.congr hdb hdrawn
  refine (ScopeManager.ends_within hr.faultless hd request h.named h.free fun hc hw =>
    ends_register hr h hc hw hinj hids name hfree hfits).mono ?_
  rintro _ w₂ ⟨x, ⟨rfl, hn, hstored⟩, hdb⟩
  refine ⟨rfl, h.left hdb hstored hn fun {id a} ha => ?_⟩
  rw [Table.get?_insert] at ha
  split at ha
  · next hid => exact ⟨r.registered, Nat.lt_succ_self _, hid.symm⟩
  · obtain ⟨n, hn, hid⟩ := h.known ha
    exact ⟨n, Nat.lt_succ_of_lt hn, hid⟩

theorem ends_changePassword_of_failed {email : Email} {current : Password} (new : Password)
    (hlogin : r.login? email current = none) :
    (d.changePassword (.background request) email current new).result.Ends s w fun a w' =>
      a = .error .invalidCredential ∧ Ready s ids w' r := by
  refine Action.ends_bind_some (Passwords.ends_hash hr.hasher w new) ?_
  rintro hash w₁ ⟨-, hdb, hdrawn⟩
  have h := h.congr hdb hdrawn
  refine ends_read request hr hd h fun hc hw => ?_
  exact Action.ends_bind_error (ends_check_of_failed hr h hc hw hlogin) fun hw₂ => ⟨rfl, hw₂⟩

theorem ends_changePassword {email : Email} {current : Password} (new : Password) {id : Id} {account : Account}
    (hlogin : r.login? email current = some (id, account)) :
    (d.changePassword (.background request) email current new).result.Ends s w fun a w' =>
      a = .ok () ∧ Ready s ids w' { r with accounts := r.accounts.insert id { account with password := new } } := by
  obtain ⟨hget, -⟩ := Roster.get?_of_byEmail? (Roster.login?_eq_some.mp hlogin).1
  refine Action.ends_bind_some (Passwords.ends_hash hr.hasher w new) ?_
  rintro hash w₁ ⟨hfits, hdb, hdrawn⟩
  have h := h.congr hdb hdrawn
  have howner : w₁.database.tables.users.get? (account.user id).id = some (account.user id) := by
    change w₁.database.tables.users.get? id = _
    rw [h.stored.get?_users, hget]
    rfl
  obtain ⟨old, hold, hkey, -⟩ := h.stored.credentials hget
  refine (ScopeManager.ends_within (P := fun a x n => a = .ok () ∧ n = w₁.ids ∧ Roster.Stored s.hasher x.snapshot
    { r with accounts := r.accounts.insert id { account with password := new } }) hr.faultless hd request h.named h.free
    fun hc hw => ?_).mono ?_
  · refine Action.ends_bind_some (ends_check hr h hc hw hlogin) ?_
    rintro credential w₂ ⟨rfl, hw₂⟩
    refine Action.ends_bind_some (Credentials.ends_update hr.faultless h.named hc hw₂ howner hold hkey hash) ?_
    rintro _ w₃ ⟨⟨now, rfl⟩, hw₃⟩
    refine .done ⟨_, _, hw₃, rfl, rfl, h.stored.change hget ?_ ?_⟩
    · exact hkey
    · exact hfits
  · rintro _ w₂ ⟨x, ⟨rfl, hn, hstored⟩, hdb⟩
    refine ⟨rfl, h.left hdb hstored (hn.trans h.drawn) fun {id' a} ha => ?_⟩
    rw [Table.get?_insert] at ha
    split at ha
    · next hid => exact hid ▸ h.known hget
    · exact h.known ha

/-- A call is answered as by the plain directory. -/
theorem ends_perform (hinj : ids.Injective) (hids : ∀ n, s.id n = .ok (ids n)) (call : Call) :
    (call.perform d (.background request)).result.Ends s w fun a w' =>
      a = (r.perform (ownersOf ids) call).1 ∧ Ready s ids w' (r.perform (ownersOf ids) call).2 := by
  cases call with
  | create name email password =>
    rw [Roster.perform]
    cases hemail : r.byEmail? email with
    | none => exact ends_answer (ends_createUser request hr hd h hinj hids name password hemail)
    | some found => exact ends_answer (ends_createUser_of_taken request hr hd h name password (by simp [hemail]))
  | get id =>
    have hanswer := ends_answer (f := Session.Reply.user) (ends_getUser request hr hd h id)
    rw [Roster.perform]
    cases hget : r.accounts.get? id with
    | none =>
      rw [hget] at hanswer
      exact hanswer
    | some account =>
      rw [hget] at hanswer
      exact hanswer
  | find f => exact ends_answer (ends_findUsers request hr hd h f)
  | authenticate email password =>
    have hanswer := ends_answer (f := Session.Reply.user) (ends_authenticate request hr hd h email password)
    rw [Roster.perform]
    cases hlogin : r.login? email password with
    | none =>
      rw [hlogin] at hanswer
      exact hanswer
    | some found =>
      rw [hlogin] at hanswer
      exact hanswer
  | change email current new =>
    rw [Roster.perform]
    cases hlogin : r.login? email current with
    | none => exact ends_answer (ends_changePassword_of_failed request hr hd h new hlogin)
    | some found => exact ends_answer (ends_changePassword request hr hd h new hlogin)

end

/-- Calls that are made one after the other are answered as by the plain directory. -/
theorem ends_answers (hr : s.Reliable) (hinj : ids.Injective) (hids : ∀ n, s.id n = .ok (ids n))
    (hd : d.scopes.timeout = none) (h : Ready s ids w r) (calls : List (Token × Call)) :
    (d.answers calls).Ends s w fun a _ => a = r.answers (ownersOf ids) (calls.map (·.2)) := by
  induction calls generalizing w r with
  | nil => exact .done rfl
  | cons head calls ih =>
    obtain ⟨request, call⟩ := head
    refine (ends_perform request hr hd h hinj hids call).bind ?_
    rintro _ w₁ ⟨rfl, h₁⟩
    refine (ih h₁).bind ?_
    rintro _ w₂ rfl
    exact .done rfl

/-- A directory over a fresh database answers every sequence of calls as a plain directory of passwords does, in which
    every registration gets an id of its own. -/
theorem answers_eq (hr : s.Reliable) (hd : d.scopes.timeout = none) {capacity : Nat} (hc : 0 < capacity) :
    ∃ fresh : Nat → Id, fresh.Injective ∧ ∀ calls : List (Token × Call), ∃ w,
      (d.answers calls).inWorld s (.new (.new capacity)) =
        .ok (Roster.empty.answers fresh (calls.map (·.2)), w) := by
  obtain ⟨ids, hinj, hids⟩ := hr.ids
  refine ⟨ownersOf ids, fun m n hmn => ?_, fun calls => ?_⟩
  · have := hinj hmn
    omega
  · obtain ⟨_, w, hrun, rfl⟩ := ends_answers hr hinj hids hd (.new s ids hc) calls
    exact ⟨w, hrun⟩

theorem answers_eq_of_plain : ∃ fresh : Nat → Id, fresh.Injective ∧ ∀ calls : List (Token × Call), ∃ w,
    ((⟨⟨none⟩⟩ : Directory).answers calls).inWorld (.calm Id.numbered ⟨0, 0⟩ .plain) (.new (.new 1)) =
      .ok (Roster.empty.answers fresh (calls.map (·.2)), w) :=
  answers_eq (Surroundings.reliable_calm ⟨0, 0⟩) rfl Nat.one_pos

end Directory
end IdentityVault
