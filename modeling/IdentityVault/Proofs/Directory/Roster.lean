import IdentityVault.Directory
import IdentityVault.Proofs.Gateway.Undisturbed
import IdentityVault.Session.Command

/-! A plain directory of passwords: no database, no scopes and no hashes. What it answers is what a directory of
    accounts should answer. -/

namespace IdentityVault

/-! ### The plain directory -/

/-- What is known of an identity: its name, its email and its password. -/
structure Account where
  name : String
  email : Email
  password : Password

def Account.user (id : Id) (a : Account) : User := ⟨id, a.name, a.email⟩

namespace Directory

/-- A call of a directory of accounts. -/
inductive Call where
  | create (name : String) (email : Email) (password : Password)
  | get (id : Id)
  | find (filter : UserFilter)
  | authenticate (email : Email) (password : Password)
  | change (email : Email) (current new : Password)

end Directory

/-- Accounts under their ids, and the number of registrations so far. -/
structure Roster where
  accounts : Table Id Account
  registered : Nat

namespace Roster

def empty : Roster := ⟨.empty, 0⟩

/-- The identities of the accounts, under their ids. -/
def users (r : Roster) : Table Id User := r.accounts.mapRows Account.user

/-- The account with the given email, and its id. -/
def byEmail? (r : Roster) (e : Email) : Option (Id × Account) := r.accounts.entries.find? (·.2.email = e)

/-- The account with the given email, and its id, if the password is right. -/
def login? (r : Roster) (e : Email) (p : Password) : Option (Id × Account) :=
  (r.byEmail? e).filter fun (_, a) => a.password = p

/-- The answer to a call, and the directory after it. Registrations get the ids of `fresh`, one after the other. -/
def perform (fresh : Nat → Id) (r : Roster) : Directory.Call → Outcome Session.Reply × Roster
  | .create name email password =>
    match r.byEmail? email with
    | some _ => (.error .alreadyExists, r)
    | none =>
      let id := fresh r.registered
      (.ok (.user ⟨id, name, email⟩), ⟨r.accounts.insert id ⟨name, email, password⟩, r.registered + 1⟩)
  | .get id =>
    match r.accounts.get? id with
    | some a => (.ok (.user (a.user id)), r)
    | none => (.error .notFound, r)
  | .find f => (.ok (.users (r.users.rows.filter f.isMatch)), r)
  | .authenticate email password =>
    match r.login? email password with
    | some (id, a) => (.ok (.user (a.user id)), r)
    | none => (.error .invalidCredential, r)
  | .change email current new =>
    match r.login? email current with
    | some (id, a) => (.ok .done, { r with accounts := r.accounts.insert id { a with password := new } })
    | none => (.error .invalidCredential, r)

/-- The answers to calls that are made one after the other. -/
def answers (fresh : Nat → Id) (r : Roster) : List Directory.Call → List (Outcome Session.Reply)
  | [] => []
  | call :: calls => (r.perform fresh call).1 :: (r.perform fresh call).2.answers fresh calls

/-! ### Accounts in tables -/

/-- The tables hold the accounts: every identity has its id, name and email, and a credential whose hash fits the
    password. -/
structure Stored (hasher : Hasher) (t : Tables) (r : Roster) : Prop where
  users : t.users = r.users
  credentials : ∀ {id a}, r.accounts.get? id = some a → ∃ c, t.credentials.get? id = some c ∧ c.user = id ∧
    hasher.Fits c.password a.password
  owners : ∀ {id}, r.accounts.get? id = none → t.credentials.get? id = none

variable {hasher : Hasher} {t : Tables} {r : Roster} {e : Email} {id : Id} {a : Account} {c : Credential}

theorem get?_of_byEmail? (h : r.byEmail? e = some (id, a)) : r.accounts.get? id = some a ∧ a.email = e :=
  ⟨Table.get?_eq_some.mpr (List.mem_of_find?_eq_some h), by simpa using List.find?_some h⟩

theorem login?_eq_some {p : Password} : r.login? e p = some (id, a) ↔ r.byEmail? e = some (id, a) ∧ a.password = p := by
  simp [login?, Option.filter_eq_some_iff]

namespace Stored

theorem empty (hasher : Hasher) : Stored hasher .empty .empty := ⟨rfl, nofun, fun _ => rfl⟩

theorem get?_users (h : Stored hasher t r) (id : Id) :
    t.users.get? id = (r.accounts.get? id).map (Account.user id) := by
  rw [h.users]
  exact Table.get?_mapRows r.accounts Account.user id

theorem userByEmail? (h : Stored hasher t r) (e : Email) :
    t.userByEmail? e = (r.byEmail? e).map fun (id, a) => a.user id := by
  rw [Tables.userByEmail?, h.users]
  simp only [Table.rows, Roster.users, Table.mapRows, List.find?_map, List.map_map, Function.comp_def]
  rfl

/-- The credential of the account with the given email. -/
theorem credentialOf? (h : Stored hasher t r) (he : r.byEmail? e = some (id, a)) :
    ∃ c, t.credentialOf? id = some c ∧ c.user = id ∧ hasher.Fits c.password a.password := by
  obtain ⟨hid, -⟩ := get?_of_byEmail? he
  obtain ⟨c, hc, hkey, hfits⟩ := h.credentials hid
  exact ⟨{ c with email := a.email }, by simp [Tables.credentialOf?, h.get?_users, hid, hc, Account.user], hkey, hfits⟩

theorem list_byEmail (h : Stored hasher t r) (e : Email) : t.list (.byEmail e) = [] ↔ r.byEmail? e = none := by
  rw [Tables.list_byEmail_eq_nil, h.userByEmail?, Option.map_eq_none_iff]

/-- An account is put together with a credential that fits it. -/
theorem put (h : Stored hasher t r) {users : Table Id User} {registered : Nat}
    (hu : users = (⟨r.accounts.insert id a, registered⟩ : Roster).users) (hc : c.user = id)
    (hfits : hasher.Fits c.password a.password) :
    Stored hasher ⟨users, t.credentials.insert c.user c⟩ ⟨r.accounts.insert id a, registered⟩ where
  users := hu
  credentials {id' a'} ha := by
    rw [Table.get?_insert] at ha
    rw [Table.get?_insert, hc]
    split at ha
    · next hid =>
      cases ha
      rw [if_pos hid]
      exact ⟨c, rfl, hc.trans hid, hfits⟩
    · next hid =>
      rw [if_neg hid]
      exact h.credentials ha
  owners {id'} hn := by
    rw [Table.get?_insert] at hn
    rw [Table.get?_insert, hc]
    split at hn
    · cases hn
    · next hid =>
      rw [if_neg hid]
      exact h.owners hn

/-- Registering an account puts an identity and its credential. -/
theorem register (h : Stored hasher t r) (hc : c.user = id) (hfits : hasher.Fits c.password a.password) :
    Stored hasher ((t.putUser (a.user id)).putCredential c) ⟨r.accounts.insert id a, r.registered + 1⟩ := by
  refine h.put ?_ hc hfits
  rw [Roster.users, Table.mapRows_insert, ← Roster.users, ← h.users]
  rfl

/-- Changing a password puts a credential. -/
theorem change (h : Stored hasher t r) (hid : r.accounts.get? id = some a) (hc : c.user = id) {new : Password}
    (hfits : hasher.Fits c.password new) :
    Stored hasher (t.putCredential c) { r with accounts := r.accounts.insert id { a with password := new } } := by
  refine h.put (Table.ext_get? fun k => ?_) hc hfits
  rw [Roster.users, Table.get?_mapRows, Table.get?_insert, h.get?_users]
  split
  · next hk =>
    rw [← hk, hid]
    rfl
  · rfl

end Stored
end Roster
end IdentityVault
