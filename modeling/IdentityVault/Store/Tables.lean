import IdentityVault.Account.Basic
import IdentityVault.Store.Table

/-! The two tables of the row store, and the writes that keep its constraints: ids and emails of identities are
    unique, an identity owns at most one credential, and a credential belongs to an identity. -/

namespace IdentityVault

instance : Std.TransOrd Id where
  eq_swap := (inferInstance : Std.TransOrd String).eq_swap
  isLE_trans := (inferInstance : Std.TransOrd String).isLE_trans

instance : Std.LawfulEqOrd Id where
  compare_self := (inferInstance : Std.LawfulEqOrd String).compare_self
  eq_of_compare {a b} h := by
    cases a
    cases b
    exact congrArg Id.mk ((inferInstance : Std.LawfulEqOrd String).eq_of_compare h)

/-- Identities under their ids, and credentials under the ids of their owners. -/
structure Tables where
  users : Table Id User
  credentials : Table Id Credential
  deriving DecidableEq, Repr

/-- A change of one row. -/
inductive Write where
  | insertUser (user : User)
  | updateUser (user : User)
  | insertCredential (credential : Credential)
  | updateCredential (credential : Credential)
  deriving DecidableEq, Repr

namespace Tables

def empty : Tables := ⟨.empty, .empty⟩

def userByEmail? (t : Tables) (e : Email) : Option User := t.users.rows.find? (·.email = e)

/-- The credential of an identity, with the email that the identity has now. -/
def credentialOf? (t : Tables) (user : Id) : Option Credential := do
  let u ← t.users.get? user
  let c ← t.credentials.get? user
  some { c with email := u.email }

/-- The identities that a filter asks for, in the order of their ids. -/
def list (t : Tables) (f : UserFilter) : List User := t.users.rows.filter f.isMatch

/-- The tables after a write that the constraints allow. -/
def apply (t : Tables) : Write → Outcome Tables
  | .insertUser u =>
    if t.users.contains u.id || (t.userByEmail? u.email).isSome then .error .alreadyExists
    else .ok { t with users := t.users.insert u.id u }
  | .updateUser u =>
    if !t.users.contains u.id then .error .notFound
    else match t.userByEmail? u.email with
      | some other => if other.id ≠ u.id then .error .alreadyExists else .ok { t with users := t.users.insert u.id u }
      | none => .ok { t with users := t.users.insert u.id u }
  | .insertCredential c =>
    if !t.users.contains c.user then .error .notFound
    else if t.credentials.contains c.user then .error .alreadyExists
    else .ok { t with credentials := t.credentials.insert c.user c }
  | .updateCredential c =>
    match t.credentials.get? c.user with
    | some old => if old.id = c.id then .ok { t with credentials := t.credentials.insert c.user c } else .error .notFound
    | none => .error .notFound

/-- The tables after a whole log, unless one of its writes is refused. -/
def replay (t : Tables) (log : List Write) : Outcome Tables := log.foldlM apply t

end Tables
end IdentityVault
