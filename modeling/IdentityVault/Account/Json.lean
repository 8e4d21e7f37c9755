import IdentityVault.Account.Basic
import IdentityVault.Argon2.Hasher
import IdentityVault.Json.Printer
import IdentityVault.Json.Reader
import IdentityVault.Time.Rfc3339

/-! The JSON forms of identities, credentials and the costs of hashing. -/

namespace IdentityVault

namespace Timestamp

def ofJson? (j : Json) : Option Timestamp := j.text?.bind parse?

def toJson (t : Timestamp) : Json := .ofString t.render

end Timestamp

namespace Id

def ofJson? (j : Json) : Option Id := j.text?.map Id.mk

def toJson (i : Id) : Json := .ofString i.text

end Id

namespace Email

def ofJson? (j : Json) : Option Email := j.text?.map Email.mk

def toJson (e : Email) : Json := .ofString e.text

end Email

namespace PasswordHash

def ofJson? (j : Json) : Option PasswordHash := j.text?.map PasswordHash.mk

def toJson (h : PasswordHash) : Json := .ofString h.text

end PasswordHash

namespace User

def ofJson? (j : Json) : Option User :=
  match j.fields? ["id", "name", "email"] with
  | some [id, name, email] => do
    some ⟨← Json.required Id.ofJson? id, ← Json.required Json.text? name, ← Json.required Email.ofJson? email⟩
  | _ => none

def toJson (u : User) : Json :=
  .ofMembers [("id", u.id.toJson), ("name", .ofString u.name), ("email", u.email.toJson)]

end User

namespace Credential

def ofJson? (j : Json) : Option Credential :=
  match j.fields? ["id", "user_id", "email", "password", "created_at", "updated_at"] with
  | some [id, user, email, password, createdAt, updatedAt] => do
    some ⟨← Json.required Id.ofJson? id, ← Json.required Id.ofJson? user, ← Json.required Email.ofJson? email,
      ← Json.required PasswordHash.ofJson? password, ← Json.required Timestamp.ofJson? createdAt,
      ← Json.required Timestamp.ofJson? updatedAt⟩
  | _ => none

def toJson (c : Credential) : Json :=
  .ofMembers [("id", c.id.toJson), ("user_id", c.user.toJson), ("email", c.email.toJson),
    ("password", c.password.toJson), ("created_at", c.createdAt.toJson), ("updated_at", c.updatedAt.toJson)]

end Credential

namespace HashSettings

def word32? (j : Json) : Option UInt32 := (j.word? 32).map UInt32.ofNat

def ofJson? (j : Json) : Option HashSettings :=
  match j.fields? ["cost", "memoryCost", "parallelism"] with
  | some [cost, memoryCost, parallelism] => do
    some ⟨← Json.optional standard.cost word32? cost, ← Json.optional standard.memoryCost word32? memoryCost,
      ← Json.optional standard.parallelism word32? parallelism⟩
  | _ => none

def toJson (s : HashSettings) : Json :=
  .ofMembers [("cost", .ofNat s.cost.toNat), ("memoryCost", .ofNat s.memoryCost.toNat),
    ("parallelism", .ofNat s.parallelism.toNat)]

end HashSettings

def Json.decode {α : Type} (read : Json → Option α) (s : String) : Outcome α :=
  match (parse? s).bind read with
  | some a => .ok a
  | none => .error (.serialization "not the expected JSON")

end IdentityVault
