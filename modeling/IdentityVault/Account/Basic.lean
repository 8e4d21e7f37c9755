import IdentityVault.Failure
import IdentityVault.Time.Timestamp

/-! Identities, and the password credentials by which they log in. -/

namespace IdentityVault

/-- The key of an identity or of a credential. -/
structure Id where
  text : String
  deriving DecidableEq, Repr

namespace Id

def parse (s : String) : Outcome Id := if s.isEmpty then .error (.malformed (.empty .id)) else .ok ⟨s⟩

/-- Ids are ordered by their code points, which is also the order of their UTF-8 bytes. -/
instance : Ord Id := ⟨fun a b => compare a.text b.text⟩

end Id

structure Email where
  text : String
  deriving DecidableEq, Repr

namespace Email

def parse (s : String) : Outcome Email := if s.isEmpty then .error (.malformed (.empty .email)) else .ok ⟨s⟩

end Email

/-- A secret as its owner types it. -/
structure Password where
  text : String
  deriving DecidableEq

namespace Password

def parse (s : String) : Outcome Password := if s.isEmpty then .error (.malformed (.empty .password)) else .ok ⟨s⟩

def shown : String := "Password \x7b value: \"[REDACTED]\" \x7d"

end Password

structure PasswordHash where
  text : String
  deriving DecidableEq, Repr

namespace PasswordHash

def parse (s : String) : Outcome PasswordHash :=
  if s.isEmpty then .error (.malformed (.empty .passwordHash)) else .ok ⟨s⟩

def shown : String := "HashedPassword(*****)"

end PasswordHash

/-- An identity. -/
structure User where
  id : Id
  name : String
  email : Email
  deriving DecidableEq, Repr

structure Credential where
  id : Id
  user : Id
  email : Email
  password : PasswordHash
  createdAt : Timestamp
  updatedAt : Timestamp
  deriving DecidableEq, Repr

/-- Which identities a listing asks for; without an email, all of them. -/
structure UserFilter where
  email : Option Email
  deriving DecidableEq, Repr

namespace UserFilter

def all : UserFilter := ⟨none⟩

def byEmail (e : Email) : UserFilter := ⟨some e⟩

def isMatch (f : UserFilter) (u : User) : Bool :=
  match f.email with
  | none => true
  | some e => u.email == e

end UserFilter
end IdentityVault
