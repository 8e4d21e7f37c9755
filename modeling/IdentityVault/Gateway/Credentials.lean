import IdentityVault.Gateway.Passwords
import IdentityVault.Scope.Context

/-! Password credentials, one for an identity, as they are read, written and checked in the scope of a context. -/

namespace IdentityVault

/-- A request for a credential. The email is only informative. -/
structure CredentialRequest where
  user : Id
  email : Email
  password : PasswordHash
  deriving DecidableEq, Repr

namespace Credentials

def getByEmail (c : Context) (email : Email) : Action Credential := c.query (.credentialByEmail email)

def requireNone (c : Context) (user : Id) : Action Unit := ExceptT.mk do
  match ← (c.query (.credentialOf user)).result with
  | .ok _ => pure (.error .alreadyExists)
  | .error .notFound => pure (.ok ())
  | .error f => pure (.error f)

/-- Creates the credential of an identity that has none. It gets the email of the identity. -/
def create (c : Context) (request : CredentialRequest) : Action Credential := do
  let owner ← c.query (.user request.user)
  requireNone c owner.id
  let now ← Action.ask .timestamp
  let credential : Credential := ⟨← Action.attempt .freshId, owner.id, owner.email, request.password, now, now⟩
  c.query (.insertCredential credential)
  pure credential

def update (c : Context) (user : Id) (password : PasswordHash) : Action Credential := do
  let owner ← c.query (.user user)
  let old ← c.query (.credentialOf owner.id)
  let now ← Action.ask .timestamp
  let credential := { old with email := owner.email, password, updatedAt := now }
  c.query (.updateCredential credential)
  pure credential

/-- Checks a login attempt. An unknown email, a wrong password and a hash that cannot be used look alike. -/
def check (c : Context) (email : Email) (password : Password) : Action Credential := ExceptT.mk do
  match ← (getByEmail c email).result with
  | .error .notFound => pure (.error .invalidCredential)
  | .error f => pure (.error f)
  | .ok credential =>
    match ← (Passwords.compare credential.password password).result with
    | .ok () => pure (.ok credential)
    | .error _ => pure (.error .invalidCredential)

end Credentials
end IdentityVault
