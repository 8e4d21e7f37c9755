import IdentityVault.Gateway.Credentials
import IdentityVault.Gateway.Users
import IdentityVault.Scope.Manager

/-! The directory of accounts: registration, lookup, login and change of passwords, each in a scope of its own.
    Passwords are hashed before the scope begins, so that no connection is held meanwhile. -/

namespace IdentityVault

structure Directory where
  scopes : ScopeManager
  deriving DecidableEq, Repr

namespace Directory

/-- Registers an identity together with its credential, both or none. -/
def createUser (d : Directory) (parent : Context) (name : String) (email : Email) (password : Password) :
    Action User := do
  let hashed ← Passwords.hash password
  d.scopes.within parent fun c => do
    let user ← Users.create c name email
    let _ ← Credentials.create c ⟨user.id, user.email, hashed⟩
    pure user

def getUser (d : Directory) (parent : Context) (id : Id) : Action User :=
  d.scopes.within parent fun c => Users.get c id

def findUsers (d : Directory) (parent : Context) (f : UserFilter) : Action (List User) :=
  d.scopes.within parent fun c => Users.list c f

def authenticate (d : Directory) (parent : Context) (email : Email) (password : Password) : Action User :=
  d.scopes.within parent fun c => do
    let credential ← Credentials.check c email password
    Users.get c credential.user

/-- Replaces a password by `new`, if `current` is right. -/
def changePassword (d : Directory) (parent : Context) (email : Email) (current new : Password) : Action Unit := do
  let hashed ← Passwords.hash new
  d.scopes.within parent fun c => do
    let credential ← Credentials.check c email current
    let _ ← Credentials.update c credential.user hashed

end Directory
end IdentityVault
