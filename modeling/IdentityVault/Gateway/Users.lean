import IdentityVault.Scope.Context

/-! Identities, as they are read and written in the scope of a context. -/

namespace IdentityVault.Users

def get (c : Context) (id : Id) : Action User := c.query (.user id)

def list (c : Context) (f : UserFilter) : Action (List User) := c.query (.users f)

/-- Registers an identity under a fresh id. Its email must not be taken. -/
def create (c : Context) (name : String) (email : Email) : Action User := do
  if 0 < (← c.query (.countUsers (.byEmail email))) then throw .alreadyExists
  let user : User := ⟨← Action.attempt .freshId, name, email⟩
  c.query (.insertUser user)
  pure user

/-- Replaces the name and the email of an identity. -/
def update (c : Context) (user : User) : Action User := do
  let _ ← c.query (.user user.id)
  c.query (.updateUser user)
  pure user

end IdentityVault.Users
