import IdentityVault.Session.Basic

/-! What requests with unchecked texts ask for. Texts are checked in the order in which they are given. -/

namespace IdentityVault.Session

def filterOf (email : Option String) : Outcome UserFilter :=
  match email with
  | none => .ok .all
  | some e => UserFilter.byEmail <$> Email.parse e

namespace Secret

def resolve : Secret → Action PasswordHash
  | password t => do Passwords.hash (← Action.ofOutcome (Password.parse t))
  | hash t => Action.ofOutcome (PasswordHash.parse t)

end Secret

namespace Request

def perform (c : Context) : Request → Action Reply
  | user id => do pure (.user (← Users.get c (← Action.ofOutcome (Id.parse id))))
  | users email => do pure (.users (← Users.list c (← Action.ofOutcome (filterOf email))))
  | createUser name email => do
    pure (.user (← Users.create c name (← Action.ofOutcome (Email.parse email))))
  | updateUser id name email => do
    let id ← Action.ofOutcome (Id.parse id)
    let email ← Action.ofOutcome (Email.parse email)
    pure (.user (← Users.update c ⟨id, name, email⟩))
  | credential email => do
    pure (.credential (← Credentials.getByEmail c (← Action.ofOutcome (Email.parse email))))
  | createCredential owner email secret => do
    let owner ← Action.ofOutcome (Id.parse owner)
    let email ← Action.ofOutcome (Email.parse email)
    let hash ← secret.resolve
    pure (.credential (← Credentials.create c ⟨owner, email, hash⟩))
  | updateCredential owner secret => do
    let owner ← Action.ofOutcome (Id.parse owner)
    let hash ← secret.resolve
    pure (.credential (← Credentials.update c owner hash))
  | check email password => do
    let email ← Action.ofOutcome (Email.parse email)
    let password ← Action.ofOutcome (Password.parse password)
    pure (.credential (← Credentials.check c email password))

end Request

namespace CredentialTexts

def parse (t : CredentialTexts) : Outcome Credential := do
  let id ← Id.parse t.id
  let user ← Id.parse t.user
  let email ← Email.parse t.email
  let hash ← PasswordHash.parse t.hash
  pure ⟨id, user, email, hash, t.createdAt, t.updatedAt⟩

end CredentialTexts

namespace RowRequest

variable {m : Type → Type} [Monad m]

/-- Goes on with a text that was checked. -/
def checked {α : Type} (r : Outcome α) : ExceptT Failure m α := ExceptT.mk (pure r)

/-- What a request asks for, where `ask` puts a question to the rows. -/
def perform (ask : {α : Type} → Query α → ExceptT Failure m α) : RowRequest → ExceptT Failure m Reply
  | user id => do pure (.user (← ask (.user (← checked (Id.parse id)))))
  | users email => do pure (.users (← ask (.users (← checked (filterOf email)))))
  | countUsers email => do pure (.count (← ask (.countUsers (← checked (filterOf email)))))
  | insertUser id name email => do
    let id ← checked (Id.parse id)
    let email ← checked (Email.parse email)
    ask (.insertUser ⟨id, name, email⟩)
    pure .done
  | updateUser id name email => do
    let id ← checked (Id.parse id)
    let email ← checked (Email.parse email)
    ask (.updateUser ⟨id, name, email⟩)
    pure .done
  | credentialOf owner => do pure (.credential (← ask (.credentialOf (← checked (Id.parse owner)))))
  | credentialByEmail email => do
    pure (.credential (← ask (.credentialByEmail (← checked (Email.parse email)))))
  | insertCredential t => do
    ask (.insertCredential (← checked t.parse))
    pure .done
  | updateCredential t => do
    ask (.updateCredential (← checked t.parse))
    pure .done

end RowRequest

namespace UseCase

def perform (d : Directory) (parent : Context) : UseCase → Action Reply
  | createUser name email password => do
    let email ← Action.ofOutcome (Email.parse email)
    let password ← Action.ofOutcome (Password.parse password)
    pure (.user (← d.createUser parent name email password))
  | getUser id => do pure (.user (← d.getUser parent (← Action.ofOutcome (Id.parse id))))
  | findUsers email => do pure (.users (← d.findUsers parent (← Action.ofOutcome (filterOf email))))
  | authenticate email password => do
    let email ← Action.ofOutcome (Email.parse email)
    let password ← Action.ofOutcome (Password.parse password)
    pure (.user (← d.authenticate parent email password))
  | changePassword email current new => do
    let email ← Action.ofOutcome (Email.parse email)
    let current ← Action.ofOutcome (Password.parse current)
    let new ← Action.ofOutcome (Password.parse new)
    d.changePassword parent email current new
    pure .done

end UseCase
end IdentityVault.Session
