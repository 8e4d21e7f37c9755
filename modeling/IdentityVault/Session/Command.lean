import IdentityVault.Time.Instant
import IdentityVault.Account.Basic
import IdentityVault.Failure

/-! What can be done in a session. Ids, emails, passwords and hashes are given as texts, which are checked when a
    command is carried out. -/

namespace IdentityVault.Session

/-- A new password: one that is still to be hashed, or a hash that is kept as it is. -/
inductive Secret where
  | password (text : String)
  | hash (text : String)

inductive Request where
  | user (id : String)
  | users (email : Option String)
  | createUser (name email : String)
  | updateUser (id name email : String)
  | credential (email : String)
  | createCredential (user email : String) (secret : Secret)
  | updateCredential (user : String) (secret : Secret)
  | check (email password : String)

/-- The texts of a credential, with its times. -/
structure CredentialTexts where
  id : String
  user : String
  email : String
  hash : String
  createdAt : Timestamp
  updatedAt : Timestamp

/-- A question to the rows of a transaction, past the gateways. -/
inductive RowRequest where
  | user (id : String)
  | users (email : Option String)
  | countUsers (email : Option String)
  | insertUser (id name email : String)
  | updateUser (id name email : String)
  | credentialOf (user : String)
  | credentialByEmail (email : String)
  | insertCredential (texts : CredentialTexts)
  | updateCredential (texts : CredentialTexts)

/-- A use of the directory of accounts. -/
inductive UseCase where
  | createUser (name email password : String)
  | getUser (id : String)
  | findUsers (email : Option String)
  | authenticate (email password : String)
  | changePassword (email current new : String)

/-- A step of a body that runs in a scope of its own. -/
inductive InnerCommand where
  | request (request : Request)
  | row (request : RowRequest)
  | commit
  | rollback
  | state
  | transaction
  | begin
  | pass (time : Duration)

/-- A step, and whether the body goes on after it has failed. -/
structure InnerStep where
  command : InnerCommand
  ignored : Bool

/-- New limits for the deadline of a context, counted from now. -/
structure Limits where
  timeout : Option Duration
  deadline : Option Int

inductive Command where
  /-- Puts a new context in the place of the one that has the name. -/
  | newContext (name : String) (limits : Limits)
  | limit (name : String) (limits : Limits)
  | state (name : String)
  | transaction (name : String)
  | dropContext (name : String)
  | compareContexts (a b : String)
  | begin (name : String) (parent : Option String)
  | commit (context : String)
  | rollback (context : String)
  | pass (time : Duration)
  | request (context : String) (request : Request)
  /-- Asks the rows of a transaction that was opened by its name, or of the scope of a context. -/
  | row (on : String) (request : RowRequest)
  | openTransaction (name : String)
  | commitTransaction (name : String)
  | rollbackTransaction (name : String)
  | dropTransaction (name : String)
  | compareTransactions (a b : String)
  | use (parent : Option String) (useCase : UseCase)
  | run (parent : Option String) (steps : List InnerStep) (failure : Option Failure)
  | hash (password : String)
  | compare (hash password : String)
  | capacity
  | dump

/-- What a context shows of itself. The time until its deadline is negative once it has passed. -/
structure ContextState where
  bound : Bool
  hasScope : Bool
  remaining : Option Int
  deriving DecidableEq, Repr

/-- The answer to a command that succeeded. -/
inductive Reply where
  | done
  | state (s : ContextState)
  | sameContexts (request scope : Bool)
  | sameTransaction (same : Bool)
  | user (user : User)
  | users (users : List User)
  | count (n : Nat)
  | credential (credential : Credential)
  | hash (hash : PasswordHash)
  | capacity (n : Nat)
  | rows (users : List User) (credentials : List Credential)
  deriving DecidableEq, Repr

inductive Answer where
  | plain (result : Outcome Reply)
  /-- The end of a body, with the results of its steps. -/
  | ran (result : Outcome Reply) (steps : List (Outcome Reply))
  /-- The command names a context or a transaction that there is not. -/
  | unknownName

end IdentityVault.Session
