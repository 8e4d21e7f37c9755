import IdentityVault.Program
import IdentityVault.Store.Database
import IdentityVault.Text.Utf8
import IdentityVault.Time.Instant

/-! What scopes, gateways and the directory ask of their surroundings: time, fresh names, hashes, and transactions of
    a database that may be late or fail. -/

namespace IdentityVault

/-- A name that is given out once. -/
abbrev Token := Nat

/-- Why a program cannot go on, not even with a failure. -/
inductive Crash where
  /-- A deadline lies behind the last point of the clock. -/
  | clockOverflow
  /-- A database is to have more connections than can be counted. -/
  | poolTooLarge
  deriving DecidableEq, Repr

/-- What a task of its own ends with, or what is reported of it when it breaks down. -/
abbrev TaskResult (α : Type) := Except String (Outcome α)

/-- The effects that programs on a database can ask for. -/
inductive Effect : Type → Type 1 where
  | now : Effect Instant
  | freshToken : Effect Token
  | timestamp : Effect Timestamp
  | freshId : Effect (Outcome Id)
  /-- Hashes a secret in a task of its own. -/
  | hash (secret : Bytes) : Effect (TaskResult Bytes)
  /-- Compares a stored hash with a secret in a task of its own. -/
  | compare (stored secret : Bytes) : Effect (TaskResult Unit)
  | begin (deadline : Option Instant) : Effect (Outcome TxId)
  | commit (tx : TxId) : Effect (Outcome Unit)
  | rollback (tx : TxId) : Effect (Outcome Unit)
  /-- Gives up a transaction that is neither committed nor rolled back. -/
  | release (tx : TxId) : Effect Unit
  | query {α : Type} (deadline : Option Instant) (tx : TxId) (question : Query α) : Effect (Outcome α)
  | crash (cause : Crash) : Effect Empty

/-- A program on a database that can fail. -/
abbrev Action (α : Type) : Type 1 := ExceptT Failure (Program Effect) α

namespace Action

def ask {α : Type} (e : Effect α) : Action α := ExceptT.lift (Program.perform e)

def attempt {α : Type} (e : Effect (Outcome α)) : Action α := ExceptT.mk (Program.perform e)

def ofOutcome {α : Type} (r : Outcome α) : Action α := ExceptT.mk (pure r)

def result {α : Type} (a : Action α) : Program Effect (Outcome α) := a.run

end Action

/-- The program that ends here. -/
def Program.crash {α : Type} (cause : Crash) : Program Effect α := .ask (.crash cause) nofun

end IdentityVault
