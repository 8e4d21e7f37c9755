import IdentityVault.Scope.Effect

/-! The context of a request: a name, a deadline, and at most one scope, which is a transaction or what is left of
    one. -/

namespace IdentityVault

/-- A scope. Its transaction is gone once it was committed or rolled back, also when that failed. -/
structure Scope where
  token : Token
  tx : Option TxId
  deriving DecidableEq, Repr

structure Context where
  request : Token
  deadline : Option Instant
  scope : Option Scope
  deriving DecidableEq, Repr

namespace Context

/-- A context without deadline and scope. -/
def background (request : Token) : Context := ⟨request, none, none⟩

/-- A deadline is only moved to an earlier point. -/
def withDeadline (c : Context) (d : Instant) : Context :=
  { c with deadline := some (match c.deadline with | some e => min e d | none => d) }

/-- The context whose work must be done `t` after `now`, if the clock goes that far. -/
def withTimeout? (c : Context) (now : Instant) (t : Duration) : Option Context := (now.after? t).map c.withDeadline

def isBound (c : Context) : Bool := (c.scope.bind (·.tx)).isSome

/-- The open transaction of the context. -/
def tx (c : Context) : Outcome TxId :=
  match c.scope with
  | none => .error .noTransaction
  | some ⟨_, none⟩ => .error .transactionFinalized
  | some ⟨_, some t⟩ => .ok t

/-- The child of a context that holds `tx` in a new scope. -/
def bind (c : Context) (token : Token) (tx : TxId) : Context := { c with scope := some ⟨token, some tx⟩ }

/-- The context after its scope was finished. -/
def finished (c : Context) : Context := { c with scope := c.scope.map fun s => { s with tx := none } }

/-- Asks the open transaction of the context, until the deadline. -/
def query {α : Type} (c : Context) (q : Query α) : Action α := do
  let t ← Action.ofOutcome c.tx
  Action.attempt (.query c.deadline t q)

/-- Gives the context up, and with it the transaction that it still holds. -/
def drop (c : Context) : Program Effect Unit :=
  match c.scope.bind (·.tx) with
  | some t => .perform (.release t)
  | none => pure ()

end Context
end IdentityVault
