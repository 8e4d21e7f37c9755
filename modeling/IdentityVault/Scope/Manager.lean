import IdentityVault.Scope.Context

/-! The life of scopes: they are begun in a child of a context, and finished at most once, by a commit or a
    rollback. -/

namespace IdentityVault

/-- Begins and finishes scopes, each of which is given a limited time to live. -/
structure ScopeManager where
  timeout : Option Duration
  deriving DecidableEq, Repr

namespace ScopeManager

/-- Opens a transaction in a child of `parent`, which must not have a scope itself. -/
def begin (m : ScopeManager) (parent : Context) : Action Context :=
  if parent.scope.isSome then throw .transactionBound
  else do
    let t ← Action.attempt (.begin parent.deadline)
    let child := parent.bind (← Action.ask .freshToken) t
    match m.timeout with
    | none => pure child
    | some limit =>
      match child.withTimeout? (← Action.ask .now) limit with
      | some child => pure child
      | none => ExceptT.lift (do child.drop; .crash .clockOverflow)

/-- Commits the scope of a context, which is finished also if that fails. -/
def commit (c : Context) : Program Effect (Outcome Unit × Context) :=
  match c.tx with
  | .ok t => do pure (← .perform (.commit t), c.finished)
  | .error f => pure (.error f, c)

/-- Rolls the scope of a context back. A scope that is finished already is left alone. -/
def rollback (c : Context) : Program Effect (Outcome Unit × Context) :=
  match c.tx with
  | .ok t => do pure (← .perform (.rollback t), c.finished)
  | .error .transactionFinalized => pure (.ok (), c)
  | .error f => pure (.error f, c)

/-- Finishes the scope of a body that has ended with `r`: it is committed if the body succeeded, and rolled back if
    it failed. A failing rollback does not hide the failure of the body. -/
def conclude {α : Type} (c : Context) : Outcome α → Program Effect (Outcome α)
  | .ok a => do
    match ← commit c with
    | (.ok (), _) => pure (.ok a)
    | (.error f, _) => pure (.error f)
  | .error f => do
    let _ ← rollback c
    pure (.error f)

/-- Runs a body in a scope of its own. The body yields its result and the context as it leaves it. -/
def run {α : Type} (m : ScopeManager) (parent : Context)
    (body : Context → Program Effect (Outcome α × Context)) : Action α := do
  let child ← m.begin parent
  ExceptT.mk do
    let (r, child) ← body child
    conclude child r

/-- Runs an action in a scope of its own, which the action leaves open. -/
def within {α : Type} (m : ScopeManager) (parent : Context) (action : Context → Action α) : Action α :=
  m.run parent fun c => do pure (← (action c).result, c)

end ScopeManager
end IdentityVault
