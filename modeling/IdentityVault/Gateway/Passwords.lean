import IdentityVault.Scope.Effect

/-! Hashing and checking passwords. The work is done in a task of its own; if the task breaks down, that is a failure
    like others. -/

namespace IdentityVault.Passwords

/-- The outcome of the task with the given name. -/
def ofTask {α : Type} (name : String) : TaskResult α → Outcome α
  | .ok r => r
  | .error report => .error (.crypto (name ++ " task failed: " ++ report))

/-- The hash in an answer of the hasher, which must be a text and not empty. -/
def hashOf (answer : TaskResult Bytes) : Outcome PasswordHash := do
  match Text.readUtf8 (← ofTask "hash" answer) with
  | .ok s => PasswordHash.parse s
  | .error f => .error (.crypto ("hash is not UTF-8: " ++ f.message))

theorem hashOf_utf8 (t : String) : hashOf (.ok (.ok (Text.utf8 t))) = PasswordHash.parse t := by
  simp only [hashOf, ofTask, bind, Except.bind, Text.readUtf8_utf8]

def hash (p : Password) : Action PasswordHash := do
  Action.ofOutcome (hashOf (← Action.ask (.hash (Text.utf8 p.text))))

def compare (h : PasswordHash) (p : Password) : Action Unit := do
  Action.ofOutcome (ofTask "compare" (← Action.ask (.compare (Text.utf8 h.text) (Text.utf8 p.text))))

end IdentityVault.Passwords
