import IdentityVault.Session.Request

/-! Carrying out the commands of a session. -/

namespace IdentityVault.Session

def stateOf (c : Context) (now : Instant) : ContextState :=
  ⟨c.isBound, c.scope.isSome, c.deadline.map (· - now)⟩

/-- A context with new limits. -/
def Limits.apply (l : Limits) (now : Instant) (c : Context) : Except Crash Context := do
  let c ← match l.timeout with
    | none => pure c
    | some t => match c.withTimeout? now t with
      | some c => pure c
      | none => throw .clockOverflow
  pure (match l.deadline with
    | none => c
    | some d => c.withDeadline (now + d))

/-- The rows of a database, read in a transaction of their own. -/
def dumpRows (d : Database) : Outcome Reply × Database :=
  match d.begin with
  | (.error f, d) => (.error f, d)
  | (.ok t, d) =>
    match d.tx? t with
    | none => (.error .transactionFinalized, d)
    | some x =>
      let users := x.snapshot.list .all
      (.ok (.rows users (users.filterMap fun u => x.snapshot.credentialOf? u.id)), d.release t)

end Session

namespace InSession

variable (s : Surroundings)

def program {α : Type} (p : Program Effect α) : InSession α := inWorld (p.inWorld s)

def action {α : Type} (a : Action α) : InSession (Outcome α) := program s a.result

def newContext : InSession Context := do pure (.background (← program s (.perform .freshToken)))

def row (t : TxId) (r : Session.RowRequest) : InSession (Outcome Session.Reply) :=
  (r.perform fun q => ExceptT.mk (onDatabase (·.query t q))).run

/-- Puts a question to the rows in the scope of a context. -/
def rowIn (c : Context) (r : Session.RowRequest) : InSession (Outcome Session.Reply) :=
  match c.tx with
  | .error f => pure (.error f)
  | .ok t => row t r

/-- Carries out a step of a body. -/
def inner (c : Context) : Session.InnerCommand → InSession (Outcome Session.Reply × Context)
  | .request r => do pure (← action s (r.perform c), c)
  | .row r => do pure (← rowIn c r, c)
  | .commit => do
    let (r, c) ← program s (ScopeManager.commit c)
    pure (r.map fun _ => .done, c)
  | .rollback => do
    let (r, c) ← program s (ScopeManager.rollback c)
    pure (r.map fun _ => .done, c)
  | .state => do pure (.ok (.state (Session.stateOf c (← now))), c)
  | .transaction => pure (c.tx.map fun _ => .done, c)
  | .begin => do
    match ← action s ((← get).directory.scopes.begin c) with
    | .ok child => do
      program s child.drop
      pure (.ok (.state (Session.stateOf child (← now))), c)
    | .error f => pure (.error f, c)
  | .pass d => do
    inWorld (modify (·.pass d))
    pure (.ok .done, c)

/-- Carries out the steps of a body until one fails that is not ignored. The result is that of the body. -/
def body (failure : Option Failure) : List Session.InnerStep → Context →
    InSession (Outcome Session.Reply × List (Outcome Session.Reply) × Context)
  | [], c => pure (match failure with | some f => .error f | none => .ok .done, [], c)
  | step :: rest, c => do
    let (r, c) ← inner s c step.command
    match r, step.ignored with
    | .error f, false => pure (.error f, [r], c)
    | _, _ =>
      let (result, results, c) ← body failure rest c
      pure (result, r :: results, c)

/-- Runs a body in a scope of its own. -/
def run (parent : Context) (steps : List Session.InnerStep) (failure : Option Failure) :
    InSession Session.Answer := do
  match ← action s ((← get).directory.scopes.begin parent) with
  | .error f => pure (.ran (.error f) [])
  | .ok c => do
    let (result, results, c) ← body s failure steps c
    pure (.ran (← program s (ScopeManager.conclude c result)) results)

/-- The context under a name, or a new one where no name is given. -/
def contextOr? (name : Option String) : InSession (Option Context) :=
  match name with
  | none => some <$> newContext s
  | some n => do pure (Session.named? n (← get).contexts)

/-- Goes on with the context under a name. -/
def withContext (name : String) (f : Context → InSession Session.Answer) : InSession Session.Answer := do
  match Session.named? name (← get).contexts with
  | some c => f c
  | none => pure .unknownName

/-- Ends the transaction under a name. -/
def finishTransaction (name : String) (f : TxId → Database → Outcome Unit × Database) :
    InSession Session.Answer := do
  match Session.named? name (← get).transactions with
  | none => pure .unknownName
  | some t =>
    modify fun u => { u with transactions := Session.without name u.transactions }
    pure (.plain ((← onDatabase (f t)).map fun _ => .done))

def stateAnswer (c : Context) : InSession Session.Answer := do
  pure (.plain (.ok (.state (Session.stateOf c (← now)))))

def perform : Session.Command → InSession Session.Answer
  | .newContext name limits => do
    let c ← limits.apply (← now) (← newContext s)
    putContext s name c
    stateAnswer c
  | .limit name limits => withContext name fun c => do
    let c ← limits.apply (← now) c
    setContext name c
    stateAnswer c
  | .state name => withContext name stateAnswer
  | .transaction name => withContext name fun c => pure (.plain (c.tx.map fun _ => .done))
  | .dropContext name => withContext name fun c => do
    modify fun u => { u with contexts := Session.without name u.contexts }
    program s c.drop
    pure (.plain (.ok .done))
  | .compareContexts a b => withContext a fun c => withContext b fun d =>
    pure (.plain (.ok (.sameContexts (c.request == d.request) (c.scope.map (·.token) == d.scope.map (·.token)))))
  | .begin name parent => do
    match ← contextOr? s parent with
    | none => pure .unknownName
    | some p =>
      match ← action s ((← get).directory.scopes.begin p) with
      | .error f => pure (.plain (.error f))
      | .ok c => do
        putContext s name c
        stateAnswer c
  | .commit name => withContext name fun c => do
    let (r, c) ← program s (ScopeManager.commit c)
    setContext name c
    pure (.plain (r.map fun _ => .done))
  | .rollback name => withContext name fun c => do
    let (r, c) ← program s (ScopeManager.rollback c)
    setContext name c
    pure (.plain (r.map fun _ => .done))
  | .pass d => do
    inWorld (modify (·.pass d))
    pure (.plain (.ok .done))
  | .request name r => withContext name fun c => do pure (.plain (← action s (r.perform c)))
  | .row on r => do
    match Session.named? on (← get).transactions with
    | some t => pure (.plain (← row t r))
    | none => withContext on fun c => do pure (.plain (← rowIn c r))
  | .openTransaction name => do
    match ← onDatabase Database.begin with
    | .error f => pure (.plain (.error f))
    | .ok t => do
      let old := Session.named? name (← get).transactions
      modify fun u => { u with transactions := Session.put name t u.transactions }
      match old with
      | some o => onDatabase fun d => ((), d.release o)
      | none => pure ()
      pure (.plain (.ok .done))
  | .commitTransaction name => finishTransaction name fun t d => d.commit t
  | .rollbackTransaction name => finishTransaction name fun t d => d.rollback t
  | .dropTransaction name => finishTransaction name fun t d => (.ok (), d.release t)
  | .compareTransactions a b => do
    let named := (← get).transactions
    match Session.named? a named, Session.named? b named with
    | some t, some u => pure (.plain (.ok (.sameTransaction (t == u))))
    | _, _ => pure .unknownName
  | .use parent useCase => do
    match ← contextOr? s parent with
    | none => pure .unknownName
    | some p => pure (.plain (← action s (useCase.perform (← get).directory p)))
  | .run parent steps failure => do
    match ← contextOr? s parent with
    | none => pure .unknownName
    | some p => run s p steps failure
  | .hash password => do
    pure (.plain ((← action s ((Session.Secret.password password).resolve)).map .hash))
  | .compare hash password => do
    pure (.plain (← action s do
      let h ← Action.ofOutcome (PasswordHash.parse hash)
      let p ← Action.ofOutcome (Password.parse password)
      Passwords.compare h p
      pure .done))
  | .capacity => do pure (.plain (.ok (.capacity (← get).world.database.capacity)))
  | .dump => do pure (.plain (← onDatabase Session.dumpRows))

end InSession
end IdentityVault
