import IdentityVault.Gateway.Credentials
import IdentityVault.Gateway.Users
import IdentityVault.Proofs.World.Moment
import IdentityVault.Scope.Manager

/-! Workers at one database. Each has a context and a plan: what it does in the scope of the context, one deed after the
    other, where the next deed may depend on all answers so far. Workers take turns effect by effect, in any order, and
    each effect comes out as its moment has it. -/

namespace IdentityVault

/-- A call of a gateway, with the type of what it yields. -/
inductive GatewayCall : Type → Type where
  | user (id : Id) : GatewayCall User
  | users (filter : UserFilter) : GatewayCall (List User)
  | createUser (name : String) (email : Email) : GatewayCall User
  | updateUser (user : User) : GatewayCall User
  | credential (email : Email) : GatewayCall Credential
  | createCredential (request : CredentialRequest) : GatewayCall Credential
  | updateCredential (user : Id) (password : PasswordHash) : GatewayCall Credential
  | check (email : Email) (password : Password) : GatewayCall Credential

def GatewayCall.perform {α : Type} (c : Context) : GatewayCall α → Action α
  | .user id => Users.get c id
  | .users f => Users.list c f
  | .createUser name email => Users.create c name email
  | .updateUser u => Users.update c u
  | .credential email => Credentials.getByEmail c email
  | .createCredential request => Credentials.create c request
  | .updateCredential owner password => Credentials.update c owner password
  | .check email password => Credentials.check c email password

/-- What is done in a context, with the type of its answer. -/
inductive Deed : Type → Type 1 where
  /-- Goes on in a child of the context, with a scope of its own. -/
  | begin (m : ScopeManager) : Deed (Outcome Unit)
  | call {α : Type} (call : GatewayCall α) : Deed (Outcome α)
  /-- A question to the rows, past the gateways. -/
  | row {α : Type} (q : Query α) : Deed (Outcome α)
  | commit : Deed (Outcome Unit)
  | rollback : Deed (Outcome Unit)
  | drop : Deed Unit

/-- The program of a deed, which yields the answer and the context as it is left. -/
def Deed.perform {α : Type} (c : Context) : Deed α → Program Effect (α × Context)
  | .begin m => do
    match ← (m.begin c).result with
    | .ok child => pure (.ok (), child)
    | .error f => pure (.error f, c)
  | .call g => do pure (← (g.perform c).result, c)
  | .row q => do pure (← (c.query q).result, c)
  | .commit => ScopeManager.commit c
  | .rollback => ScopeManager.rollback c
  | .drop => do
    c.drop
    pure ((), c.finished)

/-- Deeds one after the other, as the answers have it. -/
abbrev Plan := Program Deed Unit

inductive Worker : Type 1 where
  /-- Between two deeds. -/
  | free (c : Context) (plan : Plan)
  /-- In the middle of a deed, with what is left of it. -/
  | busy {α : Type} (rest : Program Effect (α × Context)) (next : α → Plan)

/-- What a deed was answered. -/
structure Answer where
  {α : Type}
  value : α

/-- A worker takes up its next deed, does the next effect of the one that it is at, or gets the answer. A worker whose
    effect yields nothing does not go on. -/
def Worker.go (fits : Verifier) (m : Moment) (d : Database) : Worker → Worker × List Database.Op × List Answer
  | .free c (.done ()) => (.free c (.done ()), [], [])
  | .free c (.ask deed next) => (.busy (deed.perform c) next, [], [])
  | .busy (.done (a, c)) next => (.free c (next a), [], [⟨a⟩])
  | .busy (.ask e rest) next =>
    match e.answer fits m d with
    | some (b, ops) => (.busy (rest b) next, ops, [])
    | none => (.busy (.ask e rest) next, [], [])

structure Workplace where
  database : Database
  workers : List Worker
  /-- The answers that deeds got so far, with the places of their workers. -/
  answers : List (Nat × Answer)

namespace Workplace

inductive Turn where
  | join (c : Context) (plan : Plan)
  /-- The worker at a place goes on. -/
  | go (i : Nat) (m : Moment)

/-- Nobody works yet. -/
def new (d : Database) : Workplace := ⟨d, [], []⟩

/-- The worker at a place has become `worker`, for which `ops` were done. -/
def moved (w : Workplace) (i : Nat) (worker : Worker) (ops : List Database.Op) (answers : List Answer) : Workplace :=
  ⟨w.database.after ops, w.workers.set i worker, w.answers ++ answers.map (i, ·)⟩

def turn (fits : Verifier) (w : Workplace) : Turn → Workplace
  | .join c plan => { w with workers := w.workers ++ [.free c plan] }
  | .go i m =>
    match w.workers[i]? with
    | some worker =>
      let (worker, ops, answers) := worker.go fits m w.database
      w.moved i worker ops answers
    | none => w

def after (fits : Verifier) (w : Workplace) (turns : List Turn) : Workplace := turns.foldl (turn fits) w

variable {fits : Verifier} {w : Workplace}

@[simp]
theorem after_nil (w : Workplace) : w.after fits [] = w := rfl

@[simp]
theorem after_cons (w : Workplace) (turn : Turn) (turns : List Turn) :
    w.after fits (turn :: turns) = (w.turn fits turn).after fits turns := rfl

theorem after_append (w : Workplace) (turns more : List Turn) :
    w.after fits (turns ++ more) = (w.after fits turns).after fits more :=
  List.foldl_append

end Workplace
end IdentityVault
