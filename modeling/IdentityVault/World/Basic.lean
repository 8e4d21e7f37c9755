import IdentityVault.Scope.Effect

/-! A world in which programs run: a clock that only moves while something waits, a database, and a record of the
    calls that were made of it. How long calls take and which of them fail is fixed beforehand. -/

namespace IdentityVault

/-- The calls of a database that can be late or fail. -/
inductive Call where
  | begin
  | commit
  | rollback
  | user
  | users
  | countUsers
  | insertUser
  | updateUser
  | credentialOf
  | credentialByEmail
  | insertCredential
  | updateCredential
  deriving DecidableEq, Repr

/-- The call that puts a question to the row store. -/
def Query.call {α : Type} : Query α → Call
  | .user _ => .user
  | .users _ => .users
  | .countUsers _ => .countUsers
  | .insertUser _ => .insertUser
  | .updateUser _ => .updateUser
  | .credentialOf _ => .credentialOf
  | .credentialByEmail _ => .credentialByEmail
  | .insertCredential _ => .insertCredential
  | .updateCredential _ => .updateCredential

/-- How secrets are hashed and checked. -/
structure Hasher where
  /-- The hash of a secret, by the number of hashes before. -/
  hash : Nat → Bytes → TaskResult Bytes
  compare : Bytes → Bytes → TaskResult Unit

/-- What a world does not decide by itself. Calls of one kind are counted from zero. -/
structure Surroundings where
  /-- How long a call waits before it acts, by the number of calls of its kind that were made before. -/
  delay : Call → Nat → Duration
  /-- The failure of a call, by the number of calls of its kind that came past their delay before. -/
  fault : Call → Nat → Option Failure
  /-- The ids in the order in which they are given out. -/
  id : Nat → Outcome Id
  /-- The points in civil time in the order in which they are read. -/
  timestamp : Nat → Timestamp
  hasher : Hasher

inductive Ending where
  /-- The deadline of the caller passed before the call could act. -/
  | cutOff
  | failed
  | succeeded
  deriving DecidableEq, Repr

structure Visit where
  call : Call
  start : Instant
  finish : Instant
  ending : Ending
  deriving DecidableEq, Repr

structure World where
  clock : Instant
  database : Database
  /-- The calls that were made, the last one first. -/
  visits : List Visit
  /-- The numbers of names, ids, points in civil time and hashes that were given out. -/
  tokens : Nat
  ids : Nat
  timestamps : Nat
  hashes : Nat
  deriving DecidableEq, Repr

namespace World

def new (d : Database) : World := ⟨0, d, [], 0, 0, 0, 0⟩

def made (w : World) (c : Call) : Nat := w.visits.countP (·.call == c)

/-- The number of calls of a kind that came past their delay. -/
def acted (w : World) (c : Call) : Nat := w.visits.countP fun v => v.call == c && v.ending != .cutOff

/-- The number of calls of a kind that succeeded. -/
def succeeded (w : World) (c : Call) : Nat := w.visits.countP fun v => v.call == c && v.ending == .succeeded

def pass (w : World) (d : Duration) : World := { w with clock := w.clock + d }

/-- Makes a call, for no longer than until the deadline. `act` says what the call does to the database, where it
    fails and where it does not. -/
def visit {α : Type} (s : Surroundings) (c : Call) (deadline : Option Instant)
    (act : Option Failure → Database → Outcome α × Database) (w : World) : Outcome α × World :=
  match Wait.within deadline w.clock (s.delay c (w.made c)) with
  | .late => (.error .deadlineExceeded, w)
  | .cutOff t =>
    (.error .deadlineExceeded, { w with clock := t, visits := ⟨c, w.clock, t, .cutOff⟩ :: w.visits })
  | .completed t =>
    let (r, database) := act (s.fault c (w.acted c)) w.database
    let ending := if r.isOk then .succeeded else .failed
    (r, { w with clock := t, database, visits := ⟨c, w.clock, t, ending⟩ :: w.visits })

/-- A call that leaves the database alone where it fails. -/
def orFail {α : Type} (act : Database → Outcome α × Database) : Option Failure → Database → Outcome α × Database
  | none, d => act d
  | some f, d => (.error f, d)

/-- A call that ends a transaction also where it fails. -/
def orRelease (tx : TxId) (act : Database → Outcome Unit × Database) :
    Option Failure → Database → Outcome Unit × Database
  | none, d => act d
  | some f, d => (.error f, d.release tx)

end World

/-- A computation in a world, unless it crashes. -/
abbrev InWorld := StateT World (Except Crash)

namespace InWorld

/-- What an effect does in a world. -/
def handle (s : Surroundings) {β : Type} : Effect β → InWorld β
  | .now => do pure (← get).clock
  | .freshToken => modifyGet fun w => (w.tokens, { w with tokens := w.tokens + 1 })
  | .timestamp => modifyGet fun w => (s.timestamp w.timestamps, { w with timestamps := w.timestamps + 1 })
  | .freshId => modifyGet fun w => (s.id w.ids, { w with ids := w.ids + 1 })
  | .hash secret => modifyGet fun w => (s.hasher.hash w.hashes secret, { w with hashes := w.hashes + 1 })
  | .compare stored secret => pure (s.hasher.compare stored secret)
  | .begin deadline => modifyGet (World.visit s .begin deadline (World.orFail Database.begin))
  | .commit t => modifyGet (World.visit s .commit none (World.orRelease t (·.commit t)))
  | .rollback t => modifyGet (World.visit s .rollback none (World.orRelease t (·.rollback t)))
  | .release t => modify fun w => { w with database := w.database.release t }
  | .query deadline t q => modifyGet (World.visit s q.call deadline (World.orFail (·.query t q)))
  | .crash cause => throw cause

end InWorld

def Program.inWorld {α : Type} (s : Surroundings) (p : Program Effect α) : InWorld α := p.run (InWorld.handle s)

end IdentityVault
