import IdentityVault.Directory
import IdentityVault.Session.Command
import IdentityVault.World.Basic

/-! Sessions: contexts and transactions under names, used side by side in one world. -/

namespace IdentityVault

structure Session where
  world : World
  directory : Directory
  contexts : List (String × Context)
  transactions : List (String × TxId)
  deriving DecidableEq, Repr

namespace Session

def new (w : World) (d : Directory) : Session := ⟨w, d, [], []⟩

def named? {α : Type} (name : String) (l : List (String × α)) : Option α := (l.find? (·.1 == name)).map (·.2)

def put {α : Type} (name : String) (a : α) (l : List (String × α)) : List (String × α) :=
  (name, a) :: l.filter (·.1 != name)

def without {α : Type} (name : String) (l : List (String × α)) : List (String × α) := l.filter (·.1 != name)

end Session

/-- A computation in a session, unless it crashes. -/
abbrev InSession := StateT Session (Except Crash)

namespace InSession

/-- Does something in the world of the session. -/
def inWorld {α : Type} (m : InWorld α) : InSession α := fun s => do
  let (a, w) ← m s.world
  pure (a, { s with world := w })

/-- Does something to the database, without delays and faults. -/
def onDatabase {α : Type} (f : Database → α × Database) : InSession α :=
  inWorld (modifyGet fun w => let (a, d) := f w.database; (a, { w with database := d }))

def now : InSession Instant := do pure (← get).world.clock

/-- Puts a context under a name and gives up the one that was there. -/
def putContext (s : Surroundings) (name : String) (c : Context) : InSession Unit := do
  let old := Session.named? name (← get).contexts
  modify fun t => { t with contexts := Session.put name c t.contexts }
  match old with
  | some o => inWorld (o.drop.inWorld s)
  | none => pure ()

/-- Changes the context under a name, which keeps its transaction. -/
def setContext (name : String) (c : Context) : InSession Unit :=
  modify fun t => { t with contexts := Session.put name c t.contexts }

end InSession
end IdentityVault
