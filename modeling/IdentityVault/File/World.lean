import IdentityVault.Entropy
import IdentityVault.File.Effect

/-! A world in which programs with files run: a tree, the directory in which they run, and what they print. -/

namespace IdentityVault

structure FileWorld where
  tree : FileTree
  /-- Where paths start that are not absolute. -/
  base : List String
  printed : Bytes
  entropy : Entropy
  now : Timestamp
  deriving DecidableEq, Repr

namespace FileWorld

def new (base : List String) (entropy : Entropy) (now : Timestamp) : FileWorld :=
  ⟨FileTree.empty.withDirectories base, base, [], entropy, now⟩

def change (f : FileTree → Except FileFault FileTree) : StateM FileWorld (Except FileFault Unit) := do
  match f (← get).tree with
  | .ok tree => do
    modify fun w => { w with tree }
    pure (.ok ())
  | .error e => pure (.error e)

/-- What an effect does in a world. Time goes on by a nanosecond whenever it is read, and nobody is there to be
    asked. -/
def handle {β : Type} : FileEffect β → StateM FileWorld β
  | .status p => do
    let w ← get
    pure (match w.tree.status w.base p with
      | .ok .directory => some .directory
      | .ok (.file _) => some .file
      | .error _ => none)
  | .read p => do
    let w ← get
    pure (w.tree.read w.base p)
  | .write p b => do change (·.write (← get).base p b)
  | .rename p q => do change (·.rename (← get).base p q)
  | .remove p => do change (·.remove (← get).base p)
  | .makeDirectory p => do change (·.makeDirectory (← get).base p)
  | .timestamp => modifyGet fun w => (w.now, { w with now := w.now.addNanos 1 })
  | .random n => modifyGet fun w => let (b, entropy) := w.entropy.take n; (b, { w with entropy })
  | .print b => modify fun w => { w with printed := w.printed ++ b }
  | .askPassword => pure (.error .missing)

end FileWorld

def Program.inFiles {α : Type} (p : Program FileEffect α) : StateM FileWorld α := p.run FileWorld.handle

end IdentityVault
