import IdentityVault.Failure
import IdentityVault.File.Tree
import IdentityVault.Program
import IdentityVault.Time.Timestamp

/-! What programs with files ask of their surroundings. -/

namespace IdentityVault

inductive FileKind where
  | directory
  | file
  deriving DecidableEq, Repr

inductive FileEffect : Type → Type where
  | status (path : FilePath) : FileEffect (Option FileKind)
  | read (path : FilePath) : FileEffect (Except FileFault Bytes)
  | write (path : FilePath) (content : Bytes) : FileEffect (Except FileFault Unit)
  | rename (source target : FilePath) : FileEffect (Except FileFault Unit)
  | remove (path : FilePath) : FileEffect (Except FileFault Unit)
  | makeDirectory (path : FilePath) : FileEffect (Except FileFault Unit)
  | timestamp : FileEffect Timestamp
  | random (n : Nat) : FileEffect Bytes
  | print (content : Bytes) : FileEffect Unit
  /-- Asks a person for a password. -/
  | askPassword : FileEffect (Except FileFault String)

/-- A program with files that can fail. -/
abbrev FileAction (α : Type) : Type 1 := ExceptT Failure (Program FileEffect) α

namespace FileFault

def failure (f : FileFault) : Failure :=
  .io (match f with
    | missing => "No such file or directory (os error 2)"
    | notDirectory => "Not a directory (os error 20)"
    | isDirectory => "Is a directory (os error 21)"
    | alreadyExists => "File exists (os error 17)"
    | nameTooLong => "File name too long (os error 36)"
    | invalidPath => "invalid path"
    | notText => "stream did not contain valid UTF-8")

end FileFault

namespace FileAction

def ask {α : Type} (e : FileEffect α) : FileAction α := ExceptT.lift (Program.perform e)

def attempt {α : Type} (e : FileEffect (Except FileFault α)) : FileAction α :=
  ExceptT.mk do pure ((← Program.perform e).mapError FileFault.failure)

def ofOutcome {α : Type} (r : Outcome α) : FileAction α := ExceptT.mk (pure r)

def isPresent (p : FilePath) : FileAction Bool := do pure (← ask (.status p)).isSome

/-- A directory that is there already is as good as a new one, which the fault `f` prevented. -/
def unlessDirectory (p : FilePath) (f : FileFault) : FileAction Unit := do
  if (← ask (.status p)) = some .directory then pure () else throw f.failure

/-- Makes a directory, after the ones that it lies in where they are missing. -/
def makeDirectories (p : FilePath) : FileAction Unit := do
  if p = [] then pure ()
  else match ← ask (.makeDirectory p) with
    | .ok () => pure ()
    | .error .missing =>
      match _h : p.parent? with
      | none => throw FileFault.missing.failure
      | some dir => do
        makeDirectories dir
        match ← ask (.makeDirectory p) with
        | .ok () => pure ()
        | .error f => unlessDirectory p f
    | .error f => unlessDirectory p f
termination_by p.length
decreasing_by exact FilePath.length_parent? ‹_›

/-- Makes the directory in which a file is to lie. -/
def makeParent (p : FilePath) : FileAction Unit :=
  match p.parent? with
  | some dir => makeDirectories dir
  | none => pure ()

def readText (p : FilePath) : FileAction String := do
  match Text.ofUtf8? (← attempt (.read p)) with
  | some s => pure s
  | none => throw FileFault.notText.failure

/-- The path of the unfinished version of a file. -/
def unfinished (p : FilePath) : FilePath := p.withExtension ['t', 'm', 'p']

/-- Writes a file under another name first, and then puts it in its place. -/
def replace (p : FilePath) (content : Bytes) : FileAction Unit := do
  attempt (.write (unfinished p) content)
  attempt (.rename (unfinished p) p)

end FileAction
end IdentityVault
