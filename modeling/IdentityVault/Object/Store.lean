import IdentityVault.File.Effect
import IdentityVault.Object.Index

/-! A store of objects in a directory. Each object is a file below `objects`; the index is kept in a file beside that
    directory, and is written anew whenever it changes. -/

namespace IdentityVault

structure ObjectStore where
  dir : FilePath
  index : ObjectIndex
  deriving DecidableEq, Repr

namespace ObjectStore

def name : String := "Local Directory Storage"

def objects (dir : FilePath) : FilePath := dir.join "objects".toList

def indexFile (dir : FilePath) : FilePath := dir.join "objects.json".toList

/-- Opens the store in a directory, which is made if it is missing, as its index says. -/
def load (dir : FilePath) : FileAction ObjectStore := do
  FileAction.makeDirectories (objects dir)
  if ← FileAction.isPresent (indexFile dir) then
    let text ← FileAction.readText (indexFile dir)
    pure ⟨dir, ← FileAction.ofOutcome (Json.decode ObjectIndex.ofJson? text)⟩
  else pure ⟨dir, .empty⟩

def isName : FilePath.Part → Bool
  | .name _ => true
  | _ => false

/-- The file of an object. No object lies outside the directory of objects. -/
def file (s : ObjectStore) (path : String) : Outcome FilePath :=
  let p : FilePath := path.toList
  if p ≠ [] ∧ p.parts.all isName then .ok ((objects s.dir).join p) else .error (.malformed (.objectPath path))

def get (s : ObjectStore) (path : String) : FileAction Bytes := do
  let file ← FileAction.ofOutcome (s.file path)
  match ← FileAction.ask (.read file) with
  | .ok b => pure b
  | .error .missing => throw .notFound
  | .error f => throw f.failure

def metadata (s : ObjectStore) (path : String) : Option ObjectMeta := s.index.get? path

def writeIndex (s : ObjectStore) : FileAction Unit :=
  FileAction.replace (indexFile s.dir) (Text.utf8 (ObjectIndex.toJson s.index).pretty)

/-- Writes the file of an object, and tells when that was. -/
def writeObject (s : ObjectStore) (path : String) (body : Bytes) : FileAction Timestamp := do
  let file ← FileAction.ofOutcome (s.file path)
  FileAction.makeParent file
  FileAction.replace file body
  FileAction.ask .timestamp

/-- Stores an object, over the one that was at the path. -/
def save (s : ObjectStore) (path : String) (mime : MimeType) (body : Bytes) :
    Program FileEffect (Outcome Unit × ObjectStore) := do
  match ← (s.writeObject path body).run with
  | .error f => pure (.error f, s)
  | .ok now =>
    let s := { s with index := s.index.insert path ⟨mime.name, UInt64.ofNat body.length, now⟩ }
    pure (← s.writeIndex.run, s)

/-- Removes the file of an object, if there is one. -/
def removeObject (s : ObjectStore) (path : String) : FileAction Unit := do
  let file ← FileAction.ofOutcome (s.file path)
  match ← FileAction.ask (.remove file) with
  | .ok () | .error .missing => pure ()
  | .error f => throw f.failure

/-- Removes an object. There need not be one. -/
def remove (s : ObjectStore) (path : String) : Program FileEffect (Outcome Unit × ObjectStore) := do
  match ← (s.removeObject path).run with
  | .error f => pure (.error f, s)
  | .ok () =>
    if (s.metadata path).isNone then pure (.ok (), s)
    else
      let s := { s with index := s.index.erase path }
      pure (← s.writeIndex.run, s)

end ObjectStore
end IdentityVault
