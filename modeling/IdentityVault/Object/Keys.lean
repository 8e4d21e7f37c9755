import IdentityVault.Cipher.Sealer
import IdentityVault.Object.Store
import IdentityVault.Rsa.KeyFile

/-! Private keys in an object store: as PEM files, which can be sealed before they are stored. -/

namespace IdentityVault

structure KeyStore where
  objects : ObjectStore
  sealer : Option Sealer

namespace KeyStore

def isSealed (s : KeyStore) : Bool := s.sealer.isSome

/-- The bytes that are stored of a key file, with their content type. -/
def lock (s : KeyStore) (pem : Bytes) : FileAction (MimeType × Bytes) :=
  match s.sealer with
  | none => pure (.pem, pem)
  | some c => do
    let seed ← FileAction.ask (.random c.mode.seedWidth)
    pure (.octetStream, ← FileAction.ofOutcome (c.encrypt seed pem))

/-- The key file in the bytes that were stored. -/
def unlock (s : KeyStore) (stored : Bytes) : Outcome Bytes :=
  match s.sealer with
  | none => .ok stored
  | some c => c.decrypt stored

def read (s : KeyStore) (path : String) : FileAction Rsa.PrivateKey := do
  let stored ← s.objects.get path
  FileAction.ofOutcome do Rsa.PrivateKey.parse (← s.unlock stored)

/-- Stores a key, over the object that was at the path. -/
def save (s : KeyStore) (path : String) (key : Rsa.PrivateKey) :
    Program FileEffect (Outcome Unit × KeyStore) := do
  let locked : FileAction (MimeType × Bytes) := do s.lock (← FileAction.ofOutcome (key.serialize .pem))
  match ← locked.run with
  | .error f => pure (.error f, s)
  | .ok (mime, body) =>
    let (r, objects) ← s.objects.save path mime body
    pure (r, { s with objects })

def remove (s : KeyStore) (path : String) : Program FileEffect (Outcome Unit × KeyStore) := do
  let (r, objects) ← s.objects.remove path
  pure (r, { s with objects })

def keyInFile (path : FilePath) : FileAction Rsa.PrivateKey := do
  let content ← FileAction.attempt (.read path)
  FileAction.ofOutcome (Rsa.PrivateKey.parse content)

end KeyStore
end IdentityVault
