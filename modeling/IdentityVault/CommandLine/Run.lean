import IdentityVault.CommandLine.Fault
import IdentityVault.CommandLine.Invocation
import IdentityVault.Entropy
import IdentityVault.Gateway.Passwords
import IdentityVault.Object.Keys
import IdentityVault.Rsa.Generate
import IdentityVault.Settings.File
import IdentityVault.Text.Blank
import IdentityVault.Text.Hex

/-! Carrying out commands. -/

namespace IdentityVault.CommandLine

/-- A program with files that carries out a part of a command. -/
abbrev Task (α : Type) : Type 1 := ExceptT Fault (Program FileEffect) α

/-- Where settings and keys are when nothing else is said. -/
structure Defaults where
  settingsFile : FilePath
  keyDirectory : FilePath
  deriving DecidableEq, Repr

namespace Task

def ofExcept {α : Type} (r : Except Fault α) : Task α := ExceptT.mk (pure r)

def ofOutcome {α : Type} (r : Outcome α) : Task α := ofExcept (r.mapError .core)

/-- A program with files, the failure of which becomes a fault. -/
def lift {α : Type} (fault : Failure → Fault) (a : FileAction α) : Task α :=
  ExceptT.mk do pure ((← a.run).mapError fault)

/-- A program that changes what is kept, of which only the result matters. -/
def change {σ : Type} (p : Program FileEffect (Outcome Unit × σ)) : Task Unit :=
  ExceptT.mk do pure ((← p).1.mapError .core)

end Task

def formatOf (name : String) : Except Fault Rsa.KeyFormat :=
  match Rsa.KeyFormat.parse name with
  | .unsupported => .error (.unsupportedFormat name)
  | f => .ok f

/-- The cipher key that a hexadecimal text stands for. Blanks around it do not count. -/
def cipherKey (given : Option String) : Except Fault CipherKey :=
  match given with
  | none => .error .missingCipherKey
  | some t =>
    match Hex.decode (Text.utf8 (String.ofList (Text.trim t.toList))) with
    | .error f => .error (.invalidCipherKey f.message)
    | .ok b => (CipherKey.ofBytes b).mapError fun f => .invalidCipherKey f.message

def keyStore (d : Defaults) (s : Settings) (c : Option Sealer) : Task KeyStore := do
  let dir := match s.keys.dir with
    | some dir => dir.toList
    | none => d.keyDirectory
  pure ⟨← Task.lift .core (ObjectStore.load dir), c⟩

/-- The store of keys, with the cipher key if the settings want one. -/
def openKeyStore (d : Defaults) (s : Settings) (key : Option String) : Task KeyStore := do
  let store ← keyStore d s none
  if s.keys.sealed then pure { store with sealer := some ⟨.gcm, ← Task.ofExcept (cipherKey key)⟩ }
  else pure store

def writeOutput (out : Option String) (b : Bytes) : Task Unit :=
  match out with
  | some file => Task.lift .io (FileAction.attempt (.write file.toList b))
  | none => ExceptT.lift (Program.perform (.print b))

def readPassword (given : Option String) : Task Password := do
  let text ← match given with
    | some t => pure t
    | none => Task.lift .io (FileAction.attempt .askPassword)
  Task.ofOutcome (Password.parse text)

def hashPassword (s : HashSettings) (p : Password) : Task PasswordHash := do
  let salt ← ExceptT.lift (Program.perform (.random HashSettings.saltWidth))
  Task.ofOutcome (Passwords.hashOf (.ok (s.generate salt (Text.utf8 p.text))))

/-- The cipher of a command, and the content of its file. -/
def cipherInput (c : FileCipher) : Task (Sealer × Bytes) := do
  let key ← Task.ofExcept (cipherKey c.key)
  pure (⟨c.mode, key⟩, ← Task.lift .io (FileAction.attempt (.read c.input.toList)))

namespace Command

def run (d : Defaults) (s : Settings) : Command → Task Unit
  | keygen bits format out store key => do
    let format ← Task.ofExcept (formatOf format)
    let seed ← ExceptT.lift (Program.perform (.random 64))
    let k ← Task.ofOutcome (Rsa.generate (bits.getD s.rsa.defaultBits.toNat) (Entropy.ofSeed seed))
    match store with
    | some path => do
      let keys ← openKeyStore d s key
      Task.change (keys.save path k)
    | none => pure ()
    writeOutput out (← Task.ofOutcome (k.serialize format))
  | convert input format out => do
    let format ← Task.ofExcept (formatOf format)
    let k ← Task.lift .core (KeyStore.keyInFile input.toList)
    writeOutput out (← Task.ofOutcome (k.serialize format))
  | exportKey path format out key => do
    let format ← Task.ofExcept (formatOf format)
    let keys ← openKeyStore d s key
    let k ← Task.lift .core (keys.read path)
    writeOutput out (← Task.ofOutcome (k.serialize format))
  | remove path => do
    let keys ← keyStore d s none
    Task.change (keys.remove path)
  | hashPassword password cost => do
    let password ← readPassword password
    let h ← CommandLine.hashPassword { s.hasher with cost := cost.getD s.hasher.cost } password
    writeOutput none (Text.utf8 (h.text ++ "\n"))
  | verifyPassword hash password => do
    let h ← Task.ofOutcome (PasswordHash.parse hash)
    let password ← readPassword password
    match s.hasher.compare (Text.utf8 h.text) (Text.utf8 password.text) with
    | .ok () => writeOutput none (Text.utf8 "ok\n")
    | .error _ => throw .passwordMismatch
  | encrypt c => do
    let (cipher, plain) ← cipherInput c
    let seed ← ExceptT.lift (Program.perform (.random c.mode.seedWidth))
    writeOutput c.out (← Task.ofOutcome (cipher.encrypt seed plain))
  | decrypt c => do
    let (cipher, stored) ← cipherInput c
    writeOutput c.out (← Task.ofOutcome (cipher.decrypt stored))

end Command

/-- Reads a command line, then the settings, and then carries the command out. -/
def run (d : Defaults) (environment : String → Option String) (arguments : List String) : Task Unit := do
  let i ← Task.ofExcept ((Invocation.parse environment arguments).mapError .usage)
  let file := match i.config with
    | some c => c.toList
    | none => d.settingsFile
  let settings ← Task.lift .settings (SettingsFile.load file)
  i.command.run d settings.settings

end IdentityVault.CommandLine
