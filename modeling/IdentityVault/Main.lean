import IdentityVault.CommandLine.Run
import Std.Time.DateTime.Timestamp

/-! The tool on the command line: what programs with files ask for is done for them here. -/

namespace IdentityVault.Main

/-- A fault that the system reports. -/
def faultOf : IO.Error → FileFault
  | .noFileOrDirectory .. => .missing
  | .alreadyExists .. => .alreadyExists
  | .inappropriateType .. => .notDirectory
  | _ => .invalidPath

def attempt {α : Type} (a : IO α) : IO (Except FileFault α) := do
  try pure (.ok (← a)) catch e => pure (.error (faultOf e))

def statusOf (path : FilePath) : IO (Option FileKind) := do
  match ← attempt ((← IO.currentDir) / String.ofList path).metadata with
  | .ok m => pure (some (if m.type == .dir then .directory else .file))
  | .error _ => pure none

def typedLine : IO String := do
  IO.eprint "Password: "
  let line ← (← IO.getStdin).getLine
  pure (String.ofList (line.toList.filter fun c => c ≠ '\n' && c ≠ '\r'))

/-- Does what a program asks for. -/
def handle {β : Type} : FileEffect β → IO β
  | .status p => statusOf p
  | .read p => attempt do pure (← IO.FS.readBinFile (String.ofList p)).toList
  | .write p b => attempt (IO.FS.writeBinFile (String.ofList p) ⟨b.toArray⟩)
  | .rename p q => attempt (IO.FS.rename (String.ofList p) (String.ofList q))
  | .remove p => attempt (IO.FS.removeFile (String.ofList p))
  | .makeDirectory p => attempt (IO.FS.createDir (String.ofList p))
  | .timestamp => do
    let t ← Std.Time.Timestamp.now
    pure ⟨t.val.second.val, t.val.nano.val.toNat⟩
  | .random n => do pure (← IO.getRandomBytes n.toUSize).toList
  | .print b => do
    let out ← IO.getStdout
    out.write ⟨b.toArray⟩
    out.flush
  | .askPassword => attempt typedLine

/-- A directory of the person who runs the tool, which a variable of the environment can move. -/
def personal (environment : String → Option String) (variableName usual : String) : FilePath :=
  match environment variableName with
  | some d => d.toList
  | none => FilePath.join ((environment "HOME").getD "").toList usual.toList

def defaults (environment : String → Option String) : CommandLine.Defaults where
  settingsFile := (personal environment "XDG_CONFIG_HOME" ".config").join "authkit/settings.json".toList
  keyDirectory := (personal environment "XDG_DATA_HOME" ".local/share").join "authkit/keys".toList

def variableNames : List String :=
  ["AUTHKIT_CONFIG", "AUTHKIT_CIPHER_KEY", "AUTHKIT_PASSWORD", "HOME", "XDG_CONFIG_HOME", "XDG_DATA_HOME"]

/-- What the tool can do, in short. -/
def help : String :=
  "Usage: authkit [--config <file>] [-v] <command>\n\nCommands: " ++
    String.intercalate ", " CommandLine.Invocation.names

/-- Tells what went wrong, and yields the exit code. -/
def report : CommandLine.Fault → IO UInt32
  | .usage .help => do
    IO.println help
    pure 0
  | .usage .version => do
    IO.println "authkit"
    pure 0
  | .usage .helpInstead => do
    IO.eprintln help
    pure 2
  | f@(.usage _) => do
    IO.eprintln f.message
    pure 2
  | f => do
    IO.eprintln ("Error: " ++ f.message)
    pure 1

end IdentityVault.Main

open IdentityVault in
def main (arguments : List String) : IO UInt32 := do
  let found ← Main.variableNames.filterMapM fun v => do pure ((← IO.getEnv v).map fun s => (v, s))
  let environment (v : String) : Option String := (found.find? (·.1 == v)).map (·.2)
  match ← ((CommandLine.run (Main.defaults environment) environment arguments).run).run Main.handle with
  | .ok () => pure 0
  | .error f => Main.report f
