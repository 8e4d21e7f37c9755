import IdentityVault.Cipher.Sealer
import IdentityVault.CommandLine.Reader

/-! The commands of the tool, and how they are written on a command line. -/

namespace IdentityVault.CommandLine

/-- Where a cipher key comes from, and where output goes. -/
structure FileCipher where
  input : String
  out : Option String
  mode : SealMode
  key : Option String

inductive Command where
  | keygen (bits : Option Nat) (format : String) (out store key : Option String)
  | convert (input format : String) (out : Option String)
  | exportKey (path format : String) (out key : Option String)
  | remove (path : String)
  | hashPassword (password : Option String) (cost : Option UInt32)
  | verifyPassword (hash : String) (password : Option String)
  | encrypt (cipher : FileCipher)
  | decrypt (cipher : FileCipher)

/-- A command, and the file with the settings for it. -/
structure Invocation where
  config : Option String
  verbose : Bool
  command : Command

namespace Invocation

/-! ### What can be given -/

def shared : List Argument :=
  [(Argument.option "config" .path).withVariable "AUTHKIT_CONFIG", .flag "verbose" 'v' .stands,
    .flag "help" 'h' (.ends .help)]

def keyOption : Argument := (Argument.option "key" .text).withVariable "AUTHKIT_CIPHER_KEY"

def passwordOption : Argument := (Argument.option "password" .text).withVariable "AUTHKIT_PASSWORD"

def inputOption : Argument := ((Argument.option "in" .path).withShort 'i').mandatory

def outOption : Argument := (Argument.option "out" .path).withShort 'o'

def ownArguments : String → List Argument
  | "keygen" => [.option "bits" .word64, .option "format" .text, outOption, .option "store" .text, keyOption]
  | "convert" => [inputOption, (Argument.option "format" .text).mandatory, outOption]
  | "export" => [.positional "path" .text, .option "format" .text, outOption, keyOption]
  | "remove" => [.positional "path" .text]
  | "hash-password" => [passwordOption, .option "cost" .word32]
  | "verify-password" => [(Argument.option "hash" .text).mandatory, passwordOption]
  | "encrypt" | "decrypt" => [inputOption, outOption, .option "mode" (.choice ["cfb", "gcm"]), keyOption]
  | _ => []

def names : List String :=
  ["keygen", "convert", "export", "remove", "hash-password", "verify-password", "encrypt", "decrypt"]

/-- What is understood before a command. -/
def top : Level := ⟨shared ++ [.flag "version" 'V' (.ends .version)], names ++ ["help"]⟩

def level (name : String) : Level := ⟨ownArguments name ++ shared, []⟩

/-! ### What was given -/

def required (v : Values) (key : String) : Except Usage String :=
  match v.text? key with
  | some s => .ok s
  | none => .error .missingArgument

def standardFormat : String := "pem"

def formatOf (v : Values) : String := (v.text? "format").getD standardFormat

def cipherOf (v : Values) : Except Usage FileCipher := do
  pure ⟨← required v "in", v.text? "out", if v.text? "mode" = some "gcm" then .gcm else .cfb, v.text? "key"⟩

def commandOf (name : String) (v : Values) : Except Usage Command :=
  match name with
  | "keygen" => .ok (.keygen (v.number? "bits") (formatOf v) (v.text? "out") (v.text? "store") (v.text? "key"))
  | "convert" => do pure (.convert (← required v "in") (formatOf v) (v.text? "out"))
  | "export" => do pure (.exportKey (← required v "path") (formatOf v) (v.text? "out") (v.text? "key"))
  | "remove" => do pure (.remove (← required v "path"))
  | "hash-password" => .ok (.hashPassword (v.text? "password") ((v.number? "cost").map UInt32.ofNat))
  | "verify-password" => do pure (.verifyPassword (← required v "hash") (v.text? "password"))
  | "encrypt" => do pure (.encrypt (← cipherOf v))
  | "decrypt" => do pure (.decrypt (← cipherOf v))
  | _ => .error .unknownCommand

def helpOn : List String → Usage
  | [] => .help
  | [name] => if top.commands.contains name then .help else .unknownCommand
  | _ => .unknownCommand

/-- Reads a command line. Behind a command, the shared arguments win over those before it, and all that are given win
    over the environment. -/
def parse (environment : String → Option String) (arguments : List String) : Except Usage Invocation := do
  match ← Reading.start.arguments top arguments with
  | (_, some ("help", rest)) => throw (helpOn rest)
  | (outer, some (name, rest)) =>
    let (inner, _) ← Reading.start.arguments (level name) rest
    let values ← Values.ofReading (level name) environment inner
    values.complete (level name)
    let before ← Values.ofReading top environment outer
    let config := ((values.given? "config").or (before.given? "config")).or (values.standIn? "config")
    pure {
      config := match config with
        | some (.text s) => some s
        | _ => none
      verbose := (values.given? "verbose").isSome || (before.given? "verbose").isSome
      command := ← commandOf name values }
  | (outer, none) =>
    let v ← Values.ofReading top environment outer
    throw (if v.given.isEmpty && v.standIns.isEmpty then .helpInstead else .missingCommand)

end Invocation
end IdentityVault.CommandLine
