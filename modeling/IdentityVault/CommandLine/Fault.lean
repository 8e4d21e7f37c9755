import IdentityVault.CommandLine.Argument
import IdentityVault.Failure

/-! What can go wrong with a command. -/

namespace IdentityVault.CommandLine

inductive Fault where
  | usage (cause : Usage)
  /-- The settings cannot be read. -/
  | settings (cause : Failure)
  | core (cause : Failure)
  /-- A file of the command cannot be read or written. -/
  | io (cause : Failure)
  | invalidCipherKey (reason : String)
  | missingCipherKey
  | unsupportedFormat (name : String)
  | passwordMismatch
  deriving DecidableEq, Repr

namespace Fault

def message : Fault → String
  | usage _ => "the command line cannot be read"
  | settings f => "Failed to load settings: " ++ f.message
  | core f | io f => f.message
  | invalidCipherKey r => "invalid cipher key: " ++ r
  | missingCipherKey => "no cipher key given (use --key or AUTHKIT_CIPHER_KEY)"
  | unsupportedFormat n => "unsupported key format: " ++ n
  | passwordMismatch => "password does not match"

end Fault
end IdentityVault.CommandLine
