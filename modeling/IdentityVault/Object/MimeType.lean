/-! The content types of stored objects. -/

namespace IdentityVault

inductive MimeType where
  | unsupported
  | json
  | jwk
  | pem
  /-- Bytes without a known structure, such as a sealed key. -/
  | octetStream
  deriving DecidableEq, Repr

namespace MimeType

def name : MimeType → String
  | unsupported => ""
  | json => "application/json"
  | jwk => "application/jwk+json"
  | pem => "application/x-pem-file"
  | octetStream => "application/octet-stream"

/-- The content type of the given name, which is matched exactly. -/
def parse (s : String) : MimeType :=
  match [json, jwk, pem, octetStream].find? (·.name == s) with
  | some m => m
  | none => unsupported

theorem parse_name (m : MimeType) : parse m.name = m := by cases m <;> decide

end MimeType
end IdentityVault
