import IdentityVault.Pem
import IdentityVault.Rsa.Pkcs8
import IdentityVault.Text.Lowercase

/-! Private keys as they travel: as PEM blocks of either container, or as a bare plain container. Only plain
    containers are written. -/

namespace IdentityVault
namespace Rsa

inductive KeyFormat where
  | unsupported
  | der
  | pem
  deriving DecidableEq, Repr

namespace KeyFormat

def label : KeyFormat → String
  | unsupported => "unsupported"
  | der => "der"
  | pem => "pem"

/-- The format of the given name. Underscores and case do not matter. -/
def parse (name : String) : KeyFormat :=
  match Text.lower (name.toList.filter (· != '_')) with
  | ['d', 'e', 'r'] => der
  | ['p', 'e', 'm'] => pem
  | _ => unsupported

end KeyFormat

/-- What a PEM block holds, by its label. -/
inductive BlockType where
  | unknown
  | pkcs1
  | pkcs8
  deriving DecidableEq, Repr

namespace BlockType

def label : BlockType → String
  | unknown => ""
  | pkcs1 => "RSA PRIVATE KEY"
  | pkcs8 => "PRIVATE KEY"

def ofLabel (s : String) : BlockType :=
  if s = pkcs1.label then pkcs1 else if s = pkcs8.label then pkcs8 else unknown

end BlockType

namespace PrivateKey

def ofDer (s : Bytes) : Outcome PrivateKey :=
  match ofPkcs1? s with
  | some k => .ok k
  | none => .error (.malformed .pkcs1)

def ofPem (block : Pem) : Outcome PrivateKey :=
  match BlockType.ofLabel block.label with
  | .pkcs1 => ofDer block.content
  | .pkcs8 => match Pkcs8.parse? block.content with
    | some c => c.key
    | none => .error (.malformed .pkcs8)
  | .unknown => .error (.blockType block.label)

/-- The key in an input. Without a PEM block in it, all of it must be a plain container. -/
def parse (s : Bytes) : Outcome PrivateKey :=
  match Pem.parse? s with
  | some block => ofPem block
  | none => ofDer s

def serialize (k : PrivateKey) (format : KeyFormat) : Outcome Bytes :=
  match k.toPkcs1? with
  | none => .error (.crypto "PKCS#1 cryptographic error")
  | some der => match format with
    | .der => .ok der
    | .pem => .ok (Pem.render ⟨BlockType.pkcs1.label, der⟩)
    | .unsupported => .error (.unsupportedFormat format.label)

end PrivateKey
end Rsa
end IdentityVault
