import IdentityVault.Argon2.Hash
import IdentityVault.Text.Base64
import IdentityVault.Text.Decimal
import IdentityVault.Text.Split

/-! The text form of a password hash: fields behind dollar signs that name the function, its version, its
    parameters, the salt and the digest. From the end, fields may be missing. -/

namespace IdentityVault
namespace Argon2

structure Encoded where
  function : List Char
  version : Option Nat
  params : List (List Char × List Char)
  /-- The salt as it is written; not every text that can stand here is base64. -/
  salt : Option (List Char)
  digest : Option Bytes
  deriving DecidableEq, Repr

namespace Encoded

/-! ### Names and values -/

def nameChar (c : Char) : Bool := ('a' ≤ c && c ≤ 'z') || Text.isDigit c || c == '-'

def isName (s : List Char) : Bool := 1 ≤ s.length && s.length ≤ 32 && s.all nameChar

def valueChar (c : Char) : Bool :=
  ('a' ≤ c && c ≤ 'z') || ('A' ≤ c && c ≤ 'Z') || Text.isDigit c || c == '/' || c == '+' || c == '.' || c == '-'

def isValue (s : List Char) : Bool := s.length ≤ 64 && s.all valueChar

def number? (s : List Char) : Option Nat :=
  if isValue s then (Text.decimal? s).filter (· < 1 <<< 32) else none

/-- The characters of a text in base64 as bytes; others than ASCII become a byte that is no digit. -/
def digits (s : List Char) : Bytes := s.map fun c => if c.toNat < 128 then UInt8.ofNat c.toNat else 0

def base64? (s : List Char) : Option Bytes := Base64.decode? false (digits s)

def base64 (b : Bytes) : List Char := (Base64.encode false b).map fun d => Char.ofNat d.toNat

/-! ### Fields -/

def param? (s : List Char) : Option (List Char × List Char) :=
  match Text.split '=' s with
  | [name, value] => if isName name && isValue value then some (name, value) else none
  | _ => none

def utf8Length (s : List Char) : Nat := s.foldl (fun n c => n + c.utf8Size) 0

/-- The parameters, separated by commas; all of them take at most 127 bytes. -/
def params? (s : List Char) : Option (List (List Char × List Char)) :=
  if utf8Length s ≤ 127 then (Text.split ',' s).mapM param? else none

def salt? (s : List Char) : Option (List Char) := if 4 ≤ s.length && isValue s then some s else none

def digest? (s : List Char) : Option Bytes := (base64? s).filter fun b => 10 ≤ b.length && b.length ≤ 64

/-- The last two fields, salt and digest. -/
def ofTail? (e : Encoded) : List (List Char) → Option Encoded
  | [] => some e
  | [s] => do some { e with salt := some (← salt? s) }
  | [s, d] => do some { e with salt := some (← salt? s), digest := some (← digest? d) }
  | _ => none

/-- The fields from the parameters on; a field with an equals sign is the parameters. -/
def ofParams? (e : Encoded) : List (List Char) → Option Encoded
  | [] => some e
  | f :: r => if '=' ∈ f then do ofTail? { e with params := ← params? f } r else ofTail? e (f :: r)

/-- The fields after the function's name; `v=` and no comma mark the version. -/
def ofVersion? (e : Encoded) : List (List Char) → Option Encoded
  | ('v' :: '=' :: n) :: r =>
    if ',' ∈ n then ofParams? e (('v' :: '=' :: n) :: r)
    else do ofParams? { e with version := some (← number? n) } r
  | fields => ofParams? e fields

def parse? (s : List Char) : Option Encoded :=
  match Text.split '$' s with
  | [] :: name :: r => if isName name then ofVersion? ⟨name, none, [], none, none⟩ r else none
  | _ => none

def renderParam (p : List Char × List Char) : List Char := p.1 ++ '=' :: p.2

def render (e : Encoded) : List Char :=
  '$' :: e.function ++
    (match e.version with
    | some n => '$' :: 'v' :: '=' :: Text.decimal n
    | none => []) ++
    (if e.params = [] then [] else '$' :: (List.intersperse [','] (e.params.map renderParam)).flatten) ++
    (match e.salt with
    | some s => '$' :: s
    | none => []) ++
    match e.digest with
    | some d => '$' :: base64 d
    | none => []

/-! ### Costs -/

/-- The costs that stand for parameters that are not given. -/
def defaultCosts : Costs := ⟨19456, 2, 1, []⟩

/-- Takes one parameter into account. Of a parameter that is given twice, the last one counts. -/
def addParam? (c : Costs) (p : List Char × List Char) : Option Costs :=
  match p.1 with
  | ['m'] => do some { c with memory := ← number? p.2 }
  | ['t'] => do some { c with passes := ← number? p.2 }
  | ['p'] => do some { c with lanes := ← number? p.2 }
  | ['k', 'e', 'y', 'i', 'd'] => do
    let id ← base64? p.2
    if id.length ≤ 8 then some c else none
  | ['d', 'a', 't', 'a'] => do
    let data ← base64? p.2
    if data.length ≤ 32 then some { c with data } else none
  | _ => none

def costs? (e : Encoded) : Option Costs := do
  let c ← e.params.foldlM addParam? defaultCosts
  if c.Valid then some c else none

def variant? (e : Encoded) : Option Variant := Variant.ofName? (String.ofList e.function)

def version? (e : Encoded) : Option Version :=
  match e.version with
  | none => some .combining
  | some n => Version.ofCode? n

def saltBytes? (e : Encoded) : Option Bytes := do
  let salt ← base64? (← e.salt)
  if 8 ≤ salt.length then some salt else none

/-- `secret` has the digest that `e` holds, computed with the function, version, salt and `costs` of `e`. -/
def verifies (e : Encoded) (costs : Costs) (secret : Bytes) : Bool :=
  match e.variant?, e.version?, e.saltBytes?, e.digest with
  | some variant, some version, some salt, some d => hash variant version costs d.length secret salt == d
  | _, _, _, _ => false

end Encoded
end Argon2
end IdentityVault
