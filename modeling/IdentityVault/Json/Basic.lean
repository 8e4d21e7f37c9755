import IdentityVault.Text.Decimal

/-! JSON values. -/

namespace IdentityVault

/-- A JSON value. Numbers stay as they are written, and objects keep all their members in order. A string can spell
    half of a surrogate pair without the other half; such a string is well formed but stands for no text. -/
inductive Json where
  | null
  | bool (value : Bool)
  | number (literal : List Char)
  | string (text : Option String)
  | array (items : List Json)
  | object (members : List (Option String × Json))

namespace Json

def ofMembers (members : List (String × Json)) : Json := object (members.map fun m => (some m.1, m.2))

def ofNat (n : Nat) : Json := number (Text.decimal n)

def ofString (s : String) : Json := string (some s)

def text? : Json → Option String
  | string t => t
  | _ => none

def bool? : Json → Option Bool
  | bool b => some b
  | _ => none

/-- The value of a number that is written with digits only. -/
def nat? : Json → Option Nat
  | number l =>
    if l.all Text.isDigit then some (Text.digitsValue l) else none
  | _ => none

/-- The value of a number that is written with digits only and fits into `bits` bits. -/
def word? (bits : Nat) (j : Json) : Option Nat := j.nat?.filter (· < 1 <<< bits)

/-! ### Records -/

/-- The values of the fields `names` of a record, which is an object or the list of its values in order. Other
    members of an object are ignored, but no field may be given twice; a list may be too short, but not too
    long. -/
def fields? (names : List String) : Json → Option (List (Option Json))
  | array items =>
    if items.length ≤ names.length then
      some (items.map some ++ List.replicate (names.length - items.length) none)
    else none
  | object members =>
    if members.all (·.1.isSome) && names.all fun n => (members.filter (·.1 == some n)).length ≤ 1 then
      some (names.map fun n => (members.find? (·.1 == some n)).map (·.2))
    else none
  | _ => none

/-- The value of a field that must be given. -/
def required {α : Type} (read : Json → Option α) (field : Option Json) : Option α := field.bind read

/-- The value of a field that stands for `standard` if it is not given. -/
def optional {α : Type} (standard : α) (read : Json → Option α) : Option Json → Option α
  | none => some standard
  | some j => read j

end Json
end IdentityVault
