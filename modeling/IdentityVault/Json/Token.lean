import IdentityVault.Text.Decimal

/-! The words of a JSON text. -/

namespace IdentityVault
namespace Json

inductive Token where
  | leftBracket
  | rightBracket
  | leftBrace
  | rightBrace
  | comma
  | colon
  | null
  | bool (value : Bool)
  | number (literal : List Char)
  | string (text : Option String)
  deriving DecidableEq, Repr

namespace Token

/-- The characters that may stand between tokens. -/
def isBlank (c : Char) : Bool := c == ' ' || c == '\n' || c == '\t' || c == '\r'

/-! ### Numbers -/

/-- The digits at the start of a text, at least one, and what follows them. -/
def digits? (s : List Char) : Option (List Char × List Char) :=
  let d := s.takeWhile Text.isDigit
  if d = [] then none else some (d, s.dropWhile Text.isDigit)

/-- The part of a number behind the point, with the point. -/
def fraction? : List Char → Option (List Char × List Char)
  | '.' :: r => (digits? r).map fun p => ('.' :: p.1, p.2)
  | r => some ([], r)

/-- The exponent of a number, with its mark and sign. -/
def exponent? : List Char → Option (List Char × List Char)
  | 'e' :: '+' :: r => (digits? r).map fun p => ('e' :: '+' :: p.1, p.2)
  | 'e' :: '-' :: r => (digits? r).map fun p => ('e' :: '-' :: p.1, p.2)
  | 'e' :: r => (digits? r).map fun p => ('e' :: p.1, p.2)
  | 'E' :: '+' :: r => (digits? r).map fun p => ('E' :: '+' :: p.1, p.2)
  | 'E' :: '-' :: r => (digits? r).map fun p => ('E' :: '-' :: p.1, p.2)
  | 'E' :: r => (digits? r).map fun p => ('E' :: p.1, p.2)
  | r => some ([], r)

/-- The whole part of a number: a zero, or digits that do not start with one. -/
def whole? : List Char → Option (List Char × List Char)
  | '0' :: r => some (['0'], r)
  | r => digits? r

def unsigned? (s : List Char) : Option (List Char × List Char) := do
  let (w, r) ← whole? s
  let (f, r) ← fraction? r
  let (e, r) ← exponent? r
  some (w ++ f ++ e, r)

def number? : List Char → Option (List Char × List Char)
  | '-' :: r => (unsigned? r).map fun p => ('-' :: p.1, p.2)
  | r => unsigned? r

/-! ### Strings -/

def hexValue? (c : Char) : Option Nat :=
  if '0' ≤ c ∧ c ≤ '9' then some (c.toNat - 48)
  else if 'a' ≤ c ∧ c ≤ 'f' then some (c.toNat - 87)
  else if 'A' ≤ c ∧ c ≤ 'F' then some (c.toNat - 55)
  else none

/-- The code unit that four hexadecimal digits denote. -/
def unit? (a b c d : Char) : Option Nat := do
  some (4096 * (← hexValue? a) + 256 * (← hexValue? b) + 16 * (← hexValue? c) + (← hexValue? d))

/-- The character that a short escape stands for. -/
def escape? : Char → Option Char
  | '"' => some '"'
  | '\\' => some '\\'
  | '/' => some '/'
  | 'b' => some '\x08'
  | 'f' => some '\x0c'
  | 'n' => some '\n'
  | 'r' => some '\r'
  | 't' => some '\t'
  | _ => none

/-- What has been read of a string: its characters, the last one first, and a leading surrogate that waits for the
    trailing one; `none` once a surrogate has stayed alone. -/
abbrev Partial := Option (List Char × Option Nat)

namespace Partial

def push (c : Char) : Partial → Partial
  | some (done, none) => some (c :: done, none)
  | _ => none

def pushUnit (u : Nat) : Partial → Partial
  | some (done, none) =>
    if 0xd800 ≤ u ∧ u < 0xdc00 then some (done, some u)
    else if 0xdc00 ≤ u ∧ u < 0xe000 then none
    else some (Char.ofNat u :: done, none)
  | some (done, some lead) =>
    if 0xdc00 ≤ u ∧ u < 0xe000 then
      some (Char.ofNat (0x10000 + 0x400 * (lead - 0xd800) + (u - 0xdc00)) :: done, none)
    else none
  | none => none

/-- The text of a string that has been read to its end. -/
def text? : Partial → Option String
  | some (done, none) => some (String.ofList done.reverse)
  | _ => none

end Partial

/-- Reads a string behind its opening quote, up to and with its closing one. -/
def stringFrom (read : Partial) : List Char → Option (Option String × List Char)
  | [] => none
  | '"' :: r => some (read.text?, r)
  | '\\' :: 'u' :: a :: b :: c :: d :: r =>
    match unit? a b c d with
    | some u => stringFrom (read.pushUnit u) r
    | none => none
  | '\\' :: e :: r =>
    match escape? e with
    | some c => stringFrom (read.push c) r
    | none => none
  | c :: r => if c.toNat < 0x20 ∨ c = '\\' then none else stringFrom (read.push c) r

/-! ### All tokens -/

/-- The token at the start of a text that does not start with a blank. -/
def next? : List Char → Option (Token × List Char)
  | '[' :: r => some (leftBracket, r)
  | ']' :: r => some (rightBracket, r)
  | '\x7b' :: r => some (leftBrace, r)
  | '\x7d' :: r => some (rightBrace, r)
  | ',' :: r => some (comma, r)
  | ':' :: r => some (colon, r)
  | 'n' :: 'u' :: 'l' :: 'l' :: r => some (null, r)
  | 't' :: 'r' :: 'u' :: 'e' :: r => some (bool true, r)
  | 'f' :: 'a' :: 'l' :: 's' :: 'e' :: r => some (bool false, r)
  | '"' :: r => (stringFrom (some ([], none)) r).map fun p => (string p.1, p.2)
  | r => (number? r).map fun p => (number p.1, p.2)

/-- The tokens of a text. Each takes at least one character, so `fuel` characters hold no more than `fuel`
    tokens and blanks. -/
def scan : (fuel : Nat) → List Char → Option (List Token)
  | _, [] => some []
  | 0, _ :: _ => none
  | fuel + 1, c :: r =>
    if isBlank c then scan fuel r
    else match next? (c :: r) with
      | some (t, rest) => (scan fuel rest).map (t :: ·)
      | none => none

end Token

def tokens? (s : List Char) : Option (List Token) := Token.scan s.length s

end Json
end IdentityVault
