import IdentityVault.Json.Basic

/-! Writing JSON, on one line without blanks or over indented lines. -/

namespace IdentityVault
namespace Json

def hexDigit (n : Nat) : Char := if n < 10 then Char.ofNat (48 + n) else Char.ofNat (87 + n)

/-- A character inside quotes. Only what must be escaped is. -/
def escape (c : Char) : List Char :=
  if c = '"' then ['\\', '"']
  else if c = '\\' then ['\\', '\\']
  else if c = '\x08' then ['\\', 'b']
  else if c = '\x0c' then ['\\', 'f']
  else if c = '\n' then ['\\', 'n']
  else if c = '\r' then ['\\', 'r']
  else if c = '\t' then ['\\', 't']
  else if c.toNat < 0x20 then ['\\', 'u', '0', '0', hexDigit (c.toNat / 16), hexDigit (c.toNat % 16)]
  else [c]

/-- A string with its quotes. One that stands for no text is written as a lone surrogate. -/
def quoted : Option String → List Char
  | some s => '"' :: s.toList.flatMap escape ++ ['"']
  | none => ['"', '\\', 'u', 'd', '8', '0', '0', '"']

/-- Where line breaks and blanks go: `depth` is `none` on one line, and else counts the open brackets. -/
abbrev Depth := Option Nat

namespace Depth

def deeper (d : Depth) : Depth := d.map (· + 1)

/-- The start of a new line at this depth. -/
def line : Depth → List Char
  | none => []
  | some n => '\n' :: List.replicate (2 * n) ' '

def colon : Depth → List Char
  | none => [':']
  | some _ => [':', ' ']

end Depth

mutual

/-- The text of a value. -/
def render (d : Depth) : Json → List Char
  | null => ['n', 'u', 'l', 'l']
  | bool true => ['t', 'r', 'u', 'e']
  | bool false => ['f', 'a', 'l', 's', 'e']
  | number l => l
  | string t => quoted t
  | array [] => ['[', ']']
  | array (j :: r) => '[' :: d.deeper.line ++ render d.deeper j ++ renderItems d r
  | object [] => ['\x7b', '\x7d']
  | object (m :: r) => '\x7b' :: d.deeper.line ++ renderMember d.deeper m ++ renderMembers d r

/-- The items behind the first one, and the end of the array. -/
def renderItems (d : Depth) : List Json → List Char
  | [] => d.line ++ [']']
  | j :: r => ',' :: d.deeper.line ++ render d.deeper j ++ renderItems d r

/-- The members behind the first one, and the end of the object. -/
def renderMembers (d : Depth) : List (Option String × Json) → List Char
  | [] => d.line ++ ['\x7d']
  | m :: r => ',' :: d.deeper.line ++ renderMember d.deeper m ++ renderMembers d r

def renderMember (d : Depth) : Option String × Json → List Char
  | (n, j) => quoted n ++ d.colon ++ render d j

end

/-- The text on one line. -/
def compact (j : Json) : String := String.ofList (render none j)

/-- The text over indented lines. -/
def pretty (j : Json) : String := String.ofList (render (some 0) j)

end Json
end IdentityVault
