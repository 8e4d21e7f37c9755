import IdentityVault.Text.Unprintable

/-! Texts in double quotes and characters in single quotes, as messages show what they complain about. The
    enclosing mark, backslashes and the common controls have short escapes; any other character without a visible
    form is spelled by its code point. -/

namespace IdentityVault.Text

def hexDigits (n : Nat) : List Char := Nat.toDigits 16 n

/-- One character between two `mark`s. -/
def quoteChar (mark c : Char) : List Char :=
  if c = '\x00' then ['\\', '0']
  else if c = '\t' then ['\\', 't']
  else if c = '\r' then ['\\', 'r']
  else if c = '\n' then ['\\', 'n']
  else if c = mark then ['\\', mark]
  else if c = '\\' then ['\\', '\\']
  else if unprintable c then ['\\', 'u', '\x7b'] ++ hexDigits c.toNat ++ ['\x7d']
  else [c]

/-- The characters between two `mark`s, with escapes for what could not be read there as itself. -/
def enclose (mark : Char) (s : List Char) : String :=
  String.ofList (mark :: s.flatMap (quoteChar mark) ++ [mark])

/-- `s` in double quotes. -/
def quote (s : String) : String := enclose '"' s.toList

/-- `c` in single quotes. -/
def quoteOne (c : Char) : String := enclose '\'' [c]

end IdentityVault.Text
