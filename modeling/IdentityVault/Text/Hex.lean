import IdentityVault.Text.Quoted
import IdentityVault.Text.Utf8

/-! Hexadecimal text: two digits for each byte. Writing uses lower case, and reading takes either case. -/

namespace IdentityVault
namespace Hex

/-- Why a text is not hexadecimal. -/
inductive Fault where
  /-- The text has an odd number of bytes. -/
  | oddLength
  /-- The byte at `position` is no hexadecimal digit. -/
  | badByte (byte : UInt8) (position : Nat)
  deriving DecidableEq, Repr

namespace Fault

def message : Fault → String
  | oddLength => "Odd number of digits"
  | badByte b i => "Invalid character " ++ Text.quoteOne (Char.ofNat b.toNat) ++ " at position " ++ toString i

end Fault

def digit (n : Nat) : UInt8 := if n < 10 then UInt8.ofNat (48 + n) else UInt8.ofNat (87 + n)

/-- The value of a digit of either case. -/
def value? (b : UInt8) : Option Nat :=
  if 48 ≤ b.toNat ∧ b.toNat ≤ 57 then some (b.toNat - 48)
  else if 97 ≤ b.toNat ∧ b.toNat ≤ 102 then some (b.toNat - 87)
  else if 65 ≤ b.toNat ∧ b.toNat ≤ 70 then some (b.toNat - 55)
  else none

def encode : Bytes → Bytes
  | [] => []
  | b :: r => digit (b.toNat / 16) :: digit (b.toNat % 16) :: encode r

/-- The digits of `bytes` as text. -/
def text (bytes : Bytes) : String := String.ofList ((encode bytes).map fun b => Char.ofNat b.toNat)

/-- Reads pairs of digits; the first of them stands at `position`. -/
def decodeFrom (position : Nat) : Bytes → Except Fault Bytes
  | [] => .ok []
  | [_] => .error .oddLength
  | high :: low :: r =>
    match value? high with
    | none => .error (.badByte high position)
    | some h => match value? low with
      | none => .error (.badByte low (position + 1))
      | some l => (decodeFrom (position + 2) r).map (UInt8.ofNat (h * 16 + l) :: ·)

/-- Reads hexadecimal text. An odd length is reported before any digit is looked at. -/
def decode (s : Bytes) : Except Fault Bytes :=
  if s.length % 2 = 1 then .error .oddLength else decodeFrom 0 s

end Hex
end IdentityVault
