/-! Numbers in decimal. -/

namespace IdentityVault.Text

def decimal (n : Nat) : List Char := Nat.toDigits 10 n

def isDigit (c : Char) : Bool := '0' ≤ c && c ≤ '9'

/-- The number of the digits behind `high` and the `width` digits of `low`. Digits are gathered in groups, so that a
    long number is not touched for each of them. -/
def gatherDigits : (high low width : Nat) → List Char → Nat
  | high, low, width, [] => high * Nat.pow 10 width + low
  | high, low, width, c :: r =>
    if width < 1024 then gatherDigits high (10 * low + (c.toNat - 48)) (width + 1) r
    else gatherDigits (high * Nat.pow 10 width + low) (c.toNat - 48) 1 r

/-- The number that a run of digits denotes. -/
def digitsValue (s : List Char) : Nat := gatherDigits 0 0 0 s

theorem gatherDigits_eq (s : List Char) (high low width : Nat) : gatherDigits high low width s =
    s.foldl (fun n c => 10 * n + (c.toNat - 48)) (high * Nat.pow 10 width + low) := by
  induction s generalizing high low width with
  | nil => rfl
  | cons c r ih =>
    rw [gatherDigits, List.foldl_cons]
    split
    · rw [ih]
      congr 1
      have : high * Nat.pow 10 (width + 1) = 10 * (high * Nat.pow 10 width) := by
        rw [show Nat.pow 10 (width + 1) = Nat.pow 10 width * 10 from rfl]
        ac_rfl
      omega
    · rw [ih]
      congr 1
      rw [show Nat.pow 10 1 = 10 from rfl]
      omega

theorem digitsValue_eq_foldl (s : List Char) : digitsValue s = s.foldl (fun n c => 10 * n + (c.toNat - 48)) 0 := by
  rw [digitsValue, gatherDigits_eq, Nat.zero_mul]

/-- Reads a number that is written with digits only, at least one, and no needless zero in front. -/
def decimal? (s : List Char) : Option Nat :=
  if s ≠ [] ∧ s.all isDigit ∧ (s.head? = some '0' → s.length = 1) then some (digitsValue s) else none

end IdentityVault.Text
