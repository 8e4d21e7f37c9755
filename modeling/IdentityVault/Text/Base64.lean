import IdentityVault.Text.Utf8

/-! Base64 with the standard alphabet. Reading is strict: the unused bits of the last digit are zero, and padding
    is either required or forbidden, so each byte string has one text of either kind. -/

namespace IdentityVault
namespace Base64

def digit (n : Nat) : UInt8 :=
  if n < 26 then UInt8.ofNat (65 + n)
  else if n < 52 then UInt8.ofNat (71 + n)
  else if n < 62 then UInt8.ofNat (n - 4)
  else if n = 62 then 43
  else 47

def value? (b : UInt8) : Option Nat :=
  let n := b.toNat
  if 65 ≤ n ∧ n ≤ 90 then some (n - 65)
  else if 97 ≤ n ∧ n ≤ 122 then some (n - 71)
  else if 48 ≤ n ∧ n ≤ 57 then some (n + 4)
  else if n = 43 then some 62
  else if n = 47 then some 63
  else none

/-- The byte `=`, which fills the last group of a padded text. -/
def pad : UInt8 := 61

/-- `bytes` in base64; `padded` fills the last group up to four digits. -/
def encode (padded : Bool) : Bytes → Bytes
  | a :: b :: c :: r =>
    digit (a.toNat / 4) :: digit (a.toNat % 4 * 16 + b.toNat / 16) ::
      digit (b.toNat % 16 * 4 + c.toNat / 64) :: digit (c.toNat % 64) :: encode padded r
  | [a, b] =>
    [digit (a.toNat / 4), digit (a.toNat % 4 * 16 + b.toNat / 16), digit (b.toNat % 16 * 4)] ++
      if padded then [pad] else []
  | [a] =>
    [digit (a.toNat / 4), digit (a.toNat % 4 * 16)] ++ if padded then [pad, pad] else []
  | [] => []

/-- The two bytes of a last group of three digits. -/
def lastTwo? (w x y : UInt8) : Option Bytes := do
  let w ← value? w
  let x ← value? x
  let y ← value? y
  if y % 4 = 0 then some [UInt8.ofNat (w * 4 + x / 16), UInt8.ofNat (x % 16 * 16 + y / 4)] else none

/-- The byte of a last group of two digits. -/
def lastOne? (w x : UInt8) : Option Bytes := do
  let w ← value? w
  let x ← value? x
  if x % 16 = 0 then some [UInt8.ofNat (w * 4 + x / 16)] else none

/-- The three bytes of a full group. -/
def group? (w x y z : UInt8) : Option Bytes := do
  let w ← value? w
  let x ← value? x
  let y ← value? y
  let z ← value? z
  some [UInt8.ofNat (w * 4 + x / 16), UInt8.ofNat (x % 16 * 16 + y / 4), UInt8.ofNat (y % 4 * 64 + z)]

/-- Reads base64 whose last group is filled with `=` if `padded`, and cut short otherwise. -/
def decode? (padded : Bool) : Bytes → Option Bytes
  | [] => some []
  | [w, x] => if padded then none else lastOne? w x
  | [w, x, y] => if padded then none else lastTwo? w x y
  | w :: x :: y :: z :: r =>
    if padded ∧ r = [] ∧ z = pad then
      if y = pad then lastOne? w x else lastTwo? w x y
    else do
      let front ← group? w x y z
      let rest ← decode? padded r
      some (front ++ rest)
  | _ => none

theorem value?_digit {n : Nat} (h : n < 64) : value? (digit n) = some n := by
  revert h; revert n; decide

theorem digit_ne_pad {n : Nat} (h : n < 64) : digit n ≠ pad := by
  revert h; revert n; decide

theorem group?_digits (a b c : UInt8) :
    group? (digit (a.toNat / 4)) (digit (a.toNat % 4 * 16 + b.toNat / 16))
      (digit (b.toNat % 16 * 4 + c.toNat / 64)) (digit (c.toNat % 64)) = some [a, b, c] := by
  have ha := a.toNat_lt; have hb := b.toNat_lt; have hc := c.toNat_lt
  rw [group?, value?_digit (by omega), value?_digit (by omega), value?_digit (by omega), value?_digit (by omega)]
  have h1 : a.toNat / 4 * 4 + (a.toNat % 4 * 16 + b.toNat / 16) / 16 = a.toNat := by omega
  have h2 : (a.toNat % 4 * 16 + b.toNat / 16) % 16 * 16 + (b.toNat % 16 * 4 + c.toNat / 64) / 4 = b.toNat := by omega
  have h3 : (b.toNat % 16 * 4 + c.toNat / 64) % 4 * 64 + c.toNat % 64 = c.toNat := by omega
  simp only [Option.bind_eq_bind, Option.bind_some, h1, h2, h3, UInt8.ofNat_toNat]

theorem lastTwo?_digits (a b : UInt8) :
    lastTwo? (digit (a.toNat / 4)) (digit (a.toNat % 4 * 16 + b.toNat / 16)) (digit (b.toNat % 16 * 4)) =
      some [a, b] := by
  have ha := a.toNat_lt; have hb := b.toNat_lt
  rw [lastTwo?, value?_digit (by omega), value?_digit (by omega), value?_digit (by omega)]
  have h1 : a.toNat / 4 * 4 + (a.toNat % 4 * 16 + b.toNat / 16) / 16 = a.toNat := by omega
  have h2 : (a.toNat % 4 * 16 + b.toNat / 16) % 16 * 16 + b.toNat % 16 * 4 / 4 = b.toNat := by omega
  have h3 : b.toNat % 16 * 4 % 4 = 0 := by omega
  simp only [Option.bind_eq_bind, Option.bind_some, h1, h2, h3, UInt8.ofNat_toNat, if_true]

theorem lastOne?_digits (a : UInt8) :
    lastOne? (digit (a.toNat / 4)) (digit (a.toNat % 4 * 16)) = some [a] := by
  have ha := a.toNat_lt
  rw [lastOne?, value?_digit (by omega), value?_digit (by omega)]
  have h1 : a.toNat / 4 * 4 + a.toNat % 4 * 16 / 16 = a.toNat := by omega
  have h3 : a.toNat % 4 * 16 % 16 = 0 := by omega
  simp only [Option.bind_eq_bind, Option.bind_some, h1, h3, UInt8.ofNat_toNat, if_true]

theorem decode?_encode (padded : Bool) (b : Bytes) : decode? padded (encode padded b) = some b := by
  fun_induction encode padded b with
  | case1 a b c r ih =>
    have hz : digit (c.toNat % 64) ≠ pad := digit_ne_pad (by omega)
    rw [decode?, if_neg (fun h => hz h.2.2), group?_digits, ih]
    rfl
  | case2 a b =>
    have hb := b.toNat_lt
    cases padded
    · simp [decode?, lastTwo?_digits]
    · simp [decode?, lastTwo?_digits, digit_ne_pad (n := b.toNat % 16 * 4) (by omega)]
  | case3 a =>
    cases padded
    · simp [decode?, lastOne?_digits]
    · simp [decode?, lastOne?_digits]
  | case4 => cases padded <;> rfl

end Base64
end IdentityVault
