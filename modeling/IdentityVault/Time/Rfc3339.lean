import IdentityVault.Text.Blank
import IdentityVault.Text.Decimal
import IdentityVault.Time.Timestamp

/-! Points in time as text, by RFC 3339. Writing gives UTC with the fewest groups of three decimals that lose
    nothing. Reading takes any offset, and is lenient: blanks may stand around the parts, numbers may lack leading
    zeros, a blank may stand for the `T`, and `UTC` for the `Z`. -/

namespace IdentityVault
namespace Timestamp

/-! ### Writing -/

/-- `n` with at least `width` digits. -/
def digits (width n : Nat) : List Char :=
  let d := Text.decimal n
  List.replicate (width - d.length) '0' ++ d

/-- A year; one that four digits cannot hold has a sign. -/
def renderYear (y : Int) : List Char :=
  if 0 ≤ y ∧ y ≤ 9999 then digits 4 y.toNat
  else if y < 0 then '-' :: digits 4 y.natAbs
  else '+' :: digits 4 y.toNat

/-- A part of a second, in as few groups of three digits as can hold it. -/
def renderFraction (n : Nat) : List Char :=
  if n = 0 then []
  else if n % 1000000 = 0 then '.' :: digits 3 (n / 1000000)
  else if n % 1000 = 0 then '.' :: digits 6 (n / 1000)
  else '.' :: digits 9 n

def render (t : Timestamp) : String :=
  let date := Date.ofDays (t.seconds / 86400)
  let inDay := (t.seconds % 86400).toNat
  let leap := 1000000000 ≤ t.nanos
  String.ofList <|
    renderYear date.year ++ '-' :: digits 2 date.month ++ '-' :: digits 2 date.day ++
    'T' :: digits 2 (inDay / 3600) ++ ':' :: digits 2 (inDay / 60 % 60) ++
    ':' :: digits 2 (if leap then inDay % 60 + 1 else inDay % 60) ++
    renderFraction (if leap then t.nanos - 1000000000 else t.nanos) ++ ['Z']

/-! ### Reading -/

/-- The number of at least one and at most `most` digits at the start of a text, and what follows it. -/
def number? (most : Nat) (s : List Char) : Option (Nat × List Char) :=
  let d := (s.take most).takeWhile Text.isDigit
  if d = [] then none else some (Text.digitsValue d, s.drop d.length)

def part? (most : Nat) (s : List Char) : Option (Nat × List Char) := number? most (Text.trimStart s)

/-- The year behind any blanks. With a sign it may have any number of digits. -/
def year? (s : List Char) : Option (Int × List Char) :=
  match Text.trimStart s with
  | '-' :: r => (number? r.length r).map fun p => (-(p.1 : Int), p.2)
  | '+' :: r => (number? r.length r).map fun p => ((p.1 : Int), p.2)
  | r => (number? 4 r).map fun p => ((p.1 : Int), p.2)

/-- What follows the character `c` behind any blanks. -/
def mark? (c : Char) (s : List Char) : Option (List Char) :=
  match Text.trimStart s with
  | d :: r => if d = c then some r else none
  | [] => none

/-- The nanoseconds behind a point, if there is one; digits after the ninth are dropped. -/
def fraction? : List Char → Option (Nat × List Char)
  | '.' :: r =>
    let d := r.takeWhile Text.isDigit
    if d = [] then none
    else
      let kept := d.take 9
      some (Text.digitsValue kept * Nat.pow 10 (9 - kept.length), r.drop d.length)
  | r => some (0, r)

def two? : List Char → Option (Nat × List Char)
  | a :: b :: r => if Text.isDigit a && Text.isDigit b then some (Text.digitsValue [a, b], r) else none
  | _ => none

/-- The offset behind its sign, in seconds. Between hours and minutes, colons and blanks may stand. -/
def hoursMinutes? (s : List Char) : Option (Nat × List Char) := do
  let (h, r) ← two? s
  let (m, r) ← two? (r.dropWhile fun c => c == ':' || Text.blank c)
  if m < 60 then some (3600 * h + 60 * m, r) else none

/-- The offset from UTC, in seconds. -/
def offset? : List Char → Option (Int × List Char)
  | 'Z' :: r => some (0, r)
  | 'z' :: r => some (0, r)
  | '+' :: r => (hoursMinutes? r).map fun p => ((p.1 : Int), p.2)
  | '-' :: r => (hoursMinutes? r).map fun p => (-(p.1 : Int), p.2)
  | '−' :: r => (hoursMinutes? r).map fun p => (-(p.1 : Int), p.2)
  | a :: b :: c :: r => if [a, b, c].map Char.toUpper = ['U', 'T', 'C'] then some (0, r) else none
  | _ => none

def date? (s : List Char) : Option (Date × List Char) := do
  let (year, r) ← year? s
  let (month, r) ← part? 2 (← mark? '-' r)
  let (day, r) ← part? 2 (← mark? '-' r)
  let date : Date := ⟨year, month, day⟩
  if date.Valid then some (date, r) else none

/-- The time of day, in seconds and nanoseconds. A sixtieth second is a leap second. -/
def time? (s : List Char) : Option ((Nat × Nat) × List Char) := do
  let (hour, r) ← part? 2 s
  let (minute, r) ← part? 2 (← mark? ':' r)
  let (second, r) ← part? 2 (← mark? ':' r)
  let (nanos, r) ← fraction? r
  if hour < 24 ∧ minute < 60 ∧ second < 60 then some ((3600 * hour + 60 * minute + second, nanos), r)
  else if hour < 24 ∧ minute < 60 ∧ second = 60 then
    some ((3600 * hour + 60 * minute + 59, nanos + 1000000000), r)
  else none

/-- Reads a point in time. In UTC, too, it must lie in a year that is kept. -/
def parse? (s : String) : Option Timestamp := do
  let (date, r) ← date? s.toList
  let r ← match r with
    | 'T' :: r => some r
    | 't' :: r => some r
    | ' ' :: r => some r
    | _ => none
  let ((seconds, nanos), r) ← time? r
  let (offset, r) ← offset? (Text.trimStart r)
  let t : Timestamp := ⟨date.toDays * 86400 + seconds - offset, nanos⟩
  if Text.trimStart r = [] ∧ -86400 < offset ∧ offset < 86400 ∧ (Date.ofDays (t.seconds / 86400)).Valid then some t
  else none

end Timestamp
end IdentityVault
