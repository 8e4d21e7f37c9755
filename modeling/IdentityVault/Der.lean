import IdentityVault.Text.BigEndian

/-! The distinguished encoding rules of ASN.1, as far as private keys need them: elements with a one-byte tag and a
    definite length of at most four bytes. There is one encoding of each value; reading refuses all others. -/

namespace IdentityVault
namespace Der

structure Element where
  tag : UInt8
  content : Bytes
  deriving DecidableEq, Repr

/-- No element, with its tag and length, is this long or longer. -/
def limit : Nat := 1 <<< 28

namespace Tag

def integer : UInt8 := 0x02
def octetString : UInt8 := 0x04
def null : UInt8 := 0x05
def objectId : UInt8 := 0x06
def sequence : UInt8 := 0x30

/-- The tags with a meaning of their own. -/
def universal : List UInt8 :=
  [0x01, 0x02, 0x03, 0x04, 0x05, 0x06, 0x09, 0x0a, 0x0c, 0x12, 0x13, 0x14, 0x15, 0x16, 0x17, 0x18, 0x1a, 0x1e,
    0x30, 0x31]

/-- Tags are those with a meaning of their own, and those of the other classes with a number below 31. -/
def isKnown (t : UInt8) : Bool := universal.contains t || (0x40 ≤ t && t &&& 0x1f != 0x1f)

/-- A tag whose meaning depends on where it stands. -/
def isContextual (t : UInt8) : Bool := t &&& 0xc0 == 0x80

def number (t : UInt8) : UInt8 := t &&& 0x1f

/-- A tag of elements that consist of elements. -/
def isConstructed (t : UInt8) : Bool := t &&& 0x20 == 0x20

end Tag

/-! ### Lengths -/

def lengthBytes (n : Nat) : Bytes :=
  if n < 0x80 then [UInt8.ofNat n]
  else
    let b := BigEndian.ofNat n
    UInt8.ofNat (0x80 + b.length) :: b

/-- The length at the start of `s`, in its only form, and what follows it. -/
def length? : Bytes → Option (Nat × Bytes)
  | [] => none
  | b :: r =>
    if b < 0x80 then some (b.toNat, r)
    else
      let width := b.toNat - 0x80
      let n := BigEndian.toNat (r.take width)
      if width ≤ 4 ∧ (r.take width).length = width ∧ n < limit ∧ lengthBytes n = b :: r.take width then
        some (n, r.drop width)
      else none

/-! ### Elements -/

def Element.bytes (e : Element) : Bytes := e.tag :: lengthBytes e.content.length ++ e.content

/-- The element at the start of `s`, and what follows it. -/
def element? : Bytes → Option (Element × Bytes)
  | [] => none
  | t :: r =>
    if Tag.isKnown t then
      match length? r with
      | some (n, r) => if (r.take n).length = n then some (⟨t, r.take n⟩, r.drop n) else none
      | none => none
    else none

theorem length_of_length? {s r : Bytes} {n : Nat} (h : length? s = some (n, r)) : r.length < s.length := by
  match s, h with
  | b :: t, h =>
    rw [length?] at h
    by_cases hb : b < 0x80
    · rw [if_pos hb, Option.some.injEq, Prod.mk.injEq] at h
      simp [← h.2]
    · simp only [if_neg hb] at h
      rw [Option.ite_none_right_eq_some, Option.some.injEq, Prod.mk.injEq] at h
      rw [← h.2.2, List.length_drop, List.length_cons]
      omega

theorem length_of_element? {s r : Bytes} {e : Element} (h : element? s = some (e, r)) : r.length < s.length := by
  match s, h with
  | t :: s, h =>
    rw [element?, Option.ite_none_right_eq_some] at h
    obtain ⟨-, h⟩ := h
    split at h
    · next n q hq =>
      have := length_of_length? hq
      rw [Option.ite_none_right_eq_some, Option.some.injEq, Prod.mk.injEq] at h
      rw [← h.2.2, List.length_drop, List.length_cons]
      omega
    · cases h

def elements? (s : Bytes) : Option (List Element) :=
  if s = [] then some []
  else match _h : element? s with
    | some (e, r) => (elements? r).map (e :: ·)
    | none => none
termination_by s.length
decreasing_by exact length_of_element? ‹_›

def only? (s : Bytes) : Option Element :=
  match element? s with
  | some (e, []) => some e
  | _ => none

/-- The parts of a sequence. -/
def Element.parts? (e : Element) : Option (List Element) :=
  if e.tag = Tag.sequence then elements? e.content else none

def sequence (parts : List Element) : Element := ⟨Tag.sequence, parts.flatMap Element.bytes⟩

/-! ### Integers -/

/-- The element of a natural number: its bytes, with a zero in front if the first one would look negative. -/
def integer (n : Nat) : Element :=
  let b := BigEndian.ofNat n
  ⟨Tag.integer, match b with
    | [] => [0]
    | x :: _ => if x < 0x80 then b else 0 :: b⟩

/-- The natural number of an element, in its only form. -/
def Element.nat? (e : Element) : Option Nat :=
  if e.tag = Tag.integer then
    match e.content with
    | [] => none
    | [x] => if x < 0x80 then some x.toNat else none
    | x :: y :: r =>
      if x = 0 ∧ y < 0x80 then none
      else if x < 0x80 then some (BigEndian.toNat (x :: y :: r))
      else none
  else none

/-! ### Object identifiers -/

/-- The groups of seven bits of an identifier end within `bytes`, and each has at most five bytes, of which a fifth
    gives only four bits and is the last; `width` counts the bytes of the current group. -/
def groupsEnd : (width : Nat) → (bytes : Bytes) → Bool
  | width, [] => width == 0
  | width, b :: r =>
    if 4 ≤ width ∧ b &&& 0xf0 ≠ 0 then false
    else groupsEnd (if b < 0x80 then 0 else width + 1) r

/-- The content of an object identifier: 3 to 39 bytes, the first one for two numbers and groups behind it. -/
def isObjectId : Bytes → Bool
  | [] => false
  | b :: r => 2 ≤ r.length && r.length ≤ 38 && b < 120 && groupsEnd 0 r

end Der
end IdentityVault
