/-! Byte strings and their reading as UTF-8 text. -/

namespace IdentityVault

/-- A byte string. -/
abbrev Bytes := List UInt8

namespace Text

/-- The UTF-8 form of a text. -/
def utf8 (s : String) : Bytes := s.toUTF8.data.toList

/-- The text that a byte string spells, if it is well-formed UTF-8. -/
def ofUtf8? (b : Bytes) : Option String := String.fromUTF8? ⟨b.toArray⟩

/-- Where bytes stop being a text: how many bytes in front of that place are one, and how many behind it can be part of
    none. Where none can be blamed, the bytes end within a character. -/
structure Utf8Fault where
  position : Nat
  width : Option Nat
  deriving DecidableEq, Repr

namespace Utf8Fault

def message : Utf8Fault → String
  | ⟨i, some n⟩ => s!"invalid utf-8 sequence of {n} bytes from index {i}"
  | ⟨i, none⟩ => s!"incomplete utf-8 byte sequence from index {i}"

/-- The least and the greatest byte at each place behind the first byte of a character. Longer forms than needed,
    surrogates and numbers beyond the last character are excluded. -/
def trail? (first : Nat) : Option (List (Nat × Nat)) :=
  if first < 0x80 then some []
  else if first < 0xc2 then none
  else if first < 0xe0 then some [(0x80, 0xbf)]
  else if first < 0xf0 then
    some [(if first = 0xe0 then 0xa0 else 0x80, if first = 0xed then 0x9f else 0xbf), (0x80, 0xbf)]
  else if first < 0xf5 then
    some [(if first = 0xf0 then 0x90 else 0x80, if first = 0xf4 then 0x8f else 0xbf), (0x80, 0xbf), (0x80, 0xbf)]
  else none

/-- Reads on in a character that starts at `position`. Of its bytes, `n` are read, and those in `trail` are to come. -/
def scan (position n : Nat) : (trail : List (Nat × Nat)) → Bytes → Utf8Fault
  | [], [] => ⟨position + n, none⟩
  | _ :: _, [] => ⟨position, none⟩
  | (low, high) :: trail, b :: s =>
    if low ≤ b.toNat ∧ b.toNat ≤ high then scan position (n + 1) trail s else ⟨position, some n⟩
  | [], b :: s => match trail? b.toNat with
    | some trail => scan (position + n) 1 trail s
    | none => ⟨position + n, some 1⟩

end Utf8Fault

/-- The text that a byte string spells, or where it stops being one. -/
def readUtf8 (b : Bytes) : Except Utf8Fault String :=
  match ofUtf8? b with
  | some s => .ok s
  | none => .error (Utf8Fault.scan 0 0 [] b)

@[simp]
theorem ofUtf8?_utf8 (s : String) : ofUtf8? (utf8 s) = some s := by
  have h : (ByteArray.mk (utf8 s).toArray) = s.toByteArray := by simp [utf8, String.toUTF8]
  simp only [ofUtf8?, String.fromUTF8?, h, s.isValidUTF8, dite_true]
  rfl

theorem readUtf8_utf8 (s : String) : readUtf8 (utf8 s) = .ok s := by rw [readUtf8, ofUtf8?_utf8]

theorem utf8_of_ofUtf8? {b : Bytes} {s : String} (h : ofUtf8? b = some s) : utf8 s = b := by
  simp only [ofUtf8?, String.fromUTF8?] at h
  split at h
  · cases h
    simp [utf8, String.toUTF8, String.fromUTF8]
  · cases h

end Text
end IdentityVault
