import IdentityVault.Der
import IdentityVault.Proofs.Text.BigEndian

/-! Elements that were written can be read back. Lengths and numbers are written in their only form, which is the one that
    reading asks for. -/

namespace IdentityVault
namespace Der

variable {s rest : Bytes} {n : Nat} {e : Element}

/-! ### Lengths -/

theorem length?_lengthBytes (h : n < limit) (rest : Bytes) : length? (lengthBytes n ++ rest) = some (n, rest) := by
  by_cases hshort : n < 0x80
  · have hbyte : (UInt8.ofNat n).toNat = n := Nat.mod_eq_of_lt (by omega)
    have hlt : UInt8.ofNat n < 0x80 := by
      rw [UInt8.lt_iff_toNat_lt, hbyte]
      exact hshort
    rw [lengthBytes, if_pos hshort, List.singleton_append, length?, if_pos hlt, hbyte]
  · -- Below the limit, four bytes are enough for a length, so that the first byte says their number.
    have hwidth : BigEndian.width n ≤ 4 :=
      BigEndian.width_le.mpr (Nat.lt_of_lt_of_le h (by decide))
    have hbyte : (UInt8.ofNat (0x80 + BigEndian.width n)).toNat = 0x80 + BigEndian.width n :=
      Nat.mod_eq_of_lt (by omega)
    have hge : ¬ UInt8.ofNat (0x80 + BigEndian.width n) < 0x80 := by
      rw [UInt8.lt_iff_toNat_lt, hbyte]
      exact Nat.not_lt.mpr (Nat.le_add_right _ _)
    have hlength := BigEndian.length_ofNat n
    have hbytes : lengthBytes n = UInt8.ofNat (0x80 + BigEndian.width n) :: BigEndian.ofNat n := by
      rw [lengthBytes, if_neg hshort]
      simp only [hlength]
    rw [hbytes, List.cons_append, length?, if_neg hge, hbyte]
    simp only [Nat.add_sub_cancel_left, List.take_left' hlength, List.drop_left' hlength, BigEndian.toNat_ofNat,
      hlength, hbytes, h, hwidth, and_self, if_true]

/-! ### Elements -/

/-- The elements that can be written and read back. -/
structure Element.Fits (e : Element) : Prop where
  tag : Tag.isKnown e.tag = true
  length : e.content.length < limit

theorem length_lt_bytes (e : Element) : e.content.length < e.bytes.length := by
  simp only [Element.bytes, List.length_append, List.length_cons]
  omega

theorem element?_bytes (h : e.Fits) (rest : Bytes) : element? (e.bytes ++ rest) = some (e, rest) := by
  rw [Element.bytes, List.append_assoc, List.cons_append, element?, if_pos h.tag,
    length?_lengthBytes h.length (e.content ++ rest)]
  simp only [List.take_left, List.drop_left, if_true]

theorem only?_bytes (h : e.Fits) : only? e.bytes = some e := by
  have helement := element?_bytes h []
  rw [List.append_nil] at helement
  rw [only?, helement]

theorem elements?_flatMap {parts : List Element} (h : ∀ e ∈ parts, e.Fits) :
    elements? (parts.flatMap Element.bytes) = some parts := by
  induction parts with
  | nil => rw [List.flatMap_nil, elements?, if_pos rfl]
  | cons e parts ih =>
    rw [List.forall_mem_cons] at h
    have hne : e.bytes ++ parts.flatMap Element.bytes ≠ [] := by simp [Element.bytes]
    rw [List.flatMap_cons, elements?, if_neg hne]
    split
    · next e' r he =>
      rw [element?_bytes h.1, Option.some.injEq, Prod.mk.injEq] at he
      rw [← he.1, ← he.2, ih h.2, Option.map_some]
    · next he =>
      rw [element?_bytes h.1] at he
      cases he

theorem parts?_sequence {parts : List Element} (h : ∀ e ∈ parts, e.Fits) : (sequence parts).parts? = some parts := by
  rw [Element.parts?, sequence, if_pos rfl, elements?_flatMap h]

/-- What a sequence is made of is shorter than the sequence. -/
theorem length_of_mem_sequence {parts : List Element} (h : e ∈ parts) :
    e.content.length < (sequence parts).content.length := by
  obtain ⟨before, after, rfl⟩ := List.append_of_mem h
  have hlt := length_lt_bytes e
  simp only [sequence, List.flatMap_append, List.flatMap_cons, List.length_append]
  omega

/-! ### Integers -/

theorem nat?_integer (n : Nat) : (integer n).nat? = some n := by
  rw [Element.nat?, integer, if_pos rfl]
  cases hb : BigEndian.ofNat n with
  | nil =>
    rw [BigEndian.ofNat_eq_nil.mp hb]
    rfl
  | cons x r =>
    have hne : x ≠ 0 := BigEndian.ne_zero_of_ofNat hb
    have hn : BigEndian.toNat (x :: r) = n := by rw [← hb, BigEndian.toNat_ofNat]
    by_cases hx : x < 0x80
    · cases r with
      | nil => simp only [hx, if_true, ← hn, BigEndian.toNat_singleton]
      | cons y r => simp only [hx, hne, if_true, false_and, if_false, hn]
    · -- A byte that looks negative has a zero in front of it.
      have hzero : (0 : UInt8) < 0x80 := by decide
      simp only [hx, if_false, and_false, hzero, if_true, BigEndian.toNat_zero_cons, hn]

theorem fits_integer {numbers : List Nat} (h : (sequence (numbers.map integer)).content.length < limit) :
    ∀ e ∈ numbers.map integer, e.Fits := by
  intro e hm
  obtain ⟨n, -, rfl⟩ := List.mem_map.mp hm
  exact ⟨rfl, Nat.lt_trans (length_of_mem_sequence hm) h⟩

theorem mapM_nat?_integer (numbers : List Nat) : (numbers.map integer).mapM Element.nat? = some numbers := by
  induction numbers with
  | nil => rfl
  | cons n numbers ih => simp [List.mapM_cons, nat?_integer, ih]

end Der
end IdentityVault
