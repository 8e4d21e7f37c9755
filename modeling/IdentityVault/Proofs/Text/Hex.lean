import IdentityVault.Proofs.Text.Utf8
import IdentityVault.Text.Hex

/-! Which texts are hexadecimal, and what they stand for: two digits of either case for each byte, and nothing else. -/

namespace IdentityVault.Hex
variable {c : Char} {n i : Nat} {x y : UInt8} {m : List Char} {s b : Bytes}

/-! ### Digits -/

/-- The digits with the value `n`, in either case. -/
def digits (n : Nat) : List Char := ["0123456789abcdef", "0123456789ABCDEF"].filterMap (·.toList[n]?)

/-- `c` is a digit with the value `n`. -/
def Digit (c : Char) (n : Nat) : Prop := c ∈ digits n

theorem Digit.lt (h : Digit c n) : n < 16 := by
  obtain ⟨alphabet, hm, hc⟩ := List.mem_filterMap.mp h
  have hlength : ∀ a ∈ ["0123456789abcdef", "0123456789ABCDEF"], a.toList.length = 16 := by decide
  exact hlength alphabet hm ▸ (List.getElem?_eq_some_iff.mp hc).1

/-- A digit is a character of ASCII, it is read as its value, and in lower case it is the one that is written. -/
theorem Digit.spec (h : Digit c n) :
    c.toNat < 128 ∧ value? (UInt8.ofNat c.toNat) = some n ∧ Char.ofNat (digit n).toNat = c.toLower := by
  have hall : ∀ n < 16, (digits n).all fun c => c.toNat < 128 ∧ value? (UInt8.ofNat c.toNat) = some n ∧
      Char.ofNat (digit n).toNat = c.toLower := by decide
  exact of_decide_eq_true (List.all_eq_true.mp (hall n h.lt) c h)

theorem digit_of_value? (h : value? x = some n) : x < 128 ∧ Digit (Char.ofNat x.toNat) n := by
  have hall : ∀ k < 256, ∀ n ∈ value? (UInt8.ofNat k), k < 128 ∧ Char.ofNat k ∈ digits n := by decide +kernel
  rw [UInt8.lt_iff_toNat_lt]
  exact hall x.toNat x.toNat_lt n (UInt8.ofNat_toNat.symm ▸ h)

/-- A digit is read where its character stands. -/
theorem value?_eq_some (hc : c.toNat < 128) : value? (UInt8.ofNat c.toNat) = some n ↔ Digit c n := by
  have hbyte : (UInt8.ofNat c.toNat).toNat = c.toNat := UInt8.toNat_ofNat_of_lt' (Nat.lt_trans hc (by decide))
  refine ⟨fun h => ?_, fun h => h.spec.2.1⟩
  have hdigit := (digit_of_value? h).2
  rwa [hbyte, Char.ofNat_toNat] at hdigit

/-! ### Pairs of digits -/

/-- The text has two digits for each of the bytes, the higher one first. -/
inductive Denotes : List Char → Bytes → Prop where
  | nil : Denotes [] []
  | cons {high low : Char} {h l : Nat} {m : List Char} {b : Bytes} : Digit high h → Digit low l → Denotes m b →
      Denotes (high :: low :: m) (UInt8.ofNat (h * 16 + l) :: b)

namespace Denotes

theorem length (h : Denotes m b) : m.length = 2 * b.length := by
  induction h with
  | nil => rfl
  | cons _ _ _ ih =>
    simp only [List.length_cons, ih]
    omega

theorem all_digits (h : Denotes m b) : ∀ c ∈ m, ∃ n, Digit c n := by
  induction h with
  | nil => nofun
  | cons hh hl _ ih =>
    rw [List.forall_mem_cons, List.forall_mem_cons]
    exact ⟨⟨_, hh⟩, ⟨_, hl⟩, ih⟩

/-- The bytes that a text stands for are written as this text in lower case. -/
theorem text (h : Denotes m b) : (text b).toList = m.map Char.toLower := by
  rw [Hex.text, String.toList_ofList]
  induction h with
  | nil => rfl
  | @cons high low h l m b hh hl _ ih =>
    have hhalf := hh.lt
    have hrest := hl.lt
    have hbyte : (UInt8.ofNat (h * 16 + l)).toNat = h * 16 + l :=
      UInt8.toNat_ofNat_of_lt' (show h * 16 + l < 256 by omega)
    have hhigh : (h * 16 + l) / 16 = h := by omega
    have hlow : (h * 16 + l) % 16 = l := by omega
    rw [encode, hbyte, hhigh, hlow]
    simp only [List.map_cons, hh.spec.2.2, hl.spec.2.2, ih]

end Denotes

/-- An even number of digits stands for some bytes. -/
theorem exists_denotes : ∀ {m : List Char}, m.length % 2 = 0 → (∀ c ∈ m, ∃ n, Digit c n) → ∃ b, Denotes m b
  | [], _, _ => ⟨[], .nil⟩
  | [_], hlength, _ => nomatch hlength
  | high :: low :: m, hlength, hm => by
    rw [List.forall_mem_cons, List.forall_mem_cons] at hm
    obtain ⟨⟨h, hh⟩, ⟨l, hl⟩, hm⟩ := hm
    have heven : m.length % 2 = 0 := by
      simp only [List.length_cons] at hlength
      omega
    obtain ⟨b, hb⟩ := exists_denotes heven hm
    exact ⟨_, .cons hh hl hb⟩

/-! ### Reading -/

theorem decodeFrom_cons_eq_ok : decodeFrom i (x :: y :: s) = .ok b ↔
    ∃ h l r, value? x = some h ∧ value? y = some l ∧ decodeFrom (i + 2) s = .ok r ∧
      b = UInt8.ofNat (h * 16 + l) :: r := by
  rw [decodeFrom]
  cases value? x with
  | none => simp
  | some h =>
    cases value? y with
    | none => simp
    | some l => cases decodeFrom (i + 2) s <;> simp [Except.map, eq_comm]

/-- What is read has two bytes of ASCII for each byte. -/
theorem plain_of_decodeFrom : ∀ {s : Bytes} {i : Nat} {b : Bytes}, decodeFrom i s = .ok b →
    s.length = 2 * b.length ∧ ∀ x ∈ s, x < 128
  | [], _, _, h => by
    cases h
    exact ⟨rfl, nofun⟩
  | [_], _, _, h => nomatch h
  | x :: y :: s, _, _, h => by
    obtain ⟨_, _, r, hx, hy, hr, rfl⟩ := decodeFrom_cons_eq_ok.mp h
    obtain ⟨hlength, hs⟩ := plain_of_decodeFrom hr
    rw [List.forall_mem_cons, List.forall_mem_cons]
    refine ⟨?_, (digit_of_value? hx).1, (digit_of_value? hy).1, hs⟩
    simp only [List.length_cons, hlength]
    omega

theorem decodeFrom_map_eq_ok : ∀ {m : List Char} {i : Nat} {b : Bytes}, (∀ c ∈ m, c.toNat < 128) →
    (decodeFrom i (m.map fun c => UInt8.ofNat c.toNat) = .ok b ↔ Denotes m b)
  | [], i, b, _ => by
    constructor
    · rintro ⟨⟩
      exact .nil
    · rintro ⟨⟩
      rfl
  | [c], i, b, _ => ⟨nofun, nofun⟩
  | c :: d :: m, i, b, hm => by
    rw [List.forall_mem_cons, List.forall_mem_cons] at hm
    obtain ⟨hc, hd, hm⟩ := hm
    simp only [List.map_cons, decodeFrom_cons_eq_ok, value?_eq_some hc, value?_eq_some hd, decodeFrom_map_eq_ok hm]
    constructor
    · rintro ⟨h, l, r, hh, hl, hr, rfl⟩
      exact .cons hh hl hr
    · rintro (_ | ⟨hh, hl, hr⟩)
      exact ⟨_, _, _, hh, hl, hr, rfl⟩

theorem decode_eq_ok_iff : decode s = .ok b ↔ decodeFrom 0 s = .ok b := by
  rw [decode]
  split
  · next hodd =>
    have hnot : decodeFrom 0 s ≠ .ok b := fun h => by
      have hlength := (plain_of_decodeFrom h).1
      omega
    exact iff_of_false (fun h => by cases h) hnot
  · exact Iff.rfl

/-- A text is read if and only if it consists of pairs of digits, as the bytes that they denote. -/
theorem decode_eq_ok : decode (Text.utf8 (String.ofList m)) = .ok b ↔ Denotes m b := by
  rw [decode_eq_ok_iff, Text.utf8_eq_flatMap, String.toList_ofList]
  -- Either side makes `m` a text of ASCII, where characters and bytes correspond.
  constructor
  · intro h
    have hm := Text.lt_of_flatMap_utf8EncodeChar (plain_of_decodeFrom h).2
    rw [Text.flatMap_utf8EncodeChar_of_lt hm] at h
    exact (decodeFrom_map_eq_ok hm).mp h
  · intro h
    have hm : ∀ c ∈ m, c.toNat < 128 := fun c hc => by
      obtain ⟨n, hn⟩ := h.all_digits c hc
      exact hn.spec.1
    rw [Text.flatMap_utf8EncodeChar_of_lt hm]
    exact (decodeFrom_map_eq_ok hm).mpr h

end IdentityVault.Hex
