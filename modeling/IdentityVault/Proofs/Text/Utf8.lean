import IdentityVault.Text.Utf8

/-! Texts as bytes. A character of ASCII is a byte by itself, and any other one has several bytes, none of which is of
    ASCII. Higher code points have higher forms, so that texts are in the order of their bytes. -/

namespace IdentityVault.Text

theorem utf8_append (a b : String) : utf8 (a ++ b) = utf8 a ++ utf8 b := by simp [utf8, String.toUTF8]

theorem utf8_injective {a b : String} (h : utf8 a = utf8 b) : a = b := by
  have hread := congrArg ofUtf8? h
  rw [ofUtf8?_utf8, ofUtf8?_utf8] at hread
  exact Option.some.inj hread

theorem utf8_eq_flatMap (s : String) : utf8 s = s.toList.flatMap String.utf8EncodeChar := by
  rw [← String.ofList_toList (s := s), utf8, String.toUTF8, String.toByteArray_ofList, String.toList_ofList]
  simp [List.utf8Encode]

theorem length_toList_le (s : String) : s.toList.length ≤ (utf8 s).length := by
  rw [utf8_eq_flatMap]
  induction s.toList with
  | nil => exact Nat.le_refl _
  | cons c l ih =>
    have hpos := c.utf8Size_pos
    rw [List.flatMap_cons, List.length_append, List.length_cons, String.length_utf8EncodeChar]
    omega

/-! ### The form of a character -/

/-- What is left of `v` without the lowest `k` groups of six bits. -/
def above : (k v : Nat) → Nat
  | 0, v => v
  | k + 1, v => above k v / 64

/-- The last `k` bytes of a character: the lowest `k` groups of six bits, the highest one first. -/
def trail : (k v : Nat) → Bytes
  | 0, _ => []
  | k + 1, v => UInt8.ofNat (above k v % 64 + 128) :: trail k v

/-- A character with the code point `v` has `k` bytes behind the first one, to which `mark` is added. -/
def Form (v k mark : Nat) : Prop :=
  (k = 0 ∧ mark = 0 ∧ v < 128) ∨ (k = 1 ∧ mark = 192 ∧ 128 ≤ v ∧ v < 2048) ∨
    (k = 2 ∧ mark = 224 ∧ 2048 ≤ v ∧ v < 65536) ∨ (k = 3 ∧ mark = 240 ∧ 65536 ≤ v ∧ v < 0x110000)

theorem exists_form (c : Char) : ∃ k mark, Form c.toNat k mark ∧
    String.utf8EncodeChar c = UInt8.ofNat (above k c.toNat + mark) :: trail k c.toNat := by
  have hvalid : c.toNat < 0x110000 := by
    rcases c.valid with h | h
    · exact Nat.lt_trans h (by decide)
    · exact h.2
  have hval : c.val.toNat = c.toNat := rfl
  simp only [String.utf8EncodeChar, hval]
  generalize c.toNat = v at hvalid
  clear hval
  -- The remainders that the first byte is made with do nothing: the bounds leave no higher bits.
  by_cases h₁ : v ≤ 127
  · exact ⟨0, 0, .inl ⟨rfl, rfl, by omega⟩, by simp [h₁, above, trail]⟩
  by_cases h₂ : v ≤ 2047
  · have hlead : v / 64 % 32 = v / 64 := Nat.mod_eq_of_lt (by omega)
    exact ⟨1, 192, .inr (.inl ⟨rfl, rfl, by omega⟩), by simp [h₁, h₂, hlead, above, trail]⟩
  by_cases h₃ : v ≤ 65535
  · have hlead : v / 4096 % 16 = v / 4096 := Nat.mod_eq_of_lt (by omega)
    exact ⟨2, 224, .inr (.inr (.inl ⟨rfl, rfl, by omega⟩)), by simp [h₁, h₂, h₃, hlead, above, trail, Nat.div_div_eq_div_mul]⟩
  · have hlead : v / 262144 % 8 = v / 262144 := Nat.mod_eq_of_lt (by omega)
    exact ⟨3, 240, .inr (.inr (.inr ⟨rfl, rfl, by omega⟩)), by simp [h₁, h₂, h₃, hlead, above, trail, Nat.div_div_eq_div_mul]⟩

namespace Form
variable {v w k l m n : Nat}

theorem lead_lt (h : Form v k m) : above k v + m < 256 := by
  rcases h with ⟨rfl, rfl, h⟩ | ⟨rfl, rfl, h⟩ | ⟨rfl, rfl, h⟩ | ⟨rfl, rfl, h⟩ <;> simp only [above] <;> omega

/-- Beyond ASCII, the first byte is not of ASCII. -/
theorem le_lead (h : Form v k m) (hv : 128 ≤ v) : 128 ≤ above k v + m := by
  rcases h with ⟨rfl, rfl, h⟩ | ⟨rfl, rfl, h⟩ | ⟨rfl, rfl, h⟩ | ⟨rfl, rfl, h⟩ <;> simp only [above] <;> omega

/-- Forms of higher code points are of the same length, or longer with a higher first byte. -/
theorem eq_or_lt (hv : Form v k m) (hw : Form w l n) (h : v < w) :
    (k = l ∧ m = n) ∨ above k v + m < above l w + n := by
  rcases hv with ⟨rfl, rfl, hv⟩ | ⟨rfl, rfl, hv⟩ | ⟨rfl, rfl, hv⟩ | ⟨rfl, rfl, hv⟩ <;>
    rcases hw with ⟨rfl, rfl, hw⟩ | ⟨rfl, rfl, hw⟩ | ⟨rfl, rfl, hw⟩ | ⟨rfl, rfl, hw⟩ <;>
    simp only [above, and_self, true_or] <;> omega

end Form

/-! ### Characters of ASCII, and others -/

/-- The text that bytes below 128 spell. -/
def ofAscii (b : Bytes) : String := String.ofList (b.map fun c => Char.ofNat c.toNat)

theorem toNat_char {n : Nat} (h : n.isValidChar) : (Char.ofNat n).toNat = n := by
  rw [Char.ofNat, dif_pos h]
  rfl

theorem utf8EncodeChar_of_lt {c : Char} (h : c.toNat < 128) : String.utf8EncodeChar c = [UInt8.ofNat c.toNat] :=
  if_pos (Nat.le_of_lt_succ h)

theorem utf8EncodeChar_ofNat {n : Nat} (h : n < 128) : String.utf8EncodeChar (Char.ofNat n) = [UInt8.ofNat n] := by
  have hn := toNat_char (.inl (Nat.lt_trans h (by decide)))
  rw [utf8EncodeChar_of_lt (hn.symm ▸ h), hn]

theorem utf8_ofAscii {b : Bytes} (h : ∀ c ∈ b, c < 128) : utf8 (ofAscii b) = b := by
  rw [utf8_eq_flatMap, ofAscii, String.toList_ofList, List.flatMap_map]
  induction b with
  | nil => rfl
  | cons c b ih =>
    rw [List.forall_mem_cons] at h
    rw [List.flatMap_cons, utf8EncodeChar_ofNat (UInt8.lt_iff_toNat_lt.mp h.1), UInt8.ofNat_toNat, ih h.2]
    rfl

theorem ofUtf8?_of_ascii {b : Bytes} (h : ∀ c ∈ b, c < 128) : ofUtf8? b = some (ofAscii b) := by
  rw [← utf8_ofAscii h, ofUtf8?_utf8, utf8_ofAscii h]

theorem le_of_mem_trail {b : UInt8} {v : Nat} : ∀ {k : Nat}, b ∈ trail k v → 128 ≤ b
  | k + 1, h => by
    rcases List.mem_cons.mp h with rfl | h
    · rw [UInt8.le_iff_toNat_le, UInt8.toNat_ofNat_of_lt' (show above k v % 64 + 128 < 256 by omega)]
      exact Nat.le_add_left 128 _
    · exact le_of_mem_trail h

theorem utf8EncodeChar_of_le {c : Char} (h : 128 ≤ c.toNat) : ∀ b ∈ String.utf8EncodeChar c, 128 ≤ b := by
  obtain ⟨k, mark, hform, hc⟩ := exists_form c
  rw [hc, List.forall_mem_cons]
  refine ⟨?_, fun b hb => le_of_mem_trail hb⟩
  rw [UInt8.le_iff_toNat_le, UInt8.toNat_ofNat_of_lt' hform.lead_lt]
  exact hform.le_lead h

/-- A byte below 128 is always a character by itself. -/
theorem toNat_of_mem_utf8EncodeChar {c : Char} {b : UInt8} (h : b ∈ String.utf8EncodeChar c) (hb : b < 128) :
    c.toNat = b.toNat := by
  by_cases hc : c.toNat < 128
  · rw [utf8EncodeChar_of_lt hc, List.mem_singleton] at h
    rw [h, UInt8.toNat_ofNat_of_lt' (Nat.lt_trans hc (by decide))]
  · exact absurd hb (UInt8.not_lt.mpr (utf8EncodeChar_of_le (Nat.le_of_not_lt hc) b h))

theorem exists_mem_of_mem_utf8 {s : String} {b : UInt8} (h : b ∈ utf8 s) (hb : b < 128) :
    ∃ c ∈ s.toList, c.toNat = b.toNat := by
  rw [utf8_eq_flatMap, List.mem_flatMap] at h
  obtain ⟨c, hc, hm⟩ := h
  exact ⟨c, hc, toNat_of_mem_utf8EncodeChar hm hb⟩

theorem flatMap_utf8EncodeChar_of_lt {l : List Char} (h : ∀ c ∈ l, c.toNat < 128) :
    l.flatMap String.utf8EncodeChar = l.map fun c => UInt8.ofNat c.toNat := by
  induction l with
  | nil => rfl
  | cons c l ih =>
    rw [List.forall_mem_cons] at h
    rw [List.flatMap_cons, utf8EncodeChar_of_lt h.1, ih h.2]
    rfl

/-- A text whose bytes are of ASCII has characters of ASCII. -/
theorem lt_of_flatMap_utf8EncodeChar {l : List Char} (h : ∀ b ∈ l.flatMap String.utf8EncodeChar, b < 128) :
    ∀ c ∈ l, c.toNat < 128 := by
  intro c hc
  obtain ⟨k, mark, -, hbytes⟩ := exists_form c
  have hlead : UInt8.ofNat (above k c.toNat + mark) ∈ String.utf8EncodeChar c := hbytes ▸ List.mem_cons_self
  have hlt := h _ (List.mem_flatMap.mpr ⟨c, hc, hlead⟩)
  rw [toNat_of_mem_utf8EncodeChar hlead hlt]
  exact UInt8.lt_iff_toNat_lt.mp hlt

/-! ### Order -/

theorem cons_lt_cons {a b : Nat} {l m : Bytes} (ha : a < 256) (hb : b < 256) (h : a < b ∨ a = b ∧ l < m) :
    UInt8.ofNat a :: l < UInt8.ofNat b :: m := by
  rw [List.cons_lt_cons_iff, UInt8.lt_iff_toNat_lt, ← UInt8.toNat_inj, UInt8.toNat_ofNat_of_lt' ha,
    UInt8.toNat_ofNat_of_lt' hb]
  exact h

theorem above_le {v w : Nat} (h : v ≤ w) : ∀ k, above k v ≤ above k w
  | 0 => h
  | k + 1 => Nat.div_le_div_right (above_le h k)

/-- Where the higher bits are the same, the first group of bits that is not the same decides. -/
theorem trail_lt {v w : Nat} (h : v < w) (r s : Bytes) :
    ∀ {k : Nat}, above k v = above k w → trail k v ++ r < trail k w ++ s
  | 0, hk => absurd hk (Nat.ne_of_lt h)
  | k + 1, hk => by
    have hhigh : above k v / 64 = above k w / 64 := hk
    -- With the same bits above the group, the groups are in the order of all the bits down to them.
    refine cons_lt_cons (by omega) (by omega) ?_
    rcases Nat.eq_or_lt_of_le (above_le (Nat.le_of_lt h) k) with heq | hlt
    · exact .inr ⟨by rw [heq], trail_lt h r s heq⟩
    · exact .inl (by omega)

theorem utf8EncodeChar_lt {c d : Char} (h : c < d) (r s : Bytes) :
    String.utf8EncodeChar c ++ r < String.utf8EncodeChar d ++ s := by
  have hlt : c.toNat < d.toNat := UInt32.lt_iff_toNat_lt.mp h
  obtain ⟨k, m, hc, ec⟩ := exists_form c
  obtain ⟨l, n, hd, ed⟩ := exists_form d
  rw [ec, ed]
  refine cons_lt_cons hc.lead_lt hd.lead_lt ?_
  rcases hc.eq_or_lt hd hlt with ⟨rfl, rfl⟩ | hlead
  · rcases Nat.eq_or_lt_of_le (above_le (Nat.le_of_lt hlt) k) with heq | hless
    · exact .inr ⟨by rw [heq], trail_lt hlt r s heq⟩
    · exact .inl (Nat.add_lt_add_right hless m)
  · exact .inl hlead

theorem flatMap_utf8EncodeChar_lt : ∀ {l m : List Char}, l < m →
    l.flatMap String.utf8EncodeChar < m.flatMap String.utf8EncodeChar
  | [], d :: m, _ => by
    obtain ⟨k, mark, -, hd⟩ := exists_form d
    rw [List.flatMap_cons, hd]
    exact List.nil_lt_cons _ _
  | c :: l, d :: m, h => by
    rw [List.flatMap_cons, List.flatMap_cons]
    rcases List.cons_lt_cons_iff.mp h with hlt | ⟨rfl, htail⟩
    · exact utf8EncodeChar_lt hlt _ _
    · exact List.append_left_lt (flatMap_utf8EncodeChar_lt htail)

/-- Texts are in the order of their bytes. -/
theorem utf8_lt {s t : String} (h : s < t) : utf8 s < utf8 t := by
  rw [utf8_eq_flatMap, utf8_eq_flatMap]
  exact flatMap_utf8EncodeChar_lt (String.lt_iff.mp h)

end IdentityVault.Text
