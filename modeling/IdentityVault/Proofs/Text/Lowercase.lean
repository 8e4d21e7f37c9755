import IdentityVault.Proofs.Text.Utf8
import IdentityVault.Text.Lowercase

/-! Lower case within ASCII and beyond. Within ASCII only the capital letters change. Beyond it, two characters have a
    letter of ASCII in their lower-case forms: `İ` comes to an `i` with a dot, and the sign of the kelvin to a `k`. A
    sigma at the end of a word would not change this, since neither of its small forms is of ASCII. -/

namespace IdentityVault.Text
variable {c d x l : Char} {s w : List Char}

/-! ### Characters beyond ASCII -/

namespace CaseRun

/-- The lower-case forms of a run are characters beyond ASCII, unless there is only one and it is a `k`. -/
def Beyond (r : CaseRun) : Prop :=
  (0x80 ≤ r.first + r.shift ∧ r.last + r.shift < 0xd800) ∨ (0xe000 ≤ r.first + r.shift ∧ r.last + r.shift < 0x110000) ∨
    (r.first = r.last ∧ r.first + r.shift = 0x6b)

instance (r : CaseRun) : Decidable r.Beyond := inferInstanceAs (Decidable (_ ∨ _ ∨ _))

theorem beyond_of_mem : ∀ r ∈ caseRuns, r.Beyond := by decide +kernel

theorem Beyond.lowered {r : CaseRun} {n : Nat} (h : r.Beyond) (hn : r.contains n = true) :
    0x80 ≤ (Char.ofNat (n + r.shift).toNat).toNat ∨ Char.ofNat (n + r.shift).toNat = 'k' := by
  simp only [contains, Bool.and_eq_true, decide_eq_true_eq] at hn
  obtain ⟨⟨hfirst, hlast⟩, -⟩ := hn
  rcases h with ⟨hlow, hhigh⟩ | ⟨hlow, hhigh⟩ | ⟨hone, hk⟩
  · refine .inl ?_
    rw [toNat_char (.inl (by omega))]
    omega
  · refine .inl ?_
    rw [toNat_char (.inr ⟨by omega, by omega⟩)]
    omega
  · have hletter : (n + r.shift).toNat = 0x6b := by omega
    exact .inr (hletter ▸ rfl)

end CaseRun

/-- What is in the lower-case form of a character beyond ASCII. -/
theorem mem_lowerChar_of_le (hc : 0x80 ≤ c.toNat) (hx : x ∈ lowerChar c) : 0x80 ≤ x.toNat ∨ x = 'i' ∨ x = 'k' := by
  rw [lowerChar, if_neg (Nat.not_lt.mpr hc)] at hx
  split at hx
  · rcases List.mem_cons.mp hx with rfl | hx
    · exact .inr (.inl rfl)
    · rw [List.mem_singleton.mp hx]
      exact .inl (by decide)
  · split at hx
    · next r hr =>
      have hcontains : r.contains c.toNat = true := by simpa using List.find?_some hr
      rw [List.mem_singleton.mp hx]
      exact ((CaseRun.beyond_of_mem r (List.mem_of_find?_eq_some hr)).lowered hcontains).imp_right .inr
    · rw [List.mem_singleton.mp hx]
      exact .inl hc

theorem toLower_of_le (hc : 0x80 ≤ c.toNat) : c.toLower = c := by
  refine dif_neg fun h => ?_
  have hlast : c.toNat ≤ 90 := UInt32.le_iff_toNat_le.mp h.2
  omega

/-! ### Characters of ASCII -/

theorem lowerChar_of_lt (h : c.toNat < 0x80) : lowerChar c = [c.toLower] := if_pos h

/-- What is true of all characters of ASCII. -/
theorem ascii_all {P : Char → Prop} (h : ∀ n < 0x80, P (Char.ofNat n)) (hc : c.toNat < 0x80) : P c :=
  c.ofNat_toNat ▸ h c.toNat hc

theorem toLower_of_lt (hc : c.toNat < 0x80) :
    c.toLower.toNat < 0x80 ∧ c.toLower.toLower = c.toLower ∧ (c = c.toLower ∨ c = c.toLower.toUpper) :=
  ascii_all (P := fun c => c.toLower.toNat < 0x80 ∧ c.toLower.toLower = c.toLower ∧
    (c = c.toLower ∨ c = c.toLower.toUpper)) (by decide) hc

/-! ### Lower-case forms -/

theorem lowerChar_ne_nil (c : Char) : lowerChar c ≠ [] := by
  rw [lowerChar]
  split
  · exact List.cons_ne_nil _ _
  · split
    · exact List.cons_ne_nil _ _
    · split <;> exact List.cons_ne_nil _ _

/-- A character and its lower-case form within ASCII have the same lower-case form. -/
theorem lowerChar_toLower (c : Char) : lowerChar c.toLower = lowerChar c := by
  by_cases hc : c.toNat < 0x80
  · obtain ⟨hlt, hsame, -⟩ := toLower_of_lt hc
    rw [lowerChar_of_lt hc, lowerChar_of_lt hlt, hsame]
  · rw [toLower_of_le (Nat.le_of_not_lt hc)]

/-- The small letters that come from nothing but themselves and their capitals. -/
def Letter (l : Char) : Prop := 0x61 ≤ l.toNat ∧ l.toNat ≤ 0x7a ∧ l ≠ 'i' ∧ l ≠ 'k'

instance (l : Char) : Decidable (Letter l) := inferInstanceAs (Decidable (_ ∧ _))

namespace Letter

theorem lt (hl : Letter l) : l.toNat < 0x80 := Nat.lt_of_le_of_lt hl.2.1 (by decide)

theorem cases (hl : Letter l) :
    (l.toLower = l ∧ l.toUpper.toLower = l) ∧ l.toUpper.toNat < 0x80 ∧ '_' ≠ l ∧ '_' ≠ l.toUpper :=
  ascii_all (P := fun l => Letter l → (l.toLower = l ∧ l.toUpper.toLower = l) ∧ l.toUpper.toNat < 0x80 ∧
    '_' ≠ l ∧ '_' ≠ l.toUpper) (by decide) hl.lt hl

theorem lt_of_eq (hl : Letter l) (hc : c = l ∨ c = l.toUpper) : c.toNat < 0x80 := by
  rcases hc with rfl | rfl
  · exact hl.lt
  · exact hl.cases.2.1

/-- A lower-case form begins with a letter if and only if it is the form of this letter, or of its capital. -/
theorem lowerChar_append_eq_cons (hl : Letter l) : lowerChar c ++ s = l :: w ↔ (c = l ∨ c = l.toUpper) ∧ s = w := by
  by_cases hc : c.toNat < 0x80
  · rw [lowerChar_of_lt hc, List.singleton_append, List.cons.injEq]
    refine and_congr_left' ⟨?_, ?_⟩
    · rintro rfl
      exact (toLower_of_lt hc).2.2
    · rintro (rfl | rfl)
      · exact hl.cases.1.1
      · exact hl.cases.1.2
  · refine iff_of_false (fun h => ?_) fun h => hc (hl.lt_of_eq h.1)
    have hmem : l ∈ lowerChar c := by
      cases hform : lowerChar c with
      | nil => exact absurd hform (lowerChar_ne_nil c)
      | cons x r =>
        rw [hform, List.cons_append, List.cons.injEq] at h
        exact h.1 ▸ List.mem_cons_self
    rcases mem_lowerChar_of_le (Nat.le_of_not_lt hc) hmem with hle | hi | hk
    · exact absurd hl.lt (Nat.not_lt.mpr hle)
    · exact hl.2.2.1 hi
    · exact hl.2.2.2 hk

end Letter
end IdentityVault.Text
