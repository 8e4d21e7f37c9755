import IdentityVault.Proofs.Text.Lowercase
import IdentityVault.Rsa.KeyFile

/-! Names of key formats. A format has the spellings that one expects, in either case and with underscores anywhere, and
    no other ones: the letters of `der` and `pem` come from no character beyond ASCII. -/

namespace IdentityVault.Rsa.KeyFormat
variable {w s : List Char} {t : String}

/-- `s` spells the name `w`: it has the letters of `w` in their order, each in either case, and else only underscores. -/
inductive Spells : (w s : List Char) → Prop where
  | nil : Spells [] []
  | underscore {w s : List Char} : Spells w s → Spells w ('_' :: s)
  | letter {l c : Char} {w s : List Char} : c = l ∨ c = l.toUpper → Spells w s → Spells (l :: w) (c :: s)

namespace Spells

theorem underscore_iff (hw : ∀ l ∈ w, Text.Letter l) : Spells w ('_' :: s) ↔ Spells w s := by
  refine ⟨fun h => ?_, .underscore⟩
  cases h with
  | underscore h => exact h
  | letter hc _ =>
    obtain ⟨-, -, hsmall, hcapital⟩ := (hw _ List.mem_cons_self).cases
    exact (hc.elim hsmall hcapital).elim

theorem letter_iff {l c : Char} (hc : c ≠ '_') : Spells (l :: w) (c :: s) ↔ (c = l ∨ c = l.toUpper) ∧ Spells w s := by
  refine ⟨fun h => ?_, fun h => .letter h.1 h.2⟩
  cases h with
  | underscore _ => exact absurd rfl hc
  | letter hcase h => exact ⟨hcase, h⟩

/-- A spelling is a text of ASCII. -/
theorem lt (h : Spells w s) (hw : ∀ l ∈ w, Text.Letter l) : ∀ c ∈ s, c.toNat < 0x80 := by
  induction h with
  | nil => nofun
  | underscore _ ih => exact List.forall_mem_cons.mpr ⟨by decide, ih hw⟩
  | letter hc _ ih =>
    rw [List.forall_mem_cons] at hw
    exact List.forall_mem_cons.mpr ⟨hw.1.lt_of_eq hc, ih hw.2⟩

end Spells

/-- Without its underscores and in lower case, a text is the name that it spells. -/
theorem lower_filter_eq (hw : ∀ l ∈ w, Text.Letter l) : Text.lower (s.filter (· != '_')) = w ↔ Spells w s := by
  induction s generalizing w with
  | nil =>
    constructor
    · rintro rfl
      exact .nil
    · rintro ⟨⟩
      rfl
  | cons c s ih =>
    by_cases hc : c = '_'
    · subst hc
      rw [List.filter_cons_of_neg (by decide), ih hw, Spells.underscore_iff hw]
    · rw [List.filter_cons_of_pos (by simpa using hc), Text.lower, List.flatMap_cons]
      cases w with
      | nil =>
        refine iff_of_false (fun h => ?_) fun h => ?_
        · exact Text.lowerChar_ne_nil c (List.append_eq_nil_iff.mp h).1
        · cases h
          exact hc rfl
      | cons l w =>
        rw [List.forall_mem_cons] at hw
        rw [hw.1.lowerChar_append_eq_cons, Spells.letter_iff hc, ← ih hw.2, Text.lower]

theorem letters_der : ∀ l ∈ ['d', 'e', 'r'], Text.Letter l := by simp [Text.Letter]

theorem letters_pem : ∀ l ∈ ['p', 'e', 'm'], Text.Letter l := by simp [Text.Letter]

theorem parse_eq_der : parse t = .der ↔ Spells ['d', 'e', 'r'] t.toList := by
  rw [← lower_filter_eq letters_der, parse]
  split <;> simp_all

theorem parse_eq_pem : parse t = .pem ↔ Spells ['p', 'e', 'm'] t.toList := by
  rw [← lower_filter_eq letters_pem, parse]
  split <;> simp_all

theorem toLower_eq_underscore (c : Char) : c.toLower = '_' ↔ c = '_' := by
  by_cases hc : c.toNat < 0x80
  · exact Text.ascii_all (P := fun c => c.toLower = '_' ↔ c = '_') (by decide) hc
  · rw [Text.toLower_of_le (Nat.le_of_not_lt hc)]

theorem lower_filter_toLower (s : List Char) :
    Text.lower ((s.map Char.toLower).filter (· != '_')) = Text.lower (s.filter (· != '_')) := by
  have hkept (c : Char) : (c.toLower != '_') = (c != '_') := by
    rw [Bool.eq_iff_iff, bne_iff_ne, bne_iff_ne, ne_eq, toLower_eq_underscore]
  simp only [List.filter_map, Function.comp_def, hkept, Text.lower, List.flatMap_map, Text.lowerChar_toLower]

/-- Which format the text `t` names, and which changes of it do not matter. -/
structure Naming (t : String) : Prop where
  der : parse t = .der ↔ Spells ['d', 'e', 'r'] t.toList
  pem : parse t = .pem ↔ Spells ['p', 'e', 'm'] t.toList
  unsupported : parse t = .unsupported ↔ ¬Spells ['d', 'e', 'r'] t.toList ∧ ¬Spells ['p', 'e', 'm'] t.toList
  /-- No character beyond ASCII is part of a name. -/
  beyond : ∀ c ∈ t.toList, 0x80 ≤ c.toNat → parse t = .unsupported
  /-- An underscore may be put anywhere, and be left out. -/
  underscores : ∀ before after, t = before ++ after → parse (before ++ "_" ++ after) = parse t
  /-- Letters of ASCII may change their case. -/
  capitals : ∀ u : String, u.toList.map Char.toLower = t.toList.map Char.toLower → parse u = parse t

/-- A text names a format if and only if it consists of the letters of the name in their order, each in either case, and
    of underscores. -/
theorem parse_exact (t : String) : Naming t := by
  have hunsupported : parse t = .unsupported ↔ ¬Spells ['d', 'e', 'r'] t.toList ∧ ¬Spells ['p', 'e', 'm'] t.toList := by
    rw [← parse_eq_der, ← parse_eq_pem]
    cases parse t <;> simp
  refine ⟨parse_eq_der, parse_eq_pem, hunsupported, fun c hm hc => ?_, ?_, fun u hu => ?_⟩
  · exact hunsupported.mpr ⟨fun h => Nat.not_lt.mpr hc (h.lt letters_der c hm),
      fun h => Nat.not_lt.mpr hc (h.lt letters_pem c hm)⟩
  · rintro before after rfl
    have hkept : (before ++ "_" ++ after).toList.filter (· != '_') = (before ++ after).toList.filter (· != '_') := by
      simp
    rw [parse, parse, hkept]
  · rw [parse, parse, ← lower_filter_toLower u.toList, ← lower_filter_toLower t.toList, hu]

end IdentityVault.Rsa.KeyFormat
