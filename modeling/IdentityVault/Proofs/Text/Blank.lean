import IdentityVault.Text.Blank

/-! Blanks around a text. Trimming leaves the one part of the text that has only blanks around it and none at its own
    ends. -/

namespace IdentityVault.Text
variable {s m before after : List Char}

/-- `s` is `m` with blanks around it, and `m` neither begins nor ends with a blank. -/
structure Trimmed (s m : List Char) : Prop where
  around : ∃ before after, s = before ++ m ++ after ∧ (∀ c ∈ before, blank c = true) ∧ ∀ c ∈ after, blank c = true
  first : ∀ c, m.head? = some c → blank c = false
  last : ∀ c, m.getLast? = some c → blank c = false

/-! ### Blanks in front -/

theorem trimStart_of_head? (h : ∀ c, s.head? = some c → blank c = false) : trimStart s = s := by
  cases s with
  | nil => rfl
  | cons c s => exact List.dropWhile_cons_of_neg (by simp [h c rfl])

theorem trimStart_append (h : ∀ c ∈ before, blank c = true) : trimStart (before ++ s) = trimStart s :=
  List.dropWhile_append_of_pos h

theorem head?_trimStart {c : Char} (h : (trimStart s).head? = some c) : blank c = false := by
  have hhead := List.head?_dropWhile_not blank s
  rw [trimStart] at h
  rwa [h] at hhead

theorem exists_append_trimStart (s : List Char) : ∃ before, s = before ++ trimStart s ∧ ∀ c ∈ before, blank c = true :=
  ⟨s.takeWhile blank, List.takeWhile_append_dropWhile.symm, List.all_eq_true.mp List.all_takeWhile⟩

/-! ### Blanks on both sides -/

theorem trimmed_trim (s : List Char) : Trimmed s (trim s) where
  around := by
    obtain ⟨before, hs, hbefore⟩ := exists_append_trimStart s
    obtain ⟨after, hrest, hafter⟩ := exists_append_trimStart (trimStart s).reverse
    refine ⟨before, after.reverse, ?_, hbefore, fun c hc => hafter c (List.mem_reverse.mp hc)⟩
    rw [trim, List.append_assoc, ← List.reverse_append, ← hrest, List.reverse_reverse]
    exact hs
  first c hc := by
    obtain ⟨after, hrest, -⟩ := exists_append_trimStart (trimStart s).reverse
    have hfront : trimStart s = trim s ++ after.reverse := by
      rw [trim, ← List.reverse_append, ← hrest, List.reverse_reverse]
    refine head?_trimStart (s := s) ?_
    rw [hfront, List.head?_append, hc]
    rfl
  last c hc := by
    rw [trim, List.getLast?_reverse] at hc
    exact head?_trimStart hc

theorem Trimmed.eq_trim (h : Trimmed s m) : m = trim s := by
  obtain ⟨⟨before, after, rfl, hbefore, hafter⟩, hfirst, hlast⟩ := h
  rw [trim, List.append_assoc, trimStart_append hbefore]
  cases m with
  | nil =>
    have hnone : trimStart after = [] := List.append_nil after ▸ trimStart_append hafter
    rw [List.nil_append, hnone]
    rfl
  | cons c m =>
    have hfront : trimStart (c :: m ++ after) = c :: m ++ after := trimStart_of_head? hfirst
    rw [hfront, List.reverse_append, trimStart_append fun d hd => hafter d (List.mem_reverse.mp hd),
      trimStart_of_head? fun d hd => hlast d (List.head?_reverse ▸ hd), List.reverse_reverse]

theorem trimmed_iff : Trimmed s m ↔ m = trim s := ⟨Trimmed.eq_trim, fun h => h ▸ trimmed_trim s⟩

end IdentityVault.Text
