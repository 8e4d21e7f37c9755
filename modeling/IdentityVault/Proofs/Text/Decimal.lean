import IdentityVault.Text.Decimal
import Mathlib.Data.List.Induction

/-! Numbers in decimal are read back: what is written of a number has digits only, no needless zero in front, and the
    number as its value. -/

namespace IdentityVault.Text

variable {n : Nat} {c : Char} {r s : List Char}

theorem digitsValue_decimal (n : Nat) : digitsValue (decimal n) = n := by
  have hfold : digitsValue (decimal n) = Nat.ofDigitChars 10 (decimal n) 0 := by
    rw [digitsValue_eq_foldl, Nat.ofDigitChars_eq_foldl]
    rfl
  rw [hfold, decimal, Nat.ofDigitChars_toDigits (by decide) (by decide)]

theorem isDigit_of_mem_decimal (h : c ∈ decimal n) : isDigit c = true := by
  have hdigit := Nat.isDigit_of_mem_toDigits (by decide) (by decide) h
  simpa [isDigit, Char.isDigit, Char.le_def] using hdigit

theorem decimal_ne_nil (n : Nat) : decimal n ≠ [] := Nat.toDigits_ne_nil

theorem eq_digitChar_of_isDigit (h : isDigit c = true) : ∃ k < 10, c = Nat.digitChar k := by
  simp only [isDigit, Bool.and_eq_true, decide_eq_true_eq, Char.le_def, UInt32.le_iff_toNat_le] at h
  have hlow : 48 ≤ c.toNat := h.1
  have hhigh : c.toNat ≤ 57 := h.2
  have hchar : ∀ k < 10, Char.ofNat (48 + k) = Nat.digitChar k := by decide
  refine ⟨c.toNat - 48, by omega, ?_⟩
  rw [← hchar _ (by omega), Nat.add_sub_cancel' hlow, Char.ofNat_toNat]

/-- Only zero is written with a zero at its beginning. -/
theorem head?_decimal (h : n ≠ 0) : (decimal n).head? ≠ some '0' := by
  induction n using Nat.strongRecOn with
  | ind n ih =>
    rw [decimal, Nat.toDigits_eq_if (by decide)]
    split
    · simp [Nat.digitChar_eq_zero, h]
    · next hge =>
      have hfront := ih (n / 10) (by omega) (by omega)
      obtain ⟨c, r, hc⟩ := List.exists_cons_of_ne_nil (decimal_ne_nil (n / 10))
      rw [decimal] at hc hfront
      rw [hc] at hfront ⊢
      exact hfront

/-- Digits without a needless zero in front are what is written of the number that they denote. -/
theorem decimal_digitsValue (hne : s ≠ []) (hs : ∀ c ∈ s, isDigit c = true) (hzero : s.head? = some '0' → s = ['0']) :
    decimal (digitsValue s) = s := by
  induction s using List.reverseRecOn with
  | nil => exact absurd rfl hne
  | append_singleton r c ih =>
    obtain ⟨k, hk, rfl⟩ := eq_digitChar_of_isDigit (hs c (List.mem_append_right r List.mem_cons_self))
    have hvalue : ∀ k < 10, (Nat.digitChar k).toNat - 48 = k := by decide
    have hlast : digitsValue (r ++ [Nat.digitChar k]) = 10 * digitsValue r + k := by
      rw [digitsValue_eq_foldl, digitsValue_eq_foldl, List.foldl_append, List.foldl_cons, List.foldl_nil, hvalue k hk]
    have hdigit : decimal k = [Nat.digitChar k] := Nat.toDigits_of_lt_base hk
    rw [hlast]
    by_cases hr : r = []
    · rw [hr, List.nil_append]
      exact (congrArg decimal (Nat.zero_add k)).trans hdigit
    have hfront : decimal (digitsValue r) = r := by
      refine ih hr (fun c hc => hs c (List.mem_append_left _ hc)) fun hhead => ?_
      have hall := hzero (by rw [List.head?_append, hhead, Option.some_or])
      exact absurd (List.append_eq_singleton_iff.mp hall) (by simp [hr])
    have hpos : 0 < digitsValue r := by
      refine Nat.pos_of_ne_zero fun hnone => ?_
      rw [hnone] at hfront
      have hall := hzero (by rw [← hfront]; rfl)
      rw [← hfront] at hall
      cases hall
    rw [decimal, ← Nat.toDigits_append_toDigits (by decide) hpos hk]
    exact congrArg₂ (· ++ ·) hfront hdigit

theorem decimal?_decimal (n : Nat) : decimal? (decimal n) = some n := by
  have hdigits : (decimal n).all isDigit = true := List.all_eq_true.mpr fun _ => isDigit_of_mem_decimal
  have hzero : (decimal n).head? = some '0' → (decimal n).length = 1 := by
    intro hhead
    cases n with
    | zero => rfl
    | succ n => exact absurd hhead (head?_decimal (Nat.succ_ne_zero n))
  rw [decimal?, if_pos ⟨decimal_ne_nil n, hdigits, hzero⟩, digitsValue_decimal]

theorem length_decimal_le {width : Nat} (hpos : 0 < width) (h : n < Nat.pow 10 width) : (decimal n).length ≤ width :=
  (Nat.length_toDigits_le_iff (by decide) hpos).mpr h

/-- Digits denote a number that has no more of them. -/
theorem digitsValue_lt (h : ∀ c ∈ s, isDigit c = true) : digitsValue s < Nat.pow 10 s.length := by
  have hfold (n : Nat) : s.foldl (fun n c => 10 * n + (c.toNat - 48)) n < (n + 1) * Nat.pow 10 s.length := by
    induction s generalizing n with
    | nil => exact Nat.lt_of_lt_of_eq (Nat.lt_succ_self n) (Nat.mul_one _).symm
    | cons c r ih =>
      obtain ⟨k, hk, rfl⟩ := eq_digitChar_of_isDigit (h c List.mem_cons_self)
      have hvalue : ∀ k < 10, (Nat.digitChar k).toNat - 48 = k := by decide
      rw [List.foldl_cons, hvalue k hk]
      refine Nat.lt_of_lt_of_le (ih (fun c hc => h c (List.mem_cons_of_mem _ hc)) (10 * n + k)) ?_
      have hstep : (n + 1) * Nat.pow 10 (r.length + 1) = (10 * n + 10) * Nat.pow 10 r.length := by
        rw [show Nat.pow 10 (r.length + 1) = Nat.pow 10 r.length * 10 from rfl, Nat.mul_comm (Nat.pow 10 r.length),
          ← Nat.mul_assoc, Nat.add_mul, Nat.mul_comm n]
      rw [List.length_cons, hstep]
      exact Nat.mul_le_mul_right _ (by omega)
  have hlt := hfold 0
  rwa [← digitsValue_eq_foldl, Nat.zero_add, Nat.one_mul] at hlt

/-! ### Runs of digits -/

/-- A text goes on with something else than a digit, or ends. -/
def NoDigit (s : List Char) : Prop := ∀ c ∈ s.head?, isDigit c = false

theorem takeWhile_digits (hs : ∀ c ∈ s, isDigit c = true) (hr : NoDigit r) : (s ++ r).takeWhile isDigit = s := by
  rw [List.takeWhile_append_of_pos hs]
  cases r with
  | nil => rw [List.takeWhile_nil, List.append_nil]
  | cons c r => rw [List.takeWhile_cons_of_neg (by simp [hr c rfl]), List.append_nil]

theorem dropWhile_digits (hs : ∀ c ∈ s, isDigit c = true) (hr : NoDigit r) : (s ++ r).dropWhile isDigit = r := by
  rw [List.dropWhile_append_of_pos hs]
  cases r with
  | nil => rfl
  | cons c r => rw [List.dropWhile_cons_of_neg (by simp [hr c rfl])]

end IdentityVault.Text
