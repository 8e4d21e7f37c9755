import IdentityVault.Proofs.Text.Decimal
import IdentityVault.Proofs.Time.Calendar
import IdentityVault.Time.Rfc3339

/-! A point in time is read as it was written. Each part of the text is read off it in front of what follows, which
    never goes on with a digit. -/

namespace IdentityVault
namespace Timestamp

variable {t : Timestamp} {c : Char} {n most width : Nat} {r s : List Char}

/-- A point in time that is kept: in a year that is kept, and with a leap second only at the end of a minute. -/
structure Valid (t : Timestamp) : Prop where
  date : (Date.ofDays (t.seconds / 86400)).Valid
  nanos : t.nanos < 2000000000
  leap : 1000000000 ≤ t.nanos → t.seconds % 60 = 59

instance (t : Timestamp) : Decidable t.Valid :=
  decidable_of_iff ((Date.ofDays (t.seconds / 86400)).Valid ∧ t.nanos < 2000000000 ∧
    (1000000000 ≤ t.nanos → t.seconds % 60 = 59)) ⟨fun h => ⟨h.1, h.2.1, h.2.2⟩, fun h => ⟨h.date, h.nanos, h.leap⟩⟩

/-! ### Digits with leading zeros -/

theorem isDigit_of_mem_digits (h : c ∈ digits width n) : Text.isDigit c = true := by
  rcases List.mem_append.mp h with h | h
  · rw [List.eq_of_mem_replicate h]
    rfl
  · exact Text.isDigit_of_mem_decimal h

theorem digits_ne_nil (width n : Nat) : digits width n ≠ [] :=
  List.append_ne_nil_of_right_ne_nil _ (Text.decimal_ne_nil n)

theorem exists_digits_cons (width n : Nat) : ∃ c r, digits width n = c :: r ∧ Text.isDigit c = true := by
  obtain ⟨c, r, h⟩ := List.exists_cons_of_ne_nil (digits_ne_nil width n)
  exact ⟨c, r, h, isDigit_of_mem_digits (h ▸ List.mem_cons_self)⟩

theorem length_digits (hpos : 0 < width) (h : n < Nat.pow 10 width) : (digits width n).length = width := by
  have hlen := Text.length_decimal_le hpos h
  rw [digits, List.length_append, List.length_replicate]
  omega

theorem digitsValue_digits (width n : Nat) : Text.digitsValue (digits width n) = n := by
  have hzeros : ∀ k, (List.replicate k '0').foldl (fun n c => 10 * n + (c.toNat - 48)) 0 = 0 := by
    intro k
    induction k with
    | zero => rfl
    | succ k ih => exact ih
  rw [Text.digitsValue_eq_foldl, digits, List.foldl_append, hzeros, ← Text.digitsValue_eq_foldl,
    Text.digitsValue_decimal]

/-! ### The parts of a text -/

theorem blank_of_isDigit (h : Text.isDigit c = true) : Text.blank c = false := by
  obtain ⟨k, hk, rfl⟩ := Text.eq_digitChar_of_isDigit h
  revert k
  decide

theorem trimStart_digits (width n : Nat) (r : List Char) :
    Text.trimStart (digits width n ++ r) = digits width n ++ r := by
  obtain ⟨c, s, h, hc⟩ := exists_digits_cons width n
  rw [h, List.cons_append, Text.trimStart, List.dropWhile_cons_of_neg (by simp [blank_of_isDigit hc])]

theorem number?_digits (hlen : (digits width n).length ≤ most) (hr : Text.NoDigit r) :
    number? most (digits width n ++ r) = some (n, r) := by
  have htake : ((digits width n ++ r).take most).takeWhile Text.isDigit = digits width n := by
    rw [List.take_append, List.take_of_length_le hlen]
    -- What is cut off at the greatest width may leave some of what follows, or nothing; it begins with no digit.
    refine Text.takeWhile_digits (fun c hc => isDigit_of_mem_digits hc) fun c hc => ?_
    cases r with
    | nil => simp at hc
    | cons d r =>
      cases hk : most - (digits width n).length with
      | zero => simp [hk] at hc
      | succ k =>
        rw [hk] at hc
        exact hr c hc
  rw [number?, htake, if_neg (digits_ne_nil width n), digitsValue_digits, List.drop_left]

theorem part?_digits (hlen : (digits width n).length ≤ most) (hr : Text.NoDigit r) :
    part? most (digits width n ++ r) = some (n, r) := by
  rw [part?, trimStart_digits, number?_digits hlen hr]

theorem part?_two (h : n < 100) (hr : Text.NoDigit r) : part? 2 (digits 2 n ++ r) = some (n, r) :=
  part?_digits (Nat.le_of_eq (length_digits (by decide) h)) hr

theorem noDigit_cons (hc : Text.isDigit c = false) : Text.NoDigit (c :: r) := by
  rintro _ ⟨⟩
  exact hc

theorem year?_renderYear (y : Int) (hr : Text.NoDigit r) : year? (renderYear y ++ r) = some (y, r) := by
  rw [renderYear]
  split
  · next h =>
    have hlen : (digits 4 y.toNat).length = 4 := length_digits (by decide) (by change _ < 10000; omega)
    have hnumber := number?_digits (Nat.le_of_eq hlen) hr
    rw [year?, trimStart_digits]
    obtain ⟨c, s, hc, hdigit⟩ := exists_digits_cons 4 y.toNat
    rw [hc, List.cons_append] at hnumber ⊢
    split
    · next he =>
      cases he
      exact absurd hdigit (by decide)
    · next he =>
      cases he
      exact absurd hdigit (by decide)
    · rw [hnumber, Option.map_some, Int.toNat_of_nonneg h.1]
  split
  · next h =>
    have hlen : (digits 4 y.natAbs).length ≤ (digits 4 y.natAbs ++ r).length := by simp
    have hnumber := number?_digits hlen hr
    have hsign : year? ('-' :: digits 4 y.natAbs ++ r) =
        (number? (digits 4 y.natAbs ++ r).length (digits 4 y.natAbs ++ r)).map fun p => (-(p.1 : Int), p.2) := rfl
    rw [hsign, hnumber, Option.map_some]
    congr 2
    omega
  · next h =>
    have hlen : (digits 4 y.toNat).length ≤ (digits 4 y.toNat ++ r).length := by simp
    have hnumber := number?_digits hlen hr
    have hsign : year? ('+' :: digits 4 y.toNat ++ r) =
        (number? (digits 4 y.toNat ++ r).length (digits 4 y.toNat ++ r)).map fun p => ((p.1 : Int), p.2) := rfl
    rw [hsign, hnumber, Option.map_some]
    congr 2
    omega

theorem date?_render {d : Date} (h : d.Valid) (hr : Text.NoDigit r) :
    date? (renderYear d.year ++ '-' :: digits 2 d.month ++ '-' :: digits 2 d.day ++ r) = some (d, r) := by
  have hday : d.day ≤ 31 := by
    obtain ⟨_, _, _, _, _, h⟩ := h
    refine Nat.le_trans h ?_
    rw [Date.daysInMonth.eq_def]
    repeat' split
    all_goals decide
  have hmonth : d.month ≤ 12 := h.2.2.2.1
  have hmark : ∀ s, mark? '-' ('-' :: s) = some s := fun s => rfl
  simp only [List.append_assoc, List.cons_append]
  rw [date?, year?_renderYear _ (noDigit_cons rfl), Option.bind_eq_bind, Option.bind_some]
  simp only [hmark, Option.bind_eq_bind, Option.bind_some]
  rw [part?_two (by omega) (noDigit_cons rfl), Option.bind_some]
  simp only [hmark, Option.bind_some]
  rw [part?_two (by omega) hr, Option.bind_some, if_pos h]

theorem fraction?_digits (hpos : 0 < width) (hwidth : width ≤ 9) (h : n < Nat.pow 10 width) (hr : Text.NoDigit r) :
    fraction? ('.' :: digits width n ++ r) = some (n * Nat.pow 10 (9 - width), r) := by
  have hlen := length_digits hpos h
  have htake : (digits width n ++ r).takeWhile Text.isDigit = digits width n :=
    Text.takeWhile_digits (fun c hc => isDigit_of_mem_digits hc) hr
  rw [List.cons_append, fraction?, htake, if_neg (digits_ne_nil width n), List.drop_left]
  simp only [List.take_of_length_le (Nat.le_trans (Nat.le_of_eq hlen) hwidth), digitsValue_digits, hlen]

theorem fraction?_render (h : n < 1000000000) : fraction? (renderFraction n ++ 'Z' :: r) = some (n, 'Z' :: r) := by
  have hr : Text.NoDigit ('Z' :: r) := noDigit_cons rfl
  rw [renderFraction]
  split
  · next hzero =>
    subst hzero
    rfl
  split
  · next hmilli =>
    rw [fraction?_digits (by decide) (by decide) (by change _ < 1000; omega) hr]
    exact congrArg (fun k => some (k, 'Z' :: r)) (Nat.div_mul_cancel (Nat.dvd_of_mod_eq_zero hmilli))
  split
  · next hmicro =>
    rw [fraction?_digits (by decide) (by decide) (by change _ < 1000000; omega) hr]
    exact congrArg (fun k => some (k, 'Z' :: r)) (Nat.div_mul_cancel (Nat.dvd_of_mod_eq_zero hmicro))
  · rw [fraction?_digits (by decide) (by decide) h hr]
    exact congrArg (fun k => some (k, 'Z' :: r)) (Nat.mul_one n)

/-- The time of day, with its sixtieth second as it is written. -/
theorem time?_render {hour minute second : Nat} (hhour : hour < 24) (hminute : minute < 60) (hsecond : second ≤ 60)
    (hn : n < 1000000000) :
    time? (digits 2 hour ++ ':' :: digits 2 minute ++ ':' :: digits 2 second ++ renderFraction n ++ 'Z' :: r) =
      some (if second < 60 then (3600 * hour + 60 * minute + second, n)
        else (3600 * hour + 60 * minute + 59, n + 1000000000), 'Z' :: r) := by
  have hmark : ∀ s, mark? ':' (':' :: s) = some s := fun s => rfl
  have hbehind : Text.NoDigit (renderFraction n ++ 'Z' :: r) := by
    rw [renderFraction]
    repeat' split
    all_goals exact noDigit_cons rfl
  simp only [List.append_assoc, List.cons_append]
  rw [time?, part?_two (by omega) (noDigit_cons rfl), Option.bind_eq_bind, Option.bind_some]
  simp only [hmark, Option.bind_eq_bind, Option.bind_some]
  rw [part?_two (by omega) (noDigit_cons rfl), Option.bind_some]
  simp only [hmark, Option.bind_some]
  rw [part?_two (by omega) hbehind, Option.bind_some, fraction?_render hn, Option.bind_some]
  by_cases h : second < 60
  · rw [if_pos ⟨hhour, hminute, h⟩, if_pos h]
  · rw [if_neg (fun hall => h hall.2.2), if_pos ⟨hhour, hminute, by omega⟩, if_neg h]

/-! ### What is read -/

theorem fraction?_lt (h : fraction? s = some (n, r)) : n < 1000000000 := by
  rw [fraction?.eq_def] at h
  split at h
  · simp only at h
    split at h
    · cases h
    cases h
    next r' _ =>
    have hdigits : ∀ c ∈ (r'.takeWhile Text.isDigit).take 9, Text.isDigit c = true :=
      fun c hc => List.all_eq_true.mp List.all_takeWhile c (List.mem_of_mem_take hc)
    have hlt := Text.digitsValue_lt hdigits
    have hlen : ((r'.takeWhile Text.isDigit).take 9).length ≤ 9 := List.length_take_le _ _
    generalize (r'.takeWhile Text.isDigit).take 9 = kept at hlt hlen
    have hpow : Nat.pow 10 kept.length * Nat.pow 10 (9 - kept.length) = Nat.pow 10 9 :=
      (Nat.pow_add 10 _ _).symm.trans (by rw [Nat.add_sub_cancel' hlen])
    exact Nat.lt_of_lt_of_eq (Nat.mul_lt_mul_of_pos_right hlt (Nat.pow_pos (by decide))) hpow
  · cases h
    decide

/-- A leap second is read only at the end of a minute. -/
theorem time?_eq_some {seconds nanos : Nat} (h : time? s = some ((seconds, nanos), r)) :
    nanos < 2000000000 ∧ (1000000000 ≤ nanos → seconds % 60 = 59) := by
  simp only [time?, bind, Option.bind_eq_some_iff] at h
  obtain ⟨⟨hour, _⟩, -, _, -, ⟨minute, _⟩, -, _, -, ⟨second, _⟩, -, ⟨fraction, _⟩, hfraction, h⟩ := h
  have hlt := fraction?_lt hfraction
  simp only at h
  split at h
  · cases h
    exact ⟨by omega, by omega⟩
  · split at h
    · cases h
      exact ⟨by omega, by omega⟩
    · cases h

theorem offset?_mod {offset : Int} (h : offset? s = some (offset, r)) : offset % 60 = 0 := by
  have hparts {s r : List Char} {n : Nat} (h : hoursMinutes? s = some (n, r)) : n % 60 = 0 := by
    simp only [hoursMinutes?, bind, Option.bind_eq_some_iff] at h
    obtain ⟨⟨hours, _⟩, -, ⟨minutes, _⟩, -, h⟩ := h
    split at h
    · cases h
      omega
    · cases h
  have hsigned {s : List Char} (f : Nat → Int) (hf : ∀ n, n % 60 = 0 → f n % 60 = 0)
      (h : (hoursMinutes? s).map (fun p => (f p.1, p.2)) = some (offset, r)) : offset % 60 = 0 := by
    obtain ⟨⟨m, _⟩, hm, he⟩ := Option.map_eq_some_iff.mp h
    cases he
    exact hf m (hparts hm)
  rw [offset?.eq_def] at h
  split at h
  · cases h
    rfl
  · cases h
    rfl
  · exact hsigned (fun n => n) (by omega) h
  · exact hsigned (fun n => -n) (by omega) h
  · exact hsigned (fun n => -n) (by omega) h
  · split at h
    · cases h
      rfl
    · cases h
  · cases h

/-- Every point in time that is read is one that is kept. -/
theorem valid_of_parse? {s : String} (h : parse? s = some t) : t.Valid := by
  rw [parse?] at h
  obtain ⟨⟨date, r⟩, -, h⟩ := Option.bind_eq_some_iff.mp h
  simp only at h
  split at h
  all_goals simp only [bind, Option.bind_some, Option.bind_none, Option.bind_eq_some_iff, reduceCtorEq] at h
  all_goals
    obtain ⟨⟨⟨seconds, nanos⟩, _⟩, htime, ⟨offset, _⟩, hoffset, h⟩ := h
    obtain ⟨hnanos, hleap⟩ := time?_eq_some htime
    have hminutes := offset?_mod hoffset
    simp only [Option.ite_none_right_eq_some, Option.some.injEq] at h
    obtain ⟨hvalid, rfl⟩ := h
    exact ⟨hvalid.2.2.2, hnanos, fun hlate => by have hend := hleap hlate; simp only; omega⟩

/-! ### There and back -/

theorem Valid.parse?_render (h : t.Valid) : parse? t.render = some t := by
  obtain ⟨seconds, nanos⟩ := t
  obtain ⟨hdate, hnanos, hleap⟩ := h
  obtain ⟨day, inDay, rfl, hin⟩ : ∃ (day : Int) (inDay : Nat), seconds = day * 86400 + inDay ∧ inDay < 86400 :=
    ⟨seconds / 86400, (seconds % 86400).toNat, by omega, by omega⟩
  have hday : (day * 86400 + (inDay : Int)) / 86400 = day := by omega
  have hrest : ((day * 86400 + (inDay : Int)) % 86400).toNat = inDay := by omega
  simp only [hday] at hdate hnanos hleap
  simp only [render, hday, hrest]
  -- A leap second is written as the sixtieth, and read as a second billion of nanoseconds in the one before.
  generalize hsecond : (if 1000000000 ≤ nanos then inDay % 60 + 1 else inDay % 60) = second
  generalize hfraction : (if 1000000000 ≤ nanos then nanos - 1000000000 else nanos) = fraction
  have hhour : inDay / 3600 < 24 := by omega
  have hminute : inDay / 60 % 60 < 60 := by omega
  have hsixty : second ≤ 60 := by split at hsecond <;> omega
  have hbillion : fraction < 1000000000 := by split at hfraction <;> omega
  have htime := time?_render (r := []) hhour hminute hsixty hbillion
  have hdate? := date?_render (r := 'T' :: (digits 2 (inDay / 3600) ++ ':' :: digits 2 (inDay / 60 % 60) ++
    ':' :: digits 2 second ++ renderFraction fraction ++ 'Z' :: [])) hdate (noDigit_cons rfl)
  simp only [List.append_assoc, List.cons_append] at htime hdate? ⊢
  rw [parse?, String.toList_ofList, hdate?, Option.bind_eq_bind, Option.bind_some]
  simp only [Option.bind_eq_bind, Option.bind_some, htime]
  have hoffset : offset? (Text.trimStart ['Z']) = some (0, []) := rfl
  have hread : (if second < 60 then (3600 * (inDay / 3600) + 60 * (inDay / 60 % 60) + second, fraction)
      else (3600 * (inDay / 3600) + 60 * (inDay / 60 % 60) + 59, fraction + 1000000000)) = (inDay, nanos) := by
    by_cases hlate : 1000000000 ≤ nanos
    · have hend := hleap hlate
      rw [if_pos hlate] at hsecond hfraction
      rw [if_neg (by omega), Prod.mk.injEq]
      omega
    · rw [if_neg hlate] at hsecond hfraction
      rw [if_pos (by omega), Prod.mk.injEq]
      omega
  rw [hoffset, hread, Option.bind_some]
  simp only [Date.toDays_ofDays, Int.sub_zero, hday]
  exact if_pos ⟨rfl, by decide, by decide, hdate⟩

end Timestamp
end IdentityVault
