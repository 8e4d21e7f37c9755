import IdentityVault.Time.Timestamp

/-! The day of a date is the one that the date was made for. Days are split into cycles of 400 years, years of a cycle,
    and months from March; each split says how far its last part goes. -/

namespace IdentityVault.Date

variable {c d e : Nat}

/-- The year of a century that starts with a leap year of its cycle, or goes on behind `c` of them. In a block of four
    years, the days before the last one belong to the year that they fall into; the last one is the leap day. -/
theorem exists_yearOfCentury (hc : c ≤ 3) (he : e < 36524) :
    ∃ z, (e - (e + 24 * c) / 1460) / 365 = z ∧ z < 100 ∧ 365 * z + z / 4 ≤ e ∧ e ≤ 365 * z + z / 4 + 365 := by
  obtain ⟨k, t, rfl, ht⟩ : ∃ k t, e = 1461 * k + t ∧ t < 1461 := ⟨e / 1461, e % 1461, by omega, by omega⟩
  by_cases h : k + t + 24 * c < 1460
  · have hblock : (1461 * k + t + 24 * c) / 1460 = k := by omega
    rw [hblock]
    exact ⟨4 * k + t / 365, by omega⟩
  · have hblock : (1461 * k + t + 24 * c) / 1460 = k + 1 := by omega
    rw [hblock]
    exact ⟨4 * k + 3, by omega⟩

theorem exists_yearOfCycle (hd : d < 146097) :
    ∃ y, (d - d / 1460 + d / 36524 - d / 146096) / 365 = y ∧ y < 400 ∧ 365 * y + y / 4 - y / 100 ≤ d ∧
      d ≤ 365 * y + y / 4 - y / 100 + 365 := by
  by_cases hlast : d = 146096
  · subst hlast
    exact ⟨399, by decide⟩
  · obtain ⟨c, e, rfl, he⟩ : ∃ c e, d = 36524 * c + e ∧ e < 36524 := ⟨d / 36524, d % 36524, by omega, by omega⟩
    obtain ⟨z, hz, hlt, hlow, hhigh⟩ := exists_yearOfCentury (c := c) (by omega) he
    have hcentury : 36524 * c + e - (36524 * c + e) / 1460 + (36524 * c + e) / 36524 - (36524 * c + e) / 146096 =
        36500 * c + (e - (e + 24 * c) / 1460) := by omega
    refine ⟨100 * c + z, ?_, ?_⟩
    · rw [hcentury]
      omega
    · have hleap : (100 * c + z) / 4 = 25 * c + z / 4 := by omega
      have hhundred : (100 * c + z) / 100 = c := by omega
      rw [hleap, hhundred]
      omega

theorem toDays_ofDays (n : Int) : (ofDays n).toDays = n := by
  obtain ⟨c, d, hn, hcycle, hd⟩ : ∃ (c : Int) (d : Nat), n + 719468 = c * 146097 + d ∧ (n + 719468) / 146097 = c ∧
      ((n + 719468) % 146097).toNat = d :=
    ⟨(n + 719468) / 146097, ((n + 719468) % 146097).toNat, by omega, rfl, rfl⟩
  obtain ⟨y, hyear, hy, hlow, hhigh⟩ := exists_yearOfCycle (d := d) (by omega)
  obtain ⟨m, hmonth, hm, hday⟩ : ∃ m, (5 * (d - (365 * y + y / 4 - y / 100)) + 2) / 153 = m ∧ m < 12 ∧
      (153 * m + 2) / 5 ≤ d - (365 * y + y / 4 - y / 100) := ⟨_, rfl, by omega, by omega⟩
  have hcount : ((y : Int) + c * 400) / 400 = c := by omega
  have hof : ((y : Int) + c * 400) % 400 = y := by omega
  simp only [ofDays, toDays, hcycle, hd, hyear, hmonth]
  -- January and February belong to the year before.
  by_cases h : m < 10
  · have hlate : ¬ m + 3 ≤ 2 := by omega
    have hmarch : (m + 3 + 9) % 12 = m := by omega
    simp only [h, if_true, hlate, if_false, hmarch, hcount, hof]
    omega
  · have hearly : m - 9 ≤ 2 := by omega
    have hmarch : (m - 9 + 9) % 12 = m := by omega
    simp only [h, if_false, hearly, if_true, hmarch, Int.add_sub_cancel, hcount, hof]
    omega

end IdentityVault.Date
