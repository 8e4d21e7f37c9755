import IdentityVault.Proofs.Text.Utf8
import IdentityVault.Proofs.World.Ends
import IdentityVault.World.Sources

/-! Surroundings that can be relied on: no call fails, ids are not repeated, and a hash fits the password it was made
    from and no other one. -/

namespace IdentityVault

namespace Hasher

/-- A stored hash fits a password and no other one. -/
def Fits (h : Hasher) (stored : PasswordHash) (p : Password) : Prop :=
  ∀ q : Password, h.compare (Text.utf8 stored.text) (Text.utf8 q.text) = .ok (.ok ()) ↔ p = q

/-- Every hash is a text, and not the empty one, and it belongs to one secret. -/
structure Faithful (h : Hasher) : Prop where
  text : ∀ n secret, ∃ hashed, hashed ≠ "" ∧ h.hash n (Text.utf8 secret) = .ok (.ok (Text.utf8 hashed))
  compare : ∀ n secret hashed other, h.hash n (Text.utf8 secret) = .ok (.ok hashed) →
    (h.compare hashed (Text.utf8 other) = .ok (.ok ()) ↔ secret = other)

end Hasher

/-- What a directory of accounts relies on. -/
structure Surroundings.Reliable (s : Surroundings) : Prop where
  faultless : s.Faultless
  /-- Ids are given out without end, and none twice. -/
  ids : ∃ ids : Nat → Id, ids.Injective ∧ ∀ n, s.id n = .ok (ids n)
  hasher : s.hasher.Faithful

/-! ### Numbered ids and plain hashes -/

theorem Hasher.faithful_plain : plain.Faithful where
  text n secret := ⟨"plain:" ++ secret, by simp, by simp [plain, Text.utf8_append]⟩
  compare n secret hashed other h := by
    cases h
    by_cases he : secret = other
    · simp [plain, he]
    · have hne : Text.utf8 secret ≠ Text.utf8 other := fun h => he (Text.utf8_injective h)
      simp [plain, he, hne]

theorem Id.numbered_eq (n : Nat) : numbered n = .ok ⟨"id-" ++ String.ofList (Text.decimal (n + 1))⟩ := by
  simp [numbered, parse]

theorem Id.numbered_injective {m n : Nat} (h : numbered m = numbered n) : m = n := by
  rw [numbered_eq, numbered_eq, Except.ok.injEq, Id.mk.injEq, String.append_right_inj, String.ofList_inj] at h
  have hvalue := congrArg (fun digits => Nat.ofDigitChars 10 digits 0) h
  simpa [Text.decimal, Nat.ofDigitChars_toDigits] using hvalue

theorem Surroundings.reliable_calm (start : Timestamp) : (calm Id.numbered start .plain).Reliable where
  faultless _ _ := rfl
  ids := ⟨_, fun m n h => Id.numbered_injective (by rw [Id.numbered_eq, Id.numbered_eq]; exact congrArg _ h),
    Id.numbered_eq⟩
  hasher := Hasher.faithful_plain

end IdentityVault
