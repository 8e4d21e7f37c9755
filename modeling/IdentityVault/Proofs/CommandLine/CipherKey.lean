import IdentityVault.CommandLine.Run
import IdentityVault.Proofs.Text.Blank
import IdentityVault.Proofs.Text.Hex

/-! Cipher keys on the command line: 64 hexadecimal digits of either case, with nothing but blanks around them. -/

namespace IdentityVault

theorem CipherKey.ofBytes_eq_ok {b : Bytes} {k : CipherKey} : ofBytes b = .ok k ↔ k.bytes.toList = b := by
  rw [ofBytes]
  constructor
  · intro h
    split at h
    · cases h
      rfl
    · cases h
  · rintro rfl
    rw [dif_pos (by simp)]
    rfl

namespace CommandLine
variable {t : String} {k : CipherKey}

theorem cipherKey_eq_ok : cipherKey (some t) = .ok k ↔ Hex.Denotes (Text.trim t.toList) k.bytes.toList := by
  rw [← Hex.decode_eq_ok, cipherKey]
  cases Hex.decode (Text.utf8 (String.ofList (Text.trim t.toList))) with
  | error f => simp
  | ok b =>
    rw [Except.ok.injEq, @eq_comm _ b, ← CipherKey.ofBytes_eq_ok]
    change (CipherKey.ofBytes b).mapError _ = _ ↔ _
    cases CipherKey.ofBytes b with
    | error e => exact iff_of_false (fun h => by cases h) fun h => by cases h
    | ok k' =>
      rw [Except.ok.injEq]
      exact ⟨fun h => by cases h; rfl, fun h => by cases h; rfl⟩

theorem cipherKey_eq_error {f : Fault} (h : cipherKey (some t) = .error f) : ∃ reason, f = .invalidCipherKey reason := by
  rw [cipherKey] at h
  split at h
  · cases h
    exact ⟨_, rfl⟩
  · next b _ =>
    cases hkey : CipherKey.ofBytes b with
    | error e =>
      rw [hkey] at h
      cases h
      exact ⟨_, rfl⟩
    | ok k =>
      rw [hkey] at h
      cases h

/-- What becomes of a text that is `m` without the blanks around it. -/
structure KeyText (t : String) (m : List Char) : Prop where
  accepted : (∃ k, cipherKey (some t) = .ok k) ↔ m.length = 64 ∧ ∀ c ∈ m, ∃ n, Hex.Digit c n
  /-- The key is what the digits denote, and in hexadecimal it is the text in lower case. -/
  key : ∀ k, cipherKey (some t) = .ok k →
    Hex.Denotes m k.bytes.toList ∧ (Hex.text k.bytes.toList).toList = m.map Char.toLower
  refused : ¬(m.length = 64 ∧ ∀ c ∈ m, ∃ n, Hex.Digit c n) →
    ∃ reason, cipherKey (some t) = .error (.invalidCipherKey reason)

/-- A text is accepted as a cipher key if and only if it consists of 64 digits, apart from the blanks around them. Then
    the key is what these digits denote, and any other text is refused as no cipher key. -/
theorem cipherKey_exact (t : String) : ∃ m, (∀ l, Text.Trimmed t.toList l ↔ l = m) ∧ KeyText t m := by
  have haccepted : (∃ k, cipherKey (some t) = .ok k) ↔
      (Text.trim t.toList).length = 64 ∧ ∀ c ∈ Text.trim t.toList, ∃ n, Hex.Digit c n := by
    simp only [cipherKey_eq_ok]
    constructor
    · rintro ⟨k, hk⟩
      exact ⟨by simpa using hk.length, hk.all_digits⟩
    · rintro ⟨hlength, hdigits⟩
      obtain ⟨b, hb⟩ := Hex.exists_denotes (by rw [hlength]) hdigits
      have hwidth := hb.length
      exact ⟨⟨⟨b.toArray, by simp; omega⟩⟩, hb⟩
  refine ⟨Text.trim t.toList, fun l => Text.trimmed_iff, haccepted, fun k hk => ?_, fun hnot => ?_⟩
  · have hdenotes := cipherKey_eq_ok.mp hk
    exact ⟨hdenotes, hdenotes.text⟩
  · cases hkey : cipherKey (some t) with
    | ok k => exact absurd (haccepted.mp ⟨k, hkey⟩) hnot
    | error f =>
      obtain ⟨reason, rfl⟩ := cipherKey_eq_error hkey
      exact ⟨reason, rfl⟩

end CommandLine
end IdentityVault
