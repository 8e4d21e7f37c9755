import IdentityVault.Cipher.Sealer
import IdentityVault.Proofs.Cipher.Stream

/-! Sealed messages. What was sealed can be opened again in both modes, and a message that opens is, byte for byte, the
    one that sealing its plaintext yields. In Galois counter mode nothing else can be opened; in cipher feedback every
    message opens that is not too short. -/

namespace IdentityVault

variable {cipher : Block → Block} {nonce plain sealed seed : Bytes}

namespace Gcm

theorem length_tag (sealed : Bytes) : (tag cipher nonce sealed).length = tagWidth := by
  rw [tag, Vector.length_toList]
  rfl

theorem encrypt?_eq_some {tagged : Bytes} : encrypt? cipher nonce plain = some tagged ↔
    plain.length ≤ limit ∧ tagged = stream cipher nonce 2 plain ++ tag cipher nonce (stream cipher nonce 2 plain) := by
  rw [encrypt?, Option.ite_none_right_eq_some, Option.some.injEq, eq_comm (b := tagged)]

/-- Exactly what encrypting yields can be decrypted. -/
theorem decrypt?_eq_some {tagged : Bytes} :
    decrypt? cipher nonce tagged = some plain ↔ encrypt? cipher nonce plain = some tagged := by
  rw [encrypt?_eq_some, decrypt?, Option.ite_none_right_eq_some, Option.some.injEq]
  constructor
  · rintro ⟨⟨hlimit, -, htag⟩, rfl⟩
    refine ⟨by rwa [length_stream], ?_⟩
    rw [stream_stream, ← htag, List.take_append_drop]
  · rintro ⟨hlimit, rfl⟩
    have hlength : (stream cipher nonce 2 plain ++ tag cipher nonce (stream cipher nonce 2 plain)).length - tagWidth =
        (stream cipher nonce 2 plain).length := by
      rw [List.length_append, length_tag, Nat.add_sub_cancel]
    rw [hlength, List.take_left, List.drop_left, stream_stream, List.length_append, length_tag, length_stream]
    exact ⟨⟨hlimit, Nat.le_add_left _ _, rfl⟩, rfl⟩

end Gcm

namespace SealMode

theorem openWith_of_short {mode : SealMode} (h : sealed.length < mode.least) :
    openWith cipher sealed mode = .error (.malformed (.sealedLength mode.least sealed.length)) := by
  rw [openWith, if_pos h]

theorem openWith_cfb (h : seed.length = Block.width) (rest : Bytes) :
    openWith cipher (seed ++ rest) .cfb = .ok (Cfb.decrypt cipher (.ofBytes seed) rest) := by
  have hlong : ¬ (seed ++ rest).length < least .cfb := by
    rw [List.length_append, h, least]
    omega
  rw [openWith, if_neg hlong]
  simp only [seedWidth, List.take_left' h, List.drop_left' h]

theorem openWith_gcm_eq_ok : openWith cipher sealed .gcm = .ok plain ↔ least .gcm ≤ sealed.length ∧
    Gcm.decrypt? cipher (sealed.take Gcm.nonceWidth) (sealed.drop Gcm.nonceWidth) = some plain := by
  rw [openWith]
  split
  · next h => simp [Nat.not_le.mpr h]
  · next h =>
    simp only [seedWidth, Nat.le_of_not_lt h, true_and]
    split <;> simp_all

theorem sealWith_gcm_eq_ok : sealWith cipher seed plain .gcm = .ok sealed ↔
    ∃ tagged, Gcm.encrypt? cipher seed plain = some tagged ∧ sealed = seed ++ tagged := by
  rw [sealWith]
  cases Gcm.encrypt? cipher seed plain with
  | some tagged => simp [eq_comm]
  | none => simp

theorem length_of_sealWith_gcm (h : sealWith cipher seed plain .gcm = .ok sealed) :
    sealed.length = seed.length + plain.length + Gcm.tagWidth := by
  obtain ⟨tagged, htagged, rfl⟩ := sealWith_gcm_eq_ok.mp h
  obtain ⟨-, rfl⟩ := Gcm.encrypt?_eq_some.mp htagged
  rw [List.length_append, List.length_append, Gcm.length_stream, Gcm.length_tag, Nat.add_assoc]

/-- Messages that open are those that were sealed, with the nonce that they start with. -/
theorem openWith_gcm : openWith cipher sealed .gcm = .ok plain ↔
    sealWith cipher (sealed.take Gcm.nonceWidth) plain .gcm = .ok sealed := by
  rw [openWith_gcm_eq_ok, Gcm.decrypt?_eq_some, sealWith_gcm_eq_ok]
  constructor
  · rintro ⟨-, h⟩
    exact ⟨_, h, (List.take_append_drop _ _).symm⟩
  · rintro ⟨tagged, h, hsealed⟩
    obtain ⟨-, htagged⟩ := Gcm.encrypt?_eq_some.mp h
    have hlength := congrArg List.length htagged
    rw [List.length_append, Gcm.length_tag] at hlength
    -- A message that is shorter than a nonce is not longer than what it starts with.
    have hnonce : Gcm.nonceWidth ≤ sealed.length := by
      have hsum := congrArg List.length hsealed
      rw [List.length_append, List.length_take] at hsum
      simp only [Gcm.tagWidth] at hlength
      omega
    have hdrop : sealed.drop Gcm.nonceWidth = tagged :=
      List.append_cancel_left ((List.take_append_drop _ _).trans hsealed)
    refine ⟨?_, hdrop ▸ h⟩
    have hsplit := congrArg List.length hdrop
    rw [List.length_drop] at hsplit
    simp only [least, Gcm.nonceWidth, Gcm.tagWidth] at *
    omega

/-- What was sealed can be opened. -/
theorem openWith_sealWith {mode : SealMode} (hseed : seed.length = mode.seedWidth)
    (h : sealWith cipher seed plain mode = .ok sealed) : openWith cipher sealed mode = .ok plain := by
  cases mode with
  | cfb =>
    cases h
    rw [openWith_cfb hseed, Cfb.decrypt_encrypt]
  | gcm =>
    obtain ⟨tagged, -, hsealed⟩ := sealWith_gcm_eq_ok.mp h
    have hnonce : sealed.take Gcm.nonceWidth = seed := by
      rw [hsealed]
      exact List.take_left' hseed
    rwa [openWith_gcm, hnonce]

end SealMode

namespace Sealer

theorem decrypt_encrypt {s : Sealer} (hseed : seed.length = s.mode.seedWidth) (h : s.encrypt seed plain = .ok sealed) :
    s.decrypt sealed = .ok plain :=
  SealMode.openWith_sealWith hseed h

/-- Galois counter mode: sealing loses nothing, and exactly what was sealed can be opened. All other messages fail,
    by their length or by their tag. -/
theorem gcm_exact (key : CipherKey) :
    (∀ nonce plain : Bytes, nonce.length = 12 → plain.length ≤ Gcm.limit →
      ∃ sealed, encrypt ⟨.gcm, key⟩ nonce plain = .ok sealed ∧ sealed.length = 12 + plain.length + 16 ∧
        decrypt ⟨.gcm, key⟩ sealed = .ok plain) ∧
    (∀ sealed plain : Bytes, decrypt ⟨.gcm, key⟩ sealed = .ok plain ↔
      encrypt ⟨.gcm, key⟩ (sealed.take 12) plain = .ok sealed) ∧
    (∀ sealed : Bytes, 28 ≤ sealed.length →
      (∃ plain, decrypt ⟨.gcm, key⟩ sealed = .ok plain) ∨
        ∃ detail, decrypt ⟨.gcm, key⟩ sealed = .error (.crypto detail)) ∧
    (∀ sealed : Bytes, sealed.length < 28 →
      decrypt ⟨.gcm, key⟩ sealed = .error (.malformed (.sealedLength 28 sealed.length))) := by
  refine ⟨fun nonce plain hnonce hlimit => ?_, fun sealed plain => SealMode.openWith_gcm, fun sealed hlong => ?_,
    fun sealed hshort => SealMode.openWith_of_short hshort⟩
  · obtain ⟨sealed, hsealed⟩ : ∃ sealed, encrypt ⟨.gcm, key⟩ nonce plain = .ok sealed :=
      ⟨_, SealMode.sealWith_gcm_eq_ok.mpr ⟨_, Gcm.encrypt?_eq_some.mpr ⟨hlimit, rfl⟩, rfl⟩⟩
    refine ⟨sealed, hsealed, ?_, decrypt_encrypt hnonce hsealed⟩
    rw [SealMode.length_of_sealWith_gcm hsealed, hnonce]
    rfl
  · have hnot : ¬ sealed.length < SealMode.least .gcm := Nat.not_lt.mpr hlong
    rw [decrypt, SealMode.openWith, if_neg hnot]
    simp only
    split
    · exact .inl ⟨_, rfl⟩
    · exact .inr ⟨_, rfl⟩

theorem gcm_exact_of_zeros : ∃ key : CipherKey, (List.replicate 12 (0 : UInt8)).length = 12 ∧
    ([1, 2, 3] : Bytes).length ≤ Gcm.limit ∧ 28 ≤ (List.replicate 28 (0 : UInt8)).length ∧
    ([1, 2, 3] : Bytes).length < 28 ∧
    (∃ sealed, encrypt ⟨.gcm, key⟩ (List.replicate 12 0) [1, 2, 3] = .ok sealed ∧ sealed.length = 12 + 3 + 16 ∧
      decrypt ⟨.gcm, key⟩ sealed = .ok [1, 2, 3]) ∧
    ((∃ plain, decrypt ⟨.gcm, key⟩ (List.replicate 28 0) = .ok plain) ∨
      ∃ detail, decrypt ⟨.gcm, key⟩ (List.replicate 28 0) = .error (.crypto detail)) ∧
    decrypt ⟨.gcm, key⟩ [1, 2, 3] = .error (.malformed (.sealedLength 28 3)) := by
  obtain ⟨hseal, -, hopen, hshort⟩ := gcm_exact ⟨Vector.replicate 32 0⟩
  exact ⟨_, by decide, by decide, by decide, by decide, hseal (List.replicate 12 0) [1, 2, 3] (by decide) (by decide),
    hopen (List.replicate 28 0) (by decide), hshort [1, 2, 3] (by decide)⟩

/-- Cipher feedback: for each initial vector, sealing is a bijection between plaintexts and the messages that start with
    the vector and are longer by its width. Shorter messages fail. -/
theorem cfb_exact (key : CipherKey) :
    (∀ iv plain : Bytes, iv.length = 16 → ∃ sealed, encrypt ⟨.cfb, key⟩ iv plain = .ok sealed ∧
      sealed.take 16 = iv ∧ sealed.length = 16 + plain.length ∧ decrypt ⟨.cfb, key⟩ sealed = .ok plain) ∧
    (∀ sealed : Bytes, 16 ≤ sealed.length → ∃ plain, decrypt ⟨.cfb, key⟩ sealed = .ok plain ∧
      plain.length = sealed.length - 16 ∧ encrypt ⟨.cfb, key⟩ (sealed.take 16) plain = .ok sealed) ∧
    (∀ sealed : Bytes, sealed.length < 16 →
      decrypt ⟨.cfb, key⟩ sealed = .error (.malformed (.sealedLength 16 sealed.length))) := by
  refine ⟨fun iv plain hiv => ?_, fun sealed hlong => ?_, fun sealed hshort => SealMode.openWith_of_short hshort⟩
  · obtain ⟨sealed, hsealed⟩ : ∃ sealed, encrypt ⟨.cfb, key⟩ iv plain = .ok sealed := ⟨_, rfl⟩
    refine ⟨sealed, hsealed, ?_, ?_, decrypt_encrypt hiv hsealed⟩
    · cases hsealed
      exact List.take_left' hiv
    · cases hsealed
      rw [List.length_append, hiv, Cfb.length_encrypt]
  · have hiv : (sealed.take 16).length = 16 := by rw [List.length_take, Nat.min_eq_left hlong]
    have hopen : decrypt ⟨.cfb, key⟩ (sealed.take 16 ++ sealed.drop 16) = _ := SealMode.openWith_cfb hiv _
    rw [List.take_append_drop] at hopen
    refine ⟨_, hopen, ?_, ?_⟩
    · rw [Cfb.length_decrypt, List.length_drop]
    · rw [encrypt, SealMode.sealWith, Cfb.encrypt_decrypt, List.take_append_drop]

/-- A message of one whole stretch and a part of another one. -/
theorem cfb_exact_of_ones : ∃ key : CipherKey, (List.replicate 16 (1 : UInt8)).length = 16 ∧
    16 ≤ (List.replicate 35 (1 : UInt8)).length ∧ ([1, 1] : Bytes).length < 16 ∧
    (∃ sealed, encrypt ⟨.cfb, key⟩ (List.replicate 16 1) (List.replicate 19 1) = .ok sealed ∧
      sealed.take 16 = List.replicate 16 1 ∧ sealed.length = 16 + 19 ∧
      decrypt ⟨.cfb, key⟩ sealed = .ok (List.replicate 19 1)) ∧
    (∃ plain, decrypt ⟨.cfb, key⟩ (List.replicate 35 1) = .ok plain ∧ plain.length = 35 - 16 ∧
      encrypt ⟨.cfb, key⟩ ((List.replicate 35 1).take 16) plain = .ok (List.replicate 35 1)) ∧
    decrypt ⟨.cfb, key⟩ [1, 1] = .error (.malformed (.sealedLength 16 2)) := by
  obtain ⟨hseal, hopen, hshort⟩ := cfb_exact ⟨Vector.replicate 32 1⟩
  exact ⟨_, by decide, by decide, by decide, hseal (List.replicate 16 1) (List.replicate 19 1) (by decide),
    hopen (List.replicate 35 1) (by decide), hshort [1, 1] (by decide)⟩

end Sealer
end IdentityVault
