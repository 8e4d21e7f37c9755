import IdentityVault.Cipher.Cfb
import IdentityVault.Cipher.Gcm

/-! Combining a text with a stream of bytes. What is done once is undone by doing it again, stretch by stretch; only
    the last stretch may be shorter than a block. -/

namespace IdentityVault

variable {x y : Bytes} {cipher : Block → Block}

namespace Bytes

theorem length_xor (x y : Bytes) : (xor x y).length = min x.length y.length := by
  simp [xor]

theorem xor_xor (h : x.length ≤ y.length) : xor (xor x y) y = x := by
  induction x generalizing y with
  | nil => simp [xor]
  | cons a x ih =>
    obtain ⟨b, y, rfl⟩ := List.exists_cons_of_ne_nil (List.ne_nil_of_length_pos (Nat.lt_of_lt_of_le (by simp) h))
    have hab : a ^^^ b ^^^ b = a := by rw [UInt8.xor_assoc, UInt8.xor_self, UInt8.xor_zero]
    have hxy : xor (xor x y) y = x := ih (by simpa using h)
    simp only [xor, List.zipWith_cons_cons, hab, List.cons.injEq, true_and]
    exact hxy

/-- The first stretch of a text, combined with a block. -/
theorem length_xor_block (x : Bytes) (b : Block) :
    (xor (x.take Block.width) b.toList).length = min Block.width x.length := by
  simp only [length_xor, List.length_take, Vector.length_toList, Block.width]
  omega

theorem xor_xor_block (x : Bytes) (b : Block) :
    xor (xor (x.take Block.width) b.toList) b.toList = x.take Block.width := by
  refine xor_xor ?_
  simp only [List.length_take, Vector.length_toList, Block.width]
  omega

/-- A stretch can be taken off again: it is a whole block, or nothing follows it. -/
theorem take_append_stretch {n : Nat} (hx : x.length = min Block.width n) (hy : y.length = n - Block.width) :
    (x ++ y).take Block.width = x ∧ (x ++ y).drop Block.width = y := by
  rcases Nat.lt_or_ge n Block.width with hlt | hge
  · have hnil : y = [] := List.length_eq_zero_iff.mp (by omega)
    simp [hnil, List.take_of_length_le (show x.length ≤ Block.width by omega),
      List.drop_of_length_le (show x.length ≤ Block.width by omega)]
  · rw [Nat.min_eq_left hge] at hx
    exact ⟨List.take_left' hx, List.drop_left' hx⟩

theorem append_stretch_ne_nil {n : Nat} (hx : x.length = min Block.width n) (hn : 0 < n) : x ++ y ≠ [] := by
  refine List.ne_nil_of_length_pos ?_
  rw [List.length_append, hx]
  simp only [Block.width]
  omega

end Bytes

/-! ### Counters -/

namespace Gcm
variable {nonce : Bytes}

theorem stream_nil (n : UInt32) : stream cipher nonce n [] = [] := by
  rw [stream, if_pos rfl]

theorem length_stream (n : UInt32) (data : Bytes) : (stream cipher nonce n data).length = data.length := by
  fun_induction stream cipher nonce n data with
  | case1 n => rfl
  | case2 n data hne ih =>
    rw [List.length_append, Bytes.length_xor_block, ih, List.length_drop]
    omega

/-- The same step encrypts and decrypts. -/
theorem stream_stream (n : UInt32) (data : Bytes) : stream cipher nonce n (stream cipher nonce n data) = data := by
  fun_induction stream cipher nonce n data with
  | case1 n => exact stream_nil n
  | case2 n data hne ih =>
    have hlength := Bytes.length_xor_block data (cipher (counter nonce n))
    have hrest : (stream cipher nonce (n + 1) (data.drop Block.width)).length = data.length - Block.width := by
      rw [length_stream, List.length_drop]
    obtain ⟨htake, hdrop⟩ := Bytes.take_append_stretch hlength hrest
    rw [stream, if_neg (Bytes.append_stretch_ne_nil hlength (List.length_pos_iff.mpr hne)), htake, hdrop, ih,
      Bytes.xor_xor_block, List.take_append_drop]

end Gcm

/-! ### Feedback -/

namespace Cfb

theorem length_encrypt (previous : Block) (plain : Bytes) : (encrypt cipher previous plain).length = plain.length := by
  fun_induction encrypt cipher previous plain with
  | case1 previous => rfl
  | case2 previous plain hne out ih =>
    rw [List.length_append, Bytes.length_xor_block, ih, List.length_drop]
    omega

/-- Both directions go on from the same block of ciphertext. -/
theorem decrypt_encrypt (previous : Block) (plain : Bytes) :
    decrypt cipher previous (encrypt cipher previous plain) = plain := by
  fun_induction encrypt cipher previous plain with
  | case1 previous => rw [decrypt, if_pos rfl]
  | case2 previous plain hne out ih =>
    have hlength : out.length = min Block.width plain.length := Bytes.length_xor_block plain (cipher previous)
    have hrest : (encrypt cipher (.ofBytes out) (plain.drop Block.width)).length = plain.length - Block.width := by
      rw [length_encrypt, List.length_drop]
    obtain ⟨htake, hdrop⟩ := Bytes.take_append_stretch hlength hrest
    rw [decrypt, if_neg (Bytes.append_stretch_ne_nil hlength (List.length_pos_iff.mpr hne))]
    simp only [htake, hdrop, ih]
    rw [Bytes.xor_xor_block, List.take_append_drop]

theorem length_decrypt (previous : Block) (sealed : Bytes) :
    (decrypt cipher previous sealed).length = sealed.length := by
  fun_induction decrypt cipher previous sealed with
  | case1 previous => rfl
  | case2 previous sealed hne now ih =>
    rw [List.length_append, Bytes.length_xor_block, ih, List.length_drop]
    omega

/-- Every ciphertext is that of its plaintext: each stretch of it comes back, and the next one is combined with the
    cipher of the same block. -/
theorem encrypt_decrypt (previous : Block) (sealed : Bytes) :
    encrypt cipher previous (decrypt cipher previous sealed) = sealed := by
  fun_induction decrypt cipher previous sealed with
  | case1 previous => rw [encrypt, if_pos rfl]
  | case2 previous sealed hne now ih =>
    have hlength : (Bytes.xor now (cipher previous).toList).length = min Block.width sealed.length :=
      Bytes.length_xor_block sealed (cipher previous)
    have hrest : (decrypt cipher (.ofBytes now) (sealed.drop Block.width)).length = sealed.length - Block.width := by
      rw [length_decrypt, List.length_drop]
    obtain ⟨htake, hdrop⟩ := Bytes.take_append_stretch hlength hrest
    have hback : Bytes.xor (Bytes.xor now (cipher previous).toList) (cipher previous).toList = now :=
      Bytes.xor_xor_block sealed (cipher previous)
    rw [encrypt, if_neg (Bytes.append_stretch_ne_nil hlength (List.length_pos_iff.mpr hne))]
    simp only [htake, hdrop, hback, ih]
    exact List.take_append_drop Block.width sealed

end Cfb
end IdentityVault
