import IdentityVault.Text.BigEndian

/-! How long the bytes of a number are: no longer than they must be, so that the first of them is not zero. -/

namespace IdentityVault
namespace BigEndian

/-! ### Width -/

theorem width_le {n k : Nat} : width n ≤ k ↔ n < 1 <<< (8 * k) := by
  rw [width, Nat.one_shiftLeft]
  split
  · exact iff_of_true (Nat.zero_le k) (by rw [‹n = 0›]; exact Nat.two_pow_pos (8 * k))
  · next h =>
    rw [← Nat.log2_lt h]
    omega

theorem width_mono {m n : Nat} (h : m ≤ n) : width m ≤ width n :=
  width_le.mpr (Nat.lt_of_le_of_lt h (lt_width n))

/-- A number without its last `k` bytes. -/
theorem width_shiftRight (n k : Nat) : width (n >>> (8 * k)) = width n - k := by
  have hle (j : Nat) : width (n >>> (8 * k)) ≤ j ↔ width n ≤ j + k := by
    rw [width_le, width_le, Nat.one_shiftLeft, Nat.one_shiftLeft, Nat.shiftRight_eq_div_pow,
      Nat.div_lt_iff_lt_mul (Nat.pow_pos (by decide)), ← Nat.pow_add, Nat.mul_add]
  have h1 := (hle (width (n >>> (8 * k)))).mp (Nat.le_refl _)
  have h2 := (hle (width n - k)).mpr (by omega)
  omega

theorem length_lowest (w n : Nat) (tail : Bytes) : (lowest w n tail).length = w + tail.length := by
  induction w generalizing n tail with
  | zero => rw [lowest, Nat.zero_add]
  | succ w ih =>
    rw [lowest, ih, List.length_cons]
    omega

theorem length_ofNatAux (g n : Nat) (tail : Bytes) (h : 1024 * g ≤ width n) :
    (ofNatAux g n tail).length = width n + tail.length := by
  induction g generalizing n tail with
  | zero => rw [ofNatAux, length_lowest]
  | succ g ih =>
    have hwidth : width (n >>> 8192) = width n - 1024 := width_shiftRight n 1024
    rw [ofNatAux, ih _ _ (by omega), length_lowest, hwidth]
    omega

@[simp]
theorem length_ofNat (n : Nat) : (ofNat n).length = width n := by
  rw [ofNat, length_ofNatAux _ _ _ (by omega), List.length_nil, Nat.add_zero]

theorem ofNat_eq_nil {n : Nat} : ofNat n = [] ↔ n = 0 := by
  rw [← List.length_eq_zero_iff, length_ofNat, ← Nat.le_zero, width_le]
  simp

/-! ### The first byte -/

theorem foldl_lt (b : Bytes) (m : Nat) :
    b.foldl (fun n x => 256 * n + x.toNat) m < (m + 1) <<< (8 * b.length) := by
  induction b generalizing m with
  | nil => simp
  | cons x b ih =>
    have hx := x.toNat_lt
    have hm : 256 * m + x.toNat + 1 ≤ (m + 1) <<< (8 * 1) := by
      rw [Nat.shiftLeft_eq]
      omega
    refine Nat.lt_of_lt_of_le (ih _) ?_
    rw [List.length_cons, Nat.mul_add, Nat.add_comm (8 * b.length), Nat.shiftLeft_add, Nat.shiftLeft_eq _ (8 * _),
      Nat.shiftLeft_eq (_ <<< _)]
    exact Nat.mul_le_mul_right _ hm

theorem toNat_lt (b : Bytes) : toNat b < 1 <<< (8 * b.length) := by
  simpa [toNat_eq_foldl] using foldl_lt b 0

@[simp]
theorem toNat_zero_cons (b : Bytes) : toNat (0 :: b) = toNat b := by
  rw [toNat_eq_foldl, toNat_eq_foldl]
  rfl

@[simp]
theorem toNat_singleton (x : UInt8) : toNat [x] = x.toNat := by
  rw [toNat_eq_foldl]
  simp

theorem ne_zero_of_ofNat {n : Nat} {x : UInt8} {r : Bytes} (h : ofNat n = x :: r) : x ≠ 0 := by
  rintro rfl
  have hlength : width n = r.length + 1 := by rw [← length_ofNat, h, List.length_cons]
  have hlt := toNat_lt r
  rw [← toNat_zero_cons, ← h, toNat_ofNat, ← width_le] at hlt
  omega

/-! ### Back from a number -/

theorem foldl_injective {a b : Bytes} {m n : Nat} (hlength : a.length = b.length)
    (h : a.foldl (fun n x => 256 * n + x.toNat) m = b.foldl (fun n x => 256 * n + x.toNat) n) : m = n ∧ a = b := by
  induction a generalizing b m n with
  | nil =>
    obtain rfl := List.length_eq_zero_iff.mp hlength.symm
    exact ⟨h, rfl⟩
  | cons x a ih =>
    obtain _ | ⟨y, b⟩ := b
    · cases hlength
    obtain ⟨hhead, rfl⟩ := ih (Nat.succ.inj hlength) h
    have hhead : 256 * m + x.toNat = 256 * n + y.toNat := hhead
    have hx := x.toNat_lt
    have hy := y.toNat_lt
    have hbyte : x = y := UInt8.toNat_inj.mp (by omega)
    exact ⟨by omega, by rw [hbyte]⟩

theorem le_foldl (b : Bytes) (m : Nat) : m <<< (8 * b.length) ≤ b.foldl (fun n x => 256 * n + x.toNat) m := by
  induction b generalizing m with
  | nil => simp
  | cons x b ih =>
    refine Nat.le_trans ?_ (ih _)
    rw [List.length_cons, Nat.mul_add, Nat.add_comm (8 * b.length), Nat.shiftLeft_add, Nat.shiftLeft_eq _ (8 * _),
      Nat.shiftLeft_eq (256 * m + x.toNat)]
    refine Nat.mul_le_mul_right _ ?_
    rw [Nat.shiftLeft_eq]
    omega

theorem width_toNat_cons {x : UInt8} (hx : x ≠ 0) (r : Bytes) : width (toNat (x :: r)) = r.length + 1 := by
  have hupper := width_le.mpr (toNat_lt (x :: r))
  have hlower : 1 <<< (8 * r.length) ≤ toNat (x :: r) := by
    rw [toNat_eq_foldl, List.foldl_cons]
    refine Nat.le_trans ?_ (le_foldl r _)
    have hpos : 0 < x.toNat := Nat.pos_of_ne_zero fun h => hx (UInt8.toNat_inj.mp h)
    rw [Nat.shiftLeft_eq, Nat.shiftLeft_eq]
    exact Nat.mul_le_mul_right _ (by omega)
  have hmore : ¬width (toNat (x :: r)) ≤ r.length := fun h => Nat.not_lt.mpr hlower (width_le.mp h)
  rw [List.length_cons] at hupper
  omega

/-- Bytes that do not start with a zero are those of their number. -/
theorem ofNat_toNat_cons {x : UInt8} (hx : x ≠ 0) (r : Bytes) : ofNat (toNat (x :: r)) = x :: r := by
  refine (foldl_injective (m := 0) (n := 0) ?_ ?_).2
  · rw [length_ofNat, width_toNat_cons hx, List.length_cons]
  · rw [← toNat_eq_foldl, ← toNat_eq_foldl, toNat_ofNat]

end BigEndian
end IdentityVault
