import IdentityVault.Text.Utf8

/-! Natural numbers as bytes, the highest byte first. -/

namespace IdentityVault
namespace BigEndian

/-- The number of the bytes behind `high` and the `width` bytes of `low`. Bytes are gathered in groups, so that a
    long number is not touched for each of them. -/
def gather : (high low width : Nat) → Bytes → Nat
  | high, low, width, [] => (high <<< (8 * width)) + low
  | high, low, width, x :: r =>
    if width < 1024 then gather high (256 * low + x.toNat) (width + 1) r
    else gather ((high <<< (8 * width)) + low) x.toNat 1 r

/-- The number that `b` denotes. -/
def toNat (b : Bytes) : Nat := gather 0 0 0 b

theorem gather_eq (b : Bytes) (high low width : Nat) : gather high low width b =
    b.foldl (fun n x => 256 * n + x.toNat) ((high <<< (8 * width)) + low) := by
  induction b generalizing high low width with
  | nil => rfl
  | cons x r ih =>
    rw [gather, List.foldl_cons]
    split
    · rw [ih]
      congr 1
      simp only [Nat.mul_add, Nat.shiftLeft_add, Nat.mul_one]
      simp only [Nat.shiftLeft_eq (_ <<< _)]
      omega
    · rw [ih, Nat.shiftLeft_eq _ (8 * 1)]
      congr 1
      omega

theorem toNat_eq_foldl (b : Bytes) : toNat b = b.foldl (fun n x => 256 * n + x.toNat) 0 := by
  rw [toNat, gather_eq, Nat.zero_shiftLeft]

/-- The lowest `width` bytes of `n` in front of `tail`. -/
def lowest : (width n : Nat) → (tail : Bytes) → Bytes
  | 0, _, tail => tail
  | width + 1, n, tail => lowest width (n / 256) (UInt8.ofNat (n % 256) :: tail)

/-- The number of bytes of `n` without leading zeros. -/
def width (n : Nat) : Nat := if n = 0 then 0 else n.log2 / 8 + 1

/-- The bytes of `n` without leading zeros in front of `tail`; the last `groups` times 1024 bytes are cut off in
    groups, so that a long number is not touched for each of them. -/
def ofNatAux : (groups n : Nat) → (tail : Bytes) → Bytes
  | 0, n, tail => lowest (width n) n tail
  | groups + 1, n, tail => ofNatAux groups (n >>> 8192) (lowest 1024 (n % (1 <<< 8192)) tail)

/-- The bytes of `n` without leading zeros; none for zero. -/
def ofNat (n : Nat) : Bytes := ofNatAux (width n / 1024) n []

theorem lt_width (n : Nat) : n < 1 <<< (8 * width n) := by
  rw [Nat.one_shiftLeft, width]
  split
  · simp_all
  · exact Nat.lt_of_lt_of_le Nat.lt_log2_self (Nat.pow_le_pow_right (by decide) (by omega))

theorem foldl_lowest (w n m : Nat) (tail : Bytes) :
    (lowest w n tail).foldl (fun n x => 256 * n + x.toNat) m =
      tail.foldl (fun n x => 256 * n + x.toNat) ((m <<< (8 * w)) + n % (1 <<< (8 * w))) := by
  induction w generalizing n tail with
  | zero => simp [lowest, Nat.mod_one]
  | succ w ih =>
    rw [lowest, ih, List.foldl_cons]
    congr 1
    have h : n % (1 <<< (8 * (w + 1))) = n % 256 + 256 * (n / 256 % (1 <<< (8 * w))) := by
      rw [← Nat.mod_mul, Nat.one_shiftLeft, Nat.one_shiftLeft, Nat.mul_add, Nat.pow_add, Nat.mul_comm]
    rw [h, Nat.mul_add 8, Nat.shiftLeft_add, Nat.shiftLeft_eq _ (8 * 1)]
    simp only [UInt8.toNat_ofNat']
    omega

theorem shiftLeft_shiftRight_add_mod (n k : Nat) : (n >>> k <<< k) + n % (1 <<< k) = n := by
  rw [Nat.one_shiftLeft, Nat.shiftRight_eq_div_pow, Nat.shiftLeft_eq]
  exact Nat.div_add_mod' n _

theorem foldl_ofNatAux (g n : Nat) (tail : Bytes) :
    (ofNatAux g n tail).foldl (fun n x => 256 * n + x.toNat) 0 = tail.foldl (fun n x => 256 * n + x.toNat) n := by
  induction g generalizing n tail with
  | zero => rw [ofNatAux, foldl_lowest, Nat.zero_shiftLeft, Nat.zero_add, Nat.mod_eq_of_lt (lt_width n)]
  | succ g ih =>
    rw [ofNatAux, ih, foldl_lowest]
    congr 1
    rw [Nat.mod_mod]
    exact shiftLeft_shiftRight_add_mod n (8 * 1024)

@[simp]
theorem toNat_ofNat (n : Nat) : toNat (ofNat n) = n := (toNat_eq_foldl _).trans (foldl_ofNatAux _ n [])

end BigEndian
end IdentityVault
