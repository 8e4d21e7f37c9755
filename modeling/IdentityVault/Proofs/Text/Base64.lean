import IdentityVault.Proofs.Text.Utf8
import IdentityVault.Text.Base64

/-! Texts in base64 are plain: those that are written, as well as those that are read, consist of digits and padding. -/

namespace IdentityVault
namespace Base64

variable {padded : Bool} {c : UInt8}

/-! ### Digits -/

theorem mem_encode {b : Bytes} (h : c ∈ encode padded b) : (padded = true ∧ c = pad) ∨ ∃ n < 64, c = digit n := by
  suffices hall : ∀ c ∈ encode padded b, (padded = true ∧ c = pad) ∨ ∃ n < 64, c = digit n from hall c h
  clear h
  have hdigit {n : Nat} (h : n < 64) : (padded = true ∧ digit n = pad) ∨ ∃ m < 64, digit n = digit m := .inr ⟨n, h, rfl⟩
  fun_induction encode padded b with
  | case1 a b c r ih =>
    have ha := a.toNat_lt; have hb := b.toNat_lt; have hc := c.toNat_lt
    simp only [List.forall_mem_cons]
    exact ⟨hdigit (by omega), hdigit (by omega), hdigit (by omega), hdigit (by omega), ih⟩
  | case2 a b =>
    have ha := a.toNat_lt; have hb := b.toNat_lt
    rw [List.forall_mem_append]
    simp only [List.forall_mem_cons]
    refine ⟨⟨hdigit (by omega), hdigit (by omega), hdigit (by omega), List.forall_mem_nil _⟩, ?_⟩
    cases padded <;> simp
  | case3 a =>
    have ha := a.toNat_lt
    rw [List.forall_mem_append]
    simp only [List.forall_mem_cons]
    refine ⟨⟨hdigit (by omega), hdigit (by omega), List.forall_mem_nil _⟩, ?_⟩
    cases padded <;> simp
  | case4 => exact List.forall_mem_nil _

/-- What a text in base64 consists of. -/
def Digit (c : UInt8) : Prop := c = pad ∨ ∃ n < 64, c = digit n

theorem digit_of_encode (padded : Bool) (b : Bytes) : ∀ c ∈ encode padded b, Digit c :=
  fun _ hc => (mem_encode hc).imp_left And.right

/-- Without padding, three bytes make four digits, and a rest of `n` bytes makes `n + 1` of them. -/
theorem length_encode (b : Bytes) : (encode false b).length = (4 * b.length + 2) / 3 := by
  fun_induction encode false b with
  | case1 a b c r ih =>
    simp only [List.length_cons, ih]
    omega
  | case2 a b => simp
  | case3 a => simp
  | case4 => rfl

/-! ### What is read -/

theorem digit_of_value? {n : Nat} (h : value? c = some n) : Digit c := by
  have hall : ∀ m < 256, (value? (UInt8.ofNat m)).all fun n => n < 64 ∧ UInt8.ofNat m = digit n := by decide +kernel
  have hvalue := hall c.toNat c.toNat_lt
  rw [UInt8.ofNat_toNat, h, Option.all_some, decide_eq_true_eq] at hvalue
  exact .inr ⟨n, hvalue⟩

theorem lastOne?_eq_some {w x : UInt8} {b : Bytes} (h : lastOne? w x = some b) :
    (∀ c ∈ [w, x], Digit c) ∧ b.length = 1 := by
  simp only [lastOne?, Option.bind_eq_bind, Option.bind_eq_some_iff, Option.ite_none_right_eq_some,
    Option.some.injEq] at h
  obtain ⟨_, hw, _, hx, -, rfl⟩ := h
  exact ⟨by simp [digit_of_value? hw, digit_of_value? hx], rfl⟩

theorem lastTwo?_eq_some {w x y : UInt8} {b : Bytes} (h : lastTwo? w x y = some b) :
    (∀ c ∈ [w, x, y], Digit c) ∧ b.length = 2 := by
  simp only [lastTwo?, Option.bind_eq_bind, Option.bind_eq_some_iff, Option.ite_none_right_eq_some,
    Option.some.injEq] at h
  obtain ⟨_, hw, _, hx, _, hy, -, rfl⟩ := h
  exact ⟨by simp [digit_of_value? hw, digit_of_value? hx, digit_of_value? hy], rfl⟩

theorem group?_eq_some {w x y z : UInt8} {b : Bytes} (h : group? w x y z = some b) :
    (∀ c ∈ [w, x, y, z], Digit c) ∧ b.length = 3 := by
  simp only [group?, Option.bind_eq_bind, Option.bind_eq_some_iff, Option.some.injEq] at h
  obtain ⟨_, hw, _, hx, _, hy, _, hz, rfl⟩ := h
  exact ⟨by simp [digit_of_value? hw, digit_of_value? hx, digit_of_value? hy, digit_of_value? hz], rfl⟩

/-- A text that is read consists of digits and padding, and is not shorter than what it is read as. -/
theorem decode?_eq_some {s b : Bytes} (h : decode? padded s = some b) :
    (∀ c ∈ s, Digit c) ∧ b.length ≤ s.length := by
  have hpad : Digit pad := .inl rfl
  fun_induction decode? padded s generalizing b with
  | case1 =>
    cases h
    exact ⟨nofun, Nat.le_refl _⟩
  | case2 | case4 | case9 => cases h
  | case3 w x =>
    obtain ⟨hdigits, hlength⟩ := lastOne?_eq_some h
    exact ⟨hdigits, by simp [hlength]⟩
  | case5 w x y =>
    obtain ⟨hdigits, hlength⟩ := lastTwo?_eq_some h
    exact ⟨hdigits, by simp [hlength]⟩
  | case6 w x z r hlast =>
    obtain ⟨-, rfl, rfl⟩ := hlast
    obtain ⟨hdigits, hlength⟩ := lastOne?_eq_some h
    simp only [List.forall_mem_cons] at hdigits ⊢
    exact ⟨⟨hdigits.1, hdigits.2.1, hpad, hpad, nofun⟩, by simp [hlength]⟩
  | case7 w x y z r hlast =>
    obtain ⟨-, rfl, rfl⟩ := hlast
    obtain ⟨hdigits, hlength⟩ := lastTwo?_eq_some h
    simp only [List.forall_mem_cons] at hdigits ⊢
    exact ⟨⟨hdigits.1, hdigits.2.1, hdigits.2.2.1, hpad, nofun⟩, by simp [hlength]⟩
  | case8 w x y z r _ ih =>
    simp only [Option.bind_eq_bind, Option.bind_eq_some_iff, Option.some.injEq] at h
    obtain ⟨front, hfront, rest, hrest, rfl⟩ := h
    obtain ⟨hgroup, hthree⟩ := group?_eq_some hfront
    obtain ⟨hdigits, hlength⟩ := ih hrest
    simp only [List.forall_mem_cons] at hgroup ⊢
    refine ⟨⟨hgroup.1, hgroup.2.1, hgroup.2.2.1, hgroup.2.2.2.1, hdigits⟩, ?_⟩
    simp only [List.length_append, List.length_cons, hthree]
    omega

end Base64
end IdentityVault
