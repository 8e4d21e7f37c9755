import IdentityVault.Argon2.Hasher
import IdentityVault.Proofs.Argon2.Encoded

/-! Hashes that were made can be checked. The costs, the salt and the digest of a new hash are read back from its text;
    so a hasher that admits its costs computes the same digest again, and one that does not refuses it. Limits are
    compared as numbers, over the whole range of the costs. -/

namespace IdentityVault
namespace HashSettings

variable {s t : HashSettings} {salt secret given stored : Bytes}

theorem memory_lt (s : HashSettings) : s.costs.memory < 1 <<< 32 := s.memoryCost.toNat_lt

theorem passes_lt (s : HashSettings) : s.costs.passes < 1 <<< 32 := Nat.max_lt.mpr ⟨s.cost.toNat_lt, by decide⟩

theorem lanes_lt (s : HashSettings) : s.costs.lanes < 1 <<< 32 := s.parallelism.toNat_lt

theorem length_digest (s : HashSettings) (salt secret : Bytes) :
    (Argon2.hash .id .combining s.costs digestWidth secret salt).length = digestWidth := by
  rw [Argon2.hash, Argon2.digest, if_pos (by decide), Blake2b.length_hash (by decide)]

/-! ### Costs that are admitted -/

theorem le_fourfold {n : Nat} (h : n < 1 <<< 32) : n ≤ fourfold n := Nat.le_min.mpr ⟨by omega, Nat.le_sub_one_of_lt h⟩

/-- Where memory and lanes are the configured ones, the number of passes decides. -/
theorem admits_with_cost (s : HashSettings) (cost : UInt32) :
    s.Admits ({ s with cost } : HashSettings).costs ↔ max cost.toNat 1 ≤ fourfold (max s.cost.toNat 1) := by
  have hmemory : s.memoryCost.toNat ≤ fourfold s.memoryCost.toNat := le_fourfold s.memory_lt
  have hlanes : s.parallelism.toNat ≤ fourfold (max s.parallelism.toNat 1) :=
    Nat.le_trans (Nat.le_max_left _ 1) (le_fourfold (Nat.max_lt.mpr ⟨s.lanes_lt, by decide⟩))
  exact ⟨fun h => h.2.1, fun h => ⟨hmemory, h, hlanes⟩⟩

theorem admits_self (s : HashSettings) : s.Admits s.costs :=
  (s.admits_with_cost s.cost).mpr (le_fourfold s.passes_lt)

/-! ### The fields of a new hash -/

open Argon2.Encoded in
theorem complete_encode (s : HashSettings) (h : salt.length = saltWidth) (secret : Bytes) :
    (s.encode salt secret).Complete where
  function := show isName Argon2.Variant.id.name.toList = true by decide
  version := ⟨_, by decide, rfl⟩
  params := List.cons_ne_nil _ _
  plain := by
    simp only [encode, List.forall_mem_cons]
    exact ⟨⟨rfl, isValue_decimal s.memory_lt⟩, ⟨rfl, isValue_decimal s.passes_lt⟩,
      ⟨rfl, isValue_decimal s.lanes_lt⟩, List.forall_mem_nil _⟩
  short := by
    have hmemory := length_decimal_le_ten s.memory_lt
    have hpasses := length_decimal_le_ten s.passes_lt
    have hlanes := length_decimal_le_ten s.lanes_lt
    simp [joined, encode, renderParam]
    omega
  salt := by
    have hlength := length_base64 salt
    rw [h] at hlength
    exact ⟨_, rfl, by rw [hlength]; decide, isValue_base64 (by rw [h]; decide)⟩
  digest := ⟨_, rfl, by rw [length_digest]; decide, by rw [length_digest]; decide⟩

theorem costs?_encode (h : s.costs.Valid) : (s.encode salt secret).costs? = some s.costs := by
  simp only [Argon2.Encoded.costs?, encode, List.foldlM_cons, List.foldlM_nil, Argon2.Encoded.addParam?,
    Argon2.Encoded.number?_decimal s.memory_lt, Argon2.Encoded.number?_decimal s.passes_lt,
    Argon2.Encoded.number?_decimal s.lanes_lt, Option.bind_eq_bind, Option.bind_some, Option.pure_def]
  exact if_pos h

theorem verifies_encode (h : salt.length = saltWidth) (c : Argon2.Costs) :
    (s.encode salt secret).verifies c given =
      (Argon2.hash .id .combining c digestWidth given salt ==
        Argon2.hash .id .combining s.costs digestWidth secret salt) := by
  have hvariant : (s.encode salt secret).variant? = some .id := by
    simp only [Argon2.Encoded.variant?, encode, String.ofList_toList, Argon2.Variant.ofName?_name]
  have hversion : (s.encode salt secret).version? = some .combining := Argon2.Version.ofCode?_code _
  have hsalt : (s.encode salt secret).saltBytes? = some salt := by
    simp only [Argon2.Encoded.saltBytes?, encode, Option.bind_eq_bind, Option.bind_some, Argon2.Encoded.base64?_base64]
    rw [if_pos (by rw [h]; decide)]
  simp only [Argon2.Encoded.verifies, hvariant, hversion, hsalt]
  simp only [encode, length_digest]

/-! ### Checking a new hash -/

theorem generate_eq_ok : s.generate salt secret = .ok stored ↔
    s.costs.Valid ∧ Text.utf8 (String.ofList (s.encode salt secret).render) = stored := by
  rw [generate, ← Argon2.Costs.broken?_eq_none]
  cases s.costs.broken? <;> simp

/-- A new hash is accepted for the secrets that have the same digest, by hashers that admit its costs. -/
theorem accepts_of_generate (hsalt : salt.length = saltWidth) (h : s.generate salt secret = .ok stored) :
    t.accepts stored given = true ↔ t.Admits s.costs ∧
      Argon2.hash .id .combining s.costs digestWidth given salt =
        Argon2.hash .id .combining s.costs digestWidth secret salt := by
  obtain ⟨hvalid, rfl⟩ := generate_eq_ok.mp h
  have hdigest : (s.encode salt secret).digest.map List.length = some digestWidth := by
    simp only [encode, Option.map_some, length_digest]
  simp only [accepts, Text.ofUtf8?_utf8, Option.bind_some, String.toList_ofList,
    Argon2.Encoded.parse?_render (s.complete_encode hsalt secret), hdigest, costs?_encode hvalid, verifies_encode hsalt,
    beq_self_eq_true, Bool.true_and, Bool.and_eq_true, decide_eq_true_eq, beq_iff_eq]

/-- A new hash of a secret is verified where each of its costs is at most four times the configured one, or the greatest
    number of 32 bits where that is less, and refused everywhere else. No passes count as one, on both sides, and no
    lanes count as one in the limit. So every hasher verifies its own hashes. -/
theorem compare_of_generate (hsalt : salt.length = saltWidth) (h : s.generate salt secret = .ok stored) :
    t.compare stored secret =
        (if s.memoryCost.toNat ≤ min (4 * t.memoryCost.toNat) ((1 <<< 32) - 1) ∧
            max s.cost.toNat 1 ≤ min (4 * max t.cost.toNat 1) ((1 <<< 32) - 1) ∧
            s.parallelism.toNat ≤ min (4 * max t.parallelism.toNat 1) ((1 <<< 32) - 1) then .ok ()
        else .error .verificationFailed) ∧
      s.compare stored secret = .ok () := by
  have haccepts (u : HashSettings) : u.accepts stored secret = true ↔ u.Admits s.costs :=
    (accepts_of_generate hsalt h).trans (and_iff_left rfl)
  refine ⟨?_, if_pos ((haccepts s).mpr s.admits_self)⟩
  by_cases hadmits : t.Admits s.costs
  · exact (if_pos ((haccepts t).mpr hadmits)).trans (if_pos hadmits).symm
  · exact (if_neg (mt (haccepts t).mp hadmits)).trans (if_neg hadmits).symm

/-- All three costs are as high as a hasher of one pass, eight KiB and no lanes admits; with seven KiB it refuses. -/
theorem compare_of_generate_at_limits : ∃ stored,
    generate ⟨0, 32, 4⟩ (List.replicate 16 7) (Text.utf8 "secret") = .ok stored ∧
      compare ⟨1, 8, 0⟩ stored (Text.utf8 "secret") = .ok () ∧
      compare ⟨1, 7, 0⟩ stored (Text.utf8 "secret") = .error .verificationFailed := by
  have h : generate ⟨0, 32, 4⟩ (List.replicate 16 7) (Text.utf8 "secret") = .ok _ :=
    generate_eq_ok.mpr ⟨by decide, rfl⟩
  have hsalt : (List.replicate 16 7 : Bytes).length = saltWidth := rfl
  exact ⟨_, h, (compare_of_generate hsalt h).1.trans (if_pos (by decide)),
    (compare_of_generate hsalt h).1.trans (if_neg (by decide))⟩

end HashSettings
end IdentityVault
