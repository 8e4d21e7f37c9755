import IdentityVault.Argon2.Encoded
import IdentityVault.Failure

/-! Hashing secrets at configured costs, and checking them against stored hashes. A stored hash brings its own
    costs, which may exceed the configured ones by a fixed factor at most. -/

namespace IdentityVault

/-- The configured costs of hashing. -/
structure HashSettings where
  /-- Passes over the memory; zero counts as one. -/
  cost : UInt32
  /-- Memory in KiB. -/
  memoryCost : UInt32
  parallelism : UInt32
  deriving DecidableEq, Repr

namespace HashSettings

def standard : HashSettings := ⟨3, 19 * 1024, 1⟩

/-- The number of bytes in every digest that is made or accepted. -/
def digestWidth : Nat := 32

/-- The number of random bytes in a new salt. -/
def saltWidth : Nat := 16

def costs (s : HashSettings) : Argon2.Costs :=
  ⟨s.memoryCost.toNat, max s.cost.toNat 1, s.parallelism.toNat, []⟩

def fourfold (n : Nat) : Nat := min (4 * n) ((1 <<< 32) - 1)

/-- Stored costs that are not far above the configured ones. -/
def Admits (s : HashSettings) (stored : Argon2.Costs) : Prop :=
  stored.memory ≤ fourfold s.memoryCost.toNat ∧ stored.passes ≤ fourfold (max s.cost.toNat 1) ∧
    stored.lanes ≤ fourfold (max s.parallelism.toNat 1)

instance (s : HashSettings) (c : Argon2.Costs) : Decidable (s.Admits c) := inferInstanceAs (Decidable (_ ∧ _))

/-- The fields of a new hash of `secret`. -/
def encode (s : HashSettings) (salt secret : Bytes) : Argon2.Encoded where
  function := (Argon2.Variant.id).name.toList
  version := some Argon2.Version.combining.code
  params := [(['m'], Text.decimal s.costs.memory), (['t'], Text.decimal s.costs.passes),
    (['p'], Text.decimal s.costs.lanes)]
  salt := some (Argon2.Encoded.base64 salt)
  digest := some (Argon2.hash .id .combining s.costs digestWidth secret salt)

def generate (s : HashSettings) (salt secret : Bytes) : Outcome Bytes :=
  match s.costs.broken? with
  | none => .ok (Text.utf8 (String.ofList (s.encode salt secret).render))
  | some bound => .error (.crypto bound.message)

/-- `stored` is a hash of `secret`, made at costs that are admitted. -/
def accepts (s : HashSettings) (stored secret : Bytes) : Bool :=
  match (Text.ofUtf8? stored).bind fun t => Argon2.Encoded.parse? t.toList with
  | none => false
  | some e => (e.digest.map List.length) == some digestWidth &&
    match e.costs? with
    | none => false
    | some c => decide (s.Admits c) && e.verifies c secret

/-- Checks `secret` against a stored hash. All reasons to refuse look alike. -/
def compare (s : HashSettings) (stored secret : Bytes) : Outcome Unit :=
  if s.accepts stored secret then .ok () else .error .verificationFailed

end HashSettings
end IdentityVault
