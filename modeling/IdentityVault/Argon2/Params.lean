import IdentityVault.Text.Utf8

/-! The parameters of an Argon2 hash. -/

namespace IdentityVault
namespace Argon2

/-- Which earlier blocks a new memory block draws on: `d` lets the secret choose, `i` does not, and `id` does not
    in the first half of the first pass. -/
inductive Variant where
  | d
  | i
  | id
  deriving DecidableEq, Repr

namespace Variant

def code : Variant → Nat
  | d => 0
  | i => 1
  | id => 2

def name : Variant → String
  | d => "argon2d"
  | i => "argon2i"
  | id => "argon2id"

def ofName? (s : String) : Option Variant := [d, i, id].find? (·.name == s)

theorem ofName?_name (v : Variant) : ofName? v.name = some v := by cases v <;> decide

end Variant

/-- How later passes store a block: over the old one, or combined with it. -/
inductive Version where
  | overwriting
  | combining
  deriving DecidableEq, Repr

namespace Version

def code : Version → Nat
  | overwriting => 16
  | combining => 19

def ofCode? (n : Nat) : Option Version := [overwriting, combining].find? (·.code == n)

theorem ofCode?_code (v : Version) : ofCode? v.code = some v := by cases v <;> decide

end Version

/-- The costs of a hash: `memory` in KiB, `passes` over it, `lanes` side by side; `data` enters the hash beside
    the secret. -/
structure Costs where
  memory : Nat
  passes : Nat
  lanes : Nat
  data : Bytes
  deriving DecidableEq, Repr

namespace Costs

def leastMemory : Nat := 8

def mostLanes : Nat := (1 <<< 24) - 1

def Valid (c : Costs) : Prop :=
  leastMemory ≤ c.memory ∧ 8 * c.lanes ≤ c.memory ∧ 1 ≤ c.passes ∧ 1 ≤ c.lanes ∧ c.lanes ≤ mostLanes

instance (c : Costs) : Decidable c.Valid := inferInstanceAs (Decidable (_ ∧ _))

/-- The bounds of costs, in the order in which they are checked. -/
inductive Bound where
  | memory
  | passes
  | leastLanes
  | mostLanes
  deriving DecidableEq, Repr

namespace Bound

/-- What is said of costs that break a bound. -/
def message : Bound → String
  | memory => "memory cost is too small"
  | passes => "time cost is too small"
  | leastLanes => "not enough threads"
  | mostLanes => "too many threads"

end Bound

/-- The first bound that is broken. -/
def broken? (c : Costs) : Option Bound :=
  if c.memory < leastMemory ∨ c.memory < 8 * c.lanes then some .memory
  else if c.passes < 1 then some .passes
  else if c.lanes < 1 then some .leastLanes
  else if mostLanes < c.lanes then some .mostLanes
  else none

theorem broken?_eq_none {c : Costs} : c.broken? = none ↔ c.Valid := by
  rw [broken?, Valid]
  grind

end Costs
end Argon2
end IdentityVault
