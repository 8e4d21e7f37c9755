/-! Arithmetic modulo a number: inverses and powers. -/

namespace IdentityVault
namespace Rsa

/-- Euclid's algorithm: the greatest common divisor of `r` and `r'`, and the combination that goes with it. Both
    `r - s·a` and `r' - s'·a` stay multiples of the modulus. -/
def euclid (r r' : Nat) (s s' : Int) : Nat × Int :=
  if r' = 0 then (r, s) else euclid r' (r % r') s' (s - (r / r' : Nat) * s')
termination_by r'
decreasing_by exact Nat.mod_lt _ (Nat.pos_of_ne_zero ‹_›)

/-- The number below `m` whose product with `a` is one modulo `m`. -/
def inverse? (a m : Nat) : Option Nat :=
  let (g, s) := euclid (a % m) m 1 0
  if g = 1 then some (s % (m : Int)).toNat else none

/-- `acc · base ^ e` modulo `m`. -/
def powModAux (m : Nat) (base e acc : Nat) : Nat :=
  if e = 0 then acc
  else powModAux m (base * base % m) (e / 2) (if e % 2 = 1 then acc * base % m else acc)
termination_by e
decreasing_by exact Nat.div_lt_self (Nat.pos_of_ne_zero ‹_›) (by decide)

def powMod (m base e : Nat) : Nat := powModAux m (base % m) e (1 % m)

def bitLength (n : Nat) : Nat := if n = 0 then 0 else n.log2 + 1

end Rsa
end IdentityVault
