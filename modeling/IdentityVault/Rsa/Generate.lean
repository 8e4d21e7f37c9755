import IdentityVault.Entropy
import IdentityVault.Failure
import IdentityVault.Rsa.PrivateKey

/-! New private keys. Both factors are sought from random starting points; the two highest bits of a factor are
    set, so that the modulus has exactly the size that is asked for. -/

namespace IdentityVault
namespace Rsa

/-- The public exponent of every new key. -/
def newExponent : Nat := 65537

/-- The least size for which there are enough primes to choose from. -/
def leastBits : Nat := 12

/-- The odd primes below 512, by trial division. -/
def smallPrimes : List Nat :=
  (List.range 512).filter fun n => 2 < n && n % 2 == 1 && (List.range n).all fun d => d < 2 || n % d != 0

/-- The part of the test of Miller and Rabin for the base whose power is `x`: one of the next `n` squares is
    minus one. -/
def squaresReach (m : Nat) : (n x : Nat) → Bool
  | 0, _ => false
  | n + 1, x => x == m - 1 || squaresReach m n (x * x % m)

/-- How often two divides `n`, looking at most `fuel` times, and the quotient that remains. -/
def oddPart : (fuel n : Nat) → Nat × Nat
  | 0, n => (0, n)
  | fuel + 1, n =>
    if n % 2 = 1 then (0, n)
    else
      let (s, d) := oddPart fuel (n / 2)
      (s + 1, d)

def passes (n b : Nat) : Bool :=
  let (s, d) := oddPart (bitLength n) (n - 1)
  let x := powMod n b d
  x == 1 || squaresReach n s x

/-- `n` is probably a prime: no small prime divides it, and it passes the test for the first twelve primes. -/
def isProbablePrime (n : Nat) : Bool :=
  smallPrimes.contains n ||
    (n % 2 == 1 && smallPrimes.all (fun p => n % p != 0) &&
      [2, 3, 5, 7, 11, 13, 17, 19, 23, 29, 31, 37].all (passes n))

/-- The first probable prime among `n`, `n + 2`, … below `bound`, looking at most `fuel` times. -/
def primeFrom? (bound : Nat) : (fuel n : Nat) → Option Nat
  | 0, _ => none
  | fuel + 1, n =>
    if bound ≤ n then none
    else if isProbablePrime n then some n
    else primeFrom? bound fuel (n + 2)

/-- The odd number of `bits` bits with the highest two set that `random` yields. -/
def start (bits : Nat) (random : Bytes) : Nat :=
  let low := BigEndian.toNat random % (1 <<< (bits - 2))
  (1 <<< (bits - 1)) + (1 <<< (bits - 2)) + low / 2 * 2 + 1

/-- A probable prime of `bits` bits with the highest two set, and the supply after the search for it. -/
def prime? (bits : Nat) (e : Entropy) : Option Nat × Entropy :=
  let (random, e) := e.take (bits / 8 + 1)
  (primeFrom? (1 <<< bits) (16 * bits + 64) (start bits random), e)

/-- The key of two factors, if they make one of the size `bits`. -/
def ofFactors? (bits p q : Nat) : Option PrivateKey := do
  let d ← inverse? newExponent ((p - 1) * (q - 1))
  let k ← PrivateKey.ofNumbers? (p * q) newExponent d p q
  if p ≠ q ∧ k.bits = bits then some k else none

/-- A key of the size `bits`, in at most `fuel` attempts. -/
def search? (bits : Nat) : (fuel : Nat) → Entropy → Option PrivateKey
  | 0, _ => none
  | fuel + 1, e =>
    let (p, e) := prime? (bits / 2) e
    let (q, e) := prime? (bits - bits / 2) e
    match p.bind fun p => q.bind fun q => ofFactors? bits p q with
    | some k => some k
    | none => search? bits fuel e

/-- A new key of the size `bits`. Sizes that are too small for the public exponent fail. -/
def generate (bits : Nat) (e : Entropy) : Outcome PrivateKey :=
  if bits < leastBits ∨ 1 <<< bits ≤ newExponent then
    .error (.crypto "too few primes of given length to generate an RSA key")
  else match search? bits 256 e with
    | some k => .ok k
    | none => .error (.crypto "no primes found")

end Rsa
end IdentityVault
