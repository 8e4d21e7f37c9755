import IdentityVault.Der
import IdentityVault.Rsa.Arithmetic

/-! RSA private keys of two primes, and their plain container, which holds the numbers of the key in a sequence. -/

namespace IdentityVault
namespace Rsa

/-- The greatest public exponent. -/
def mostExponent : Nat := (1 <<< 33) - 1

/-- The numbers of a key fit together. Whether `p` and `q` are primes is not asked. -/
def Fits (n e d p q : Nat) : Prop :=
  2 ≤ e ∧ e ≤ mostExponent ∧ e % 2 = 1 ∧ e < n ∧ n % 2 = 1 ∧ 1 < p ∧ 1 < q ∧ p * q = n ∧
    d * e % (p - 1) = 1 ∧ d * e % (q - 1) = 1

instance (n e d p q : Nat) : Decidable (Fits n e d p q) := inferInstanceAs (Decidable (_ ∧ _))

/-- A private key: modulus, public and private exponent, and the two factors of the modulus. -/
structure PrivateKey where
  modulus : Nat
  publicExponent : Nat
  privateExponent : Nat
  p : Nat
  q : Nat
  fits : Fits modulus publicExponent privateExponent p q

namespace PrivateKey

/-- The key of the given numbers, if they fit together. -/
def ofNumbers? (n e d p q : Nat) : Option PrivateKey := if h : Fits n e d p q then some ⟨n, e, d, p, q, h⟩ else none

instance : DecidableEq PrivateKey := fun a b =>
  if h : a.modulus = b.modulus ∧ a.publicExponent = b.publicExponent ∧ a.privateExponent = b.privateExponent ∧
      a.p = b.p ∧ a.q = b.q then
    isTrue (by cases a; cases b; simp_all)
  else isFalse (by rintro rfl; simp at h)

def bits (k : PrivateKey) : Nat := bitLength k.modulus

/-- The sequence of the key's numbers, if the second factor has an inverse modulo the first. -/
def toDer? (k : PrivateKey) : Option Der.Element := do
  let coefficient ← inverse? k.q k.p
  some (Der.sequence (([0, k.modulus, k.publicExponent, k.privateExponent, k.p, k.q,
    k.privateExponent % (k.p - 1), k.privateExponent % (k.q - 1), coefficient] : List Nat).map Der.integer))

/-- The plain container of a key. -/
def toPkcs1? (k : PrivateKey) : Option Bytes := do
  let bytes := (← k.toDer?).bytes
  if bytes.length < Der.limit then some bytes else none

/-- The key in a plain container. The last three numbers, which follow from the others, are not checked. -/
def ofPkcs1? (s : Bytes) : Option PrivateKey :=
  if s.length < Der.limit then do
    let parts ← (← Der.only? s).parts?
    let numbers ← parts.mapM Der.Element.nat?
    match numbers with
    | [0, n, e, d, p, q, _, _, _] => ofNumbers? n e d p q
    | _ => none
  else none

end PrivateKey
end Rsa
end IdentityVault
