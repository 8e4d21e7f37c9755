import IdentityVault.Digest.Blake2b

/-! A supply of random bytes: what a seed yields under a hash function, block by block. -/

namespace IdentityVault

/-- A seed, and the number of blocks that have been drawn from it. -/
structure Entropy where
  seed : Bytes
  drawn : Nat
  deriving DecidableEq, Repr

namespace Entropy

def ofSeed (seed : Bytes) : Entropy := ⟨seed, 0⟩

def block (e : Entropy) : Bytes := Blake2b.hash 64 (Blake2b.wordBytes (UInt64.ofNat e.drawn) ++ e.seed)

def blocks : Nat → Entropy → Bytes × Entropy
  | 0, e => ([], e)
  | n + 1, e =>
    let (rest, e') := blocks n { e with drawn := e.drawn + 1 }
    (e.block ++ rest, e')

def take (n : Nat) (e : Entropy) : Bytes × Entropy :=
  let (b, e) := e.blocks ((n + 63) / 64)
  (b.take n, e)

theorem length_blocks (n : Nat) (e : Entropy) : (e.blocks n).1.length = 64 * n := by
  induction n generalizing e with
  | zero => rfl
  | succ n ih =>
    have hrest := ih { e with drawn := e.drawn + 1 }
    simp only [blocks, List.length_append, block, Blake2b.length_hash (Nat.le_refl 64), hrest]
    omega

theorem length_take (n : Nat) (e : Entropy) : (e.take n).1.length = n := by
  have hblocks := e.length_blocks ((n + 63) / 64)
  simp only [take, List.length_take, hblocks]
  omega

end Entropy
end IdentityVault
