import IdentityVault.Cipher.Block

/-! Cipher feedback: each stretch of sixteen bytes is combined with the cipher of the ciphertext before it, the
    first one with the cipher of the initial vector. The last stretch may be shorter. Both directions run over an
    arbitrary function on blocks. -/

namespace IdentityVault
namespace Cfb

/-- The ciphertext of `plain` after the block `previous`. -/
def encrypt (cipher : Block → Block) (previous : Block) (plain : Bytes) : Bytes :=
  if plain = [] then []
  else
    let out := Bytes.xor (plain.take Block.width) (cipher previous).toList
    out ++ encrypt cipher (Block.ofBytes out) (plain.drop Block.width)
termination_by plain.length
decreasing_by
  have := List.length_pos_iff.mpr ‹_›
  simp only [List.length_drop, Block.width]
  omega

def decrypt (cipher : Block → Block) (previous : Block) (sealed : Bytes) : Bytes :=
  if sealed = [] then []
  else
    let now := sealed.take Block.width
    Bytes.xor now (cipher previous).toList ++ decrypt cipher (Block.ofBytes now) (sealed.drop Block.width)
termination_by sealed.length
decreasing_by
  have := List.length_pos_iff.mpr ‹_›
  simp only [List.length_drop, Block.width]
  omega

end Cfb
end IdentityVault
