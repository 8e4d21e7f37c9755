import IdentityVault.Cipher.Block

/-! Galois counter mode: the plaintext is combined with the cipher of a running counter, and a tag over the
    ciphertext proves that it was not changed. Both directions run over an arbitrary function on blocks; the nonce
    has twelve bytes, and there is no associated data. -/

namespace IdentityVault
namespace Gcm

/-! ### The field of the tag -/

/-- An element of the field of 2¹²⁸ elements; the coefficient of the lowest power is the highest bit of `hi`. -/
structure Element where
  hi : UInt64
  lo : UInt64

namespace Element

def zero : Element := ⟨0, 0⟩

def xor (x y : Element) : Element := ⟨x.hi ^^^ y.hi, x.lo ^^^ y.lo⟩

/-- `x` times the indeterminate. -/
def shift (x : Element) : Element :=
  let hi := x.hi >>> 1
  let lo := (x.lo >>> 1) ||| (x.hi <<< 63)
  if x.lo &&& 1 = 1 then ⟨hi ^^^ 0xe100000000000000, lo⟩ else ⟨hi, lo⟩

/-- `acc + x·y`, where the `n` highest coefficients of `x` are still to be used, first in `hi`, then in `lo`. -/
def mulAux : Nat → (hi lo : UInt64) → (y acc : Element) → Element
  | 0, _, _, _, acc => acc
  | n + 1, hi, lo, y, acc =>
    mulAux n ((hi <<< 1) ||| (lo >>> 63)) (lo <<< 1) y.shift (if hi >>> 63 = 1 then acc.xor y else acc)

def mul (x y : Element) : Element := mulAux 128 x.hi x.lo y zero

/-- Eight bytes as a number, the first byte highest. -/
def word (b : Bytes) : UInt64 := b.foldl (fun n x => (n <<< 8) ||| x.toUInt64) 0

def ofBlock (b : Block) : Element := ⟨word (b.toList.take 8), word (b.toList.drop 8)⟩

def wordBytes (w : UInt64) : Bytes :=
  [56, 48, 40, 32, 24, 16, 8, 0].map fun s : UInt64 => (w >>> s).toUInt8

def toBlock (x : Element) : Block := Block.ofBytes (wordBytes x.hi ++ wordBytes x.lo)

end Element

/-- The hash of a byte string, in stretches of sixteen bytes filled with zeros, added to `acc`. -/
def hashFrom (key acc : Element) (data : Bytes) : Element :=
  if data = [] then acc
  else
    hashFrom key ((acc.xor (Element.ofBlock (Block.ofBytes (data.take Block.width)))).mul key)
      (data.drop Block.width)
termination_by data.length
decreasing_by
  have := List.length_pos_iff.mpr ‹_›
  simp only [List.length_drop, Block.width]
  omega

/-- The hash of a ciphertext followed by its length in bits. -/
def hash (key : Element) (data : Bytes) : Element :=
  ((hashFrom key .zero data).xor ⟨0, UInt64.ofNat (8 * data.length)⟩).mul key

/-! ### Counter and tag -/

def nonceWidth : Nat := 12

def tagWidth : Nat := 16

/-- The longest plaintext, and the longest ciphertext without its tag, in bytes. The standard allows 32 bytes less for
    both, and implementations that round this up may also read ciphertexts of 16 bytes more. Here both directions have
    one bound, so that nothing is opened that could not have been sealed. -/
def limit : Nat := 1 <<< 36

/-- What is said of every failure alike. -/
def refusal : String := "aead::Error"

/-- The block of the nonce and the count `n`. -/
def counter (nonce : Bytes) (n : UInt32) : Block :=
  Block.ofBytes (nonce.take nonceWidth ++ [(n >>> 24).toUInt8, (n >>> 16).toUInt8, (n >>> 8).toUInt8, n.toUInt8])

/-- `data` combined with the cipher of the counter from `n` on. The same step encrypts and decrypts. -/
def stream (cipher : Block → Block) (nonce : Bytes) (n : UInt32) (data : Bytes) : Bytes :=
  if data = [] then []
  else
    Bytes.xor (data.take Block.width) (cipher (counter nonce n)).toList ++
      stream cipher nonce (n + 1) (data.drop Block.width)
termination_by data.length
decreasing_by
  have := List.length_pos_iff.mpr ‹_›
  simp only [List.length_drop, Block.width]
  omega

/-- The tag of a ciphertext: its hash, masked by the cipher of the counter's first value. -/
def tag (cipher : Block → Block) (nonce sealed : Bytes) : Bytes :=
  ((hash (.ofBlock (cipher .zero)) sealed).toBlock.xor (cipher (counter nonce 1))).toList

/-- The ciphertext of `plain` and its tag, unless `plain` is too long. -/
def encrypt? (cipher : Block → Block) (nonce plain : Bytes) : Option Bytes :=
  if plain.length ≤ limit then
    let sealed := stream cipher nonce 2 plain
    some (sealed ++ tag cipher nonce sealed)
  else none

/-- The plaintext of a ciphertext and its tag, if the tag is right. -/
def decrypt? (cipher : Block → Block) (nonce tagged : Bytes) : Option Bytes :=
  let sealed := tagged.take (tagged.length - tagWidth)
  if sealed.length ≤ limit ∧ tagWidth ≤ tagged.length ∧
      tagged.drop (tagged.length - tagWidth) = tag cipher nonce sealed then
    some (stream cipher nonce 2 sealed)
  else none

end Gcm
end IdentityVault
