import IdentityVault.Cipher.Block

/-! The block cipher AES with a key of 256 bits, in the encrypting direction: both modes of operation use only
    that one. A block is held column by column, as the standard numbers its bytes. -/

namespace IdentityVault
namespace Aes

set_option maxRecDepth 4000 in
/-- The byte substitution: inversion in the field of 256 elements, then an affine map. -/
def substitution : Vector UInt8 256 := #v[
  0x63, 0x7c, 0x77, 0x7b, 0xf2, 0x6b, 0x6f, 0xc5, 0x30, 0x01, 0x67, 0x2b, 0xfe, 0xd7, 0xab, 0x76,
  0xca, 0x82, 0xc9, 0x7d, 0xfa, 0x59, 0x47, 0xf0, 0xad, 0xd4, 0xa2, 0xaf, 0x9c, 0xa4, 0x72, 0xc0,
  0xb7, 0xfd, 0x93, 0x26, 0x36, 0x3f, 0xf7, 0xcc, 0x34, 0xa5, 0xe5, 0xf1, 0x71, 0xd8, 0x31, 0x15,
  0x04, 0xc7, 0x23, 0xc3, 0x18, 0x96, 0x05, 0x9a, 0x07, 0x12, 0x80, 0xe2, 0xeb, 0x27, 0xb2, 0x75,
  0x09, 0x83, 0x2c, 0x1a, 0x1b, 0x6e, 0x5a, 0xa0, 0x52, 0x3b, 0xd6, 0xb3, 0x29, 0xe3, 0x2f, 0x84,
  0x53, 0xd1, 0x00, 0xed, 0x20, 0xfc, 0xb1, 0x5b, 0x6a, 0xcb, 0xbe, 0x39, 0x4a, 0x4c, 0x58, 0xcf,
  0xd0, 0xef, 0xaa, 0xfb, 0x43, 0x4d, 0x33, 0x85, 0x45, 0xf9, 0x02, 0x7f, 0x50, 0x3c, 0x9f, 0xa8,
  0x51, 0xa3, 0x40, 0x8f, 0x92, 0x9d, 0x38, 0xf5, 0xbc, 0xb6, 0xda, 0x21, 0x10, 0xff, 0xf3, 0xd2,
  0xcd, 0x0c, 0x13, 0xec, 0x5f, 0x97, 0x44, 0x17, 0xc4, 0xa7, 0x7e, 0x3d, 0x64, 0x5d, 0x19, 0x73,
  0x60, 0x81, 0x4f, 0xdc, 0x22, 0x2a, 0x90, 0x88, 0x46, 0xee, 0xb8, 0x14, 0xde, 0x5e, 0x0b, 0xdb,
  0xe0, 0x32, 0x3a, 0x0a, 0x49, 0x06, 0x24, 0x5c, 0xc2, 0xd3, 0xac, 0x62, 0x91, 0x95, 0xe4, 0x79,
  0xe7, 0xc8, 0x37, 0x6d, 0x8d, 0xd5, 0x4e, 0xa9, 0x6c, 0x56, 0xf4, 0xea, 0x65, 0x7a, 0xae, 0x08,
  0xba, 0x78, 0x25, 0x2e, 0x1c, 0xa6, 0xb4, 0xc6, 0xe8, 0xdd, 0x74, 0x1f, 0x4b, 0xbd, 0x8b, 0x8a,
  0x70, 0x3e, 0xb5, 0x66, 0x48, 0x03, 0xf6, 0x0e, 0x61, 0x35, 0x57, 0xb9, 0x86, 0xc1, 0x1d, 0x9e,
  0xe1, 0xf8, 0x98, 0x11, 0x69, 0xd9, 0x8e, 0x94, 0x9b, 0x1e, 0x87, 0xe9, 0xce, 0x55, 0x28, 0xdf,
  0x8c, 0xa1, 0x89, 0x0d, 0xbf, 0xe6, 0x42, 0x68, 0x41, 0x99, 0x2d, 0x0f, 0xb0, 0x54, 0xbb, 0x16]

def sub (b : UInt8) : UInt8 :=
  have := b.toNat_lt
  substitution[b.toNat]

/-- Twice `b` in the field of 256 elements. -/
def double (b : UInt8) : UInt8 := if b < 0x80 then b <<< 1 else (b <<< 1) ^^^ 0x1b

/-- Substitutes every byte and turns row `r` of the block by `r` columns. -/
def subShift (s : Block) : Block :=
  Vector.ofFn fun i : Fin 16 => sub (s[(i.val + 4 * (i.val % 4)) % 16])

def mixColumns (s : Block) : Block :=
  Vector.ofFn fun i : Fin 16 =>
    let column := i.val / 4 * 4
    let a := s[i]
    let b := s[column + (i.val + 1) % 4]
    double a ^^^ double b ^^^ b ^^^ s[column + (i.val + 2) % 4] ^^^
      s[column + (i.val + 3) % 4]

/-! ### Key schedule -/

structure Word where
  a : UInt8
  b : UInt8
  c : UInt8
  d : UInt8

namespace Word

def xor (x y : Word) : Word := ⟨x.a ^^^ y.a, x.b ^^^ y.b, x.c ^^^ y.c, x.d ^^^ y.d⟩

def sub (x : Word) : Word := ⟨Aes.sub x.a, Aes.sub x.b, Aes.sub x.c, Aes.sub x.d⟩

def rotate (x : Word) : Word := ⟨x.b, x.c, x.d, x.a⟩

def bytes (x : Word) : Bytes := [x.a, x.b, x.c, x.d]

end Word

structure KeyPair where
  w0 : Word
  w1 : Word
  w2 : Word
  w3 : Word
  w4 : Word
  w5 : Word
  w6 : Word
  w7 : Word

namespace KeyPair

def first (k : KeyPair) : Block := Block.ofBytes (k.w0.bytes ++ k.w1.bytes ++ k.w2.bytes ++ k.w3.bytes)

def second (k : KeyPair) : Block := Block.ofBytes (k.w4.bytes ++ k.w5.bytes ++ k.w6.bytes ++ k.w7.bytes)

/-- The two round keys after `k`; `constant` tells the steps of the schedule apart. -/
def next (constant : UInt8) (k : KeyPair) : KeyPair :=
  let w0 := (k.w0.xor k.w7.rotate.sub).xor ⟨constant, 0, 0, 0⟩
  let w1 := k.w1.xor w0
  let w2 := k.w2.xor w1
  let w3 := k.w3.xor w2
  let w4 := k.w4.xor w3.sub
  let w5 := k.w5.xor w4
  let w6 := k.w6.xor w5
  ⟨w0, w1, w2, w3, w4, w5, w6, k.w7.xor w6⟩

/-- The first two round keys are the two halves of the cipher key. -/
def ofKey (key : Vector UInt8 32) : KeyPair :=
  let word (i : Nat) (h : i < 8) : Word := ⟨key[4 * i], key[4 * i + 1], key[4 * i + 2], key[4 * i + 3]⟩
  ⟨word 0 (by decide), word 1 (by decide), word 2 (by decide), word 3 (by decide),
    word 4 (by decide), word 5 (by decide), word 6 (by decide), word 7 (by decide)⟩

end KeyPair

/-- The round keys: the one added first, those of the thirteen full rounds, and that of the last round. -/
structure Schedule where
  start : Block
  rounds : List Block
  last : Block

def Schedule.ofKey (key : Vector UInt8 32) : Schedule :=
  let k0 := KeyPair.ofKey key
  let k1 := k0.next 0x01
  let k2 := k1.next 0x02
  let k3 := k2.next 0x04
  let k4 := k3.next 0x08
  let k5 := k4.next 0x10
  let k6 := k5.next 0x20
  let k7 := k6.next 0x40
  ⟨k0.first,
    [k0.second, k1.first, k1.second, k2.first, k2.second, k3.first, k3.second, k4.first, k4.second,
      k5.first, k5.second, k6.first, k6.second],
    k7.first⟩

/-- The cipher: thirteen full rounds, and a last one that does not mix the columns. -/
def encrypt (k : Schedule) (b : Block) : Block :=
  (subShift (k.rounds.foldl (fun s r => (mixColumns (subShift s)).xor r) (b.xor k.start))).xor k.last

end Aes
end IdentityVault
