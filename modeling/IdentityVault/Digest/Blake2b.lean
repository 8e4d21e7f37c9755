import IdentityVault.Text.Utf8

/-! The hash function BLAKE2b without a key, with a digest of 1 to 64 bytes. -/

namespace IdentityVault
namespace Blake2b

abbrev Chain := Vector UInt64 8

/-- Sixteen words: a message block, or the working state of the compression. -/
abbrev Words := Vector UInt64 16

def initial : Chain := #v[
  0x6a09e667f3bcc908, 0xbb67ae8584caa73b, 0x3c6ef372fe94f82b, 0xa54ff53a5f1d36f1,
  0x510e527fade682d1, 0x9b05688c2b3e6c1f, 0x1f83d9abfb41bd6b, 0x5be0cd19137e2179]

/-- The order in which each of the ten distinct rounds takes the message words. -/
def orders : List (Vector (Fin 16) 16) := [
  #v[0, 1, 2, 3, 4, 5, 6, 7, 8, 9, 10, 11, 12, 13, 14, 15],
  #v[14, 10, 4, 8, 9, 15, 13, 6, 1, 12, 0, 2, 11, 7, 5, 3],
  #v[11, 8, 12, 0, 5, 2, 15, 13, 10, 14, 3, 6, 7, 1, 9, 4],
  #v[7, 9, 3, 1, 13, 12, 11, 14, 2, 6, 5, 10, 4, 0, 15, 8],
  #v[9, 0, 5, 7, 2, 4, 10, 15, 14, 1, 11, 12, 6, 8, 3, 13],
  #v[2, 12, 6, 10, 0, 11, 8, 3, 4, 13, 7, 5, 15, 14, 1, 9],
  #v[12, 5, 1, 15, 14, 13, 4, 10, 0, 7, 6, 3, 9, 2, 8, 11],
  #v[13, 11, 7, 14, 12, 1, 3, 9, 5, 0, 15, 4, 8, 6, 2, 10],
  #v[6, 15, 14, 9, 11, 3, 0, 8, 12, 2, 13, 7, 1, 4, 10, 5],
  #v[10, 2, 8, 4, 7, 6, 1, 5, 15, 11, 9, 14, 3, 12, 13, 0]]

def rotateRight (x : UInt64) (n : UInt64) : UInt64 := (x >>> n) ||| (x <<< (64 - n))

/-- Mixes two message words into four words of the working state. -/
def mix (v : Words) (a b c d : Fin 16) (x y : UInt64) : Words :=
  let va := v.get a + v.get b + x
  let vd := rotateRight (v.get d ^^^ va) 32
  let vc := v.get c + vd
  let vb := rotateRight (v.get b ^^^ vc) 24
  let va := va + vb + y
  let vd := rotateRight (vd ^^^ va) 16
  let vc := vc + vd
  let vb := rotateRight (vb ^^^ vc) 63
  (((v.setIfInBounds a va).setIfInBounds b vb).setIfInBounds c vc).setIfInBounds d vd

/-- One round: the four columns, then the four diagonals. -/
def round (m : Words) (v : Words) (order : Vector (Fin 16) 16) : Words :=
  let w (i : Fin 16) : UInt64 := m.get (order.get i)
  let v := mix v 0 4 8 12 (w 0) (w 1)
  let v := mix v 1 5 9 13 (w 2) (w 3)
  let v := mix v 2 6 10 14 (w 4) (w 5)
  let v := mix v 3 7 11 15 (w 6) (w 7)
  let v := mix v 0 5 10 15 (w 8) (w 9)
  let v := mix v 1 6 11 12 (w 10) (w 11)
  let v := mix v 2 7 8 13 (w 12) (w 13)
  mix v 3 4 9 14 (w 14) (w 15)

/-- Adds a block to the chaining state; `count` bytes have been taken with it, and `last` marks the last one. -/
def compress (h : Chain) (m : Words) (count : Nat) (last : Bool) : Chain :=
  let start : Words := (h ++ initial).cast rfl
  let start := start.set 12 (start[12] ^^^ UInt64.ofNat count)
  let start := start.set 13 (start[13] ^^^ UInt64.ofNat (count >>> 64))
  let start := if last then start.set 14 (~~~ start[14]) else start
  let v := (orders ++ orders.take 2).foldl (round m) start
  Vector.ofFn fun i : Fin 8 => h[i] ^^^ v[i] ^^^ v[i.val + 8]

/-- Eight bytes as a number, the first byte lowest. -/
def word (b : Bytes) : UInt64 := b.foldr (fun x n => (n <<< 8) ||| x.toUInt64) 0

def wordBytes (w : UInt64) : Bytes := [0, 8, 16, 24, 32, 40, 48, 56].map fun s : UInt64 => (w >>> s).toUInt8

/-- The words of a block of 128 bytes; a shorter one is filled with zeros. -/
def words (b : Bytes) : Words := Vector.ofFn fun i : Fin 16 => word ((b.drop (8 * i.val)).take 8)

/-- Adds `data` block by block, after `count` bytes that are already in `h`. -/
def absorb (h : Chain) (count : Nat) (data : Bytes) : Chain :=
  if data.drop 128 = [] then compress h (words data) (count + data.length) true
  else absorb (compress h (words (data.take 128)) (count + 128) false) (count + 128) (data.drop 128)
termination_by data.length
decreasing_by
  rw [List.drop_eq_nil_iff] at *
  simp only [List.length_drop]
  omega

/-- The digest of `data`, of `width` bytes (at most 64). -/
def hash (width : Nat) (data : Bytes) : Bytes :=
  let start := initial.setIfInBounds 0 (initial.get 0 ^^^ 0x01010000 ^^^ UInt64.ofNat width)
  ((absorb start 0 data).toList.flatMap wordBytes).take width

theorem length_hash {width : Nat} (h : width ≤ 64) (data : Bytes) : (hash width data).length = width := by
  have hwordBytes (w : UInt64) : (wordBytes w).length = 8 := rfl
  have hwords (h : Chain) : (h.toList.flatMap wordBytes).length = 64 := by
    simp only [List.length_flatMap, hwordBytes, List.map_const', Vector.length_toList]
    rfl
  rw [hash, List.length_take, hwords, Nat.min_eq_left h]

end Blake2b
end IdentityVault
