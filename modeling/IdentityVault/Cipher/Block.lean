import IdentityVault.Text.Utf8

/-! Blocks of sixteen bytes, the unit of the block cipher. -/

namespace IdentityVault

abbrev Block := Vector UInt8 16

namespace Block

def width : Nat := 16

/-- The block that starts with `b`: zeros are added, and what does not fit is dropped. -/
def ofBytes (b : Bytes) : Block :=
  let a := b.toArray
  Vector.ofFn fun i : Fin 16 => a.getD i 0

def zero : Block := Vector.replicate 16 0

def xor (x y : Block) : Block := Vector.zipWith (· ^^^ ·) x y

end Block

def Bytes.xor (x y : Bytes) : Bytes := List.zipWith (· ^^^ ·) x y

end IdentityVault
