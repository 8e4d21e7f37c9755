/-! White space as Unicode defines it. -/

namespace IdentityVault.Text

/-- `c` has the Unicode property `White_Space`. -/
def blank (c : Char) : Bool :=
  (0x9 ≤ c.toNat && c.toNat ≤ 0xd) || c.toNat == 0x20 || c.toNat == 0x85 || c.toNat == 0xa0 ||
    c.toNat == 0x1680 || (0x2000 ≤ c.toNat && c.toNat ≤ 0x200a) || c.toNat == 0x2028 || c.toNat == 0x2029 ||
    c.toNat == 0x202f || c.toNat == 0x205f || c.toNat == 0x3000

def trimStart (s : List Char) : List Char := s.dropWhile blank

def trim (s : List Char) : List Char := (trimStart (trimStart s).reverse).reverse

end IdentityVault.Text
