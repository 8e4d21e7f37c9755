import IdentityVault.Cipher.Aes
import IdentityVault.Cipher.Cfb
import IdentityVault.Cipher.Gcm
import IdentityVault.Failure

/-! Sealing byte strings under a shared key of 256 bits. A sealed message starts with the initial vector or nonce
    that it was made with; cipher feedback does not notice tampering, Galois counter mode does. -/

namespace IdentityVault

structure CipherKey where
  bytes : Vector UInt8 32

namespace CipherKey

def width : Nat := 32

def ofBytes (b : Bytes) : Outcome CipherKey :=
  if h : b.length = 32 then .ok ⟨⟨b.toArray, by simpa using h⟩⟩
  else .error (.malformed (.keyLength width b.length))

def shown : String := "CipherKey \x7b key: \"[REDACTED]\" \x7d"

end CipherKey

inductive SealMode where
  | cfb
  | gcm
  deriving DecidableEq, Repr

namespace SealMode

/-- The number of random bytes that a sealed message starts with. -/
def seedWidth : SealMode → Nat
  | cfb => Block.width
  | gcm => Gcm.nonceWidth

def least : SealMode → Nat
  | cfb => Block.width
  | gcm => Gcm.nonceWidth + Gcm.tagWidth

/-- Seals `plain` with the given random bytes over an arbitrary block cipher. -/
def sealWith (cipher : Block → Block) (seed plain : Bytes) : SealMode → Outcome Bytes
  | cfb => .ok (seed ++ Cfb.encrypt cipher (.ofBytes seed) plain)
  | gcm => match Gcm.encrypt? cipher seed plain with
    | some tagged => .ok (seed ++ tagged)
    | none => .error (.crypto Gcm.refusal)

def openWith (cipher : Block → Block) (sealed : Bytes) (mode : SealMode) : Outcome Bytes :=
  if sealed.length < mode.least then .error (.malformed (.sealedLength mode.least sealed.length))
  else
    let seed := sealed.take mode.seedWidth
    let rest := sealed.drop mode.seedWidth
    match mode with
    | cfb => .ok (Cfb.decrypt cipher (.ofBytes seed) rest)
    | gcm => match Gcm.decrypt? cipher seed rest with
      | some plain => .ok plain
      | none => .error (.crypto ("decryption failed: " ++ Gcm.refusal))

end SealMode

/-- A key and the way to use it. -/
structure Sealer where
  mode : SealMode
  key : CipherKey

namespace Sealer

/-- Seals `plain`; `seed` is the initial vector or nonce, of `mode.seedWidth` bytes. -/
def encrypt (s : Sealer) (seed plain : Bytes) : Outcome Bytes :=
  let schedule := Aes.Schedule.ofKey s.key.bytes
  s.mode.sealWith (Aes.encrypt schedule) seed plain

def decrypt (s : Sealer) (sealed : Bytes) : Outcome Bytes :=
  let schedule := Aes.Schedule.ofKey s.key.bytes
  s.mode.openWith (Aes.encrypt schedule) sealed

end Sealer
end IdentityVault
