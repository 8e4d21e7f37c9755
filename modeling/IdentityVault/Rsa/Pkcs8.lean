import IdentityVault.Failure
import IdentityVault.Rsa.PrivateKey

/-! The tagged container of private keys, which names the algorithm that the key is for. -/

namespace IdentityVault
namespace Rsa

/-- A tagged container: the algorithm, its parameters, and a container of the algorithm's own. -/
structure Pkcs8 where
  algorithm : Bytes
  parameters : Option Der.Element
  inner : Bytes
  deriving DecidableEq, Repr

namespace Pkcs8

/-- The content of the object identifier of RSA. -/
def rsaEncryption : Bytes := [0x2a, 0x86, 0x48, 0x86, 0xf7, 0x0d, 0x01, 0x01, 0x01]

/-- The algorithm's name and its parameters, which may be missing. -/
def algorithm? (e : Der.Element) : Option (Bytes × Option Der.Element) := do
  match ← e.parts? with
  | [oid] => if oid.tag = Der.Tag.objectId ∧ Der.isObjectId oid.content then some (oid.content, none) else none
  | [oid, parameters] =>
    if oid.tag = Der.Tag.objectId ∧ Der.isObjectId oid.content then some (oid.content, some parameters) else none
  | _ => none

/-- The element is the first of the fields behind the key. -/
def isAttributes (e : Der.Element) : Bool := Der.Tag.isContextual e.tag && Der.Tag.number e.tag == 0

/-- The element is the second of the fields behind the key, the public key. -/
def isPublicKey (e : Der.Element) : Bool := Der.Tag.isContextual e.tag && Der.Tag.number e.tag == 1

/-- The public key is a string of whole bytes. -/
def publicKeyFits (e : Der.Element) : Bool := !Der.Tag.isConstructed e.tag && e.content.head? == some 0

/-- A field that is not known holds exactly one element. -/
def isExtension (e : Der.Element) : Bool :=
  Der.Tag.isContextual e.tag && Der.Tag.isConstructed e.tag && (Der.only? e.content).isSome

/-- The fields behind the key fit the container's version, which is one exactly if there is a public key. -/
def fieldsFit (version : Nat) (fields : List Der.Element) : Bool :=
  match fields.dropWhile isAttributes with
  | [] => version == 0
  | e :: r =>
    if isPublicKey e then version == 1 && publicKeyFits e && r.all isExtension
    else version == 0 && (e :: r).all isExtension

def parse? (s : Bytes) : Option Pkcs8 :=
  if s.length < Der.limit then do
    match ← (← Der.only? s).parts? with
    | version :: algorithm :: inner :: fields =>
      let (name, parameters) ← algorithm? algorithm
      if fieldsFit (← version.nat?) fields ∧ inner.tag = Der.Tag.octetString then
        some ⟨name, parameters, inner.content⟩
      else none
    | _ => none
  else none

/-- The container of an RSA key in its plain container. -/
def wrap (pkcs1 : Bytes) : Bytes :=
  (Der.sequence [Der.integer 0,
    Der.sequence [⟨Der.Tag.objectId, rsaEncryption⟩, ⟨Der.Tag.null, []⟩],
    ⟨Der.Tag.octetString, pkcs1⟩]).bytes

/-- The RSA key in a tagged container. Which algorithm it is for is asked before anything else. -/
def key (c : Pkcs8) : Outcome PrivateKey :=
  if c.algorithm ≠ rsaEncryption then .error .notRsaKey
  else if c.parameters ≠ some ⟨Der.Tag.null, []⟩ then .error (.malformed .pkcs8)
  else match PrivateKey.ofPkcs1? c.inner with
    | some k => .ok k
    | none => .error (.malformed .pkcs8)

end Pkcs8
end Rsa
end IdentityVault
