import IdentityVault.Argon2.Hasher
import IdentityVault.Entropy
import IdentityVault.Text.Decimal
import IdentityVault.Text.Hex
import IdentityVault.World.Basic

/-! Sources of ids, of points in time and of hashes, from which the surroundings of a world are put together. -/

namespace IdentityVault

namespace Id

/-- The ids `id-1`, `id-2` and so on. -/
def numbered (n : Nat) : Outcome Id := parse ("id-" ++ String.ofList (Text.decimal (n + 1)))

def exhausted (_ : Nat) : Outcome Id := .error (.storage "id generator exhausted")

/-- The ids with the given texts, and after them those of `rest`. -/
def listed (texts : List String) (rest : Nat → Outcome Id) (n : Nat) : Outcome Id :=
  match texts[n]? with
  | some t => parse t
  | none => rest (n - texts.length)

/-- The text of a random UUID, which is made of 16 bytes up to the six bits that show its version and variant. -/
def uuidText (bytes : Bytes) : String :=
  let marked := bytes.mapIdx fun i b =>
    if i = 6 then b &&& 0x0f ||| 0x40 else if i = 8 then b &&& 0x3f ||| 0x80 else b
  let part (start width : Nat) : String := Hex.text ((marked.drop start).take width)
  String.intercalate "-" [part 0 4, part 4 2, part 6 2, part 8 2, part 10 6]

/-- Random ids. -/
def random (seed : Bytes) (n : Nat) : Outcome Id := parse (uuidText ((⟨seed, n⟩ : Entropy).take 16).1)

end Id

namespace Timestamp

/-- Points in time, each a nanosecond after the one before. -/
def ticking (start : Timestamp) (n : Nat) : Timestamp := start.addNanos n

end Timestamp

namespace Hasher

/-- The hasher with the given costs, whose salts come from a seed. -/
def ofSettings (s : HashSettings) (seed : Bytes) : Hasher where
  hash n secret := .ok (s.generate ((⟨seed, n⟩ : Entropy).take HashSettings.saltWidth).1 secret)
  compare stored secret := .ok (s.compare stored secret)

/-- Keeps secrets as they are, after a mark. -/
def plain : Hasher where
  hash _ secret := .ok (.ok (Text.utf8 "plain:" ++ secret))
  compare stored secret :=
    .ok (if stored = Text.utf8 "plain:" ++ secret then .ok () else .error .verificationFailed)

/-- Yields the same bytes for every secret. -/
def constant (bytes : Bytes) : Hasher := { plain with hash := fun _ _ => .ok (.ok bytes) }

def failing : Hasher where
  hash _ _ := .ok (.error (.crypto "hasher failed"))
  compare _ _ := .ok (.error (.crypto "hasher failed"))

def breaking : Hasher where
  hash _ _ := .error "panic"
  compare _ _ := .error "panic"

end Hasher

namespace Surroundings

/-- Surroundings where nothing is late and nothing fails. -/
def calm (ids : Nat → Outcome Id) (start : Timestamp) (hasher : Hasher) : Surroundings where
  delay _ _ := 0
  fault _ _ := none
  id := ids
  timestamp := start.ticking
  hasher := hasher

/-- Lets every call of a kind wait for the time that `delays` has for it. -/
def withDelays (s : Surroundings) (delays : Call → Duration) : Surroundings :=
  { s with delay := fun c _ => delays c }

/-- Lets calls of the given kind fail, except for the first `spared` ones. -/
def withFault (s : Surroundings) (call : Call) (f : Failure) (spared : Nat) : Surroundings :=
  { s with fault := fun c n => if c = call ∧ spared ≤ n then some f else s.fault c n }

end Surroundings
end IdentityVault
