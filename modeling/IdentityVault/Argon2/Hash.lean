import IdentityVault.Argon2.Block
import IdentityVault.Argon2.Params

/-! The memory-hard function Argon2: memory is filled block by block, each from the one before it and an earlier
    one, in slices that all lanes finish before the next begins; the digest is taken of the last blocks. -/

namespace IdentityVault
namespace Argon2

/-- The four bytes of a number below 2³², the lowest first. -/
def word32 (n : Nat) : Bytes :=
  [UInt8.ofNat n, UInt8.ofNat (n >>> 8), UInt8.ofNat (n >>> 16), UInt8.ofNat (n >>> 24)]

def counted (b : Bytes) : Bytes := word32 b.length ++ b

/-- `n` digests of 64 bytes, each of the one before, of which the first halves are kept, then the digest of
    `rest` bytes of the last of them. -/
def chain : (n rest : Nat) → Bytes → Bytes
  | 0, rest, v => Blake2b.hash rest v
  | n + 1, rest, v =>
    let v := Blake2b.hash 64 v
    v.take 32 ++ chain n rest v

def digest (width : Nat) (data : Bytes) : Bytes :=
  let data := word32 width ++ data
  if width ≤ 64 then Blake2b.hash width data
  else
    let halves := (width + 31) / 32 - 2
    chain halves (width - 32 * halves) data

/-! ### Filling the memory -/

/-- The shape of the memory: `lanes` rows of four slices of `segment` blocks, filled in `passes`. -/
structure Layout where
  variant : Variant
  version : Version
  passes : Nat
  lanes : Nat
  segment : Nat

namespace Layout

def laneLength (l : Layout) : Nat := 4 * l.segment

def size (l : Layout) : Nat := l.lanes * l.laneLength

/-- The memory of `m` KiB, cut to whole slices of all lanes. -/
def ofCosts (variant : Variant) (version : Version) (c : Costs) : Layout :=
  ⟨variant, version, c.passes, c.lanes, c.memory / (4 * c.lanes)⟩

end Layout

/-- One slice of one lane in one pass. -/
structure Segment where
  pass : Nat
  lane : Nat
  slice : Nat

namespace Segment

/-- The references of this segment do not depend on the secret. -/
def independent (l : Layout) (s : Segment) : Bool :=
  match l.variant with
  | .d => false
  | .i => true
  | .id => s.pass == 0 && s.slice < 2

/-- The `n`-th block of 128 pseudo-random words for the references of this segment. -/
def addresses (l : Layout) (s : Segment) (n : Nat) : Block :=
  let first : Row := Row.ofFn fun
    | 0 => UInt64.ofNat s.pass
    | 1 => UInt64.ofNat s.lane
    | 2 => UInt64.ofNat s.slice
    | 3 => UInt64.ofNat l.size
    | 4 => UInt64.ofNat l.passes
    | 5 => UInt64.ofNat l.variant.code
    | 6 => UInt64.ofNat n
    | _ => 0
  Block.zero.compress (Block.zero.compress { Block.zero with r0 := first })

/-- The place of the block that the block at `index` of this segment refers to, chosen by the word `chosen`. -/
def reference (l : Layout) (s : Segment) (index : Nat) (chosen : UInt64) : Nat :=
  let lane := if s.pass = 0 ∧ s.slice = 0 then s.lane else (chosen >>> 32).toNat % l.lanes
  let finished := if s.pass = 0 then s.slice * l.segment else l.laneLength - l.segment
  let area := if lane = s.lane then finished + index - 1 else if index = 0 then finished - 1 else finished
  let x := (chosen &&& 0xffffffff).toNat
  let x := (x * x) >>> 32
  let place := area - 1 - (area * x) >>> 32
  let start := if s.pass = 0 ∨ s.slice = 3 then 0 else (s.slice + 1) * l.segment
  lane * l.laneLength + (start + place) % l.laneLength

/-- Fills `n` blocks of this segment, from `index` on; `words` holds its current pseudo-random words. -/
def fillFrom (l : Layout) (s : Segment) : (n index : Nat) → (words : Block) → Array Block → Array Block
  | 0, _, _, memory => memory
  | n + 1, index, words, memory =>
    let words := if s.independent l && index % 128 == 0 && index != 0 then s.addresses l (index / 128 + 1) else words
    let column := s.slice * l.segment + index
    let here := s.lane * l.laneLength + column
    let before := s.lane * l.laneLength + (if column = 0 then l.laneLength - 1 else column - 1)
    let previous := memory.getD before .zero
    let chosen := if s.independent l then words.word (index % 128) else previous.word 0
    let made := previous.compress (memory.getD (s.reference l index chosen) .zero)
    let made := match l.version with
      | .overwriting => made
      | .combining => if s.pass = 0 then made else made.xor (memory.getD here .zero)
    fillFrom l s n (index + 1) words (memory.setIfInBounds here made)

/-- Fills this segment. The first two blocks of a lane are given. -/
def fill (l : Layout) (memory : Array Block) (s : Segment) : Array Block :=
  let words := if s.independent l then s.addresses l 1 else .zero
  let given := if s.pass = 0 ∧ s.slice = 0 then 2 else 0
  fillFrom l s (l.segment - given) given words memory

end Segment

def Layout.segments (l : Layout) : List Segment :=
  (List.range l.passes).flatMap fun pass => (List.range 4).flatMap fun slice =>
    (List.range l.lanes).map fun lane => ⟨pass, lane, slice⟩

/-- The memory before the first segment: two blocks of each lane come from the seed. -/
def Layout.start (l : Layout) (seed : Bytes) : Array Block :=
  (List.range l.lanes).foldl (fun memory lane =>
      let block (n : Nat) : Block := Block.ofBytes (digest 1024 (seed ++ word32 n ++ word32 lane))
      (memory.setIfInBounds (lane * l.laneLength) (block 0)).setIfInBounds (lane * l.laneLength + 1) (block 1))
    (Array.replicate l.size .zero)

/-- The sum of the last blocks of all lanes. -/
def Layout.final (l : Layout) (memory : Array Block) : Block :=
  (List.range l.lanes).foldl (fun sum lane => sum.xor (memory.getD ((lane + 1) * l.laneLength - 1) .zero)) .zero

def seed (variant : Variant) (version : Version) (c : Costs) (width : Nat) (secret salt : Bytes) : Bytes :=
  Blake2b.hash 64 (word32 c.lanes ++ word32 width ++ word32 c.memory ++ word32 c.passes ++ word32 version.code ++
    word32 variant.code ++ counted secret ++ counted salt ++ counted [] ++ counted c.data)

def hash (variant : Variant) (version : Version) (c : Costs) (width : Nat) (secret salt : Bytes) : Bytes :=
  let l := Layout.ofCosts variant version c
  let memory := l.segments.foldl (Segment.fill l) (l.start (seed variant version c width secret salt))
  digest width (l.final memory).toBytes

end Argon2
end IdentityVault
