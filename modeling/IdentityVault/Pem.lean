import IdentityVault.Text.Base64
import IdentityVault.Text.Blank
import IdentityVault.Text.Split

/-! PEM blocks: bytes in base64 between two lines that name what they are. A block is found wherever it stands in
    an input; what stands around it is ignored. -/

namespace IdentityVault

structure Pem where
  label : String
  content : Bytes
  deriving DecidableEq, Repr

namespace Pem

/-! ### Finding the parts -/

/-- Looks for `marker`, of which `left` is still missing at this place, and gives what stands before and behind it;
    `seen` is what has been passed, the last byte first. A byte that does not fit is passed, and the search for the
    whole marker goes on behind it. -/
def scan (marker : Bytes) : (left seen : Bytes) → Bytes → Option (Bytes × Bytes)
  | [], seen, rest => some ((seen.drop marker.length).reverse, rest)
  | _ :: _, _, [] => none
  | m :: left, seen, b :: r => scan marker (if b = m then left else marker) (b :: seen) r

/-- What stands before and behind the marker in `s`. -/
def cut? (marker s : Bytes) : Option (Bytes × Bytes) := scan marker marker [] s

def beginMark : Bytes := Text.utf8 "-----BEGIN "
def endMark : Bytes := Text.utf8 "-----END "
def lineMark : Bytes := Text.utf8 "-----"

def isSpace (b : UInt8) : Bool := b == 32 || b == 9 || b == 10 || b == 13

/-- The headers and the data of a block's body: an empty line ends the headers. -/
def splitBody (body : Bytes) : Bytes × Bytes :=
  match cut? [10, 10] body with
  | some parts => parts
  | none => match cut? [13, 10, 13, 10] body with
    | some parts => parts
    | none => ([], body)

def lines (s : List Char) : List (List Char) :=
  let parts := Text.split '\n' s
  let parts := if parts.getLast? = some [] then parts.dropLast else parts
  parts.map fun l => if l.getLast? = some '\r' then l.dropLast else l

/-- Every line of a block's headers has a colon. -/
def headersFit (s : List Char) : Bool := (lines s).all (·.contains ':')

/-- The bytes of a text in padded base64, in which blanks may stand anywhere. -/
def data? (s : List Char) : Option Bytes :=
  let digits := s.filter fun c => !Text.blank c
  if digits.all (·.toNat < 128) then Base64.decode? true (digits.map fun c => UInt8.ofNat c.toNat) else none

def parse? (s : Bytes) : Option Pem := do
  let (_, s) ← cut? beginMark s
  let (opening, s) ← cut? lineMark s
  let (body, s) ← cut? endMark (s.dropWhile isSpace)
  let (closing, _) ← cut? lineMark s
  let label ← Text.ofUtf8? opening
  let (headers, data) := splitBody body
  if opening ≠ [] ∧ opening = closing then
    let headers ← Text.ofUtf8? headers
    let data ← Text.ofUtf8? data
    let content ← data? data.toList
    if headersFit headers.toList then some ⟨label, content⟩ else none
  else none

/-! ### Writing -/

/-- The bytes in lines of at most 64. -/
def wrap (s : Bytes) : Bytes :=
  if s = [] then [] else s.take 64 ++ 10 :: wrap (s.drop 64)
termination_by s.length
decreasing_by
  have := List.length_pos_iff.mpr ‹_›
  simp only [List.length_drop]
  omega

def render (p : Pem) : Bytes :=
  beginMark ++ Text.utf8 p.label ++ lineMark ++ 10 ::
    wrap (Base64.encode true p.content) ++
    endMark ++ Text.utf8 p.label ++ lineMark ++ [10]

end Pem
end IdentityVault
