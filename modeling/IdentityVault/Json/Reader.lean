import IdentityVault.Json.Basic
import IdentityVault.Json.Token

/-! Reading JSON. The reader keeps the unfinished arrays and objects on a stack of its own, so values may be nested
    to any depth. -/

namespace IdentityVault
namespace Json

/-- An array or object that waits for the value of its next item; the items before it stand last one first. -/
inductive Frame where
  | item (before : List Json)
  | member (before : List (Option String × Json)) (name : Option String)

/-- What may come next. -/
inductive Expect where
  | value
  | firstItem
  /-- A member of an object, after those that stand in `before`. -/
  | member (before : List (Option String × Json))
  | firstMember
  | colon (before : List (Option String × Json)) (name : Option String)
  /-- What follows the finished value `done`. -/
  | rest (done : Json)

/-- What a token means where a value is expected. -/
def Expect.ofValue? (frames : List Frame) : Token → Option (Expect × List Frame)
  | .null => some (.rest .null, frames)
  | .bool b => some (.rest (.bool b), frames)
  | .number l => some (.rest (.number l), frames)
  | .string t => some (.rest (.string t), frames)
  | .leftBracket => some (.firstItem, frames)
  | .leftBrace => some (.firstMember, frames)
  | _ => none

/-- One step of the reader. -/
def Expect.step? : Expect → List Frame → Token → Option (Expect × List Frame)
  | value, frames, t => ofValue? frames t
  | firstItem, frames, .rightBracket => some (rest (.array []), frames)
  | firstItem, frames, t => ofValue? (.item [] :: frames) t
  | firstMember, frames, .rightBrace => some (rest (.object []), frames)
  | firstMember, frames, .string n => some (colon [] n, frames)
  | member before, frames, .string n => some (colon before n, frames)
  | colon before n, frames, .colon => some (value, .member before n :: frames)
  | rest v, .item before :: frames, .comma => some (value, .item (v :: before) :: frames)
  | rest v, .item before :: frames, .rightBracket => some (rest (.array (v :: before).reverse), frames)
  | rest v, .member before n :: frames, .comma => some (member ((n, v) :: before), frames)
  | rest v, .member before n :: frames, .rightBrace => some (rest (.object ((n, v) :: before).reverse), frames)
  | _, _, _ => none

/-- Reads a value to its end from a state of the reader. -/
def readFrom : Expect → List Frame → List Token → Option Json
  | .rest v, [], [] => some v
  | _, _, [] => none
  | e, frames, t :: ts =>
    match e.step? frames t with
    | some (e, frames) => readFrom e frames ts
    | none => none

def parse? (s : String) : Option Json := (tokens? s.toList).bind (readFrom .value [])

end Json
end IdentityVault
