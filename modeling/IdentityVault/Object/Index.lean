import IdentityVault.Account.Json
import IdentityVault.Object.MimeType
import IdentityVault.Store.Table

/-! The index of an object store: what is known of each object, and the JSON form that is kept in a file. -/

namespace IdentityVault

structure ObjectMeta where
  contentType : String
  size : UInt64
  updatedAt : Timestamp
  deriving DecidableEq, Repr

namespace ObjectMeta

def mime (m : ObjectMeta) : MimeType := .parse m.contentType

def ofJson? (j : Json) : Option ObjectMeta :=
  match j.fields? ["contentType", "size", "updatedAt"] with
  | some [contentType, size, updatedAt] => do
    some ⟨← Json.required Json.text? contentType, ← Json.required (fun j => (j.word? 64).map UInt64.ofNat) size,
      ← Json.required Timestamp.ofJson? updatedAt⟩
  | _ => none

def toJson (m : ObjectMeta) : Json :=
  .ofMembers [("contentType", .ofString m.contentType), ("size", .ofNat m.size.toNat),
    ("updatedAt", m.updatedAt.toJson)]

end ObjectMeta

/-- An index: what is known of the objects, under the texts of their paths. -/
abbrev ObjectIndex := Table String ObjectMeta

namespace ObjectIndex

/-- The version of the form in which an index is written. Any version is read. -/
def version : Nat := 1

/-- The entries of an index, of which a later one replaces an earlier one. -/
def entriesOfJson? : Json → Option ObjectIndex
  | .object members =>
    members.foldlM (fun t m => do some (t.insert (← m.1) (← ObjectMeta.ofJson? m.2))) .empty
  | _ => none

def ofJson? (j : Json) : Option ObjectIndex :=
  match j.fields? ["version", "entries"] with
  | some [version, entries] => do
    let _ ← Json.required (Json.word? 32) version
    Json.required entriesOfJson? entries
  | _ => none

def toJson (t : ObjectIndex) : Json :=
  .ofMembers [("version", .ofNat version), ("entries", .ofMembers (t.entries.map fun e => (e.1, e.2.toJson)))]

end ObjectIndex
end IdentityVault
