import IdentityVault.Account.Json
import IdentityVault.Store.Database

/-! Settings, and their JSON form. What a form leaves out keeps its standard value. -/

namespace IdentityVault

structure RsaSettings where
  /-- The size of new keys that are not told otherwise. -/
  defaultBits : UInt64
  deriving DecidableEq, Repr

namespace RsaSettings

def standard : RsaSettings := ⟨2048⟩

end RsaSettings

structure DatabaseSettings where
  maxConns : UInt64
  /-- How long a scope may live; zero stands for no limit. -/
  scopeTimeoutSecs : UInt64
  deriving DecidableEq, Repr

namespace DatabaseSettings

def standard : DatabaseSettings := ⟨UInt64.ofNat Database.standardCapacity, 30⟩

/-- The limit for the life of a scope. -/
def scopeTimeoutSeconds? (s : DatabaseSettings) : Option Nat :=
  if s.scopeTimeoutSecs = 0 then none else some s.scopeTimeoutSecs.toNat

end DatabaseSettings

structure KeySettings where
  /-- The directory of stored keys, unless it is the usual one. -/
  dir : Option String
  /-- Keys are sealed before they are stored. -/
  sealed : Bool
  deriving DecidableEq, Repr

namespace KeySettings

def standard : KeySettings := ⟨none, false⟩

end KeySettings

structure Settings where
  version : UInt32
  hasher : HashSettings
  rsa : RsaSettings
  database : DatabaseSettings
  keys : KeySettings
  deriving DecidableEq, Repr

namespace Settings

def standard : Settings := ⟨1, .standard, .standard, .standard, .standard⟩

end Settings

/-! ### JSON -/

def Json.word64? (j : Json) : Option UInt64 := (j.word? 64).map UInt64.ofNat

namespace RsaSettings

def ofJson? (j : Json) : Option RsaSettings :=
  match j.fields? ["defaultBits"] with
  | some [bits] => do some ⟨← Json.optional standard.defaultBits Json.word64? bits⟩
  | _ => none

def toJson (s : RsaSettings) : Json := .ofMembers [("defaultBits", .ofNat s.defaultBits.toNat)]

end RsaSettings

namespace DatabaseSettings

def ofJson? (j : Json) : Option DatabaseSettings :=
  match j.fields? ["maxConns", "scopeTimeoutSecs"] with
  | some [conns, timeout] => do
    some ⟨← Json.optional standard.maxConns Json.word64? conns,
      ← Json.optional standard.scopeTimeoutSecs Json.word64? timeout⟩
  | _ => none

def toJson (s : DatabaseSettings) : Json :=
  .ofMembers [("maxConns", .ofNat s.maxConns.toNat), ("scopeTimeoutSecs", .ofNat s.scopeTimeoutSecs.toNat)]

end DatabaseSettings

namespace KeySettings

def dirOfJson? : Json → Option (Option String)
  | .null => some none
  | j => j.text?.map some

def ofJson? (j : Json) : Option KeySettings :=
  match j.fields? ["dir", "sealed"] with
  | some [dir, isSealed] => do
    some ⟨← Json.optional standard.dir dirOfJson? dir, ← Json.optional standard.sealed Json.bool? isSealed⟩
  | _ => none

def toJson (s : KeySettings) : Json :=
  .ofMembers [("dir", match s.dir with | some d => .ofString d | none => .null), ("sealed", .bool s.sealed)]

end KeySettings

namespace Settings

def ofJson? (j : Json) : Option Settings :=
  match j.fields? ["version", "hasher", "rsa", "database", "keys"] with
  | some [version, hasher, rsa, database, keys] => do
    some ⟨← Json.optional standard.version HashSettings.word32? version,
      ← Json.optional standard.hasher HashSettings.ofJson? hasher,
      ← Json.optional standard.rsa RsaSettings.ofJson? rsa,
      ← Json.optional standard.database DatabaseSettings.ofJson? database,
      ← Json.optional standard.keys KeySettings.ofJson? keys⟩
  | _ => none

def toJson (s : Settings) : Json :=
  .ofMembers [("version", .ofNat s.version.toNat), ("hasher", s.hasher.toJson), ("rsa", s.rsa.toJson),
    ("database", s.database.toJson), ("keys", s.keys.toJson)]

end Settings
end IdentityVault
