import IdentityVault.Directory
import IdentityVault.Settings.Basic
import IdentityVault.World.Sources

/-! A directory of accounts over a fresh database, as settings describe it. -/

namespace IdentityVault

namespace DatabaseSettings

/-- The limit for the life of a scope, on the clock. -/
def scopeTimeout? (s : DatabaseSettings) : Option Duration := s.scopeTimeoutSeconds?.map (· * 1000)

def scopes (s : DatabaseSettings) : ScopeManager := ⟨s.scopeTimeout?⟩

def open? (s : DatabaseSettings) : Except Crash Database :=
  if s.maxConns.toNat ≤ Database.mostCapacity then .ok (.new s.maxConns.toNat) else .error .poolTooLarge

end DatabaseSettings

namespace Directory

/-- A directory over a fresh database, with the world that the database is in. -/
def inMemory (s : Settings) : Except Crash (World × Directory) := do
  pure (.new (← s.database.open?), ⟨s.database.scopes⟩)

end Directory

namespace Surroundings

/-- Random ids and hashes at the costs of the settings; both come from seeds. -/
def inMemory (s : Settings) (ids salts : Bytes) (start : Timestamp) : Surroundings :=
  calm (Id.random ids) start (.ofSettings s.hasher salts)

end Surroundings
end IdentityVault
