import IdentityVault.File.Effect
import IdentityVault.Settings.Basic

/-! Settings in a file. Where the file is missing, the standard settings hold. -/

namespace IdentityVault

namespace Settings

def load (path : FilePath) : FileAction Settings := do
  if ← FileAction.isPresent path then
    let text ← FileAction.readText path
    FileAction.ofOutcome (Json.decode ofJson? text)
  else pure standard

def save (s : Settings) (path : FilePath) : FileAction Unit := do
  FileAction.makeParent path
  FileAction.replace path (Text.utf8 s.toJson.pretty)

end Settings

/-- Settings that belong to a file. -/
structure SettingsFile where
  path : FilePath
  settings : Settings
  deriving DecidableEq, Repr

namespace SettingsFile

def load (path : FilePath) : FileAction SettingsFile := do pure ⟨path, ← Settings.load path⟩

/-- The path of the settings file in a directory. -/
def pathIn (dir : FilePath) : FilePath := dir.join "settings.json".toList

def save (f : SettingsFile) : FileAction Unit := f.settings.save f.path

/-- Goes back to the standard settings, and removes the file. -/
def reset (f : SettingsFile) : Program FileEffect (Outcome Unit × SettingsFile) := do
  let removal : FileAction Unit := do
    if ← FileAction.isPresent f.path then FileAction.attempt (.remove f.path)
  pure (← removal.run, { f with settings := .standard })

end SettingsFile
end IdentityVault
