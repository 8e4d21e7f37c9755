import IdentityVault.Proofs.Account.Json
import IdentityVault.Proofs.File.Replace
import IdentityVault.Settings.File

/-! Settings in a file: what was saved is found again with all its values, and the standard settings where nothing was
    saved since the last reset. -/

namespace IdentityVault

/-! ### The JSON form -/

namespace HashSettings

theorem word32?_ofNat (n : UInt32) : word32? (.ofNat n.toNat) = some n := by
  rw [word32?, Json.word?_ofNat n.toNat_lt, Option.map_some, UInt32.ofNat_toNat]

theorem ofJson?_toJson (s : HashSettings) : ofJson? s.toJson = some s := by
  have hfields : s.toJson.fields? ["cost", "memoryCost", "parallelism"] =
      some [some (.ofNat s.cost.toNat), some (.ofNat s.memoryCost.toNat), some (.ofNat s.parallelism.toNat)] := by
    simp [toJson, Json.ofMembers, Json.fields?]
  rw [ofJson?, hfields]
  simp [Json.optional, word32?_ofNat]

theorem plain_toJson (s : HashSettings) : Json.Plain s.toJson := by
  refine .ofMembers fun m hm => ?_
  simp only [List.mem_cons, List.not_mem_nil, or_false] at hm
  rcases hm with rfl | rfl | rfl <;> exact .ofNat _

end HashSettings

theorem Json.word64?_ofNat (n : UInt64) : Json.word64? (.ofNat n.toNat) = some n := by
  rw [Json.word64?, Json.word?_ofNat n.toNat_lt, Option.map_some, UInt64.ofNat_toNat]

namespace RsaSettings

theorem ofJson?_toJson (s : RsaSettings) : ofJson? s.toJson = some s := by
  have hfields : s.toJson.fields? ["defaultBits"] = some [some (.ofNat s.defaultBits.toNat)] := by
    simp [toJson, Json.ofMembers, Json.fields?]
  rw [ofJson?, hfields]
  simp [Json.optional, Json.word64?_ofNat]

theorem plain_toJson (s : RsaSettings) : Json.Plain s.toJson := by
  refine .ofMembers fun m hm => ?_
  simp only [List.mem_singleton] at hm
  rw [hm]
  exact .ofNat _

end RsaSettings

namespace DatabaseSettings

theorem ofJson?_toJson (s : DatabaseSettings) : ofJson? s.toJson = some s := by
  have hfields : s.toJson.fields? ["maxConns", "scopeTimeoutSecs"] =
      some [some (.ofNat s.maxConns.toNat), some (.ofNat s.scopeTimeoutSecs.toNat)] := by
    simp [toJson, Json.ofMembers, Json.fields?]
  rw [ofJson?, hfields]
  simp [Json.optional, Json.word64?_ofNat]

theorem plain_toJson (s : DatabaseSettings) : Json.Plain s.toJson := by
  refine .ofMembers fun m hm => ?_
  simp only [List.mem_cons, List.not_mem_nil, or_false] at hm
  rcases hm with rfl | rfl <;> exact .ofNat _

end DatabaseSettings

namespace KeySettings

theorem ofJson?_toJson (s : KeySettings) : ofJson? s.toJson = some s := by
  obtain ⟨_ | d, isSealed⟩ := s <;>
    simp [ofJson?, toJson, Json.ofMembers, Json.fields?, Json.optional, dirOfJson?, Json.ofString, Json.text?,
      Json.bool?]

theorem plain_toJson (s : KeySettings) : Json.Plain s.toJson := by
  refine .ofMembers fun m hm => ?_
  simp only [List.mem_cons, List.not_mem_nil, or_false] at hm
  rcases hm with rfl | rfl
  · cases s.dir with
    | none => exact .null
    | some d => exact .string _
  · exact .bool _

end KeySettings

namespace Settings

theorem ofJson?_toJson (s : Settings) : ofJson? s.toJson = some s := by
  have hfields : s.toJson.fields? ["version", "hasher", "rsa", "database", "keys"] =
      some [some (.ofNat s.version.toNat), some s.hasher.toJson, some s.rsa.toJson, some s.database.toJson,
        some s.keys.toJson] := by
    simp [toJson, Json.ofMembers, Json.fields?]
  rw [ofJson?, hfields]
  simp [Json.optional, HashSettings.word32?_ofNat, s.hasher.ofJson?_toJson, s.rsa.ofJson?_toJson,
    s.database.ofJson?_toJson, s.keys.ofJson?_toJson]

theorem plain_toJson (s : Settings) : Json.Plain s.toJson := by
  refine .ofMembers fun m hm => ?_
  simp only [List.mem_cons, List.not_mem_nil, or_false] at hm
  rcases hm with rfl | rfl | rfl | rfl | rfl
  · exact .ofNat _
  · exact s.hasher.plain_toJson
  · exact s.rsa.plain_toJson
  · exact s.database.plain_toJson
  · exact s.keys.plain_toJson

theorem decode_pretty (s : Settings) : Json.decode ofJson? s.toJson.pretty = .ok s :=
  Json.decode_render s.plain_toJson s.ofJson?_toJson (some 0)

/-! ### Loading -/

variable {path : FilePath} {w w' : FileWorld} {text : String}

/-- Where there is nothing, the standard settings hold. -/
theorem load_of_absent (h : ((FileEffect.status path).outcome w).1 = none) :
    (load path).run.outcome w = (.ok standard, w) := by
  have habsent : (FileAction.isPresent path).run.outcome w = (.ok false, w) := by
    rw [FileAction.outcome_isPresent, h]
    rfl
  rw [load, FileAction.outcome_bind_of_ok _ habsent]
  rfl

/-- What is in a file decides what is loaded from it. -/
theorem load_of_read (h : w.tree.read w.base path = .ok (Text.utf8 text)) :
    (load path).run.outcome w = (Json.decode ofJson? text, w) := by
  have hstatus : ((FileEffect.status path).outcome w).1 = some .file := by
    obtain ⟨e, hs, he⟩ := FileTree.bind_eq_ok.mp h
    cases e with
    | directory => cases he
    | file b => rw [FileEffect.outcome_status, hs]
  have hpresent : (FileAction.isPresent path).run.outcome w = (.ok true, w) := by
    rw [FileAction.outcome_isPresent, hstatus]
    rfl
  have hcontent : (FileAction.attempt (.read path)).run.outcome w = (.ok (Text.utf8 text), w) := by
    rw [FileAction.outcome_attempt_eq_ok, FileEffect.outcome_read, h]
  have htext : (FileAction.readText path).run.outcome w = (.ok text, w) := by
    rw [FileAction.readText, FileAction.outcome_bind_of_ok _ hcontent, Text.ofUtf8?_utf8]
    rfl
  rw [load, FileAction.outcome_bind_of_ok _ hpresent, if_pos rfl, FileAction.outcome_bind_of_ok _ htext]
  rfl

/-- Settings that were saved are in the file. -/
theorem read_saved {s : Settings} (h : (s.save path).run.outcome w = (.ok (), w')) :
    w'.tree.read w'.base path = .ok (Text.utf8 s.toJson.pretty) := by
  obtain ⟨_, v, -, hreplace⟩ := FileAction.outcome_bind_eq_ok h
  have hreplaced := FileAction.replaced_of_replace hreplace
  rw [hreplaced.base]
  exact hreplaced.read

end Settings

/-! ### Sessions -/

namespace SettingsFile
variable {path : FilePath} {f : SettingsFile} {w w' : FileWorld} {saved : Option Settings}

/-- What the file at a path holds: the settings that were saved last, or nothing. -/
def Holds (path : FilePath) (w : FileWorld) : Option Settings → Prop
  | none => ((FileEffect.status path).outcome w).1 = none
  | some s => w.tree.read w.base path = .ok (Text.utf8 s.toJson.pretty)

theorem Holds.load_eq (h : Holds path w saved) :
    (load path).run.outcome w = (.ok ⟨path, saved.getD .standard⟩, w) := by
  have hsettings : (Settings.load path).run.outcome w = (.ok (saved.getD .standard), w) := by
    cases saved with
    | none => exact Settings.load_of_absent h
    | some s => rw [Settings.load_of_read h, s.decode_pretty, Option.getD_some]
  rw [load, FileAction.outcome_bind_of_ok _ hsettings]
  rfl

theorem Holds.of_status (h : Holds path w saved)
    (hstatus : w'.tree.status w'.base path = w.tree.status w.base path) : Holds path w' saved := by
  cases saved with
  | none =>
    rw [Holds, FileEffect.outcome_status] at h ⊢
    rw [hstatus, h]
  | some s =>
    rw [Holds, FileTree.read] at h ⊢
    rw [hstatus, h]

/-- A file that was removed is gone. -/
theorem absent_of_remove (h : (FileEffect.remove path).outcome w = (.ok (), w')) :
    ((FileEffect.status path).outcome w').1 = none := by
  rw [FileEffect.outcome_remove] at h
  obtain ⟨t, hremove, rfl⟩ := FileAction.changed_eq_ok.mp h
  obtain ⟨place, b, hplace, hfile, ht⟩ := FileTree.remove_eq_ok hremove
  obtain ⟨_, hread, -⟩ := FileTree.bind_eq_ok.mp hremove
  obtain ⟨_, hplace', halters⟩ := FileTree.alters_remove hremove
  have hof := FileTree.locate_eq_ok hplace
  have hgone : t.get? (path.target w.base) = none := by
    rw [ht, ← hof.names]
    refine FileTree.get?_erase_self fun hnil => ?_
    rw [hof.entry, hnil] at hfile
    cases hfile
  have hwritable : t.Writable w.base path :=
    (FileTree.writable_of_read hread).of_retains halters.retains (by rw [hgone]; simp)
  rw [FileEffect.outcome_status, hwritable.status, hgone]

/-- A reset that succeeds leaves no file. -/
theorem absent_of_reset {g : SettingsFile} (h : f.reset.outcome w = ((.ok (), g), w')) :
    ((FileEffect.status f.path).outcome w').1 = none ∧ g.path = f.path := by
  obtain ⟨hremoval, rfl⟩ := Program.outcome_bind_done_eq.mp h
  refine ⟨?_, rfl⟩
  obtain ⟨present, v, hpresent, hremove⟩ := FileAction.outcome_bind_eq_ok hremoval
  rw [FileAction.outcome_isPresent] at hpresent
  cases hpresent
  cases hstatus : ((FileEffect.status f.path).outcome w).1 with
  | none =>
    rw [hstatus] at hremove
    cases hremove
    exact hstatus
  | some kind =>
    rw [hstatus] at hremove
    exact absent_of_remove (FileAction.outcome_attempt_eq_ok.mp hremove)

/-- Settings are opened at a path where there is no file; they are edited, saved, reset and opened again, in any order,
    and nothing else touches the file. `saved` are the ones that were saved last, if any were since the last reset. -/
inductive Used (path : FilePath) : (saved : Option Settings) → SettingsFile → FileWorld → Prop
  | start {f : SettingsFile} {w w' : FileWorld} (h : ((FileEffect.status path).outcome w).1 = none)
    (hload : (load path).run.outcome w = (.ok f, w')) : Used path none f w'
  | edit {saved : Option Settings} {f : SettingsFile} {w : FileWorld} (h : Used path saved f w) (settings : Settings) :
    Used path saved { f with settings } w
  | save {saved : Option Settings} {f : SettingsFile} {w w' : FileWorld} (h : Used path saved f w)
    (hsave : f.save.run.outcome w = (.ok (), w')) : Used path (some f.settings) f w'
  | reset {saved : Option Settings} {f g : SettingsFile} {w w' : FileWorld} (h : Used path saved f w)
    (hreset : f.reset.outcome w = ((.ok (), g), w')) : Used path none g w'
  | reopen {saved : Option Settings} {f g : SettingsFile} {w w' : FileWorld} (h : Used path saved f w)
    (hload : (load path).run.outcome w = (.ok g, w')) : Used path saved g w'
  | elsewhere {saved : Option Settings} {f : SettingsFile} {w w' : FileWorld} (h : Used path saved f w)
    (hstatus : w'.tree.status w'.base path = w.tree.status w.base path) : Used path saved f w'

theorem Used.holds (h : Used path saved f w) : f.path = path ∧ Holds path w saved := by
  induction h with
  | start h hload =>
    have hnone : Holds path _ none := h
    cases hload.symm.trans hnone.load_eq
    exact ⟨rfl, h⟩
  | edit _ settings ih => exact ih
  | save _ hsave ih =>
    obtain ⟨rfl, -⟩ := ih
    exact ⟨rfl, Settings.read_saved hsave⟩
  | reset _ hreset ih =>
    obtain ⟨rfl, -⟩ := ih
    obtain ⟨habsent, hpath⟩ := absent_of_reset hreset
    exact ⟨hpath, habsent⟩
  | reopen _ hload ih =>
    cases hload.symm.trans ih.2.load_eq
    exact ⟨rfl, ih.2⟩
  | elsewhere _ hstatus ih => exact ⟨ih.1, ih.2.of_status hstatus⟩

/-- Settings that are opened again are the ones that were saved last, and the standard ones where none were saved since
    the last reset. Opening them changes nothing. -/
theorem Used.reopened_as_saved (h : Used path saved f w) :
    (load path).run.outcome w = (.ok ⟨path, saved.getD .standard⟩, w) := h.holds.2.load_eq

/-- Settings with the greatest numbers and a directory of keys, which are saved and then edited again. -/
theorem Used.reopened_as_saved_of_edits :
    let path := "settings/a.json".toList
    let s : Settings :=
      ⟨0xffffffff, ⟨0, 0xffffffff, 1⟩, ⟨0xffffffffffffffff⟩, ⟨0xffffffffffffffff, 0⟩, ⟨some "\"ä\"\n", true⟩⟩
    ∃ f w, Used path (some s) f w ∧ f.settings = .standard ∧ (load path).run.outcome w = (.ok ⟨path, s⟩, w) := by
  intro path s
  have hnone : Holds path (.new [] (.ofSeed []) ⟨0, 0⟩) none := by
    rw [Holds]
    decide +kernel
  have hstart := Used.start hnone hnone.load_eq
  have hsaved := (hstart.edit s).save (Prod.ext (by decide +kernel) rfl)
  have hedited := hsaved.edit .standard
  exact ⟨_, _, hedited, rfl, hedited.reopened_as_saved⟩

end SettingsFile
end IdentityVault
