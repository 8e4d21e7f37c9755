import IdentityVault.Proofs.Object.Requests

/-! What a request does not change: an object at another path can be read as before, unless it is where the request puts
    the unfinished version of the object that it saves. -/

namespace IdentityVault

variable {α β : Type} {dir f : FilePath} {w : FileWorld} {names : List String} {b : Bytes}

theorem FileTree.get?_of_read {t : FileTree} {base : List String} {p : FilePath} (h : t.read base p = .ok b) :
    t.get? (p.target base) = some (.file b) := by
  obtain ⟨place, hplace, hentry, -⟩ := read_eq_ok h
  have hof := locate_eq_ok hplace
  rw [← hof.names, ← hof.entry, hentry]

namespace ObjectStore
variable {s : ObjectStore} {path : String}

theorem get_eq_ok : ((s.get path).run.outcome w).1 = .ok b ↔
    ∃ f, s.file path = .ok f ∧ w.tree.read w.base f = .ok b := by
  rw [get]
  cases hf : s.file path with
  | error e =>
    refine ⟨fun h => ?_, fun h => ?_⟩
    · cases h
    · obtain ⟨_, hok, -⟩ := h
      cases hok
  | ok f =>
    change ((FileAction.ask (.read f) >>= _).run.outcome w).1 = _ ↔ _
    rw [FileAction.outcome_ask_then, FileEffect.outcome_read]
    simp only [Except.ok.injEq, exists_eq_left']
    split <;> simp_all

end ObjectStore

namespace ObjectRequest
open ObjectStore

/-- The ways below the directory of objects on which a request changes files: that of the object, and that of its
    unfinished version. -/
def changes (p : FilePath) : ObjectRequest α → List (List (List Char))
  | .get => []
  | .save _ _ => [p.way.dropLast ++ [FilePath.scratch p.lastPiece], p.way]
  | .remove => [p.way]

theorem MayAsk.changes {p : FilePath} {rest : List (List Char)} {n : List Char} {r : ObjectRequest α}
    {e : FileEffect β} (h : MayAsk dir f r e) (hway : p.way = rest ++ [n]) (hf : (objects dir).Below f (rest ++ [n]))
    (hn : names ∈ e.rewritten w) :
    (∃ way ∈ r.changes p, names = (objects dir).target w.base ++ way.map String.ofList) ∨
      names = dir.target w.base ++ ["objects.json"] ∨ names = dir.target w.base ++ ["objects.tmp"] := by
  have hsave {mime : MimeType} {body : Bytes} :
      (save mime body).changes p = [rest ++ [FilePath.scratch n], rest ++ [n]] := by
    rw [ObjectRequest.changes, FilePath.lastPiece_of_way hway, hway, List.dropLast_concat]
  have htouched := FileEffect.touched_of_rewritten hn
  cases h with
  | read | makeDirectory | status | timestamp => cases hn
  | write =>
    rw [hsave]
    exact .inl ⟨_, List.mem_cons_self, touched_write_unfinished hf htouched⟩
  | rename =>
    rw [hsave]
    rcases touched_rename_unfinished hf htouched with hn | hn
    · exact .inl ⟨_, List.mem_cons_self, hn⟩
    · exact .inl ⟨_, List.mem_cons_of_mem _ (List.mem_singleton_self _), hn⟩
  | remove =>
    refine .inl ⟨_, List.mem_singleton_self _, ?_⟩
    rw [FileWorld.eq_target_of_mem_places hn, hf.target, hway]
  | writeIndex => exact .inr (.inr (touched_write_indexFile htouched))
  | renameIndex => exact .inr (touched_rename_indexFile htouched).symm

variable {s : ObjectStore} {path other : String}

/-- The file of an object is changed only by requests about it, and where it has the name of an unfinished version. -/
theorem not_mem_rewritten (h : Opened s.dir w) (r : ObjectRequest α) (hf : s.file other = .ok f)
    (hother : FilePath.way other.toList ∉ r.changes path.toList) :
    ∀ step ∈ (r.perform s path).trace w, f.target w.base ∉ step.rewritten := by
  intro step hm hn
  obtain ⟨file, hfile, hasks⟩ := mayAsk_of_mem_trace h hm
  obtain ⟨rest, n, hway, hbelow⟩ := below_file hfile
  obtain ⟨rest', n', hway', hbelow'⟩ := below_file hf
  have hchanges := hasks.changes hway hbelow hn
  rw [Program.base_of_mem_trace hm] at hchanges
  rcases hchanges with ⟨way, hmem, hnames⟩ | hnames | hnames
  · rw [hbelow'.target, List.append_cancel_left_eq] at hnames
    have heq := (List.map_inj_right fun _ _ he => String.ofList_injective he).mp hnames
    exact hother (hway' ▸ heq ▸ hmem)
  · exact target_ne hbelow' (by decide) w.base hnames
  · exact target_ne hbelow' (by decide) w.base hnames

/-- What can be read at another path, and what is read there, is the same after a request, unless it is at the name of
    the unfinished version of an object that the request saves. -/
theorem get_outcome (h : Opened s.dir w) (r : ObjectRequest α)
    (hother : FilePath.way other.toList ∉ r.changes path.toList) (b : Bytes) :
    ((((r.perform s path).outcome w).1.2.get other).run.outcome ((r.perform s path).outcome w).2).1 = .ok b ↔
      ((s.get other).run.outcome w).1 = .ok b := by
  have hopened := h.outcome (p := r.perform s path)
  have hdir := dir_outcome r s path w
  have hsame : ((r.perform s path).outcome w).1.2.file other = s.file other := by
    rw [file_eq, file_eq, hdir]
  rw [get_eq_ok, get_eq_ok, hsame, Program.base_outcome]
  refine exists_congr fun f => and_congr_right fun hf => ?_
  obtain ⟨rest, n, -, hbelow⟩ := below_file hf
  have hfile := Program.file_outcome (b := b) (not_mem_rewritten h r hf hother)
  rw [Opened, Program.base_outcome] at hopened
  exact ⟨fun hr => FileTree.read_of_read hbelow hr h (way_objects s.dir) (hfile.mp (FileTree.get?_of_read hr)),
    fun hr => FileTree.read_of_read hbelow hr hopened (way_objects s.dir) (hfile.mpr (FileTree.get?_of_read hr))⟩

theorem reached_new : Reached ⟨"store".toList, .empty⟩
    ((load "store".toList).run.outcome (.new [] (.ofSeed []) ⟨0, 0⟩)).2 :=
  .load (w := .new [] (.ofSeed []) ⟨0, 0⟩) (Prod.ext (by decide +kernel) rfl)

theorem get_outcome_of_save : ∃ s w, Opened s.dir w ∧
    FilePath.way "b.pem".toList ∉ (save .pem [2]).changes "a.pem".toList ∧
    (((((save .pem [2]).perform s "a.pem").outcome w).1.2.get "b.pem").run.outcome
      (((save .pem [2]).perform s "a.pem").outcome w).2).1 = .ok [1] := by
  have hreached := reached_new.perform "b.pem" (save .pem [1])
  have hother : FilePath.way "b.pem".toList ∉ (save .pem [2]).changes "a.pem".toList := by decide +kernel
  exact ⟨_, _, hreached.opened, hother, (get_outcome hreached.opened _ hother [1]).mpr (by decide +kernel)⟩

/-- An object is lost when another one is saved whose unfinished version has its name. -/
theorem lost_where_unfinished : ∃ s w, Reached s w ∧ FilePath.way "a.tmp".toList ≠ FilePath.way "a.pem".toList ∧
    ((s.get "a.tmp").run.outcome w).1 = .ok [1] ∧ (((save .pem [2]).perform s "a.pem").outcome w).1.1 = .ok () ∧
    (((((save .pem [2]).perform s "a.pem").outcome w).1.2.get "a.tmp").run.outcome
      (((save .pem [2]).perform s "a.pem").outcome w).2).1 = .error .notFound :=
  ⟨_, _, reached_new.perform "a.tmp" (save .pem [1]), by decide +kernel, by decide +kernel, by decide +kernel,
    by decide +kernel⟩

end ObjectRequest
end IdentityVault
