import IdentityVault.Proofs.File.Progress
import IdentityVault.Proofs.File.Replace
import IdentityVault.Proofs.Object.Frame
import IdentityVault.Proofs.Object.Index

/-! A store that is opened again is the one that was left: the file of the index always says what the index says. -/

namespace IdentityVault

variable {α : Type} {dir f : FilePath} {w w' : FileWorld} {names : List String} {b : Bytes}

namespace FileAction
variable {p : FilePath}

/-- A directory that is there is not made once more. -/
theorem makeDirectories_of_directory (hne : p ≠ []) (h : w.tree.status w.base p = .ok .directory) :
    (makeDirectories p).run.outcome w = (.ok (), w) := by
  obtain ⟨place, hplace, hentry, -⟩ := FileTree.locate_of_status h
  have hexists : w.tree.makeDirectory w.base p = .error .alreadyExists := by
    rw [FileTree.makeDirectory, hplace]
    simp only [bind, Except.bind, hentry]
    rfl
  have hmake : (FileEffect.makeDirectory p).outcome w = (.error .alreadyExists, w) := by
    rw [FileEffect.outcome_makeDirectory, hexists]
    rfl
  have hstatus : (FileEffect.status p).outcome w = (some .directory, w) :=
    Prod.ext (by rw [FileEffect.outcome_status, h]) rfl
  rw [makeDirectories, if_neg hne, outcome_ask_then, hmake]
  simp only
  rw [unlessDirectory, outcome_ask_then, hstatus, if_pos rfl]
  rfl

end FileAction

namespace ObjectStore
variable {s : ObjectStore} {path : String} {mime : MimeType} {body : Bytes}

/-! ### What the file of the index says -/

/-- What the file of the index says. If there is none, that counts as an empty index. -/
def recorded (dir : FilePath) (w : FileWorld) : Option ObjectIndex :=
  match w.tree.get? ((indexFile dir).target w.base) with
  | none => some .empty
  | some (.file b) => (Text.ofUtf8? b).bind fun text => (Json.parse? text).bind ObjectIndex.ofJson?
  | some .directory => none

/-- A store as it was opened or left: its index can be written, and is what its file says. -/
structure Kept (s : ObjectStore) (w : FileWorld) : Prop where
  opened : Opened s.dir w
  unfinished : w.tree.Writable w.base (FileAction.unfinished (indexFile s.dir))
  writable : w.tree.Writable w.base (indexFile s.dir)
  recorded : recorded s.dir w = some s.index
  dated : s.index.Dated

theorem objects_ne_nil (dir : FilePath) : objects dir ≠ [] :=
  fun he => way_objects dir (by rw [he]; rfl)

/-- An index that was written is what its file says. -/
theorem recorded_of_read (h : w.tree.read w.base (indexFile s.dir) = .ok (Text.utf8 s.index.toJson.pretty))
    (hdated : s.index.Dated) : recorded s.dir w = some s.index := by
  have hdecode := ObjectIndex.decode_pretty hdated
  rw [Json.decode] at hdecode
  rw [recorded, FileTree.get?_of_read h]
  simp only [Text.ofUtf8?_utf8, Option.bind_some]
  split at hdecode
  · next t ht =>
    cases hdecode
    exact ht
  · cases hdecode

/-- Where the directory of objects is there, and no other one in the place of the index, opening a store finds what the
    file of the index says, and changes nothing. -/
theorem load_iff_recorded {index : ObjectIndex} (hopened : Opened dir w)
    (hwritable : w.tree.Writable w.base (indexFile dir)) :
    (load dir).run.outcome w = (.ok ⟨dir, index⟩, w) ↔ recorded dir w = some index := by
  have hmake := FileAction.makeDirectories_of_directory (objects_ne_nil dir) hopened
  have hstatus := FileEffect.outcome_status w (indexFile dir)
  rw [hwritable.status] at hstatus
  rw [load, FileAction.outcome_bind_of_ok _ hmake, recorded]
  cases hfile : w.tree.get? ((indexFile dir).target w.base) with
  | none =>
    rw [hfile] at hstatus
    have habsent : (FileAction.isPresent (indexFile dir)).run.outcome w = (.ok false, w) := by
      rw [FileAction.outcome_isPresent, hstatus]
      rfl
    rw [FileAction.outcome_bind_of_ok _ habsent]
    constructor <;> intro h <;> cases h <;> rfl
  | some e =>
    cases e with
    | directory => exact absurd hfile hwritable.get?_ne
    | file b =>
      rw [hfile] at hstatus
      have hpresent : (FileAction.isPresent (indexFile dir)).run.outcome w = (.ok true, w) := by
        rw [FileAction.outcome_isPresent, hstatus]
        rfl
      have hcontent : (FileAction.attempt (.read (indexFile dir))).run.outcome w = (.ok b, w) := by
        rw [FileAction.outcome_attempt_eq_ok, FileEffect.outcome_read, hwritable.read hfile]
      rw [FileAction.outcome_bind_of_ok _ hpresent, if_pos rfl]
      change _ ↔ ((Text.ofUtf8? b).bind fun text => (Json.parse? text).bind ObjectIndex.ofJson?) = some index
      cases htext : Text.ofUtf8? b with
      | none =>
        have hread : (FileAction.readText (indexFile dir)).run.outcome w = (.error FileFault.notText.failure, w) := by
          rw [FileAction.readText, FileAction.outcome_bind_of_ok _ hcontent, htext]
          rfl
        rw [FileAction.outcome_bind_of_error _ hread]
        constructor <;> intro h <;> cases h
      | some text =>
        have hread : (FileAction.readText (indexFile dir)).run.outcome w = (.ok text, w) := by
          rw [FileAction.readText, FileAction.outcome_bind_of_ok _ hcontent, htext]
          rfl
        rw [FileAction.outcome_bind_of_ok _ hread, Json.decode, Option.bind_some]
        cases (Json.parse? text).bind ObjectIndex.ofJson? <;> constructor <;> intro h <;> cases h <;> rfl

/-- Opening a store again finds it as it was left. -/
theorem Kept.load_eq (h : Kept s w) : (load s.dir).run.outcome w = (.ok s, w) :=
  (load_iff_recorded h.opened h.writable).mpr h.recorded

/-! ### What keeps a store -/

/-- Writing the index makes its file say what it says. -/
theorem kept_of_writeIndex (hopened : Opened s.dir w) (hdated : s.index.Dated)
    (h : s.writeIndex.run.outcome w = (.ok (), w')) : Kept s w' := by
  have hreplaced := FileAction.replaced_of_replace h
  have hbase := hreplaced.base
  refine ⟨hopened.of_outcome h, ?_, ?_, ?_, hdated⟩
  · rw [hbase]
    exact hreplaced.unfinished
  · rw [hbase]
    exact FileTree.writable_of_read hreplaced.read
  · exact recorded_of_read (by rw [hbase]; exact hreplaced.read) hdated

/-- A store keeps another index once that one is written, which it can be. -/
theorem Kept.reindex {index : ObjectIndex} (h : Kept s w) (hdated : index.Dated) :
    let t : ObjectStore := { s with index }
    Kept ((t.writeIndex.run.bind fun r => .done (r, t)).outcome w).1.2
      ((t.writeIndex.run.bind fun r => .done (r, t)).outcome w).2 := by
  intro t
  obtain ⟨v, hv, -⟩ := FileAction.replace_of_writable h.unfinished h.writable (Text.utf8 index.toJson.pretty)
  have hwrite : t.writeIndex.run.outcome w = (.ok (), v) := hv
  rw [Program.outcome_bind, hwrite]
  exact kept_of_writeIndex (s := t) h.opened hdated hwrite

/-- The names of the index and of its unfinished version. -/
theorem target_indexFile (dir : FilePath) (base : List String) :
    (indexFile dir).target base = dir.target base ++ ["objects.json"] := (below_indexFile dir).target base

theorem target_unfinished_indexFile {t : FileTree} {base : List String}
    (h : t.Writable base (FileAction.unfinished (indexFile dir))) :
    (FileAction.unfinished (indexFile dir)).target base = dir.target base ++ ["objects.tmp"] := by
  have hbelow : dir.Below (indexFile dir) ([] ++ ["objects.json".toList]) := below_indexFile dir
  exact hbelow.target_unfinished h

/-- An effect that touches only what is in the directory of objects. -/
def Inside {β : Type} (dir : FilePath) (e : FileEffect β) : Prop :=
  ∀ (w : FileWorld), ∀ names ∈ e.touched w, dir.target w.base ++ ["objects"] <+: names

/-- A program that stays in the directory of objects leaves all else as it is. -/
theorem get?_of_inside {p : Program FileEffect α} (hp : Asks dir (Inside dir) p) (hw : Opened dir w)
    (hn : ¬ dir.target w.base ++ ["objects"] <+: names) : (p.outcome w).2.tree.get? names = w.tree.get? names := by
  refine (p.alters_outcome w).elsewhere names fun hm => hn ?_
  obtain ⟨step, hstep, hm⟩ := List.mem_flatMap.mp hm
  rw [← Program.base_of_mem_trace hstep]
  exact hp w hw step hstep step.before names hm

theorem Kept.of_inside {p : Program FileEffect α} (h : Kept s w) (hp : Asks s.dir (Inside s.dir) p) :
    Kept s (p.outcome w).2 := by
  have hbase := p.base_outcome w
  have hretains := (p.alters_outcome w).retains
  -- Both places of the index are beside the directory of objects, not in it.
  have hindex : (p.outcome w).2.tree.get? ((indexFile s.dir).target w.base) =
      w.tree.get? ((indexFile s.dir).target w.base) := by
    refine get?_of_inside hp h.opened ?_
    rw [target_indexFile, List.prefix_append_right_inj]
    decide
  have hunfinished : (p.outcome w).2.tree.get? ((FileAction.unfinished (indexFile s.dir)).target w.base) =
      w.tree.get? ((FileAction.unfinished (indexFile s.dir)).target w.base) := by
    refine get?_of_inside hp h.opened ?_
    rw [target_unfinished_indexFile h.unfinished, List.prefix_append_right_inj]
    decide
  refine ⟨h.opened.outcome, ?_, ?_, ?_, h.dated⟩
  · rw [hbase]
    exact h.unfinished.of_retains hretains (hunfinished ▸ h.unfinished.get?_ne)
  · rw [hbase]
    exact h.writable.of_retains hretains (hindex ▸ h.writable.get?_ne)
  · rw [ObjectStore.recorded, hbase, hindex]
    exact h.recorded

theorem inside_of_touched_target {β : Type} {e : FileEffect β} {p : FilePath} {rest : List (List Char)}
    (h : (objects dir).Below p rest) (he : ∀ w, ∀ names ∈ e.touched w, names = p.target w.base) : Inside dir e := by
  intro w names hn
  rw [he w names hn, h.target, (below_dir dir).target]
  exact List.prefix_append _ _

theorem inside_writeObject (hf : s.file path = .ok f) (b : Bytes) :
    Asks s.dir (Inside s.dir) (s.writeObject path b).run := by
  obtain ⟨rest, n, -, hbelow⟩ := below_file hf
  have hobjects (w : FileWorld) (below : List String) :
      s.dir.target w.base ++ ["objects"] <+: (objects s.dir).target w.base ++ below := by
    rw [(below_dir s.dir).target]
    exact List.prefix_append _ _
  refine asks_writeObject hf (fun p rest h => ⟨?_, ?_⟩) ?_ ?_ ?_
  · exact inside_of_touched_target h fun w names hn => FileWorld.eq_target_of_mem_places hn
  · exact inside_of_touched_target h fun w names hn => FileWorld.eq_target_of_mem_places hn
  · intro w names hn
    rw [touched_write_unfinished hbelow hn]
    exact hobjects w _
  · intro w names hn
    rcases touched_rename_unfinished hbelow hn with hn | hn <;> rw [hn] <;> exact hobjects w _
  · exact fun w names hn => absurd hn List.not_mem_nil

theorem inside_removeObject (hf : s.file path = .ok f) : Asks s.dir (Inside s.dir) (s.removeObject path).run := by
  obtain ⟨rest, n, -, hbelow⟩ := below_file hf
  exact asks_removeObject hf (inside_of_touched_target hbelow fun w names hn => FileWorld.eq_target_of_mem_places hn)

/-! ### Requests -/

theorem outcome_get (s : ObjectStore) (path : String) (w : FileWorld) : ((s.get path).run.outcome w).2 = w := by
  rw [get]
  cases s.file path with
  | error e => rfl
  | ok f =>
    change ((FileAction.ask (.read f) >>= _).run.outcome w).2 = w
    rw [FileAction.outcome_ask_then, FileEffect.outcome_read]
    simp only
    split <;> rfl

/-- An object that was written is in its file, and the time is that of the clock. -/
theorem writeObject_eq_ok {now : Timestamp} (h : (s.writeObject path b).run.outcome w = (.ok now, w')) :
    now = w.now ∧ ∃ f, s.file path = .ok f ∧ w'.tree.read w'.base f = .ok b := by
  obtain ⟨f, u, hf, h⟩ := FileAction.outcome_bind_eq_ok h
  obtain ⟨_, v, hparent, h⟩ := FileAction.outcome_bind_eq_ok h
  obtain ⟨_, x, hreplace, htime⟩ := FileAction.outcome_bind_eq_ok h
  have hu : s.file path = .ok f ∧ u = w := by
    cases hfile : s.file path with
    | error e =>
      rw [hfile] at hf
      cases hf
    | ok f' =>
      rw [hfile] at hf
      cases hf
      exact ⟨rfl, rfl⟩
  obtain ⟨hfile, rfl⟩ := hu
  have hv := FileAction.sameTime_makeParent f u
  have hx := FileAction.sameTime_replace f b v
  rw [hparent] at hv
  rw [hreplace] at hx
  have hreplaced := FileAction.replaced_of_replace hreplace
  cases htime
  refine ⟨hx.trans hv, f, hfile, ?_⟩
  change x.tree.read x.base f = _
  rw [hreplaced.base]
  exact hreplaced.read

/-- With an index that can be written, a request leaves a store whose file says what the index says, whether it
    succeeds or not. -/
theorem Kept.outcome (h : Kept s w) (hnow : w.now.Valid) (path : String) (r : ObjectRequest α) :
    Kept ((r.perform s path).outcome w).1.2 ((r.perform s path).outcome w).2 := by
  by_cases hrefused : Refused path.toList
  · rw [ObjectRequest.perform_of_refused hrefused]
    exact h
  have hf : s.file path = .ok ((objects s.dir).join path.toList) := by rw [s.file_eq, if_neg hrefused]
  cases r with
  | get =>
    rw [ObjectRequest.perform, Program.outcome_bind, Program.outcome_done, outcome_get]
    exact h
  | save mime body =>
    have hinside := h.of_inside (inside_writeObject hf body)
    rw [ObjectRequest.perform, save, Program.bind_eq, Program.outcome_bind]
    cases hwrite : (s.writeObject path body).run.outcome w with
    | mk r v =>
      rw [hwrite] at hinside
      -- A save that fails does so before its row is made, so that memory and file are as they were.
      cases r with
      | error e => exact hinside
      | ok now =>
        obtain ⟨rfl, -⟩ := writeObject_eq_ok hwrite
        exact hinside.reindex (h.dated.insert path hnow)
  | remove =>
    have hinside := h.of_inside (inside_removeObject hf)
    rw [ObjectRequest.perform, remove, Program.bind_eq, Program.outcome_bind]
    cases hremove : (s.removeObject path).run.outcome w with
    | mk r v =>
      rw [hremove] at hinside
      cases r with
      | error e => exact hinside
      | ok _ =>
        simp only
        split
        · exact hinside
        · exact hinside.reindex (h.dated.erase path)

/-! ### Opening -/

/-- What follows the making of the directory only reads. -/
theorem exists_load_eq (dir : FilePath) : ∃ x : FileAction ObjectStore,
    load dir = (do FileAction.makeDirectories (objects dir); x) ∧ FileAction.Advances (· = ·) x := by
  refine ⟨_, rfl, ?_⟩
  refine FileAction.advances_then (FileAction.advances_isPresent _) fun present => ?_
  split
  · refine FileAction.advances_then (FileAction.advances_readText _) fun text => ?_
    exact FileAction.advances_then (FileAction.advances_done _) fun index => FileAction.advances_done _
  · exact FileAction.advances_done _

/-- A store that has just been opened can be opened again. -/
theorem load_of_load (h : (load dir).run.outcome w = (.ok s, w')) : (load dir).run.outcome w' = (.ok s, w') := by
  have hopened := (load_eq_ok h).2
  obtain ⟨x, hx, hreads⟩ := exists_load_eq dir
  rw [hx] at h ⊢
  obtain ⟨_, v, -, hrest⟩ := FileAction.outcome_bind_eq_ok h
  have hv := hreads v
  rw [hrest] at hv
  cases hv
  rwa [FileAction.outcome_bind_of_ok _ (FileAction.makeDirectories_of_directory (objects_ne_nil dir) hopened)]

/-- Whatever index is found, it is dated. -/
theorem dated_of_load (h : (load dir).run.outcome w = (.ok s, w')) : s.index.Dated := by
  obtain ⟨_, v, -, h⟩ := FileAction.outcome_bind_eq_ok h
  obtain ⟨present, u, -, h⟩ := FileAction.outcome_bind_eq_ok h
  split at h
  · obtain ⟨text, x, -, h⟩ := FileAction.outcome_bind_eq_ok h
    obtain ⟨index, y, hindex, h⟩ := FileAction.outcome_bind_eq_ok h
    cases h
    have hdecode : Json.decode ObjectIndex.ofJson? text = .ok index := congrArg Prod.fst hindex
    rw [Json.decode] at hdecode
    split at hdecode
    · next t ht =>
      cases hdecode
      obtain ⟨_, -, ht⟩ := Option.bind_eq_some_iff.mp ht
      exact ObjectIndex.dated_of_ofJson? ht
    · cases hdecode
  · cases h
    exact ObjectIndex.dated_empty

/-- A store that was opened has the index that its file says. -/
theorem kept_of_load (h : (load dir).run.outcome w = (.ok s, w')) (hwrite : (s.writeIndex.run.outcome w').1 = .ok ()) :
    Kept s w' := by
  obtain ⟨rfl, hopened⟩ := load_eq_ok h
  obtain ⟨hunfinished, hwritable⟩ := FileAction.writable_of_replace (Prod.ext hwrite rfl)
  exact ⟨hopened, hunfinished, hwritable, (load_iff_recorded hopened hwritable).mp (load_of_load h), dated_of_load h⟩

/-! ### Runs -/

/-- A store is opened, in an empty directory or in one with an index, and its index can be written; objects are saved
    and removed, each at its own time, and the store is opened again, in any order. -/
inductive Used (dir : FilePath) : ObjectStore → FileWorld → Prop
  | start {s : ObjectStore} {w w' : FileWorld} (h : (load dir).run.outcome w = (.ok s, w'))
    (hwrite : (s.writeIndex.run.outcome w').1 = .ok ()) : Used dir s w'
  | perform {s : ObjectStore} {w : FileWorld} (h : Used dir s w) {now : Timestamp} (hnow : now.Valid) (path : String)
    (r : ObjectRequest Unit) :
    Used dir ((r.perform s path).outcome { w with now }).1.2 ((r.perform s path).outcome { w with now }).2
  | reopen {s t : ObjectStore} {w w' : FileWorld} (h : Used dir s w)
    (hload : (load dir).run.outcome w = (.ok t, w')) : Used dir t w'

theorem Kept.at_time (h : Kept s w) (now : Timestamp) : Kept s { w with now } :=
  ⟨h.opened, h.unfinished, h.writable, h.recorded, h.dated⟩

theorem Used.kept (h : Used dir s w) : s.dir = dir ∧ Kept s w := by
  induction h with
  | start h hwrite => exact ⟨(load_eq_ok h).1, kept_of_load h hwrite⟩
  | @perform s w h now hnow path r ih =>
    refine ⟨(dir_outcome r s path _).trans ih.1, ?_⟩
    exact (ih.2.at_time now).outcome hnow path r
  | reopen h hload ih =>
    obtain ⟨rfl, hkept⟩ := ih
    cases hload.symm.trans hkept.load_eq
    exact ⟨rfl, hkept⟩

/-- After every step, a store that is opened again has the same index and yields the same objects as the one that is
    running, and nothing is changed by opening it: the file of the index says exactly what the index says. -/
theorem Used.reopened (h : Used dir s w) :
    (∃ t, (load dir).run.outcome w = (.ok t, w) ∧ (∀ path, t.metadata path = s.metadata path) ∧
      ∀ path, (t.get path).run.outcome w = (s.get path).run.outcome w) ∧
    ObjectStore.recorded dir w = some s.index := by
  obtain ⟨rfl, hkept⟩ := h.kept
  exact ⟨⟨s, hkept.load_eq, fun _ => rfl, fun _ => rfl⟩, hkept.recorded⟩

/-- A run in which one object is saved, and another one cannot be saved below it. -/
theorem Used.reopened_of_requests : ∃ (s : ObjectStore) (w : FileWorld), Used "store".toList s w ∧ s.metadata "a" ≠ none ∧
    (∃ t, (load "store".toList).run.outcome w = (.ok t, w) ∧ (∀ path, t.metadata path = s.metadata path) ∧
      ∀ path, (t.get path).run.outcome w = (s.get path).run.outcome w) ∧
    ObjectStore.recorded "store".toList w = some s.index := by
  have hload : (load "store".toList).run.outcome (.new [] (.ofSeed []) ⟨0, 0⟩) =
      (.ok ⟨"store".toList, .empty⟩, ((load "store".toList).run.outcome (.new [] (.ofSeed []) ⟨0, 0⟩)).2) :=
    Prod.ext (by decide +kernel) rfl
  have hstart := Used.start (w := .new [] (.ofSeed []) ⟨0, 0⟩) hload (by decide +kernel)
  have hfirst : Timestamp.Valid ⟨1000000000, 5⟩ := by decide +kernel
  have hsecond : Timestamp.Valid ⟨1000000001, 0⟩ := by decide +kernel
  have hsaved := hstart.perform hfirst "a" (.save .pem [1, 2])
  have hfailed := hsaved.perform hsecond "a/b" (.save .pem [3])
  exact ⟨_, _, hfailed, by decide +kernel, hfailed.reopened⟩

end ObjectStore
end IdentityVault
