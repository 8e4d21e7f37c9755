import IdentityVault.Object.Store
import IdentityVault.Proofs.File.Below
import Mathlib.Data.List.Induction

/-! What requests to a store of objects ask for. A path at which no object can be is refused before anything is asked.
    For all other paths, the directory of objects is there, so that directories are only made below it. -/

namespace IdentityVault

variable {α β : Type} {dir p f : FilePath} {w : FileWorld}

/-- What is asked of a store about the object at a path. -/
inductive ObjectRequest : Type → Type 1 where
  | get : ObjectRequest Bytes
  | save (mime : MimeType) (body : Bytes) : ObjectRequest Unit
  | remove : ObjectRequest Unit

def ObjectRequest.perform (s : ObjectStore) (path : String) :
    ObjectRequest α → Program FileEffect (Outcome α × ObjectStore)
  | .get => (s.get path).run.bind fun r => .done (r, s)
  | .save mime body => s.save path mime body
  | .remove => s.remove path

namespace ObjectStore
variable {s : ObjectStore} {path : String}

/-! ### Paths of objects -/

/-- No object can be at such a path: it is empty, starts at the root or with a dot, or goes up. -/
def Refused (p : FilePath) : Prop :=
  p = [] ∨ p.isAbsolute ∨ (Text.split '/' p).head? = some ['.'] ∨ ['.', '.'] ∈ Text.split '/' p

instance : Decidable (Refused p) := inferInstanceAs (Decidable (_ ∨ _ ∨ _ ∨ _))

theorem all_isName (p : FilePath) : p.parts.all isName = true ↔
    p.isAbsolute = false ∧ (Text.split '/' p).head? ≠ some ['.'] ∧ ['.', '.'] ∉ p.way := by
  have hname (s : List Char) : isName (if s = ['.', '.'] then .up else .name s) = true ↔ s ≠ ['.', '.'] := by
    split <;> simp_all [isName]
  have hway : (p.way.map fun s => if s = ['.', '.'] then FilePath.Part.up else .name s).all isName = true ↔
      ['.', '.'] ∉ p.way := by
    rw [List.all_map, List.all_eq_true]
    refine ⟨fun h hm => (hname _).mp (h _ hm) rfl, fun h s hs => (hname s).mpr fun he => h (he ▸ hs)⟩
  rw [FilePath.parts, List.all_append, Bool.and_eq_true, ← FilePath.way, hway]
  cases p.isAbsolute with
  | true => simp [isName]
  | false => by_cases h : (Text.split '/' p).head? = some ['.'] <;> simp [isName, h]

theorem not_refused : ¬ Refused p ↔ p ≠ [] ∧ p.parts.all isName = true := by
  have hup : ['.', '.'] ∈ p.way ↔ ['.', '.'] ∈ Text.split '/' p := by simp [FilePath.way, FilePath.pieces]
  rw [all_isName, hup, Refused]
  simp

theorem way_ne_nil (h : ¬ Refused p) : p.way ≠ [] := by
  obtain ⟨hne, hall⟩ := not_refused.mp h
  obtain ⟨habsolute, hdot, -⟩ := (all_isName p).mp hall
  obtain ⟨c, r, rfl⟩ := List.exists_cons_of_ne_nil hne
  have hc : c ≠ '/' := by
    rintro rfl
    cases habsolute
  rw [Text.split, if_neg hc] at hdot
  rw [FilePath.way, FilePath.pieces, Text.split, if_neg hc]
  cases hs : Text.split '/' r with
  | nil => exact absurd hs (Text.split_ne_nil '/' r)
  | cons part parts =>
    rw [hs] at hdot
    simp_all

theorem file_eq (s : ObjectStore) (path : String) : s.file path =
    if Refused path.toList then .error (.malformed (.objectPath path))
    else .ok ((objects s.dir).join path.toList) := by
  rw [file]
  by_cases h : Refused path.toList
  · rw [if_pos h, if_neg fun hall => not_refused.mpr hall h]
  · rw [if_neg h, if_pos (not_refused.mp h)]

/-- The file of an object is below the directory of objects, under the pieces of its path. -/
theorem below_file (h : s.file path = .ok f) :
    ∃ rest n, FilePath.way path.toList = rest ++ [n] ∧ (objects s.dir).Below f (rest ++ [n]) := by
  rw [file_eq] at h
  split at h
  · cases h
  · next hvalid =>
    cases h
    obtain ⟨habsolute, -, hup⟩ := (all_isName _).mp (not_refused.mp hvalid).2
    obtain ⟨rest, n, hway⟩ := (List.eq_nil_or_concat _).resolve_left (way_ne_nil hvalid)
    rw [List.concat_eq_append] at hway
    exact ⟨rest, n, hway, hway ▸ .join habsolute hup⟩

/-! ### The directory of objects -/

theorem below_dir (dir : FilePath) : dir.Below (objects dir) ["objects".toList] :=
  .join (by decide) (by decide)

theorem below_indexFile (dir : FilePath) : dir.Below (indexFile dir) ["objects.json".toList] :=
  .join (by decide) (by decide)

/-- Nothing in the directory of objects is beside it. -/
theorem target_ne {rest : List (List Char)} {name : String} (h : (objects dir).Below f rest) (hne : name ≠ "objects")
    (base : List String) : f.target base ≠ dir.target base ++ [name] := by
  rw [h.target, (below_dir dir).target, List.append_assoc]
  simp [hne.symm]

theorem touched_write_indexFile {names : List String} {b : Bytes}
    (h : names ∈ (FileEffect.write (FileAction.unfinished (indexFile dir)) b).touched w) :
    names = dir.target w.base ++ ["objects.tmp"] := by
  have hbelow : dir.Below (indexFile dir) ([] ++ ["objects.json".toList]) := below_indexFile dir
  exact touched_write_unfinished hbelow h

theorem touched_rename_indexFile {names : List String}
    (h : names ∈ (FileEffect.rename (FileAction.unfinished (indexFile dir)) (indexFile dir)).touched w) :
    names = dir.target w.base ++ ["objects.tmp"] ∨ names = dir.target w.base ++ ["objects.json"] := by
  have hbelow : dir.Below (indexFile dir) ([] ++ ["objects.json".toList]) := below_indexFile dir
  exact touched_rename_unfinished hbelow h

theorem way_objects (dir : FilePath) : (objects dir).way ≠ [] := by
  rw [(below_dir dir).way]
  simp

/-- The directory of objects is there. -/
def Opened (dir : FilePath) (w : FileWorld) : Prop := w.tree.status w.base (objects dir) = .ok .directory

/-- It does not disappear. -/
theorem Opened.outcome {p : Program FileEffect α} (h : Opened dir w) : Opened dir (p.outcome w).2 := by
  rw [Opened, p.base_outcome]
  exact FileTree.status_of_retains (p.alters_outcome w).retains
    (fun he => way_objects dir (by rw [FilePath.way, he]; rfl)) h

theorem Opened.of_outcome {p : Program FileEffect α} {a : α} {w' : FileWorld} (h : Opened dir w)
    (he : p.outcome w = (a, w')) : Opened dir w' := by
  have hw' := h.outcome (p := p)
  rwa [he] at hw'

/-! ### What programs ask for -/

/-- Wherever the directory of objects is there, all that a program asks for has a property. -/
def Asks (dir : FilePath) (P : {β : Type} → FileEffect β → Prop) (p : Program FileEffect α) : Prop :=
  ∀ w, Opened dir w → ∀ step ∈ p.trace w, P step.effect

variable {P : {β : Type} → FileEffect β → Prop}

theorem asks_done (a : α) : Asks dir P (.done a : Program FileEffect α) :=
  fun _ _ _ hm => absurd hm List.not_mem_nil

theorem asks_bind {p : Program FileEffect β} {g : β → Program FileEffect α} (hp : Asks dir P p)
    (hg : ∀ w, Opened dir w → Asks dir P (g (p.outcome w).1)) : Asks dir P (p.bind g) := by
  intro w hw step hm
  rw [Program.trace_bind, List.mem_append] at hm
  rcases hm with hm | hm
  · exact hp w hw step hm
  · exact hg w hw _ hw.outcome step hm

theorem asks_perform {e : FileEffect α} (h : P e) : Asks dir P (Program.perform e) := by
  intro w _ step hm
  rwa [List.mem_singleton.mp hm]

section FileAction
variable {x : FileAction α} {g : α → FileAction β}

theorem asks_then (hx : Asks dir P x.run) (hg : ∀ a, Asks dir P (g a).run) : Asks dir P (x >>= g).run := by
  refine asks_bind hx fun w _ => ?_
  change Asks dir P (ExceptT.bindCont g (x.run.outcome w).1)
  cases (x.run.outcome w).1 with
  | ok a => exact hg a
  | error e => exact asks_done _

theorem asks_ask {e : FileEffect α} (h : P e) : Asks dir P (FileAction.ask e).run :=
  asks_bind (asks_perform h) fun _ _ => asks_done _

theorem asks_attempt {e : FileEffect (Except FileFault α)} (h : P e) : Asks dir P (FileAction.attempt e).run :=
  asks_bind (asks_perform h) fun _ _ => asks_done _

theorem asks_ask_then {e : FileEffect α} (h : P e)
    (hg : ∀ w, Opened dir w → Asks dir P (g (e.outcome w).1).run) : Asks dir P (FileAction.ask e >>= g).run :=
  asks_bind (asks_ask h) hg

theorem asks_ofOutcome_then {r : Outcome α} (hg : ∀ a, r = .ok a → Asks dir P (g a).run) :
    Asks dir P (FileAction.ofOutcome r >>= g).run := by
  cases r with
  | ok a => exact hg a rfl
  | error e => exact asks_done _

end FileAction

theorem asks_unlessDirectory (h : P (.status p)) (fault : FileFault) :
    Asks dir P (FileAction.unlessDirectory p fault).run := by
  refine asks_then (asks_ask h) fun kind => ?_
  split <;> exact asks_done _

theorem makeDirectory_ne_missing (h : (objects dir).Below p []) (hw : Opened dir w) :
    ((FileEffect.makeDirectory p).outcome w).1 ≠ .error .missing := by
  rw [FileEffect.outcome_makeDirectory]
  intro he
  have hplace := FileTree.locate_ne_missing h.isAbsolute (by simpa using h.way) (way_objects dir) hw
  cases hr : w.tree.makeDirectory w.base p with
  | ok t =>
    rw [hr] at he
    cases he
  | error fault =>
    rw [hr] at he
    cases he
    exact hplace (FileTree.locate_of_makeDirectory hr)

theorem asks_makeDirectories_nil : Asks dir P (FileAction.makeDirectories []).run := by
  rw [FileAction.makeDirectories, if_pos rfl]
  exact asks_done _

/-- Below the directory of objects, no directories are made but those that are below it too: it is there, so that none
    is missing that it lies in. -/
theorem asks_makeDirectories {rest : List (List Char)} (h : (objects dir).Below p rest)
    (hP : ∀ p rest, (objects dir).Below p rest → P (.makeDirectory p) ∧ P (.status p)) :
    Asks dir P (FileAction.makeDirectories p).run := by
  induction rest using List.reverseRecOn generalizing p with
  | nil =>
    rw [FileAction.makeDirectories]
    split
    · exact asks_done _
    refine asks_ask_then (hP p _ h).1 fun w hw => ?_
    have hne := makeDirectory_ne_missing h hw
    generalize ((FileEffect.makeDirectory p).outcome w).1 = r at hne
    split
    · exact asks_done _
    · exact absurd rfl hne
    · exact asks_unlessDirectory (hP p _ h).2 _
  | append_singleton rest n ih =>
    rw [FileAction.makeDirectories]
    split
    · exact asks_done _
    refine asks_ask_then (hP p _ h).1 fun w _ => ?_
    split
    · exact asks_done _
    · split
      · exact asks_done _
      next d hd =>
      refine asks_then ?_ fun _ => asks_then (asks_ask (hP p _ h).1) fun r => ?_
      · by_cases hnil : d = []
        · rw [hnil]
          exact asks_makeDirectories_nil
        · exact ih (h.parent? hd hnil)
      · split
        · exact asks_done _
        · exact asks_unlessDirectory (hP p _ h).2 _
    · exact asks_unlessDirectory (hP p _ h).2 _

theorem asks_makeParent {rest : List (List Char)} {n : List Char} (h : (objects dir).Below p (rest ++ [n]))
    (hP : ∀ p rest, (objects dir).Below p rest → P (.makeDirectory p) ∧ P (.status p)) :
    Asks dir P (FileAction.makeParent p).run := by
  rw [FileAction.makeParent]
  split
  · next d hd =>
    by_cases hnil : d = []
    · rw [hnil]
      exact asks_makeDirectories_nil
    · exact asks_makeDirectories (h.parent? hd hnil) hP
  · exact asks_done _

theorem asks_replace {b : Bytes} (hwrite : P (.write (FileAction.unfinished p) b))
    (hrename : P (.rename (FileAction.unfinished p) p)) : Asks dir P (FileAction.replace p b).run :=
  asks_then (asks_attempt hwrite) fun _ => asks_attempt hrename

/-! ### What is asked about files of objects -/

theorem asks_writeObject {b : Bytes} (hf : s.file path = .ok f)
    (hdirs : ∀ p rest, (objects s.dir).Below p rest → P (.makeDirectory p) ∧ P (.status p))
    (hwrite : P (.write (FileAction.unfinished f) b)) (hrename : P (.rename (FileAction.unfinished f) f))
    (htime : P .timestamp) : Asks s.dir P (s.writeObject path b).run := by
  refine asks_ofOutcome_then fun f' hf' => ?_
  cases hf.symm.trans hf'
  obtain ⟨rest, n, -, hbelow⟩ := below_file hf
  refine asks_then (asks_makeParent hbelow hdirs) fun _ => ?_
  exact asks_then (asks_replace hwrite hrename) fun _ => asks_ask htime

theorem asks_removeObject (hf : s.file path = .ok f) (hremove : P (.remove f)) :
    Asks s.dir P (s.removeObject path).run := by
  refine asks_ofOutcome_then fun f' hf' => ?_
  cases hf.symm.trans hf'
  refine asks_then (asks_ask hremove) fun r => ?_
  split <;> exact asks_done _

end ObjectStore

/-! ### What requests ask for -/

namespace ObjectRequest
variable {s : ObjectStore} {path : String}
open ObjectStore

/-- The effects that a request may ask for, about the object in the file `f` of the store in `dir`. -/
inductive MayAsk (dir f : FilePath) : {α β : Type} → ObjectRequest α → FileEffect β → Prop
  | read : MayAsk dir f .get (.read f)
  | makeDirectory {mime : MimeType} {body : Bytes} {p : FilePath} {rest : List (List Char)}
    (h : (objects dir).Below p rest) : MayAsk dir f (.save mime body) (.makeDirectory p)
  | status {mime : MimeType} {body : Bytes} {p : FilePath} {rest : List (List Char)}
    (h : (objects dir).Below p rest) : MayAsk dir f (.save mime body) (.status p)
  | write {mime : MimeType} {body : Bytes} : MayAsk dir f (.save mime body) (.write (FileAction.unfinished f) body)
  | rename {mime : MimeType} {body : Bytes} : MayAsk dir f (.save mime body) (.rename (FileAction.unfinished f) f)
  | timestamp {mime : MimeType} {body : Bytes} : MayAsk dir f (.save mime body) .timestamp
  | remove : MayAsk dir f .remove (.remove f)
  | writeIndex {r : ObjectRequest Unit} {b : Bytes} :
    MayAsk dir f r (.write (FileAction.unfinished (indexFile dir)) b)
  | renameIndex {r : ObjectRequest Unit} :
    MayAsk dir f r (.rename (FileAction.unfinished (indexFile dir)) (indexFile dir))

/-- A request about a path at which no object can be is refused at once. -/
theorem perform_of_refused (h : Refused path.toList) (r : ObjectRequest α) :
    r.perform s path = .done (.error (.malformed (.objectPath path)), s) := by
  have hfile : s.file path = .error (.malformed (.objectPath path)) := by rw [s.file_eq, if_pos h]
  cases r with
  | get =>
    rw [perform, ObjectStore.get, hfile]
    rfl
  | save =>
    rw [perform, ObjectStore.save, writeObject, hfile]
    rfl
  | remove =>
    rw [perform, ObjectStore.remove, removeObject, hfile]
    rfl

theorem asks_writeIndex (h : s.dir = dir) (r : ObjectRequest Unit) : Asks dir (MayAsk dir f r) s.writeIndex.run := by
  subst h
  exact asks_replace .writeIndex .renameIndex

theorem asks_get (hf : s.file path = .ok f) : Asks s.dir (MayAsk s.dir f .get) (s.get path).run := by
  refine asks_ofOutcome_then fun f' hf' => ?_
  cases hf.symm.trans hf'
  refine asks_then (asks_ask .read) fun r => ?_
  split <;> exact asks_done _

/-- All that a request asks for, where the directory of objects is there. -/
theorem asks_perform (hf : s.file path = .ok f) (r : ObjectRequest α) :
    Asks s.dir (MayAsk s.dir f r) (r.perform s path) := by
  cases r with
  | get => exact asks_bind (asks_get hf) fun _ _ => asks_done _
  | save mime body =>
    rw [perform, ObjectStore.save, Program.bind_eq]
    refine asks_bind (asks_writeObject hf (fun p rest h => ⟨.makeDirectory h, .status h⟩) .write .rename .timestamp)
      fun w _ => ?_
    split
    · exact asks_done _
    · exact asks_bind (asks_writeIndex (by rfl) _) fun _ _ => asks_done _
  | remove =>
    rw [perform, ObjectStore.remove, Program.bind_eq]
    refine asks_bind (asks_removeObject hf .remove) fun w _ => ?_
    split
    · exact asks_done _
    · split
      · exact asks_done _
      · exact asks_bind (asks_writeIndex (by rfl) _) fun _ _ => asks_done _

/-- All that happens in a request is what it may ask for, about the file of an object. -/
theorem mayAsk_of_mem_trace (h : Opened s.dir w) {r : ObjectRequest α} {step : FileStep}
    (hm : step ∈ (r.perform s path).trace w) : ∃ f, s.file path = .ok f ∧ MayAsk s.dir f r step.effect := by
  by_cases hrefused : Refused path.toList
  · rw [perform_of_refused hrefused] at hm
    cases hm
  · have hf : s.file path = .ok ((objects s.dir).join path.toList) := by rw [s.file_eq, if_neg hrefused]
    exact ⟨_, hf, asks_perform hf r w h step hm⟩

end ObjectRequest

/-! ### Stores that were opened -/

namespace ObjectStore
variable {s : ObjectStore}

/-- A store is opened, and requests are made, one after the other. -/
inductive Reached : ObjectStore → FileWorld → Prop
  | load {dir : FilePath} {s : ObjectStore} {w w' : FileWorld} (h : (load dir).run.outcome w = (.ok s, w')) :
    Reached s w'
  | perform {α : Type} {s : ObjectStore} {w : FileWorld} (h : Reached s w) (path : String) (r : ObjectRequest α) :
    Reached ((r.perform s path).outcome w).1.2 ((r.perform s path).outcome w).2

theorem load_eq_ok {w' : FileWorld} (h : (load dir).run.outcome w = (.ok s, w')) : s.dir = dir ∧ Opened dir w' := by
  obtain ⟨_, v, hmake, h⟩ := FileAction.outcome_bind_eq_ok h
  have hne : objects dir ≠ [] := fun he => way_objects dir (by rw [he]; rfl)
  have hopened : Opened dir v := FileAction.directory_of_makeDirectories hne hmake
  refine ⟨?_, hopened.of_outcome h⟩
  obtain ⟨b, u, -, h⟩ := FileAction.outcome_bind_eq_ok h
  split at h
  · obtain ⟨text, u', -, h⟩ := FileAction.outcome_bind_eq_ok h
    obtain ⟨index, u'', -, h⟩ := FileAction.outcome_bind_eq_ok h
    cases h
    rfl
  · cases h
    rfl

theorem dir_outcome (r : ObjectRequest α) (s : ObjectStore) (path : String) (w : FileWorld) :
    ((r.perform s path).outcome w).1.2.dir = s.dir := by
  cases r with
  | get => rw [ObjectRequest.perform, Program.outcome_bind_pair]
  | save mime body =>
    rw [ObjectRequest.perform, save, Program.bind_eq, Program.outcome_bind]
    split
    · rfl
    · simp only [Program.bind_eq, Program.pure_eq, Program.outcome_bind_pair]
  | remove =>
    rw [ObjectRequest.perform, remove, Program.bind_eq, Program.outcome_bind]
    split
    · rfl
    · split
      · rfl
      · simp only [Program.bind_eq, Program.pure_eq, Program.outcome_bind_pair]

/-- The directory of objects is there from the beginning. -/
theorem Reached.opened (h : Reached s w) : Opened s.dir w := by
  induction h with
  | load h =>
    obtain ⟨rfl, hopened⟩ := load_eq_ok h
    exact hopened
  | perform _ path r ih =>
    rw [dir_outcome]
    exact ih.outcome

end ObjectStore
end IdentityVault
