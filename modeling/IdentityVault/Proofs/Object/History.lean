import IdentityVault.Proofs.Object.Saving

/-! What the index says of the objects. A row tells what was given when the object was saved last under exactly this
    text, and the object is still what was saved then, unless a later request under another text has changed its file:
    several texts can lead to one file, and a file can have the name of an unfinished version. -/

namespace IdentityVault

variable {α : Type} {dir : FilePath} {w w' : FileWorld} {b : Bytes}

/-- Requests that yield nothing save or remove an object. -/
theorem ObjectRequest.eq_save_or_remove (r : ObjectRequest Unit) :
    (∃ mime body, r = .save mime body) ∨ r = .remove := by
  suffices h : ∀ {α : Type} (r : ObjectRequest α) (hα : α = Unit),
      (∃ mime body, hα ▸ r = .save mime body) ∨ hα ▸ r = .remove from h r rfl
  intro α r hα
  cases r with
  | get =>
    have hone : Subsingleton Bytes := hα ▸ inferInstance
    exact absurd (hone.elim [] [0]) (by simp)
  | save mime body => exact .inl ⟨mime, body, rfl⟩
  | remove => exact .inr rfl

namespace ObjectStore
variable {s t : ObjectStore} {path other : String} {mime : MimeType} {body : Bytes}

/-! ### Where there is no index -/

/-- There is no file of an index. -/
def Unindexed (dir : FilePath) (w : FileWorld) : Prop := ∀ b, w.tree.get? ((indexFile dir).target w.base) ≠ some (.file b)

/-- A store that is opened where there is no index is empty. -/
theorem load_of_unindexed (h : Unindexed dir w) (hload : (load dir).run.outcome w = (.ok s, w')) :
    s = ⟨dir, .empty⟩ ∧ Unindexed dir w' := by
  obtain ⟨_, v, hmake, hload⟩ := FileAction.outcome_bind_eq_ok hload
  have hsame := FileAction.sameFiles_makeDirectories (objects dir) w
  have hbase := (FileAction.makeDirectories (objects dir)).run.base_outcome w
  rw [hmake] at hsame hbase
  have hv : Unindexed dir v := by
    intro b hb
    rw [hbase] at hb
    exact h b ((hsame _ b).mp hb)
  rw [FileAction.outcome_bind_of_ok _ (FileAction.outcome_isPresent _ v)] at hload
  split at hload
  · obtain ⟨text, u, htext, -⟩ := FileAction.outcome_bind_eq_ok hload
    obtain ⟨b, x, hread, -⟩ := FileAction.outcome_bind_eq_ok htext
    rw [FileAction.outcome_attempt_eq_ok, FileEffect.outcome_read, Prod.mk.injEq] at hread
    exact absurd (FileTree.get?_of_read hread.1) (hv b)
  · cases hload
    exact ⟨rfl, hv⟩

theorem Unindexed.of_inside {p : Program FileEffect α} (h : Unindexed dir w) (hopened : Opened dir w)
    (hp : Asks dir (Inside dir) p) : Unindexed dir (p.outcome w).2 := by
  intro b
  rw [p.base_outcome, get?_of_inside hp hopened]
  · exact h b
  · rw [target_indexFile, List.prefix_append_right_inj]
    decide

/-! ### Rows -/

/-- A removal that succeeds removes the file of the object first, and writes the index if there is a row less. -/
theorem removed_of_remove (h : (s.remove path).outcome w = ((.ok (), t), w')) :
    ∃ v, (s.removeObject path).run.outcome w = (.ok (), v) ∧
      (s.metadata path = none ∧ t = s ∧ w' = v ∨
        s.metadata path ≠ none ∧ t = { s with index := s.index.erase path }) := by
  rw [remove, Program.bind_eq, Program.outcome_bind] at h
  cases hremove : (s.removeObject path).run.outcome w with
  | mk r v =>
    rw [hremove] at h
    cases r with
    | error e => cases h
    | ok _ =>
      refine ⟨v, rfl, ?_⟩
      simp only at h
      split at h
      · next hnone =>
        cases h
        exact .inl ⟨Option.isNone_iff_eq_none.mp hnone, rfl, rfl⟩
      · next hsome =>
        simp only [Program.bind_eq, Program.pure_eq] at h
        exact .inr ⟨fun hnone => hsome (by rw [hnone]; rfl), (Program.outcome_bind_done_eq.mp h).2.symm⟩

/-- A request that succeeds concerns only the row of its own text. -/
theorem metadata_of_ne {r : ObjectRequest Unit} (h : (r.perform s path).outcome w = ((.ok (), t), w'))
    (hne : other ≠ path) : t.metadata other = s.metadata other := by
  obtain ⟨mime, body, rfl⟩ | rfl := r.eq_save_or_remove
  · obtain ⟨f, v, -, -, rfl, -⟩ := written_of_save h
    rw [metadata, Table.get?_insert, if_neg (Ne.symm hne), metadata]
  · obtain ⟨v, -, ⟨-, rfl, -⟩ | ⟨-, rfl⟩⟩ := removed_of_remove h
    · rfl
    · rw [metadata, Table.get?_erase, if_neg (Ne.symm hne), metadata]

theorem metadata_of_remove (h : (s.remove path).outcome w = ((.ok (), t), w')) : t.metadata path = none := by
  obtain ⟨v, -, ⟨hnone, rfl, -⟩ | ⟨-, rfl⟩⟩ := removed_of_remove h
  · exact hnone
  · rw [metadata, Table.get?_erase, if_pos rfl]

/-- An object whose file a request does not change is still there. -/
theorem get_of_not_changed {r : ObjectRequest α} {a : α} (hopened : Opened s.dir w)
    (h : (r.perform s path).outcome w = ((.ok a, t), w'))
    (hother : FilePath.way other.toList ∉ r.changes path.toList) (hget : ((s.get other).run.outcome w).1 = .ok b) :
    ((t.get other).run.outcome w').1 = .ok b := by
  have hdir := dir_outcome r s path w
  have hbase := (r.perform s path).base_outcome w
  have hopened' := hopened.of_outcome h
  obtain ⟨f, hf, hread⟩ := get_eq_ok.mp hget
  have hfile := (Program.file_outcome (b := b) (ObjectRequest.not_mem_rewritten hopened r hf hother)).mpr
    (FileTree.get?_of_read hread)
  rw [h] at hdir hbase hfile
  rw [Opened, hbase] at hopened'
  obtain ⟨rest, n, -, hbelow⟩ := below_file hf
  refine get_eq_ok.mpr ⟨f, by rw [file_eq, hdir, ← file_eq, hf], ?_⟩
  rw [hbase]
  exact FileTree.read_of_read hbelow hread hopened' (way_objects s.dir) hfile

/-! ### Runs -/

/-- A store is opened where there is no index; objects are saved and removed, each at its own time and all with success,
    unless no object can be at the path; and the store is opened again, in any order. The requests that were not refused
    are listed, the last one first. -/
inductive History (dir : FilePath) : List (String × ObjectRequest Unit) → ObjectStore → FileWorld → Prop
  | start {s : ObjectStore} {w w' : FileWorld} (h : Unindexed dir w)
    (hload : (load dir).run.outcome w = (.ok s, w')) : History dir [] s w'
  | perform {log : List (String × ObjectRequest Unit)} {s t : ObjectStore} {w w' : FileWorld} (h : History dir log s w)
    {now : Timestamp} (hnow : now.Valid) (path : String) (r : ObjectRequest Unit)
    (hok : (r.perform s path).outcome { w with now } = ((.ok (), t), w')) : History dir ((path, r) :: log) t w'
  | refused {log : List (String × ObjectRequest Unit)} {s : ObjectStore} {w : FileWorld} (h : History dir log s w)
    (path : String) (r : ObjectRequest Unit) (hpath : Refused path.toList) :
    History dir log ((r.perform s path).outcome w).1.2 ((r.perform s path).outcome w).2
  | reopen {log : List (String × ObjectRequest Unit)} {s t : ObjectStore} {w w' : FileWorld} (h : History dir log s w)
    (hload : (load dir).run.outcome w = (.ok t, w')) : History dir log t w'

variable {log : List (String × ObjectRequest Unit)} {m : ObjectMeta}

/-- A row says what was given by the last request under its text, which was a save; and the object is what was saved
    then, unless a later request has changed its file. -/
def Explains (log : List (String × ObjectRequest Unit)) (s : ObjectStore) (w : FileWorld) (path : String)
    (m : ObjectMeta) : Prop :=
  ∃ newer mime body older, log = newer ++ (path, .save mime body) :: older ∧ (∀ e ∈ newer, e.1 ≠ path) ∧
    m.mime = mime ∧ m.size = UInt64.ofNat body.length ∧
      ((∀ e ∈ newer, FilePath.way path.toList ∉ e.2.changes e.1.toList) → ((s.get path).run.outcome w).1 = .ok body)

/-- What is true after every step: the index is that of the file, and all its rows have an explanation. -/
structure Accounted (dir : FilePath) (log : List (String × ObjectRequest Unit)) (s : ObjectStore) (w : FileWorld) :
    Prop where
  dir_eq : s.dir = dir
  opened : Opened dir w
  index : s.index = .empty ∧ Unindexed dir w ∨ Kept s w
  rows : ∀ path m, s.metadata path = some m → Explains log s w path m

theorem Explains.of_request {r : ObjectRequest Unit} (h : Explains log s w other m) (hopened : Opened s.dir w)
    {now : Timestamp} (hok : (r.perform s path).outcome { w with now } = ((.ok (), t), w')) (hne : other ≠ path) :
    Explains ((path, r) :: log) t w' other m := by
  obtain ⟨newer, mime, body, older, rfl, hnewer, hmime, hsize, hget⟩ := h
  refine ⟨(path, r) :: newer, mime, body, older, rfl, ?_, hmime, hsize, fun hlast => ?_⟩
  · exact List.forall_mem_cons.mpr ⟨hne.symm, hnewer⟩
  · rw [List.forall_mem_cons] at hlast
    have hbefore := get_eq_ok.mp (hget hlast.2)
    exact get_of_not_changed (w := { w with now }) hopened hok hlast.1 (get_eq_ok.mpr hbefore)

/-- Removing from a store without objects writes no index. -/
theorem unindexed_of_remove (h : Unindexed s.dir w) (hindex : s.index = .empty) (hopened : Opened s.dir w)
    (hok : (s.remove path).outcome w = ((.ok (), t), w')) : t = s ∧ Unindexed s.dir w' := by
  obtain ⟨v, hremove, ⟨-, rfl, rfl⟩ | ⟨hsome, -⟩⟩ := removed_of_remove hok
  · refine ⟨rfl, ?_⟩
    cases hf : t.file path with
    | error e =>
      rw [removeObject, hf] at hremove
      cases hremove
    | ok f =>
      have hunindexed := h.of_inside hopened (inside_removeObject hf)
      rwa [hremove] at hunindexed
  · exact absurd (by rw [metadata, hindex, Table.get?_empty]) hsome

theorem Accounted.request (h : Accounted dir log s w) {now : Timestamp} (hnow : now.Valid) {r : ObjectRequest Unit}
    (hok : (r.perform s path).outcome { w with now } = ((.ok (), t), w')) :
    Accounted dir ((path, r) :: log) t w' := by
  obtain ⟨rfl, hopened, hindex, hrows⟩ := h
  have hdir := dir_outcome r s path { w with now }
  have hopened' : Opened s.dir w' := Opened.of_outcome (w := { w with now }) hopened hok
  rw [hok] at hdir
  have hdated : s.index.Dated := by
    rcases hindex with ⟨hempty, -⟩ | hkept
    · exact hempty ▸ ObjectIndex.dated_empty
    · exact hkept.dated
  refine ⟨hdir, hopened', ?_, fun other m hm => ?_⟩
  · obtain ⟨mime, body, rfl⟩ | rfl := r.eq_save_or_remove
    · exact .inr (kept_of_save hdated hnow hok)
    -- A removal writes the index only if there is a row to take out of it.
    rcases hindex with ⟨hempty, hunindexed⟩ | hkept
    · obtain ⟨rfl, hunindexed'⟩ := unindexed_of_remove (w := { w with now }) hunindexed hempty hopened hok
      exact .inl ⟨hempty, hunindexed'⟩
    · have hkept' := (hkept.at_time now).outcome hnow path .remove
      rw [hok] at hkept'
      exact .inr hkept'
  by_cases hne : other = path
  · subst hne
    obtain ⟨mime, body, rfl⟩ | rfl := r.eq_save_or_remove
    · obtain ⟨-, hrow, hget, -⟩ := save_eq_ok hdated hnow hok
      cases hm.symm.trans hrow
      exact ⟨[], mime, body, log, rfl, by simp, mime.parse_name, rfl, fun _ => by rw [hget]⟩
    · cases hm.symm.trans (metadata_of_remove hok)
  · rw [metadata_of_ne hok hne] at hm
    exact (hrows other m hm).of_request hopened hok hne

theorem Accounted.reopen (h : Accounted dir log s w) (hload : (load dir).run.outcome w = (.ok t, w')) :
    Accounted dir log t w' := by
  obtain ⟨hdir, hopened, ⟨-, hunindexed⟩ | hkept, hrows⟩ := h
  · obtain ⟨rfl, hunindexed'⟩ := load_of_unindexed hunindexed hload
    refine ⟨rfl, (load_eq_ok hload).2, .inl ⟨rfl, hunindexed'⟩, fun path m hm => ?_⟩
    cases (Table.get?_empty path).symm.trans hm
  · subst hdir
    cases hload.symm.trans hkept.load_eq
    exact ⟨rfl, hopened, .inr hkept, hrows⟩

theorem History.accounted (h : History dir log s w) : Accounted dir log s w := by
  induction h with
  | start h hload =>
    obtain ⟨rfl, hunindexed⟩ := load_of_unindexed h hload
    refine ⟨rfl, (load_eq_ok hload).2, .inl ⟨rfl, hunindexed⟩, fun path m hm => ?_⟩
    cases (Table.get?_empty path).symm.trans hm
  | perform _ hnow path r hok ih => exact ih.request hnow hok
  | refused _ path r hpath ih =>
    rw [ObjectRequest.perform_of_refused hpath]
    exact ih
  | reopen _ hload ih => exact ih.reopen hload

/-- A row of the index says what was given when the object was saved last under its text, since when there was no other
    request under this text; and the object can be read and is what was saved then, unless a later request under another
    text has changed its file. -/
theorem History.row_explained (h : History dir log s w) (hm : s.metadata path = some m) :
    ∃ newer mime body older, log = newer ++ (path, .save mime body) :: older ∧ (∀ e ∈ newer, e.1 ≠ path) ∧
      m.mime = mime ∧ m.size = UInt64.ofNat body.length ∧
      ((∀ e ∈ newer, FilePath.way path.toList ∉ e.2.changes e.1.toList) →
        ((s.get path).run.outcome w).1 = .ok body) :=
  h.accounted.rows path m hm

theorem history_new : History "store".toList [] ⟨"store".toList, .empty⟩
    ((load "store".toList).run.outcome (.new [] (.ofSeed []) ⟨0, 0⟩)).2 := by
  have hnone : (FileWorld.new [] (.ofSeed []) ⟨0, 0⟩).tree.get? ((indexFile "store".toList).target []) = none := by
    decide +kernel
  exact .start (w := .new [] (.ofSeed []) ⟨0, 0⟩) (fun b hb => by cases hnone.symm.trans hb)
    (Prod.ext (by decide +kernel) rfl)

/-- After another object was saved in the same directory. -/
theorem History.row_explained_of_another : ∃ log s w m, History "store".toList log s w ∧ s.metadata "a/b" = some m ∧
    m.mime = .json ∧ m.size = 2 ∧ ((s.get "a/b").run.outcome w).1 = .ok [2, 3] := by
  have hnow : Timestamp.Valid ⟨1000000000, 5⟩ := by decide +kernel
  have hfirst := history_new.perform hnow "a/b" (.save .json [2, 3]) (Prod.ext (Prod.ext (by decide +kernel) rfl) rfl)
  have hsecond := hfirst.perform hnow "a/c" (.save .pem [4]) (Prod.ext (Prod.ext (by decide +kernel) rfl) rfl)
  refine ⟨_, _, _, ⟨"application/json", 2, ⟨1000000000, 5⟩⟩, hsecond, by decide +kernel, ?_⟩
  obtain ⟨newer, mime, body, older, hlog, -, hmime, hsize, hget⟩ :=
    hsecond.row_explained (show ObjectStore.metadata _ "a/b" = some ⟨"application/json", 2, ⟨1000000000, 5⟩⟩ by
      decide +kernel)
  match newer, hlog with
  | [], hlog => simp at hlog
  | [e], hlog =>
    simp only [List.singleton_append, List.cons.injEq, Prod.mk.injEq, ObjectRequest.save.injEq] at hlog
    obtain ⟨rfl, ⟨-, rfl, rfl⟩, rfl⟩ := hlog
    exact ⟨hmime, hsize, hget (by decide +kernel)⟩
  | e :: e' :: newer, hlog => simp at hlog

/-- A row can outlive its object: the file was removed under another text that leads to it. -/
theorem History.row_without_object : ∃ log s w, History "store".toList log s w ∧ s.metadata "a//b" ≠ none ∧
    ((s.get "a//b").run.outcome w).1 = .error .notFound := by
  have hnow : Timestamp.Valid ⟨1000000000, 5⟩ := by decide +kernel
  have hsaved := history_new.perform hnow "a//b" (.save .pem [1]) (Prod.ext (Prod.ext (by decide +kernel) rfl) rfl)
  have hremoved := hsaved.perform hnow "a/b" .remove (Prod.ext (Prod.ext (by decide +kernel) rfl) rfl)
  exact ⟨_, _, _, hremoved, by decide +kernel, by decide +kernel⟩

end ObjectStore
end IdentityVault
