import IdentityVault.Proofs.File.Faults
import IdentityVault.Proofs.Object.Reopening

/-! What a save leaves. An object that was saved is there. A save that fails where the index can be written does so before
    it changes the index, and no object is lost or changed by it, unless it is where the unfinished version of the saved
    one is written. That version stays behind, so that an object can appear there which nobody has saved. -/

namespace IdentityVault

variable {dir f : FilePath} {w w' : FileWorld} {names : List String} {b b' : Bytes} {e : Failure}

theorem FilePath.isPrefix_join {p q : FilePath} (hp : p ≠ []) (hq : q.isAbsolute = false) : p <+: p.join q := by
  have hnil : p.isEmpty = false := by simpa using hp
  rw [join, hq, hnil, if_neg (by decide)]
  split <;> exact List.prefix_append _ _

/-- The way of the unfinished version of a file. -/
def FilePath.unfinishedWay (p : FilePath) : List (List Char) := p.way.dropLast ++ [scratch p.lastPiece]

/-- Each file is as it was, or it is the one under the given names and was written with the content `b`. -/
def FileWorld.WritesAtMost (names : List String) (b : Bytes) (w w' : FileWorld) : Prop :=
  ∀ others, (∀ b', w'.tree.get? others = some (.file b') ↔ w.tree.get? others = some (.file b')) ∨
    others = names ∧ w'.tree.get? others = some (.file b)

theorem FileWorld.WritesAtMost.lasting (h : WritesAtMost names b w w') (hretains : w.tree.Retains w'.tree) :
    w.tree.Lasting w'.tree := by
  refine ⟨hretains, fun others b' hb => ?_⟩
  rcases h others with hsame | ⟨-, hb⟩
  · exact ⟨b', (hsame b').mpr hb⟩
  · exact ⟨b, hb⟩

namespace ObjectStore
variable {s t : ObjectStore} {path other : String} {mime : MimeType} {body : Bytes}

/-! ### Where objects are -/

/-- The names under which the file on a way below the directory of objects is found. -/
def namesOn (dir : FilePath) (base : List String) (way : List (List Char)) : List String :=
  (objects dir).target base ++ way.map String.ofList

theorem namesOn_inj {dir : FilePath} {base : List String} {way way' : List (List Char)} :
    namesOn dir base way = namesOn dir base way' ↔ way = way' := by
  rw [namesOn, namesOn, List.append_cancel_left_eq]
  exact List.map_inj_right fun _ _ he => String.ofList_injective he

theorem target_file (hf : s.file path = .ok f) (base : List String) :
    f.target base = namesOn s.dir base (FilePath.way path.toList) := by
  obtain ⟨rest, n, hway, hbelow⟩ := below_file hf
  rw [hbelow.target, hway, namesOn]

theorem target_unfinished_file (hf : s.file path = .ok f) {t : FileTree} {base : List String}
    (hw : t.Writable base (FileAction.unfinished f)) :
    (FileAction.unfinished f).target base = namesOn s.dir base (FilePath.unfinishedWay path.toList) := by
  obtain ⟨rest, n, hway, hbelow⟩ := below_file hf
  rw [hbelow.target_unfinished hw, FilePath.unfinishedWay, FilePath.lastPiece_of_way hway, hway, List.dropLast_concat,
    namesOn]

/-- What one gets of an object is what is read of its file. -/
theorem outcome_get_of_file (hf : s.file path = .ok f) (w : FileWorld) : ((s.get path).run.outcome w).1 =
    match w.tree.read w.base f with
    | .ok b => .ok b
    | .error .missing => .error .notFound
    | .error fault => .error fault.failure := by
  have hfile : (FileAction.ofOutcome (s.file path)).run.outcome w = (.ok f, w) := by rw [hf]; rfl
  rw [get, FileAction.outcome_bind_of_ok _ hfile, FileAction.outcome_ask_then, FileEffect.outcome_read]
  simp only
  split <;> simp_all

/-! ### Objects that were saved -/

/-- Where a file of an object can be read, the directory of objects is there. -/
theorem opened_of_read (hf : s.file path = .ok f) (h : w.tree.read w.base f = .ok b) : Opened s.dir w := by
  obtain ⟨rest, n, -, hbelow⟩ := below_file hf
  obtain ⟨place, hplace, hentry, -⟩ := FileTree.read_eq_ok h
  have hbegin : objects s.dir <+: f := by
    rw [file_eq] at hf
    split at hf
    · cases hf
    · next hvalid =>
      cases hf
      exact FilePath.isPrefix_join (objects_ne_nil s.dir) ((all_isName _).mp (not_refused.mp hvalid).2).1
  exact FileTree.status_of_below hbelow hbegin (way_objects s.dir) hplace (by simp [hentry])

/-- The index is not in the directory of objects, so that writing it leaves the objects as they are. -/
theorem read_of_writeIndex (hf : s.file path = .ok f) (h : w.tree.read w.base f = .ok b) (ht : t.dir = s.dir)
    (hwrite : t.writeIndex.run.outcome w = (.ok (), w')) : w'.tree.read w'.base f = .ok b := by
  have hreplaced := FileAction.replaced_of_replace hwrite
  have hunfinished := target_unfinished_indexFile (FileAction.writable_of_replace hwrite).1
  obtain ⟨rest, n, -, hbelow⟩ := below_file hf
  rw [hreplaced.base]
  refine FileTree.read_of_retains h hreplaced.alters.retains ?_
  rw [hreplaced.alters.elsewhere, FileTree.get?_of_read h]
  rw [hunfinished, target_indexFile, ht]
  simp only [List.mem_cons, List.not_mem_nil, or_false, not_or]
  exact ⟨target_ne hbelow (by decide) w.base, target_ne hbelow (by decide) w.base⟩

/-- A save that succeeds writes the file of the object, and then the index with the new row. -/
theorem written_of_save (h : (s.save path mime body).outcome w = ((.ok (), t), w')) : ∃ f v, s.file path = .ok f ∧
    v.tree.read v.base f = .ok body ∧
      t = { s with index := s.index.insert path ⟨mime.name, UInt64.ofNat body.length, w.now⟩ } ∧
      t.writeIndex.run.outcome v = (.ok (), w') := by
  rw [save, Program.bind_eq, Program.outcome_bind] at h
  cases hwrite : (s.writeObject path body).run.outcome w with
  | mk r v =>
    rw [hwrite] at h
    cases r with
    | error e => cases h
    | ok now =>
      obtain ⟨rfl, f, hf, hread⟩ := writeObject_eq_ok hwrite
      simp only [Program.bind_eq, Program.pure_eq] at h
      obtain ⟨hwritten, rfl⟩ := Program.outcome_bind_done_eq.mp h
      exact ⟨f, v, hf, hread, rfl, hwritten⟩

theorem kept_of_save (hdated : s.index.Dated) (hnow : w.now.Valid)
    (h : (s.save path mime body).outcome w = ((.ok (), t), w')) : Kept t w' := by
  obtain ⟨f, v, hf, hread, rfl, hwritten⟩ := written_of_save h
  exact kept_of_writeIndex (s := { s with index := _ }) (opened_of_read hf hread) (hdated.insert path hnow) hwritten

/-- An object that was saved is there, also in a store that is opened again. -/
theorem save_eq_ok (hdated : s.index.Dated) (hnow : w.now.Valid)
    (h : (s.save path mime body).outcome w = ((.ok (), t), w')) :
    t.dir = s.dir ∧ t.metadata path = some ⟨mime.name, UInt64.ofNat body.length, w.now⟩ ∧
      (t.get path).run.outcome w' = (.ok body, w') ∧ (load s.dir).run.outcome w' = (.ok t, w') := by
  have hload := (kept_of_save hdated hnow h).load_eq
  obtain ⟨f, v, hf, hread, ht, hwritten⟩ := written_of_save h
  have hdir : t.dir = s.dir := by rw [ht]
  have hrow : t.metadata path = some ⟨mime.name, UInt64.ofNat body.length, w.now⟩ := by
    rw [ht, metadata, Table.get?_insert, if_pos rfl]
  have hread' := read_of_writeIndex hf hread hdir hwritten
  have hget : ((t.get path).run.outcome w').1 = .ok body :=
    get_eq_ok.mpr ⟨f, by rw [file_eq, hdir, ← file_eq, hf], hread'⟩
  exact ⟨hdir, hrow, Prod.ext hget (outcome_get t path w'), hdir ▸ hload⟩

/-! ### Saves that fail -/

/-- Where an object could not be written, all files are as they were, but for its unfinished version. -/
theorem writesAtMost_of_writeObject_error (hf : s.file path = .ok f)
    (h : (s.writeObject path b).run.outcome w = (.error e, w')) :
    FileWorld.WritesAtMost (namesOn s.dir w.base (FilePath.unfinishedWay path.toList)) b w w' := by
  have hfile : (FileAction.ofOutcome (s.file path)).run.outcome w = (.ok f, w) := by rw [hf]; rfl
  rw [writeObject, FileAction.outcome_bind_of_ok _ hfile] at h
  have hsame := FileAction.sameFiles_makeParent f w
  have hbase := (FileAction.makeParent f).run.base_outcome w
  cases hparent : (FileAction.makeParent f).run.outcome w with
  | mk r v =>
  rw [hparent] at hsame hbase
  cases r with
  | error e' =>
    rw [FileAction.outcome_bind_of_error _ hparent] at h
    cases h
    exact fun others => .inl (hsame others)
  | ok _ =>
    rw [FileAction.outcome_bind_of_ok _ hparent] at h
    cases hreplace : (FileAction.replace f b).run.outcome v with
    | mk r u =>
    cases r with
    | ok _ =>
      rw [FileAction.outcome_bind_of_ok _ hreplace] at h
      cases h
    | error e' =>
      rw [FileAction.outcome_bind_of_error _ hreplace] at h
      cases h
      -- Either nothing was written at all, or the unfinished version was, which then could not be moved.
      obtain rfl | ⟨tree, hwrite, rfl⟩ := FileAction.write_of_replace_error hreplace
      · exact fun others => .inl (hsame others)
      have hwritable := FileTree.writable_of_write hwrite
      cases (hwritable.write b).symm.trans hwrite
      rw [← hbase, ← target_unfinished_file hf hwritable]
      intro others
      by_cases hothers : others = (FileAction.unfinished f).target v.base
      · exact .inr ⟨hothers, hothers ▸ hwritable.get?_put b⟩
      · refine .inl fun b' => ?_
        rw [← hsame others b', (hwritable.alters_put b).elsewhere others (by simpa using hothers)]

/-- What one gets where at most one file was written: the same as before, or something is on the way now to what was
    not there, or it is the file that was written. -/
theorem get_of_writesAtMost {way : List (List Char)} (hopened : Opened s.dir w) (hbase : w'.base = w.base)
    (hretains : w.tree.Retains w'.tree) (h : FileWorld.WritesAtMost (namesOn s.dir w.base way) b w w')
    (other : String) :
    ((s.get other).run.outcome w').1 = ((s.get other).run.outcome w).1 ∨
      (((s.get other).run.outcome w).1 = .error .notFound ∧
        ∃ fault : FileFault, ((s.get other).run.outcome w').1 = .error fault.failure) ∨
      FilePath.way other.toList = way ∧ ((s.get other).run.outcome w').1 = .ok b := by
  have hopened' : w'.tree.status w.base (objects s.dir) = .ok .directory :=
    FileTree.status_of_retains hretains (fun he => way_objects s.dir (by rw [FilePath.way, he]; rfl)) hopened
  cases hf : s.file other with
  | error e =>
    have hfails (v : FileWorld) : (s.get other).run.outcome v = (.error e, v) := by rw [get, hf]; rfl
    exact .inl (by rw [hfails, hfails])
  | ok f =>
  obtain ⟨rest, n, -, hbelow⟩ := below_file hf
  have hpieces : f.pieces ≠ [] := fun he => hbelow.way_ne_nil (by rw [FilePath.way, he]; rfl)
  rw [outcome_get_of_file hf w, outcome_get_of_file hf w', hbase]
  cases hread : w.tree.read w.base f with
  | ok c =>
    rcases h (f.target w.base) with hsame | ⟨hnames, hb⟩
    · have hc := (hsame c).mpr (FileTree.get?_of_read hread)
      rw [FileTree.read_of_read hbelow hread hopened' (way_objects s.dir) hc]
      exact .inl rfl
    · rw [target_file hf, namesOn_inj] at hnames
      rw [FileTree.read_of_read hbelow hread hopened' (way_objects s.dir) hb]
      exact .inr (.inr ⟨hnames, rfl⟩)
  | error fault =>
  by_cases hmissing : fault = .missing
  · subst hmissing
    cases hread' : w'.tree.read w.base f with
    | error fault' =>
      by_cases hmissing' : fault' = .missing
      · exact .inl (by rw [hmissing'])
      · exact .inr (.inl ⟨rfl, fault', by cases fault' <;> simp_all⟩)
    | ok c =>
      -- What was not there before is what was written: all other files can be read as they could be.
      have hc := FileTree.get?_of_read hread'
      rcases h (f.target w.base) with hsame | ⟨hnames, hb⟩
      · have hbefore := FileTree.read_of_read hbelow hread' hopened (way_objects s.dir) ((hsame c).mp hc)
        cases hread.symm.trans hbefore
      · rw [target_file hf, namesOn_inj] at hnames
        cases hb.symm.trans hc
        exact .inr (.inr ⟨hnames, rfl⟩)
  · rw [FileTree.read_of_lasting (h.lasting hretains) hpieces hread hmissing]
    exact .inl rfl

/-- Where the index can be written, only the writing of the object can fail. -/
theorem Kept.save_error (h : Kept s w) (hfail : (s.save path mime body).outcome w = ((.error e, t), w')) :
    t = s ∧ (s.writeObject path body).run.outcome w = (.error e, w') := by
  rw [save, Program.bind_eq, Program.outcome_bind] at hfail
  cases hwrite : (s.writeObject path body).run.outcome w with
  | mk r v =>
  rw [hwrite] at hfail
  cases r with
  | error e' =>
    cases hfail
    exact ⟨rfl, rfl⟩
  | ok now =>
    obtain ⟨-, f, hf, -⟩ := writeObject_eq_ok hwrite
    have hkept := h.of_inside (inside_writeObject hf body)
    rw [hwrite] at hkept
    simp only [Program.bind_eq, Program.pure_eq] at hfail
    obtain ⟨hindex, rfl⟩ := Program.outcome_bind_done_eq.mp hfail
    obtain ⟨u, hu, -⟩ := FileAction.replace_of_writable hkept.unfinished hkept.writable
      (Text.utf8 (ObjectIndex.toJson (s.index.insert path ⟨mime.name, UInt64.ofNat body.length, now⟩)).pretty)
    cases hindex.symm.trans hu

/-- A save that fails leaves the index as it was, also for a store that is opened again. Of every object one gets what one
    got before, with two exceptions: what was not found fails in another way where the save made a directory or a file on
    its path, and where the unfinished version of the saved object is written, one may get the new content. -/
theorem Used.save_failed (h : Used dir s w) {now : Timestamp}
    (hfail : (s.save path mime body).outcome { w with now } = ((.error e, t), w')) :
    t = s ∧ (load dir).run.outcome w' = (.ok s, w') ∧ ∀ other : String,
      ((s.get other).run.outcome w').1 = ((s.get other).run.outcome w).1 ∨
        (((s.get other).run.outcome w).1 = .error .notFound ∧
          ∃ fault : FileFault, ((s.get other).run.outcome w').1 = .error fault.failure) ∨
        (FilePath.way other.toList = FilePath.unfinishedWay path.toList ∧
          ((s.get other).run.outcome w').1 = .ok body) := by
  obtain ⟨rfl, hkept⟩ := h.kept
  have hnow := hkept.at_time now
  obtain ⟨rfl, hwrite⟩ := hnow.save_error hfail
  cases hf : t.file path with
  | error e' =>
    have hrefused : (t.writeObject path body).run.outcome { w with now } = (.error e', { w with now }) := by
      rw [writeObject, hf]
      rfl
    cases hwrite.symm.trans hrefused
    exact ⟨rfl, hnow.load_eq,
      get_of_writesAtMost (w := w) hkept.opened rfl (.refl _) fun others => .inl fun b' => .rfl⟩
  | ok f =>
    have hafter := hnow.of_inside (inside_writeObject hf body)
    have hbase := (t.writeObject path body).run.base_outcome { w with now }
    have hretains := ((t.writeObject path body).run.alters_outcome { w with now }).retains
    rw [hwrite] at hafter hbase hretains
    have hwrites : FileWorld.WritesAtMost _ body { w with now } w' := writesAtMost_of_writeObject_error hf hwrite
    exact ⟨rfl, hafter.load_eq, get_of_writesAtMost (w := w) hkept.opened hbase hretains hwrites⟩

theorem used_new : Used "store".toList ⟨"store".toList, .empty⟩
    ((load "store".toList).run.outcome (.new [] (.ofSeed []) ⟨0, 0⟩)).2 :=
  .start (w := .new [] (.ofSeed []) ⟨0, 0⟩) (Prod.ext (by decide +kernel) rfl) (by decide +kernel)

/-- A save in the place of a directory. -/
theorem Used.save_failed_of_directory : ∃ (s t : ObjectStore) (w w' : FileWorld) (e : Failure),
    Used "store".toList s w ∧ (s.save "a" .pem [3]).outcome { w with now := ⟨1000000001, 0⟩ } = ((.error e, t), w') ∧
      t = s ∧ (load "store".toList).run.outcome w' = (.ok s, w') ∧ ((s.get "a/b").run.outcome w').1 = .ok [1, 2] := by
  have hnow : Timestamp.Valid ⟨1000000000, 5⟩ := by decide +kernel
  have hused := used_new.perform hnow "a/b" (.save .pem [1, 2])
  generalize hs : (((ObjectRequest.save .pem [1, 2]).perform _ "a/b").outcome _).1.2 = s at hused
  generalize hw : (((ObjectRequest.save .pem [1, 2]).perform _ "a/b").outcome _).2 = w at hused
  have hbefore : ((s.get "a/b").run.outcome w).1 = .ok [1, 2] := by
    rw [← hs, ← hw]
    decide +kernel
  have herror : ((s.save "a" .pem [3]).outcome { w with now := ⟨1000000001, 0⟩ }).1.1 =
      .error (FileFault.failure .isDirectory) := by
    rw [← hs, ← hw]
    decide +kernel
  have hfail : (s.save "a" .pem [3]).outcome { w with now := ⟨1000000001, 0⟩ } = ((.error (FileFault.failure .isDirectory),
      ((s.save "a" .pem [3]).outcome { w with now := ⟨1000000001, 0⟩ }).1.2),
        ((s.save "a" .pem [3]).outcome { w with now := ⟨1000000001, 0⟩ }).2) := Prod.ext (Prod.ext herror rfl) rfl
  obtain ⟨hsame, hload, hget⟩ := hused.save_failed hfail
  refine ⟨s, _, w, _, _, hused, hfail, hsame, hload, ?_⟩
  rcases hget "a/b" with h | ⟨h, -⟩ | ⟨h, -⟩
  · rw [h, hbefore]
  · cases hbefore.symm.trans h
  · exact absurd h (by decide +kernel)

/-- After a save that failed, an object is found that nobody has saved: the directory in its place keeps the unfinished
    version from being moved there, and nothing removes it. -/
theorem Used.unsaved_found : ∃ (s : ObjectStore) (w : FileWorld), Used "store".toList s w ∧
    ((s.get "a.tmp").run.outcome w).1 = .error .notFound ∧ (∃ e, ((s.save "a" .pem [3]).outcome w).1.1 = .error e) ∧
    ((((s.save "a" .pem [3]).outcome w).1.2.get "a.tmp").run.outcome ((s.save "a" .pem [3]).outcome w).2).1 =
      .ok [3] := by
  have hnow : Timestamp.Valid ⟨1000000000, 5⟩ := by decide +kernel
  exact ⟨_, _, used_new.perform hnow "a/b" (.save .pem [1, 2]), by decide +kernel,
    ⟨FileFault.failure .isDirectory, by decide +kernel⟩, by decide +kernel⟩

end ObjectStore
end IdentityVault
