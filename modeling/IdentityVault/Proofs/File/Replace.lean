import IdentityVault.Proofs.File.Below

/-! Files that are replaced. Whether a file can be put where a path leads depends only on the directories on the way, and
    on what is there: so it stays possible as long as no directory is made there. -/

namespace IdentityVault

variable {t t' : FileTree} {base : List String} {p q : FilePath} {b : Bytes} {w w' : FileWorld}

namespace FileTree

/-- A path leads to where a file is or could be. -/
def Writable (t : FileTree) (base : List String) (p : FilePath) : Prop :=
  ∃ place, t.locate base p = .ok place ∧ place.entry ≠ some .directory ∧ place.slash = false

theorem writable_of_write (h : t.write base p b = .ok t') : t.Writable base p := by
  obtain ⟨place, hplace, h⟩ := bind_eq_ok.mp h
  obtain ⟨hentry, hslash, -⟩ := putFile_eq_ok.mp h
  exact ⟨place, hplace, hentry, hslash⟩

theorem writable_of_read (h : t.read base p = .ok b) : t.Writable base p := by
  obtain ⟨place, hplace, hentry, hslash⟩ := read_eq_ok h
  exact ⟨place, hplace, by simp [hentry], hslash⟩

theorem writable_of_rename (h : t.rename base p q = .ok t') : t.Writable base q := by
  obtain ⟨-, target, -, -, htarget, -, hfree, hslash, -⟩ := rename_eq_ok h
  exact ⟨target, htarget, hfree, hslash⟩

namespace Writable

theorem get?_ne (h : t.Writable base p) : t.get? (p.target base) ≠ some .directory := by
  obtain ⟨place, hplace, hentry, -⟩ := h
  have hof := locate_eq_ok hplace
  rwa [← hof.names, ← hof.entry]

/-- It stays possible to put a file there. -/
theorem of_retains (h : t.Writable base p) (hr : t.Retains t') (hfree : t'.get? (p.target base) ≠ some .directory) :
    t'.Writable base p := by
  obtain ⟨place, hplace, hentry, hslash⟩ := h
  have hof := locate_eq_ok hplace
  obtain ⟨place', hplace'⟩ := locate_of_retains hr hplace hentry
  have hof' := locate_eq_ok hplace'
  have hentry' : place'.entry ≠ some .directory := by rwa [hof'.entry, hof'.names]
  have hend := hof.slash hentry
  have hend' := hof'.slash hentry'
  rw [← hend, hslash] at hend'
  exact ⟨place', hplace', hentry', by simpa using hend'⟩

theorem status (h : t.Writable base p) : t.status base p = match t.get? (p.target base) with
    | some e => .ok e
    | none => .error .missing := by
  obtain ⟨place, hplace, hentry, hslash⟩ := h
  have hof := locate_eq_ok hplace
  rw [← hof.names, ← hof.entry, FileTree.status, hplace]
  simp only [bind, Except.bind, hslash]
  cases he : place.entry with
  | none => rfl
  | some e =>
    cases e with
    | directory => exact absurd he hentry
    | file b => rfl

theorem read (h : t.Writable base p) (hfile : t.get? (p.target base) = some (.file b)) : t.read base p = .ok b := by
  rw [FileTree.read, h.status, hfile]
  rfl

theorem write (h : t.Writable base p) (b : Bytes) : t.write base p b = .ok (t.put (p.target base) (.file b)) := by
  obtain ⟨place, hplace, hentry, hslash⟩ := h
  rw [FileTree.write, hplace]
  exact putFile_eq_ok.mpr ⟨hentry, hslash, by rw [(locate_eq_ok hplace).names]⟩

theorem get?_put (h : t.Writable base p) (b : Bytes) :
    (t.put (p.target base) (.file b)).get? (p.target base) = some (.file b) := by
  obtain ⟨place, hplace, hentry, -⟩ := h
  have hof := locate_eq_ok hplace
  obtain ⟨above, n, hnames, habove⟩ := hof.eq_concat hentry
  rw [← hof.names, hnames]
  exact get?_put_self n habove

theorem alters_put (h : t.Writable base p) (b : Bytes) :
    Alters [p.target base] t (t.put (p.target base) (.file b)) := by
  obtain ⟨place, hplace, hentry, -⟩ := h
  have hof := locate_eq_ok hplace
  rw [← hof.names]
  exact FileTree.alters_put hof hentry

end Writable

/-- What can be read can still be read where it is still there. -/
theorem read_of_retains (h : t.read base p = .ok b) (hr : t.Retains t')
    (hfile : t'.get? (p.target base) = some (.file b)) : t'.read base p = .ok b :=
  ((writable_of_read h).of_retains hr (by simp [hfile])).read hfile

/-- A file that is moved to where one can be put is there, and no longer where it was. -/
theorem rename_of_writable (hp : t.read base p = .ok b) (hq : t.Writable base q) : ∃ t', t.rename base p q = .ok t' ∧
    Alters [p.target base, q.target base] t t' ∧ t'.get? (q.target base) = some (.file b) ∧
      t'.get? (p.target base) ≠ some .directory := by
  obtain ⟨source, hsource, hfile, -⟩ := read_eq_ok hp
  obtain ⟨target, htarget, hentry, hslash⟩ := hq
  have hsource' := locate_eq_ok hsource
  have htarget' := locate_eq_ok htarget
  have hget : t.get? (p.target base) = some (.file b) := by rw [← hsource'.names, ← hsource'.entry, hfile]
  have hrename : t.rename base p q = if p.target base = q.target base then .ok t
      else (t.erase (p.target base)).putFile target b := by
    rw [rename, hp, hsource, htarget, ← hsource'.names, ← htarget'.names]
    simp only [bind, Except.bind, hslash, Bool.false_eq_true, not_false_eq_true, and_true]
    rfl
  by_cases hsame : p.target base = q.target base
  · rw [if_pos hsame] at hrename
    exact ⟨t, hrename, .refl _ _, hsame ▸ hget, by simp [hget]⟩
  · rw [if_neg hsame] at hrename
    have hput : (t.erase (p.target base)).putFile target b =
        .ok ((t.erase (p.target base)).put (q.target base) (.file b)) :=
      putFile_eq_ok.mpr ⟨hentry, hslash, by rw [htarget'.names]⟩
    obtain ⟨hputs, hthere⟩ := alters_put_erase b htarget' hentry hget (by rwa [htarget'.names])
    rw [htarget'.names] at hputs hthere
    refine ⟨_, hrename.trans hput, (alters_erase hget).trans hputs, hthere, ?_⟩
    rw [hputs.elsewhere _ (by simpa using hsame), get?_erase_self]
    · simp
    · intro hnil
      rw [hnil] at hget
      cases hget

end FileTree

/-- Where the unfinished version of a file can be written, it is beside the file. -/
theorem FilePath.Below.target_unfinished {o : FilePath} {rest : List (List Char)} {n : List Char}
    (h : o.Below p (rest ++ [n])) (hw : t.Writable base (FileAction.unfinished p)) :
    (FileAction.unfinished p).target base = o.target base ++ (rest ++ [FilePath.scratch n]).map String.ofList := by
  rcases h.unfinished with hbelow | hup
  · exact hbelow.target base
  · obtain ⟨place, hplace, hentry, -⟩ := hw
    obtain ⟨last, -, hlast, -, hne, -⟩ := (FileTree.locate_eq_ok hplace).last hentry
    exact absurd (Option.some.inj (hlast.symm.trans hup)) hne

/-! ### Replacing -/

namespace FileAction
open FileTree

theorem outcome_bind_of_ok {α β : Type} {x : FileAction α} {a : α} (f : α → FileAction β)
    (h : x.run.outcome w = (.ok a, w')) : (x >>= f).run.outcome w = (f a).run.outcome w' := by
  have hbind := Program.outcome_bind x.run (ExceptT.bindCont f) w
  rw [h] at hbind
  exact hbind

theorem outcome_bind_of_error {α β : Type} {x : FileAction α} {e : Failure} (f : α → FileAction β)
    (h : x.run.outcome w = (.error e, w')) : (x >>= f).run.outcome w = (.error e, w') := by
  have hbind := Program.outcome_bind x.run (ExceptT.bindCont f) w
  rw [h] at hbind
  exact hbind

theorem outcome_attempt {α : Type} (e : FileEffect (Except FileFault α)) (w : FileWorld) :
    (attempt e).run.outcome w = ((e.outcome w).1.mapError FileFault.failure, (e.outcome w).2) := rfl

theorem outcome_attempt_eq_ok {α : Type} {e : FileEffect (Except FileFault α)} {a : α} :
    (attempt e).run.outcome w = (.ok a, w') ↔ e.outcome w = (.ok a, w') := by
  rw [outcome_attempt]
  rcases e.outcome w with ⟨_ | _, v⟩ <;> simp [Except.mapError]

theorem outcome_isPresent (p : FilePath) (w : FileWorld) :
    (isPresent p).run.outcome w = (.ok ((FileEffect.status p).outcome w).1.isSome, w) := rfl

theorem changed_eq_ok {r : Except FileFault FileTree} : w.changed r = (.ok (), w') ↔
    ∃ t, r = .ok t ∧ w' = { w with tree := t } := by
  cases r <;> simp [FileWorld.changed, eq_comm]

theorem outcome_replace_eq_ok : (replace p b).run.outcome w = (.ok (), w') ↔ ∃ t t',
    w.tree.write w.base (unfinished p) b = .ok t ∧ t.rename w.base (unfinished p) p = .ok t' ∧
      w' = { w with tree := t' } := by
  constructor
  · intro h
    obtain ⟨_, v, hwrite, hrename⟩ := outcome_bind_eq_ok h
    rw [outcome_attempt_eq_ok, FileEffect.outcome_write, changed_eq_ok] at hwrite
    obtain ⟨t, ht, rfl⟩ := hwrite
    rw [outcome_attempt_eq_ok, FileEffect.outcome_rename, changed_eq_ok] at hrename
    obtain ⟨t', ht', rfl⟩ := hrename
    exact ⟨t, t', ht, ht', rfl⟩
  · rintro ⟨t, t', ht, ht', rfl⟩
    have hwrite : (attempt (.write (unfinished p) b)).run.outcome w = (.ok (), { w with tree := t }) := by
      rw [outcome_attempt_eq_ok, FileEffect.outcome_write, ht]
      rfl
    rw [replace, outcome_bind_of_ok _ hwrite, outcome_attempt_eq_ok, FileEffect.outcome_rename, ht']
    rfl

/-- What is true behind a file that was replaced. -/
structure Replaced (p : FilePath) (b : Bytes) (w w' : FileWorld) : Prop where
  base : w'.base = w.base
  alters : Alters [(unfinished p).target w.base, p.target w.base] w.tree w'.tree
  unfinished : w'.tree.Writable w.base (unfinished p)
  read : w'.tree.read w.base p = .ok b

/-- A file can be replaced if it can be put in its place, and its unfinished version beside it. -/
theorem replace_of_writable (hsource : w.tree.Writable w.base (unfinished p)) (htarget : w.tree.Writable w.base p)
    (b : Bytes) : ∃ w', (replace p b).run.outcome w = (.ok (), w') ∧ Replaced p b w w' := by
  have hput := hsource.alters_put b
  have hfile := hsource.get?_put b
  have hsource' := hsource.of_retains hput.retains (by simp [hfile])
  -- The two places may be one: a file whose name ends in `.tmp` is its own unfinished version.
  have htarget' := htarget.of_retains hput.retains (by
    by_cases hsame : p.target w.base = (unfinished p).target w.base
    · simp [hsame, hfile]
    · rw [hput.elsewhere _ (by simpa using hsame)]
      exact htarget.get?_ne)
  obtain ⟨t, hrename, halters, hthere, hfree⟩ := rename_of_writable (hsource'.read hfile) htarget'
  refine ⟨{ w with tree := t }, outcome_replace_eq_ok.mpr ⟨_, t, hsource.write b, hrename, rfl⟩, rfl, ?_, ?_, ?_⟩
  · refine ⟨fun others hn => ?_, hput.retains.trans halters.retains⟩
    rw [halters.elsewhere others hn, hput.elsewhere others]
    exact fun hm => hn (List.mem_cons.mpr (.inl (List.mem_singleton.mp hm)))
  · exact hsource'.of_retains halters.retains hfree
  · exact (htarget'.of_retains halters.retains (by simp [hthere])).read hthere

theorem writable_of_replace (h : (replace p b).run.outcome w = (.ok (), w')) :
    w.tree.Writable w.base (unfinished p) ∧ w.tree.Writable w.base p := by
  obtain ⟨t, t', hwrite, hrename, -⟩ := outcome_replace_eq_ok.mp h
  have hsource := writable_of_write hwrite
  have hput := hsource.alters_put b
  have hfile := hsource.get?_put b
  cases (hsource.write b).symm.trans hwrite
  have htarget := writable_of_rename hrename
  -- Writing a file makes no directory, so that the way to the file was open before.
  have hback (names : List String)
      (hd : (w.tree.put ((unfinished p).target w.base) (.file b)).get? names = some .directory) :
      w.tree.get? names = some .directory := by
    rw [← hput.elsewhere names, hd]
    rw [List.mem_singleton]
    rintro rfl
    simp [hfile] at hd
  refine ⟨hsource, htarget.of_retains hback fun hd => ?_⟩
  exact htarget.get?_ne (hput.retains _ hd)

/-- Where a file could not be replaced, nothing has changed, unless its unfinished version was written. -/
theorem write_of_replace_error {e : Failure} (h : (replace p b).run.outcome w = (.error e, w')) : w' = w ∨
    ∃ t, w.tree.write w.base (unfinished p) b = .ok t ∧ w' = { w with tree := t } := by
  cases hwrite : w.tree.write w.base (unfinished p) b with
  | error f =>
    have hfirst : (attempt (.write (unfinished p) b)).run.outcome w = (.error f.failure, w) := by
      rw [outcome_attempt, FileEffect.outcome_write, hwrite]
      rfl
    rw [replace, outcome_bind_of_error _ hfirst] at h
    cases h
    exact .inl rfl
  | ok t =>
    have hfirst : (attempt (.write (unfinished p) b)).run.outcome w = (.ok (), { w with tree := t }) := by
      rw [outcome_attempt, FileEffect.outcome_write, hwrite]
      rfl
    rw [replace, outcome_bind_of_ok _ hfirst, outcome_attempt, FileEffect.outcome_rename] at h
    cases hrename : t.rename w.base (unfinished p) p with
    | error f =>
      rw [hrename] at h
      cases h
      exact .inr ⟨t, rfl, rfl⟩
    | ok t' =>
      rw [hrename] at h
      cases h

theorem replaced_of_replace (h : (replace p b).run.outcome w = (.ok (), w')) : Replaced p b w w' := by
  obtain ⟨hsource, htarget⟩ := writable_of_replace h
  obtain ⟨v, hv, hreplaced⟩ := replace_of_writable hsource htarget b
  cases h.symm.trans hv
  exact hreplaced

end FileAction
end IdentityVault
