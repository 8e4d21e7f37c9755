import IdentityVault.Proofs.File.Change

/-! The effects of a program with files, one after the other, and what each of them touches. What is not touched stays
    as it is. -/

namespace IdentityVault

variable {α β : Type} {w : FileWorld} {names : List String}

/-! ### Outcomes -/

def FileEffect.outcome (e : FileEffect β) (w : FileWorld) : β × FileWorld := (FileWorld.handle e).run w

/-- What a program yields in a world, and the world as it leaves it. -/
def Program.outcome (p : Program FileEffect α) (w : FileWorld) : α × FileWorld := p.inFiles.run w

/-- An effect that a program asks for, with the world in which it does so. -/
structure FileStep : Type 1 where
  {β : Type}
  effect : FileEffect β
  before : FileWorld

def Program.trace : Program FileEffect α → FileWorld → List FileStep
  | .done _, _ => []
  | .ask e next, w => ⟨e, w⟩ :: (next (e.outcome w).1).trace (e.outcome w).2

namespace Program

@[simp]
theorem outcome_done (a : α) (w : FileWorld) : (done a : Program FileEffect α).outcome w = (a, w) := rfl

@[simp]
theorem outcome_ask (e : FileEffect β) (next : β → Program FileEffect α) (w : FileWorld) :
    (ask e next).outcome w = (next (e.outcome w).1).outcome (e.outcome w).2 := rfl

theorem outcome_bind (p : Program FileEffect β) (f : β → Program FileEffect α) (w : FileWorld) :
    (p.bind f).outcome w = (f (p.outcome w).1).outcome (p.outcome w).2 := by
  induction p generalizing w with
  | done b => rfl
  | ask e next ih => rw [ask_bind, outcome_ask, ih, outcome_ask]

/-- What is passed on beside what a program yields. -/
theorem outcome_bind_pair (p : Program FileEffect α) (b : β) (w : FileWorld) :
    ((p.bind fun a => done (a, b)).outcome w).1.2 = b := by
  rw [outcome_bind, outcome_done]

theorem outcome_bind_done_eq {p : Program FileEffect α} {a : α} {b b' : β} {w' : FileWorld} :
    (p.bind fun a => done (a, b)).outcome w = ((a, b'), w') ↔ p.outcome w = (a, w') ∧ b = b' := by
  rw [outcome_bind, outcome_done]
  simp only [Prod.ext_iff]
  exact and_right_comm

theorem trace_bind (p : Program FileEffect β) (f : β → Program FileEffect α) (w : FileWorld) :
    (p.bind f).trace w = p.trace w ++ (f (p.outcome w).1).trace (p.outcome w).2 := by
  induction p generalizing w with
  | done b => rfl
  | ask e next ih => rw [ask_bind, trace, ih, trace, outcome_ask, List.cons_append]

end Program

/-! ### What is touched -/

/-- The names to which a path leads, where it was used with success. -/
def FileWorld.places {γ : Type} (w : FileWorld) (r : Except FileFault γ) (p : FilePath) : List (List String) :=
  match r, w.tree.locate w.base p with
  | .ok _, .ok place => [place.names]
  | _, _ => []

/-- The names of what an effect looks for, reads, makes, writes, moves or removes. An effect that fails touches
    nothing. -/
def FileEffect.touched (w : FileWorld) : FileEffect β → List (List String)
  | .status p => w.places (w.tree.status w.base p) p
  | .read p => w.places (w.tree.read w.base p) p
  | .write p b => w.places (w.tree.write w.base p b) p
  | .rename p q => w.places (w.tree.rename w.base p q) p ++ w.places (w.tree.rename w.base p q) q
  | .remove p => w.places (w.tree.remove w.base p) p
  | .makeDirectory p => w.places (w.tree.makeDirectory w.base p) p
  | .timestamp | .random _ | .print _ | .askPassword => []

/-- The names of the files that an effect changes. -/
def FileEffect.rewritten (w : FileWorld) : FileEffect β → List (List String)
  | .write p b => (FileEffect.write p b).touched w
  | .rename p q => (FileEffect.rename p q).touched w
  | .remove p => (FileEffect.remove p).touched w
  | _ => []

def FileStep.touched (s : FileStep) : List (List String) := s.effect.touched s.before

def FileStep.rewritten (s : FileStep) : List (List String) := s.effect.rewritten s.before

theorem FileWorld.mem_places {γ : Type} {r : Except FileFault γ} {p : FilePath} : names ∈ w.places r p ↔
    ∃ a place, r = .ok a ∧ w.tree.locate w.base p = .ok place ∧ names = place.names := by
  unfold places
  split
  · next a place hplace => simp [hplace]
  · next hne =>
    refine ⟨fun h => absurd h List.not_mem_nil, ?_⟩
    rintro ⟨a, place, hr, hplace, -⟩
    exact absurd hplace (hne a place hr)

theorem FileWorld.eq_target_of_mem_places {γ : Type} {r : Except FileFault γ} {p : FilePath}
    (h : names ∈ w.places r p) : names = p.target w.base := by
  obtain ⟨-, place, -, hplace, rfl⟩ := mem_places.mp h
  exact (FileTree.locate_eq_ok hplace).names

namespace FileEffect
variable {p q : FilePath} {b : Bytes}

theorem touched_of_rewritten {e : FileEffect β} (h : names ∈ e.rewritten w) : names ∈ e.touched w := by
  cases e with
  | write | rename | remove => exact h
  | status | read | makeDirectory | timestamp | random | print | askPassword => cases h

/-- Where a path goes up at its end, there is a directory, which is not written. -/
theorem touched_write_of_up (h : p.pieces.getLast? = some ['.', '.']) : (write p b).touched w = [] := by
  refine List.eq_nil_iff_forall_not_mem.mpr fun names hm => ?_
  obtain ⟨t, -, hwrite, -⟩ := FileWorld.mem_places.mp hm
  obtain ⟨place, hplace, hentry, -⟩ := FileTree.write_eq_ok hwrite
  obtain ⟨last, -, hlast, -, hup, -⟩ := (FileTree.locate_eq_ok hplace).last hentry
  exact hup (Option.some.inj (hlast.symm.trans h))

theorem touched_rename_of_up (h : p.pieces.getLast? = some ['.', '.']) : (rename p q).touched w = [] := by
  have hfails (t : FileTree) : w.tree.rename w.base p q ≠ .ok t := by
    intro hrename
    obtain ⟨source, -, b, hsource, -, hentry, -⟩ := FileTree.rename_eq_ok hrename
    obtain ⟨last, -, hlast, -, hup, -⟩ := (FileTree.locate_eq_ok hsource).last (by simp [hentry])
    exact hup (Option.some.inj (hlast.symm.trans h))
  refine List.eq_nil_iff_forall_not_mem.mpr fun names hm => ?_
  rcases List.mem_append.mp hm with hm | hm
  · obtain ⟨t, -, hrename, -⟩ := FileWorld.mem_places.mp hm
    exact hfails t hrename
  · obtain ⟨t, -, hrename, -⟩ := FileWorld.mem_places.mp hm
    exact hfails t hrename

end FileEffect

/-! ### What changes -/

/-- What an effect yields that changes the tree, or fails and leaves it as it is. -/
def FileWorld.changed (w : FileWorld) : Except FileFault FileTree → Except FileFault Unit × FileWorld
  | .ok tree => (.ok (), { w with tree })
  | .error f => (.error f, w)

theorem FileWorld.run_change (w : FileWorld) (f : FileTree → Except FileFault FileTree) :
    (change f).run w = w.changed (f w.tree) := by
  rw [change]
  simp only [StateT.run_bind, StateT.run_get, pure_bind]
  cases f w.tree <;> rfl

namespace FileEffect
variable (w)

theorem outcome_status (p : FilePath) : ((status p).outcome w).1 = match w.tree.status w.base p with
    | .ok .directory => some .directory
    | .ok (.file _) => some .file
    | .error _ => none := rfl

theorem outcome_read (p : FilePath) : (read p).outcome w = (w.tree.read w.base p, w) := rfl

theorem outcome_write (p : FilePath) (b : Bytes) :
    (write p b).outcome w = w.changed (w.tree.write w.base p b) := w.run_change (·.write w.base p b)

theorem outcome_rename (p q : FilePath) : (rename p q).outcome w = w.changed (w.tree.rename w.base p q) :=
  w.run_change (·.rename w.base p q)

theorem outcome_remove (p : FilePath) : (remove p).outcome w = w.changed (w.tree.remove w.base p) :=
  w.run_change (·.remove w.base p)

theorem outcome_makeDirectory (p : FilePath) :
    (makeDirectory p).outcome w = w.changed (w.tree.makeDirectory w.base p) := w.run_change (·.makeDirectory w.base p)

theorem base_outcome (e : FileEffect β) : (e.outcome w).2.base = w.base := by
  have hchanged (r : Except FileFault FileTree) : (w.changed r).2.base = w.base := by cases r <;> rfl
  cases e with
  | write p b => rw [outcome_write, hchanged]
  | rename p q => rw [outcome_rename, hchanged]
  | remove p => rw [outcome_remove, hchanged]
  | makeDirectory p => rw [outcome_makeDirectory, hchanged]
  | status | read | timestamp | random | print | askPassword => rfl

/-- An effect changes only what it touches. -/
theorem alters_outcome (e : FileEffect β) : FileTree.Alters (e.touched w) w.tree (e.outcome w).2.tree := by
  have hchanged {touched : List (List String)} {r : Except FileFault FileTree}
      (h : ∀ t, r = .ok t → FileTree.Alters touched w.tree t) :
      FileTree.Alters touched w.tree (w.changed r).2.tree := by
    cases r with
    | ok t => exact h t rfl
    | error f => exact .refl _ _
  cases e with
  | write p b =>
    rw [outcome_write]
    refine hchanged fun t ht => ?_
    obtain ⟨place, hplace, ha⟩ := FileTree.alters_write ht
    simpa only [touched, FileWorld.places, ht, hplace] using ha
  | rename p q =>
    rw [outcome_rename]
    refine hchanged fun t ht => ?_
    obtain ⟨source, target, hsource, htarget, ha⟩ := FileTree.alters_rename ht
    simpa only [touched, FileWorld.places, ht, hsource, htarget, List.singleton_append] using ha
  | remove p =>
    rw [outcome_remove]
    refine hchanged fun t ht => ?_
    obtain ⟨place, hplace, ha⟩ := FileTree.alters_remove ht
    simpa only [touched, FileWorld.places, ht, hplace] using ha
  | makeDirectory p =>
    rw [outcome_makeDirectory]
    refine hchanged fun t ht => ?_
    obtain ⟨place, hplace, ha, -⟩ := FileTree.alters_makeDirectory ht
    simpa only [touched, FileWorld.places, ht, hplace] using ha
  | status | read | timestamp | random | print | askPassword => exact .refl _ _

variable {w}

/-- A file that an effect does not change is one before and after. A new directory is not where a file was. -/
theorem file_outcome {e : FileEffect β} {b : Bytes} (h : names ∉ e.rewritten w) :
    (e.outcome w).2.tree.get? names = some (.file b) ↔ w.tree.get? names = some (.file b) := by
  have ha := e.alters_outcome w
  cases e with
  | write | rename | remove => rw [ha.elsewhere names h]
  | makeDirectory p =>
    rw [outcome_makeDirectory] at ha ⊢
    cases hr : w.tree.makeDirectory w.base p with
    | error f => exact .rfl
    | ok t =>
      obtain ⟨place, hplace, -, hbefore, hafter⟩ := FileTree.alters_makeDirectory hr
      rw [hr] at ha
      by_cases hn : names = place.names
      · simp [FileWorld.changed, hn, hbefore, hafter]
      · rw [ha.elsewhere names]
        simpa [touched, FileWorld.places, hr, hplace] using hn
  | status | read | timestamp | random | print | askPassword => exact .rfl

end FileEffect

namespace Program
variable {p : Program FileEffect α}

theorem base_outcome (p : Program FileEffect α) (w : FileWorld) : (p.outcome w).2.base = w.base := by
  induction p generalizing w with
  | done a => rfl
  | ask e next ih => rw [outcome_ask, ih, e.base_outcome]

/-- All that a program does starts from the same directory. -/
theorem base_of_mem_trace {step : FileStep} (h : step ∈ p.trace w) : step.before.base = w.base := by
  induction p generalizing w with
  | done a => cases h
  | ask e next ih =>
    rcases List.mem_cons.mp h with rfl | h
    · rfl
    · rw [ih _ h, e.base_outcome]

/-- A program changes only what its effects touch. -/
theorem alters_outcome (p : Program FileEffect α) (w : FileWorld) :
    FileTree.Alters ((p.trace w).flatMap FileStep.touched) w.tree (p.outcome w).2.tree := by
  induction p generalizing w with
  | done a => exact .refl _ _
  | ask e next ih => exact (e.alters_outcome w).trans (ih _ _)

theorem file_outcome {b : Bytes} (h : ∀ step ∈ p.trace w, names ∉ step.rewritten) :
    (p.outcome w).2.tree.get? names = some (.file b) ↔ w.tree.get? names = some (.file b) := by
  induction p generalizing w with
  | done a => exact .rfl
  | ask e next ih =>
    rw [trace, List.forall_mem_cons] at h
    exact (ih _ h.2).trans (e.file_outcome h.1)

end Program

/-! ### Directories that are made -/

namespace FileAction
variable {p : FilePath} {w' : FileWorld}

theorem outcome_ask_then (e : FileEffect β) (f : β → FileAction α) (w : FileWorld) :
    (ask e >>= f).run.outcome w = (f (e.outcome w).1).run.outcome (e.outcome w).2 := rfl

/-- What succeeds does so after its first part. -/
theorem outcome_bind_eq_ok {x : FileAction α} {f : α → FileAction β} {b : β}
    (h : (x >>= f).run.outcome w = (.ok b, w')) :
    ∃ a v, x.run.outcome w = (.ok a, v) ∧ (f a).run.outcome v = (.ok b, w') := by
  have hbind := Program.outcome_bind x.run (ExceptT.bindCont f) w
  change (x >>= f).run.outcome w = _ at hbind
  rw [hbind] at h
  cases hx : x.run.outcome w with
  | mk r v =>
    rw [hx] at h
    cases r with
    | ok a => exact ⟨a, v, rfl, h⟩
    | error e => cases h

theorem directory_of_unlessDirectory {f : FileFault} (h : (unlessDirectory p f).run.outcome w = (.ok (), w')) :
    w'.tree.status w'.base p = .ok .directory := by
  rw [unlessDirectory, outcome_ask_then] at h
  split at h
  · next hd =>
    cases h
    rw [FileEffect.outcome_status] at hd
    split at hd
    · next hs => exact hs
    · cases hd
    · cases hd
  · cases h

theorem directory_of_outcome_makeDirectory (h : ((FileEffect.makeDirectory p).outcome w).1 = .ok ()) :
    ((FileEffect.makeDirectory p).outcome w).2.tree.status w.base p = .ok .directory := by
  rw [FileEffect.outcome_makeDirectory] at h ⊢
  cases hr : w.tree.makeDirectory w.base p with
  | ok t => exact FileTree.status_of_makeDirectory hr
  | error f =>
    rw [hr] at h
    cases h

/-- A directory that was made with success is there. -/
theorem directory_of_makeDirectories (hp : p ≠ []) (h : (makeDirectories p).run.outcome w = (.ok (), w')) :
    w'.tree.status w'.base p = .ok .directory := by
  rw [makeDirectories, if_neg hp, outcome_ask_then] at h
  split at h
  · next hr =>
    cases h
    rw [FileEffect.base_outcome]
    exact directory_of_outcome_makeDirectory hr
  · split at h
    · cases h
    next d _ =>
    obtain ⟨-, v, -, h⟩ := outcome_bind_eq_ok h
    rw [outcome_ask_then] at h
    split at h
    · next hr =>
      cases h
      rw [FileEffect.base_outcome]
      exact directory_of_outcome_makeDirectory hr
    · exact directory_of_unlessDirectory h
  · exact directory_of_unlessDirectory h

end FileAction
end IdentityVault
