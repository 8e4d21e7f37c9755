import IdentityVault.Proofs.File.Trace
import Mathlib.Order.Defs.Unbundled

/-! How a world goes on while an action runs. What relates the worlds before and after each effect also relates those
    before and after the action, if it can be passed on from one effect to the next. -/

namespace IdentityVault

variable {α β : Type}

namespace FileAction

/-- The world in which an action begins and the one that it leaves are related by `R`. -/
def Advances (R : FileWorld → FileWorld → Prop) (x : FileAction α) : Prop := ∀ w, R w (x.run.outcome w).2

variable {R : FileWorld → FileWorld → Prop} {x : FileAction α} {f : α → FileAction β}

theorem advances_ask {e : FileEffect α} (h : ∀ w, R w (e.outcome w).2) : Advances R (ask e) := h

theorem advances_attempt {e : FileEffect (Except FileFault α)} (h : ∀ w, R w (e.outcome w).2) :
    Advances R (attempt e) := h

section
variable [IsPreorder FileWorld R]

theorem advances_done (r : Outcome α) : Advances R (ofOutcome r) := fun w => refl_of R w

theorem advances_then (hx : Advances R x) (hf : ∀ a, Advances R (f a)) : Advances R (x >>= f) := by
  intro w
  have hbind : (x >>= f).run.outcome w = _ := Program.outcome_bind x.run (ExceptT.bindCont f) w
  rw [hbind]
  refine trans_of R (hx w) ?_
  cases (x.run.outcome w).1 with
  | ok a => exact hf a _
  | error e => exact refl_of R _

theorem advances_isPresent (p : FilePath) : Advances R (isPresent p) := fun w => refl_of R w

theorem advances_readText (p : FilePath) : Advances R (readText p) := by
  refine advances_then (advances_attempt fun w => refl_of R w) fun b => ?_
  split <;> exact advances_done _

theorem advances_unlessDirectory (p : FilePath) (fault : FileFault) : Advances R (unlessDirectory p fault) := by
  refine advances_then (advances_ask fun w => refl_of R w) fun kind => ?_
  split <;> exact advances_done _

theorem advances_makeDirectories (h : ∀ p w, R w ((FileEffect.makeDirectory p).outcome w).2) (p : FilePath) :
    Advances R (makeDirectories p) := by
  have hask (p : FilePath) : Advances R (ask (.makeDirectory p)) := advances_ask (h p)
  induction hn : p.length using Nat.strongRecOn generalizing p with
  | ind n ih =>
  subst hn
  rw [makeDirectories]
  split
  · exact advances_done _
  refine advances_then (hask p) fun r => ?_
  split
  · exact advances_done _
  · split
    · exact advances_done _
    · next d hd =>
      refine advances_then (ih d.length (FilePath.length_parent? hd) d rfl) fun _ => ?_
      refine advances_then (hask p) fun r => ?_
      split
      · exact advances_done _
      · exact advances_unlessDirectory p _
  · exact advances_unlessDirectory p _

theorem advances_makeParent (h : ∀ p w, R w ((FileEffect.makeDirectory p).outcome w).2) (p : FilePath) :
    Advances R (makeParent p) := by
  rw [makeParent]
  split
  · exact advances_makeDirectories h _
  · exact advances_done _

end

/-! ### Files -/

/-- The same files are there, with the same content. -/
def SameFiles (w w' : FileWorld) : Prop :=
  ∀ names b, w'.tree.get? names = some (.file b) ↔ w.tree.get? names = some (.file b)

instance : IsPreorder FileWorld SameFiles where
  refl _ _ _ := .rfl
  trans _ _ _ h h' names b := (h' names b).trans (h names b)

theorem sameFiles_makeDirectory (p : FilePath) (w : FileWorld) :
    SameFiles w ((FileEffect.makeDirectory p).outcome w).2 :=
  fun _ _ => FileEffect.file_outcome (e := .makeDirectory p) List.not_mem_nil

theorem sameFiles_makeDirectories (p : FilePath) : Advances SameFiles (makeDirectories p) :=
  advances_makeDirectories sameFiles_makeDirectory p

theorem sameFiles_makeParent (p : FilePath) : Advances SameFiles (makeParent p) :=
  advances_makeParent sameFiles_makeDirectory p

/-! ### The clock -/

/-- The clock shows the same time. -/
def SameTime (w w' : FileWorld) : Prop := w'.now = w.now

instance : IsPreorder FileWorld SameTime where
  refl _ := rfl
  trans _ _ _ h h' := Eq.trans h' h

theorem sameTime_changed (w : FileWorld) (r : Except FileFault FileTree) : SameTime w (w.changed r).2 := by
  cases r <;> rfl

theorem sameTime_makeParent (p : FilePath) : Advances SameTime (makeParent p) := by
  refine advances_makeParent (fun p w => ?_) p
  rw [FileEffect.outcome_makeDirectory]
  exact sameTime_changed w _

theorem sameTime_replace (p : FilePath) (b : Bytes) : Advances SameTime (replace p b) := by
  refine advances_then (advances_attempt fun w => ?_) fun _ => advances_attempt fun w => ?_
  · rw [FileEffect.outcome_write]
    exact sameTime_changed w _
  · rw [FileEffect.outcome_rename]
    exact sameTime_changed w _

end FileAction
end IdentityVault
