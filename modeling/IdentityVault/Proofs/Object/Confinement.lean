import IdentityVault.Proofs.Object.Requests

/-! What a store of objects touches: what lies at or below its directory of objects, and its index. -/

namespace IdentityVault

variable {α β : Type} {dir f : FilePath} {w : FileWorld} {names : List String}

namespace ObjectStore

/-- The names that belong to the store in a directory: the directory of objects with all that is in it, and the index,
    also where it is not finished. -/
def Owns (dir : FilePath) (base names : List String) : Prop :=
  dir.target base ++ ["objects"] <+: names ∨ names = dir.target base ++ ["objects.json"] ∨
    names = dir.target base ++ ["objects.tmp"]

theorem owns_objects (dir : FilePath) (base below : List String) :
    Owns dir base ((objects dir).target base ++ below) := by
  rw [(below_dir dir).target]
  exact .inl (List.prefix_append _ _)

end ObjectStore

namespace ObjectRequest
open ObjectStore

/-- Of all that a request may ask for, nothing touches what does not belong to the store. -/
theorem MayAsk.owns {r : ObjectRequest α} {e : FileEffect β} {rest : List (List Char)} {n : List Char}
    (h : MayAsk dir f r e) (hf : (objects dir).Below f (rest ++ [n])) (hn : names ∈ e.touched w) :
    Owns dir w.base names := by
  have hone {p : FilePath} {rest : List (List Char)} (h : (objects dir).Below p rest)
      (hn : names = p.target w.base) : Owns dir w.base names := by
    rw [hn, h.target]
    exact owns_objects dir w.base _
  cases h with
  | read | remove => exact hone hf (FileWorld.eq_target_of_mem_places hn)
  | makeDirectory h | status h => exact hone h (FileWorld.eq_target_of_mem_places hn)
  | write =>
    rw [touched_write_unfinished hf hn]
    exact owns_objects dir w.base _
  | rename =>
    rcases touched_rename_unfinished hf hn with hn | hn <;> rw [hn] <;> exact owns_objects dir w.base _
  | timestamp => cases hn
  | writeIndex => exact .inr (.inr (touched_write_indexFile hn))
  | renameIndex => exact .inr (touched_rename_indexFile hn).symm

variable {s : ObjectStore} {path : String}

theorem owns_of_touched (h : Opened s.dir w) (r : ObjectRequest α) :
    ∀ step ∈ (r.perform s path).trace w, ∀ names ∈ step.touched, Owns s.dir w.base names := by
  intro step hm names hn
  obtain ⟨f, hf, hasks⟩ := mayAsk_of_mem_trace h hm
  obtain ⟨rest, n, -, hbelow⟩ := below_file hf
  rw [← Program.base_of_mem_trace hm]
  exact hasks.owns hbelow hn

/-- A path that is empty, starts at the root or with a dot, or goes up is refused before anything is touched. With any
    other path, a request touches only what belongs to the store. The directory of objects is there from the time when
    the store is opened. -/
theorem confined (r : ObjectRequest α) (s : ObjectStore) (path : String) (w : FileWorld) :
    (Refused path.toList → (r.perform s path).trace w = [] ∧
      (r.perform s path).outcome w = ((.error (.malformed (.objectPath path)), s), w)) ∧
    (¬ Refused path.toList → Opened s.dir w →
      ∀ step ∈ (r.perform s path).trace w, ∀ names ∈ step.touched, Owns s.dir w.base names) := by
  refine ⟨fun h => ?_, fun _ h => owns_of_touched h r⟩
  rw [perform_of_refused h]
  exact ⟨rfl, rfl⟩

theorem confined_save : Refused "a/../../b".toList ∧ ¬ Refused "a.pem".toList ∧
    Opened ['/'] (.new ["objects"] (.ofSeed []) ⟨0, 0⟩) ∧
    ((save .pem [1, 2]).perform ⟨['/'], .empty⟩ "a/../../b").trace (.new ["objects"] (.ofSeed []) ⟨0, 0⟩) = [] ∧
    ∀ step ∈ ((save .pem [1, 2]).perform ⟨['/'], .empty⟩ "a.pem").trace (.new ["objects"] (.ofSeed []) ⟨0, 0⟩),
      ∀ names ∈ step.touched, Owns ['/'] ["objects"] names := by
  have hrefused : Refused "a/../../b".toList := by decide
  have hpath : ¬ Refused "a.pem".toList := by decide
  have hopened : Opened ['/'] (.new ["objects"] (.ofSeed []) ⟨0, 0⟩) := rfl
  refine ⟨hrefused, hpath, hopened, ?_, ?_⟩
  · exact ((confined (save .pem [1, 2]) ⟨['/'], .empty⟩ "a/../../b" _).1 hrefused).1
  · exact (confined (save .pem [1, 2]) ⟨['/'], .empty⟩ "a.pem" _).2 hpath hopened

end ObjectRequest
end IdentityVault
