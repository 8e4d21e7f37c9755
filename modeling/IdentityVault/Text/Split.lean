/-! Cutting a text at every occurrence of a character. -/

namespace IdentityVault.Text

/-- The parts of a text between the occurrences of `sep`; a text without one is its own only part. -/
def split (sep : Char) : List Char → List (List Char)
  | [] => [[]]
  | c :: r =>
    if c = sep then [] :: split sep r
    else match split sep r with
      | part :: parts => (c :: part) :: parts
      | [] => [[c]]

theorem split_ne_nil (sep : Char) : ∀ s : List Char, split sep s ≠ []
  | [] => by simp [split]
  | c :: r => by
    unfold split
    split
    · simp
    · split <;> simp

theorem split_of_not_mem {sep : Char} : ∀ {s : List Char}, sep ∉ s → split sep s = [s]
  | [], _ => rfl
  | c :: r, h => by
    simp only [List.mem_cons, not_or] at h
    rw [split, if_neg (fun e => h.1 e.symm), split_of_not_mem h.2]

theorem split_append {sep : Char} {r : List Char} :
    ∀ {s : List Char}, sep ∉ s → split sep (s ++ sep :: r) = s :: split sep r
  | [], _ => by simp [split]
  | c :: s, h => by
    simp only [List.mem_cons, not_or] at h
    rw [List.cons_append, split, if_neg (fun e => h.1 e.symm), split_append h.2]

/-- Parts that are put together with `sep` between them are found again. -/
theorem split_flatten_intersperse {sep : Char} : ∀ {parts : List (List Char)}, parts ≠ [] → (∀ p ∈ parts, sep ∉ p) →
    split sep (List.intersperse [sep] parts).flatten = parts
  | [], hne, _ => absurd rfl hne
  | [p], _, h => by
    rw [List.intersperse_singleton, List.flatten_singleton, split_of_not_mem (h p List.mem_cons_self)]
  | p :: q :: parts, _, h => by
    rw [List.forall_mem_cons] at h
    rw [List.intersperse_cons_cons, List.flatten_cons, List.flatten_cons, List.singleton_append, split_append h.1,
      split_flatten_intersperse (List.cons_ne_nil _ _) h.2]

end IdentityVault.Text
