import IdentityVault.Text.Split

/-! Paths of files as texts: their parts, the directory above, and the replacement of an extension. Slashes that
    follow each other count as one, and a part `.` counts only at the very beginning. -/

namespace IdentityVault

abbrev FilePath := List Char

namespace FilePath

inductive Part where
  /-- The slash at the beginning of an absolute path. -/
  | root
  /-- A dot at the beginning of a path that is not absolute. -/
  | here
  /-- Two dots. -/
  | up
  | name (text : List Char)
  deriving DecidableEq, Repr

/-- The texts between the slashes. -/
def pieces (p : FilePath) : List (List Char) := (Text.split '/' p).filter (· ≠ [])

def isAbsolute (p : FilePath) : Bool := p.head? == some '/'

def parts (p : FilePath) : List Part :=
  let first := if p.isAbsolute then [.root] else if (Text.split '/' p).head? = some ['.'] then [.here] else []
  first ++ (p.pieces.filter (· ≠ ['.'])).map fun s => if s = ['.', '.'] then .up else .name s

/-- The path `q`, which starts in the directory `p` unless it is absolute. -/
def join (p q : FilePath) : FilePath :=
  if q.isAbsolute || p.isEmpty then q
  else if p.getLast? = some '/' then p ++ q
  else p ++ '/' :: q

/-- A reversed path without what stands behind its last part. -/
def trimReversed : List Char → List Char
  | ['/'] => ['/']
  | '/' :: r => trimReversed r
  | '.' :: '/' :: r => trimReversed ('/' :: r)
  | r => r
termination_by r => r.length

/-- The path without its last part, if it has one that can be left out. -/
def parent? (p : FilePath) : Option FilePath :=
  let t := trimReversed p.reverse
  if t = [] ∨ t = ['/'] then none else some (trimReversed (t.dropWhile (· ≠ '/'))).reverse

/-- The last part of a path, if it is a name. -/
def name? (p : FilePath) : Option (List Char) :=
  let n := ((trimReversed p.reverse).takeWhile (· ≠ '/')).reverse
  if n = [] ∨ n = ['.'] ∨ n = ['.', '.'] then none else some n

/-- A name without the last dot in it and what follows, and what follows that dot. A dot at the beginning does not
    begin an extension. -/
def splitExtension (name : List Char) : List Char × Option (List Char) :=
  let tail := (name.reverse.takeWhile (· ≠ '.')).reverse
  let stem := name.take (name.length - tail.length - 1)
  if tail.length = name.length ∨ stem = [] then (name, none) else (stem, some tail)

/-- Gives the last name of a path a new extension, and cuts off what stands behind it. A path that does not end in a
    name stays as it is. -/
def setExtension (p : FilePath) (extension : List Char) : FilePath :=
  match p.name? with
  | none => p
  | some n =>
    let t := trimReversed p.reverse
    (t.drop (n.length - (splitExtension n).1.length)).reverse ++ '.' :: extension

/-- The path with another extension. The old one is cut off first, so that a name that leaves `..` ends the change
    there. -/
def withExtension (p : FilePath) (extension : List Char) : FilePath :=
  match (p.name?.map splitExtension).bind (·.2) with
  | none => p.setExtension extension
  | some old => setExtension (p.take (p.length - old.length)) extension

theorem length_trimReversed (r : List Char) : (trimReversed r).length ≤ r.length := by
  fun_induction trimReversed r <;> simp_all <;> omega

/-- A trimmed path that ends in a slash is nothing else. -/
theorem trimReversed_of_head? (r : List Char) : (trimReversed r).head? = some '/' → trimReversed r = ['/'] := by
  fun_induction trimReversed r with
  | case1 => simp
  | case2 r _ ih => exact ih
  | case3 r ih => exact ih
  | case4 r _ h _ =>
    intro e
    cases r with
    | nil => simp at e
    | cons c r => exact absurd (by simpa using e) fun hc : c = '/' => h r (by rw [hc])

/-- The path of the directory above is shorter. -/
theorem length_parent? {p q : FilePath} (h : p.parent? = some q) : q.length < p.length := by
  unfold parent? at h
  simp only [Option.ite_none_left_eq_some, Option.some.injEq, not_or] at h
  obtain ⟨⟨h1, h2⟩, rfl⟩ := h
  have hp := length_trimReversed p.reverse
  have hh := trimReversed_of_head? p.reverse
  generalize trimReversed p.reverse = t at *
  match t, h1, h2 with
  | c :: t, _, h2 =>
    have hc : c ≠ '/' := by
      rintro rfl; exact h2 (hh rfl)
    have h3 := length_trimReversed ((c :: t).dropWhile (· ≠ '/'))
    have h4 := (List.dropWhile_sublist (fun x : Char => decide (x ≠ '/')) (l := t)).length_le
    rw [List.dropWhile_cons_of_pos (by simpa using hc)] at *
    simp only [List.length_reverse, List.length_cons] at *
    omega

end FilePath
end IdentityVault
