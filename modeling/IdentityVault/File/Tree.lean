import IdentityVault.File.Path
import IdentityVault.Text.Utf8

/-! A tree of files and directories, and how paths lead through it. What is under a list of names is asked with
    `get?`; the lemmas say what the other operations do to the answers. -/

namespace IdentityVault

/-- Why a path does not lead to what was asked for. -/
inductive FileFault where
  | missing
  /-- The path goes on behind a file. -/
  | notDirectory
  | isDirectory
  | alreadyExists
  | nameTooLong
  /-- No path can be like that. -/
  | invalidPath
  /-- The content is not a text. -/
  | notText
  deriving DecidableEq, Repr

inductive FileEntry where
  | directory
  | file (content : Bytes)
  deriving DecidableEq, Repr

/-- What is in a directory: files with their contents, and directories with what is in them. -/
inductive FileTree where
  | empty
  | file (name : String) (content : Bytes) (rest : FileTree)
  | directory (name : String) (below rest : FileTree)
  deriving DecidableEq, Repr

namespace FileTree

/-! ### Entries -/

/-- A file, or a directory with what is in it. -/
inductive Node where
  | file (content : Bytes)
  | directory (below : FileTree)
  deriving DecidableEq, Repr

def Node.entry : Node → FileEntry
  | file b => .file b
  | directory _ => .directory

/-- The node of an entry. A new directory is empty. -/
def Node.ofEntry : FileEntry → Node
  | .file b => file b
  | .directory => directory .empty

def child? : FileTree → String → Option Node
  | empty, _ => none
  | file m b rest, n => if m = n then some (.file b) else rest.child? n
  | directory m below rest, n => if m = n then some (.directory below) else rest.child? n

def without : FileTree → String → FileTree
  | empty, _ => empty
  | file m b rest, n => if m = n then rest.without n else file m b (rest.without n)
  | directory m below rest, n => if m = n then rest.without n else directory m below (rest.without n)

/-- The directory with a node under the given name, in place of the one that had it. -/
def withChild (t : FileTree) (n : String) : Node → FileTree
  | .file b => file n b (t.without n)
  | .directory below => directory n below (t.without n)

@[simp]
theorem child?_without_self (n : String) : ∀ t : FileTree, (t.without n).child? n = none
  | empty => rfl
  | file m b rest => by
    have := child?_without_self n rest
    by_cases h : m = n <;> simp [without, child?, h, this]
  | directory m below rest => by
    have := child?_without_self n rest
    by_cases h : m = n <;> simp [without, child?, h, this]

theorem child?_without {n m : String} (h : n ≠ m) : ∀ t : FileTree, (t.without n).child? m = t.child? m
  | empty => rfl
  | file k b rest => by
    have := child?_without h rest
    by_cases hk : k = n <;> simp_all [without, child?]
  | directory k below rest => by
    have := child?_without h rest
    by_cases hk : k = n <;> simp_all [without, child?]

@[simp]
theorem child?_withChild_self (t : FileTree) (n : String) (x : Node) : (t.withChild n x).child? n = some x := by
  cases x <;> simp [withChild, child?]

theorem child?_withChild {n m : String} (h : n ≠ m) (t : FileTree) (x : Node) :
    (t.withChild n x).child? m = t.child? m := by
  cases x <;> simp [withChild, child?, h, child?_without h]

/-- What is under the given names. Under no name at all there is the directory itself. -/
def node? : FileTree → List String → Option Node
  | t, [] => some (.directory t)
  | t, n :: names =>
    match t.child? n with
    | some (.directory below) => below.node? names
    | some (.file b) => if names = [] then some (.file b) else none
    | none => none

/-- What is under the given names, without what is in it. -/
def get? (t : FileTree) (names : List String) : Option FileEntry := (t.node? names).map Node.entry

/-- The tree with something put under the given names, where their directory is there. -/
def put : FileTree → List String → FileEntry → FileTree
  | t, [], _ => t
  | t, n :: names, e =>
    if names = [] then t.withChild n (.ofEntry e)
    else match t.child? n with
      | some (.directory below) => t.withChild n (.directory (below.put names e))
      | _ => t

def erase : FileTree → List String → FileTree
  | t, [] => t
  | t, n :: names =>
    if names = [] then t.without n
    else match t.child? n with
      | some (.directory below) => t.withChild n (.directory (below.erase names))
      | _ => t

@[simp]
theorem get?_nil (t : FileTree) : t.get? [] = some .directory := rfl

theorem get?_put_self {e : FileEntry} : ∀ {names : List String} {t : FileTree} (n : String),
    t.get? names = some .directory → (t.put (names ++ [n]) e).get? (names ++ [n]) = some e
  | [], t, n, _ => by cases e <;> simp [put, get?, node?, Node.ofEntry, Node.entry]
  | m :: names, t, n, h => by
    rw [get?, node?] at h
    split at h
    · next below hc =>
      have ih : (below.put (names ++ [n]) e).get? (names ++ [n]) = some e := get?_put_self n h
      rw [List.cons_append, put, if_neg (by simp), hc]
      simpa only [get?, node?, child?_withChild_self] using ih
    · split at h <;> simp [Node.entry] at h
    · simp at h

/-- Names that part ways with those of a new entry keep what is under them. -/
theorem get?_put {e : FileEntry} : ∀ {names others : List String} {t : FileTree},
    ¬ names <+: others → ¬ others <+: names → (t.put names e).get? others = t.get? others
  | [], _, _, h, _ => absurd List.nil_prefix h
  | _ :: _, [], _, _, h => absurd List.nil_prefix h
  | n :: names, m :: others, t, h, h' => by
    rw [put]
    by_cases hm : n = m
    · subst hm
      simp only [List.cons_prefix_cons, true_and] at h h'
      rw [if_neg (by rintro rfl; exact h List.nil_prefix)]
      split
      · next below hc =>
        simpa only [get?, node?, child?_withChild_self, hc] using get?_put (t := below) h h'
      · rfl
    · split
      · simp [get?, node?, child?_withChild hm]
      · split
        · simp [get?, node?, child?_withChild hm]
        · rfl

theorem get?_erase_self : ∀ {names : List String} {t : FileTree},
    names ≠ [] → (t.erase names).get? names = none
  | [], _, h => absurd rfl h
  | n :: names, t, _ => by
    rw [erase]
    split
    · simp [get?, node?]
    · next hn =>
      split
      · next below hc =>
        simpa only [get?, node?, child?_withChild_self] using get?_erase_self (t := below) hn
      · next hc =>
        rw [get?, node?]
        split
        · next below hb => exact absurd hb (hc below)
        · simp [hn]
        · rfl

/-- Names that part ways with erased ones keep what is under them. -/
theorem get?_erase : ∀ {names others : List String} {t : FileTree},
    ¬ names <+: others → ¬ others <+: names → (t.erase names).get? others = t.get? others
  | [], _, _, h, _ => absurd List.nil_prefix h
  | _ :: _, [], _, _, h => absurd List.nil_prefix h
  | n :: names, m :: others, t, h, h' => by
    rw [erase]
    by_cases hm : n = m
    · subst hm
      simp only [List.cons_prefix_cons, true_and] at h h'
      rw [if_neg (by rintro rfl; exact h List.nil_prefix)]
      split
      · next below hc =>
        simpa only [get?, node?, child?_withChild_self, hc] using get?_erase (t := below) h h'
      · rfl
    · split
      · simp [get?, node?, child?_without hm]
      · split
        · simp [get?, node?, child?_withChild hm]
        · rfl

/-! ### Paths -/

def longestName : Nat := 255

def longestPath : Nat := 4095

theorem node?_singleton (t : FileTree) (n : String) : t.node? [n] = t.child? n := by
  rw [node?]
  split <;> simp_all [node?]

theorem node?_append_singleton {t here : FileTree} (n : String) : ∀ {names : List String},
    t.node? names = some (.directory here) → t.node? (names ++ [n]) = here.child? n
  | [], h => by
    rw [node?, Option.some.injEq, Node.directory.injEq] at h
    rw [List.nil_append, node?_singleton, h]
  | m :: names, h => by
    rw [node?] at h
    rw [List.cons_append, node?]
    split at h
    · exact node?_append_singleton n h
    · split at h <;> simp at h
    · cases h

/-- A node of a tree, and the names that lead to it, the last one first. -/
structure Spot (t : FileTree) where
  above : List String
  node : Node
  leads : t.node? above.reverse = some node

namespace Spot

variable {t : FileTree}

def names (s : Spot t) : List String := s.above.reverse

def root (t : FileTree) : Spot t := ⟨[], .directory t, rfl⟩

def step (s : Spot t) (piece : List Char) : Except FileFault (Spot t) :=
  match hs : s.node with
  | .file _ => .error .notDirectory
  | .directory here =>
    if piece = ['.'] then .ok s
    else if piece = ['.', '.'] then
      match h : t.node? s.above.tail.reverse with
      | some x => .ok ⟨s.above.tail, x, h⟩
      | none => .error .missing
    else
      let name := String.ofList piece
      if longestName < name.utf8ByteSize then .error .nameTooLong
      else match h : here.child? name with
        | some x => .ok ⟨name :: s.above, x, by
            rw [List.reverse_cons, node?_append_singleton _ (s.leads.trans (congrArg some hs)), h]⟩
        | none => .error .missing

/-- Goes through existing nodes. -/
def walk (s : Spot t) (pieces : List (List Char)) : Except FileFault (Spot t) := pieces.foldlM step s

end Spot

/-- Where a path ends, whether there is something or not. -/
structure Place where
  names : List String
  entry : Option FileEntry
  /-- The path can only mean a directory. -/
  slash : Bool
  deriving DecidableEq, Repr

/-- Follows a path to where its last part is, or would be. -/
def locate (t : FileTree) (base : List String) (p : FilePath) : Except FileFault Place := do
  if p.contains '\x00' then throw .invalidPath
  if p.isEmpty then throw .missing
  if longestPath < (String.ofList p).utf8ByteSize then throw .nameTooLong
  let start ← if p.isAbsolute then pure (Spot.root t) else (Spot.root t).walk (base.map String.toList)
  let pieces := p.pieces
  match pieces.getLast? with
  | none => pure ⟨start.names, some .directory, true⟩
  | some last =>
    let dir ← start.walk pieces.dropLast
    match dir.node with
    | .file _ => throw .notDirectory
    | .directory here =>
      if last = ['.'] then pure ⟨dir.names, some .directory, true⟩
      else if last = ['.', '.'] then pure ⟨dir.names.dropLast, some .directory, true⟩
      else
        let name := String.ofList last
        if longestName < name.utf8ByteSize then throw .nameTooLong
        pure ⟨dir.names ++ [name], (here.child? name).map Node.entry, p.getLast? = some '/'⟩

def status (t : FileTree) (base : List String) (p : FilePath) : Except FileFault FileEntry := do
  let place ← t.locate base p
  match place.entry with
  | none => throw .missing
  | some (.file b) => if place.slash then throw .notDirectory else pure (.file b)
  | some .directory => pure .directory

def read (t : FileTree) (base : List String) (p : FilePath) : Except FileFault Bytes := do
  match ← t.status base p with
  | .file b => pure b
  | .directory => throw .isDirectory

/-- Puts a file at a place where there is no directory. -/
def putFile (t : FileTree) (place : Place) (content : Bytes) : Except FileFault FileTree :=
  match place.entry with
  | some .directory => .error .isDirectory
  | _ => if place.slash then .error .notDirectory else .ok (t.put place.names (.file content))

def write (t : FileTree) (base : List String) (p : FilePath) (content : Bytes) : Except FileFault FileTree := do
  t.putFile (← t.locate base p) content

/-- Moves a file, over the one that was at the other path. Only files are moved. -/
def rename (t : FileTree) (base : List String) (p q : FilePath) : Except FileFault FileTree := do
  let content ← t.read base p
  let source ← t.locate base p
  let target ← t.locate base q
  if source.names = target.names ∧ ¬target.slash then pure t
  else (t.erase source.names).putFile target content

def remove (t : FileTree) (base : List String) (p : FilePath) : Except FileFault FileTree := do
  let _ ← t.read base p
  pure (t.erase (← t.locate base p).names)

/-- Makes a directory in one that is there. -/
def makeDirectory (t : FileTree) (base : List String) (p : FilePath) : Except FileFault FileTree := do
  let place ← t.locate base p
  match place.entry with
  | some _ => throw .alreadyExists
  | none => pure (t.put place.names .directory)

/-- Makes the directories of a chain of names that are not there yet. -/
def withDirectories (t : FileTree) (names : List String) : FileTree :=
  ((List.range names.length).map fun n => names.take (n + 1)).foldl
    (fun t dir => if (t.get? dir).isSome then t else t.put dir .directory) t

/-- The paths of all that is in a directory, behind the given text. Paths of directories end in a slash. -/
def paths (above : String) : FileTree → List String
  | empty => []
  | file n _ rest => (above ++ n) :: paths above rest
  | directory n below rest => (above ++ n ++ "/") :: (paths (above ++ n ++ "/") below ++ paths above rest)

/-- The paths of all that is below a place, in their order as texts. -/
def list (t : FileTree) (base : List String) : List String :=
  match t.node? base with
  | some (.directory below) => (paths "" below).mergeSort fun a b => a ≤ b
  | _ => []

end FileTree
end IdentityVault
