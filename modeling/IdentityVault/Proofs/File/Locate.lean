import IdentityVault.Proofs.File.Path
import IdentityVault.File.World

/-! Where paths lead. The text of a path says under which names it ends, if it leads anywhere: whether it does, depends
    on the directories on its way. Directories never disappear, so that a way that is open stays open. -/

namespace IdentityVault

variable {t t' : FileTree} {base : List String} {p q : FilePath}

/-! ### What a text says -/

namespace FilePath

/-- The names of the directory that a piece leads to. -/
def lead (above : List String) (piece : List Char) : List String :=
  if piece = ['.'] then above else if piece = ['.', '.'] then above.dropLast else above ++ [String.ofList piece]

/-- All pieces that are gone through, from the root on. -/
def route (base : List String) (p : FilePath) : List (List Char) :=
  (if p.isAbsolute then [] else base.map String.toList) ++ p.pieces

/-- The names under which a path ends. -/
def target (base : List String) (p : FilePath) : List String := (p.route base).foldl lead []

theorem foldl_lead_filter (pieces : List (List Char)) (above : List String) :
    (pieces.filter (· ≠ ['.'])).foldl lead above = pieces.foldl lead above := by
  induction pieces generalizing above with
  | nil => rfl
  | cons piece pieces ih =>
    by_cases h : piece = ['.']
    · rw [List.filter_cons_of_neg (by simpa using h), List.foldl_cons, h, ih]
      rfl
    · rw [List.filter_cons_of_pos (by simpa using h), List.foldl_cons, List.foldl_cons, ih]

theorem route_filter (base : List String) (p : FilePath) : (p.route base).filter (· ≠ ['.']) =
    (if p.isAbsolute then [] else base.map String.toList).filter (· ≠ ['.']) ++ p.way := by
  rw [route, List.filter_append, way]

/-- A path whose way goes on from that of another one ends below. -/
theorem target_of_way {rest : List (List Char)} (base : List String) (h : p.isAbsolute = q.isAbsolute)
    (hway : p.way = q.way ++ rest) : p.target base = rest.foldl lead (q.target base) := by
  rw [target, ← foldl_lead_filter, route_filter, h, hway, ← List.append_assoc, ← route_filter, List.foldl_append,
    foldl_lead_filter, target]

/-- Without going up, one gets to what is below. -/
theorem foldl_lead_of_down {pieces : List (List Char)} (h : ∀ piece ∈ pieces, piece ≠ ['.', '.'] ∧ piece ≠ ['.'])
    (above : List String) : pieces.foldl lead above = above ++ pieces.map String.ofList := by
  induction pieces generalizing above with
  | nil => exact (List.append_nil above).symm
  | cons piece pieces ih =>
    obtain ⟨hup, hdot⟩ := h piece List.mem_cons_self
    rw [List.foldl_cons, ih fun piece hm => h piece (List.mem_cons_of_mem _ hm), lead, if_neg hdot, if_neg hup,
      List.append_assoc]
    rfl

theorem ne_dot_of_mem_way {piece : List Char} (h : piece ∈ p.way) : piece ≠ ['.'] := by
  simpa using (List.mem_filter.mp h).2

/-- A piece that can be followed: one that stands for a directory that is there already, or that is not too long to be
    a name. -/
def Fits (piece : List Char) : Prop :=
  piece ≠ ['.'] → piece ≠ ['.', '.'] → (String.ofList piece).utf8ByteSize ≤ FileTree.longestName

/-- A text that can be a path at all. -/
structure Sane (p : FilePath) : Prop where
  plain : '\x00' ∉ p
  ne_nil : p ≠ []
  short : (String.ofList p).utf8ByteSize ≤ FileTree.longestPath

end FilePath

namespace FileTree

/-- What succeeds does so after its first part. -/
theorem bind_eq_ok {α β : Type} {x : Except FileFault α} {f : α → Except FileFault β} {b : β} :
    x.bind f = .ok b ↔ ∃ a, x = .ok a ∧ f a = .ok b := by
  cases x <;> simp [Except.bind]

/-! ### Walks -/

theorem entry_of_directory {x : Node} : x.entry = .directory ↔ ∃ below, x = .directory below := by
  cases x <;> simp [Node.entry]

/-- What lies somewhere lies in directories. -/
theorem get?_of_append {above below : List String} {e : FileEntry} (h : t.get? (above ++ below) = some e)
    (hne : below ≠ []) : t.get? above = some .directory := by
  induction above generalizing t with
  | nil => rfl
  | cons n above ih =>
    rw [List.cons_append, get?, node?] at h
    rw [get?, node?]
    split at h
    · next inner hc => exact ih h
    · split at h
      · next hnil => exact absurd (List.append_eq_nil_iff.mp hnil).2 hne
      · cases h
    · cases h

theorem get?_of_isPrefix {above names : List String} (h : t.get? names = some .directory) (hp : above <+: names) :
    t.get? above = some .directory := by
  obtain ⟨below, rfl⟩ := hp
  by_cases hnil : below = []
  · rwa [hnil, List.append_nil] at h
  · exact get?_of_append h hnil

namespace Spot
variable {s s' : Spot t} {piece : List Char} {pieces : List (List Char)}

theorem get?_names (s : Spot t) : t.get? s.names = some s.node.entry := by
  rw [get?, names, s.leads, Option.map_some]

@[simp]
theorem walk_nil (s : Spot t) : s.walk [] = .ok s := rfl

theorem walk_cons (s : Spot t) (piece : List Char) (pieces : List (List Char)) :
    s.walk (piece :: pieces) = (s.step piece).bind (·.walk pieces) := rfl

theorem walk_append (s : Spot t) (pieces more : List (List Char)) :
    s.walk (pieces ++ more) = (s.walk pieces).bind (·.walk more) := by
  simp only [walk, List.foldlM_append]
  rfl

theorem walk_cons_eq_ok : s.walk (piece :: pieces) = .ok s' ↔ ∃ r, s.step piece = .ok r ∧ r.walk pieces = .ok s' := by
  rw [walk_cons, bind_eq_ok]

theorem walk_append_eq_ok {more : List (List Char)} :
    s.walk (pieces ++ more) = .ok s' ↔ ∃ r, s.walk pieces = .ok r ∧ r.walk more = .ok s' := by
  rw [walk_append, bind_eq_ok]

/-- One step goes from a directory, to it, to the one that it lies in, or to what has the name in it. -/
theorem step_eq_ok (h : s.step piece = .ok s') : s.node.entry = .directory ∧ s'.names = FilePath.lead s.names piece ∧
    FilePath.Fits piece ∧ (piece = ['.'] → s' = s) := by
  rw [step] at h
  split at h
  · cases h
  next here hs =>
  refine ⟨by rw [hs]; rfl, ?_⟩
  rw [FilePath.lead]
  split at h
  · next hdot =>
    cases h
    exact ⟨by rw [if_pos hdot], fun hne => absurd hdot hne, fun _ => rfl⟩
  next hdot =>
  rw [if_neg hdot]
  split at h
  · next hup =>
    rw [if_pos hup]
    split at h
    · cases h
      exact ⟨by simp only [names, List.dropLast_reverse], fun _ hne => absurd hup hne, fun he => absurd he hdot⟩
    · cases h
  next hup =>
  rw [if_neg hup]
  simp only at h
  split at h
  · cases h
  next hfits =>
  split at h
  · cases h
    exact ⟨by simp only [names, List.reverse_cons], fun _ _ => Nat.le_of_not_lt hfits, fun he => absurd he hdot⟩
  · cases h

/-- A step leads on if there is what it leads to. -/
theorem exists_step (hs : s.node.entry = .directory) (hfits : FilePath.Fits piece) {e : FileEntry}
    (he : t.get? (FilePath.lead s.names piece) = some e) : ∃ s', s.step piece = .ok s' := by
  obtain ⟨here, hhere⟩ := entry_of_directory.mp hs
  rw [step]
  split
  · next hfile => rw [hfile] at hhere; cases hhere
  next here' hs' =>
  rw [FilePath.lead] at he
  split
  · exact ⟨_, rfl⟩
  next hdot =>
  rw [if_neg hdot] at he
  split
  · next hup =>
    rw [if_pos hup] at he
    split
    · exact ⟨_, rfl⟩
    · next hnone =>
      have hnames : s.above.tail.reverse = s.names.dropLast := by rw [names, List.dropLast_reverse]
      rw [get?, ← hnames, hnone] at he
      cases he
  next hup =>
  rw [if_neg hup] at he
  simp only
  rw [if_neg (Nat.not_lt.mpr (hfits hdot hup))]
  split
  · exact ⟨_, rfl⟩
  · next hnone =>
    rw [get?, names, node?_append_singleton _ (s.leads.trans (congrArg some hs')), hnone] at he
    cases he

theorem names_walk (h : s.walk pieces = .ok s') : s'.names = pieces.foldl FilePath.lead s.names := by
  induction pieces generalizing s with
  | nil =>
    cases h
    rfl
  | cons piece pieces ih =>
    obtain ⟨r, hr, hw⟩ := walk_cons_eq_ok.mp h
    rw [ih hw, (step_eq_ok hr).2.1, List.foldl_cons]

/-- Only a walk without steps ends where there is no directory at its beginning. -/
theorem directory_of_walk (h : s.walk pieces = .ok s') (hs : s'.node.entry = .directory) :
    s.node.entry = .directory := by
  cases pieces with
  | nil =>
    cases h
    exact hs
  | cons piece pieces =>
    obtain ⟨r, hr, -⟩ := walk_cons_eq_ok.mp h
    exact (step_eq_ok hr).1

end Spot

/-! ### Directories stay -/

/-- The directories of a tree are directories of another one. -/
def Retains (t t' : FileTree) : Prop := ∀ names, t.get? names = some .directory → t'.get? names = some .directory

theorem Retains.refl (t : FileTree) : t.Retains t := fun _ h => h

theorem Retains.trans {t'' : FileTree} (h : t.Retains t') (h' : t'.Retains t'') : t.Retains t'' :=
  fun names hn => h' names (h names hn)

/-- A walk from directory to directory can be made in every tree that has these directories. -/
theorem Spot.walk_of_retains {s r : Spot t} {s' : Spot t'} {pieces : List (List Char)} (h : t.Retains t')
    (hw : s.walk pieces = .ok r) (hr : r.node.entry = .directory) (hs : s'.names = s.names) :
    ∃ r', s'.walk pieces = .ok r' ∧ r'.names = r.names ∧ r'.node.entry = .directory := by
  have hsame {s : Spot t} {s' : Spot t'} (hs : s.node.entry = .directory) (hn : s'.names = s.names) :
      s'.node.entry = .directory := by
    have hdirectory := h s.names (by rw [s.get?_names, hs])
    rw [← hn, s'.get?_names] at hdirectory
    exact Option.some.inj hdirectory
  induction pieces generalizing s s' with
  | nil =>
    cases hw
    exact ⟨s', rfl, hs, hsame hr hs⟩
  | cons piece pieces ih =>
    obtain ⟨u, hu, hrest⟩ := walk_cons_eq_ok.mp hw
    obtain ⟨hdirectory, hnames, hfits, -⟩ := step_eq_ok hu
    have hnext : t'.get? (FilePath.lead s'.names piece) = some .directory := by
      rw [hs, ← hnames]
      exact h _ (by rw [u.get?_names, directory_of_walk hrest hr])
    obtain ⟨u', hu'⟩ := exists_step (hsame hdirectory hs) hfits hnext
    have hnames' : u'.names = u.names := by rw [(step_eq_ok hu').2.1, hnames, hs]
    obtain ⟨r', hr', hsame'⟩ := ih hrest hnames'
    exact ⟨r', walk_cons_eq_ok.mpr ⟨u', hu', hr'⟩, hsame'⟩

/-- Dots make no difference to a walk that ends in a directory. -/
theorem Spot.walk_filter {s r : Spot t} {pieces : List (List Char)} (hr : r.node.entry = .directory) :
    s.walk (pieces.filter (· ≠ ['.'])) = .ok r ↔ s.walk pieces = .ok r := by
  induction pieces generalizing s with
  | nil => rfl
  | cons piece pieces ih =>
    by_cases h : piece = ['.']
    · rw [List.filter_cons_of_neg (by simpa using h), ih, walk_cons_eq_ok]
      constructor
      · intro hw
        obtain ⟨here, hhere⟩ := entry_of_directory.mp (directory_of_walk hw hr)
        refine ⟨s, ?_, hw⟩
        rw [step]
        split
        · next hfile => rw [hfile] at hhere; cases hhere
        · rw [if_pos h]
      · rintro ⟨u, hu, hw⟩
        rwa [(step_eq_ok hu).2.2.2 h] at hw
    · rw [List.filter_cons_of_pos (by simpa using h), walk_cons_eq_ok, walk_cons_eq_ok]
      exact exists_congr fun u => and_congr_right fun _ => ih

/-! ### Places -/

/-- The place to which a last piece leads from a spot. -/
def Spot.settle (s : Spot t) (last : List Char) (slash : Bool) : Except FileFault Place :=
  match s.node with
  | .file _ => .error .notDirectory
  | .directory here =>
    if last = ['.'] then .ok ⟨s.names, some .directory, true⟩
    else if last = ['.', '.'] then .ok ⟨s.names.dropLast, some .directory, true⟩
    else if longestName < (String.ofList last).utf8ByteSize then .error .nameTooLong
    else .ok ⟨s.names ++ [String.ofList last], (here.child? (String.ofList last)).map Node.entry, slash⟩

theorem route_eq_concat {last : List Char} (h : p.pieces.getLast? = some last) :
    p.route base = (p.route base).dropLast ++ [last] := by
  obtain ⟨pieces, hpieces⟩ := List.getLast?_eq_some_iff.mp h
  rw [FilePath.route, hpieces, ← List.append_assoc, List.dropLast_concat]

/-- The pieces before the last one are walked, and the last one says where the path ends. -/
theorem locate_eq (h : p.Sane) {last : List Char} (hl : p.pieces.getLast? = some last) : t.locate base p =
    ((Spot.root t).walk (p.route base).dropLast).bind (·.settle last (p.getLast? = some '/')) := by
  obtain ⟨pieces, hpieces⟩ := List.getLast?_eq_some_iff.mp hl
  have hplain : p.contains '\x00' = false := by simpa using h.plain
  have hnil : p.isEmpty = false := by simpa using h.ne_nil
  have hdrop : (p.route base).dropLast = (if p.isAbsolute then [] else base.map String.toList) ++ pieces := by
    rw [FilePath.route, hpieces, ← List.append_assoc, List.dropLast_concat]
  rw [locate, hdrop, Spot.walk_append]
  simp only [hplain, hnil, Nat.not_lt.mpr h.short, hpieces, List.dropLast_concat, List.getLast?_concat, bind,
    Except.bind, pure, Except.pure, throw, throwThe, MonadExceptOf.throw, Bool.false_eq_true, if_false]
  cases p.isAbsolute with
  | true =>
    simp only [if_true, Spot.walk_nil]
    cases (Spot.root t).walk pieces <;> rfl
  | false =>
    simp only [Bool.false_eq_true, if_false]
    cases (Spot.root t).walk (base.map String.toList) with
    | error f => rfl
    | ok s => cases s.walk pieces <;> rfl

theorem sane_of_locate {place : Place} (h : t.locate base p = .ok place) : p.Sane := by
  rw [locate] at h
  simp only [bind, Except.bind, pure, Except.pure, throw, throwThe, MonadExceptOf.throw] at h
  split at h
  · cases h
  next hplain =>
  split at h
  · cases h
  next hnil =>
  split at h
  · cases h
  next hshort =>
  exact ⟨by simpa using hplain, by simpa using hnil, Nat.le_of_not_lt hshort⟩

namespace Spot
variable {s : Spot t} {last : List Char} {slash : Bool} {place : Place}

/-- What is said of a place is so. -/
theorem settle_eq_ok (h : s.settle last slash = .ok place) : s.node.entry = .directory ∧ FilePath.Fits last ∧
    place.names = FilePath.lead s.names last ∧ place.entry = t.get? place.names ∧
      (last = ['.'] ∨ last = ['.', '.'] → place.entry = some .directory ∧ place.slash = true) ∧
        (last ≠ ['.'] → last ≠ ['.', '.'] → place.slash = slash) := by
  rw [settle] at h
  split at h
  · cases h
  next here hs =>
  refine ⟨by rw [hs]; rfl, ?_⟩
  have hdirectory : t.get? s.names = some .directory := by rw [s.get?_names, hs]; rfl
  rw [FilePath.lead]
  split at h
  · next hdot =>
    cases h
    exact ⟨fun hne => absurd hdot hne, by rw [if_pos hdot], hdirectory.symm, fun _ => ⟨rfl, rfl⟩,
      fun hne => absurd hdot hne⟩
  next hdot =>
  rw [if_neg hdot]
  split at h
  · next hup =>
    cases h
    refine ⟨fun _ hne => absurd hup hne, by rw [if_pos hup], ?_, fun _ => ⟨rfl, rfl⟩, fun _ hne => absurd hup hne⟩
    -- A directory lies in a directory, and the root in itself.
    rcases s.names.eq_nil_or_concat with hnil | ⟨above, n, hconcat⟩
    · rw [hnil]
      rfl
    · rw [hconcat, List.concat_eq_append] at hdirectory ⊢
      rw [List.dropLast_concat]
      exact (get?_of_append hdirectory (by simp)).symm
  next hup =>
  rw [if_neg hup]
  split at h
  · cases h
  next hfits =>
  cases h
  refine ⟨fun _ _ => Nat.le_of_not_lt hfits, rfl, ?_, fun he => absurd he (by simp [hdot, hup]), fun _ _ => rfl⟩
  rw [get?, names, node?_append_singleton _ (s.leads.trans (congrArg some hs))]

theorem exists_settle (hs : s.node.entry = .directory) (hfits : FilePath.Fits last) (slash : Bool) :
    ∃ place, s.settle last slash = .ok place := by
  obtain ⟨here, hhere⟩ := entry_of_directory.mp hs
  rw [settle, hhere]
  simp only
  split
  · exact ⟨_, rfl⟩
  next hdot =>
  split
  · exact ⟨_, rfl⟩
  next hup =>
  rw [if_neg (Nat.not_lt.mpr (hfits hdot hup))]
  exact ⟨_, rfl⟩

end Spot

/-- What is true of the place to which a path leads. Where there is no directory, the path ends in a name. -/
structure Place.Of (place : Place) (t : FileTree) (base : List String) (p : FilePath) : Prop where
  sane : p.Sane
  names : place.names = p.target base
  entry : place.entry = t.get? place.names
  last : place.entry ≠ some .directory → ∃ last above, p.pieces.getLast? = some last ∧ last ≠ ['.'] ∧
    last ≠ ['.', '.'] ∧ place.names = above ++ [String.ofList last] ∧ t.get? above = some .directory
  slash : place.entry ≠ some .directory → place.slash = (p.getLast? = some '/')

theorem locate_eq_ok {place : Place} (h : t.locate base p = .ok place) : place.Of t base p := by
  have hsane := sane_of_locate h
  cases hl : p.pieces.getLast? with
  | none =>
    have hpieces : p.pieces = [] := List.getLast?_eq_none_iff.mp hl
    have habsolute := FilePath.isAbsolute_of_pieces hpieces hsane.ne_nil
    have hplace : place = ⟨[], some .directory, true⟩ := by
      have hplain : p.contains '\x00' = false := by simpa using hsane.plain
      have hnil : p.isEmpty = false := by simpa using hsane.ne_nil
      rw [locate] at h
      simp only [hplain, hnil, Nat.not_lt.mpr hsane.short, habsolute, hl, Bool.false_eq_true, if_false, if_true] at h
      exact (Except.ok.inj h).symm
    have htarget : p.target base = [] := by rw [FilePath.target, FilePath.route, habsolute, hpieces]; rfl
    rw [hplace]
    exact ⟨hsane, htarget.symm, rfl, fun hne => absurd rfl hne, fun hne => absurd rfl hne⟩
  | some last =>
    rw [locate_eq hsane hl, bind_eq_ok] at h
    obtain ⟨s, hw, h⟩ := h
    obtain ⟨hdirectory, -, hnames, hentry, hdots, hslash⟩ := Spot.settle_eq_ok h
    have hroute : p.route base = (p.route base).dropLast ++ [last] := route_eq_concat hl
    have htarget : place.names = p.target base := by
      rw [FilePath.target, hroute, List.foldl_append, hnames, Spot.names_walk hw]
      rfl
    have hname (hne : place.entry ≠ some .directory) : last ≠ ['.'] ∧ last ≠ ['.', '.'] :=
      ⟨fun he => hne (hdots (.inl he)).1, fun he => hne (hdots (.inr he)).1⟩
    refine ⟨hsane, htarget, hentry, fun hne => ?_, fun hne => ?_⟩
    · refine ⟨last, s.names, hl, (hname hne).1, (hname hne).2, ?_, by rw [s.get?_names, hdirectory]⟩
      rw [hnames, FilePath.lead, if_neg (hname hne).1, if_neg (hname hne).2]
    · rw [hslash (hname hne).1 (hname hne).2, decide_eq_true_eq]

/-- A walk through all directories before the last piece comes to a place. -/
theorem exists_locate (h : p.Sane) {last : List Char} (hl : p.pieces.getLast? = some last) {s : Spot t}
    (hw : (Spot.root t).walk (p.route base).dropLast = .ok s) (hs : s.node.entry = .directory)
    (hfits : FilePath.Fits last) : ∃ place, t.locate base p = .ok place := by
  obtain ⟨place, hplace⟩ := Spot.exists_settle hs hfits (p.getLast? = some '/')
  exact ⟨place, by rw [locate_eq h hl, hw]; exact hplace⟩

theorem status_of_locate {place : Place} (h : t.locate base p = .ok place) (hd : place.entry = some .directory) :
    t.status base p = .ok .directory := by
  rw [status, h]
  simp only [bind, Except.bind, hd]
  rfl

theorem locate_of_status {e : FileEntry} (h : t.status base p = .ok e) :
    ∃ place, t.locate base p = .ok place ∧ place.entry = some e ∧ (e ≠ .directory → place.slash = false) := by
  obtain ⟨place, hplace, h⟩ := bind_eq_ok.mp h
  refine ⟨place, hplace, ?_⟩
  split at h
  · cases h
  · next b he =>
    split at h
    · cases h
    · next hslash =>
      cases h
      exact ⟨he, fun _ => by simpa using hslash⟩
  · next he =>
    cases h
    exact ⟨he, fun hne => absurd rfl hne⟩

/-- There is a directory at the end of a path if all its pieces can be walked, to a directory. -/
theorem status_eq_directory (hp : p.pieces ≠ []) : t.status base p = .ok .directory ↔
    p.Sane ∧ ∃ s, (Spot.root t).walk (p.route base) = .ok s ∧ s.node.entry = .directory := by
  obtain ⟨last, hl⟩ : ∃ last, p.pieces.getLast? = some last := ⟨_, List.getLast?_eq_some_getLast hp⟩
  constructor
  · intro h
    obtain ⟨place, hplace, hentry, -⟩ := locate_of_status h
    have hof := locate_eq_ok hplace
    refine ⟨hof.sane, ?_⟩
    rw [locate_eq hof.sane hl, bind_eq_ok] at hplace
    obtain ⟨s, hw, hplace⟩ := hplace
    obtain ⟨hdirectory, hfits, hnames, hget, -⟩ := Spot.settle_eq_ok hplace
    rw [hentry, hnames] at hget
    obtain ⟨s', hs'⟩ := Spot.exists_step hdirectory hfits hget.symm
    refine ⟨s', ?_, ?_⟩
    · rw [route_eq_concat hl, Spot.walk_append_eq_ok]
      exact ⟨s, hw, by rw [Spot.walk_cons, hs']; rfl⟩
    · rw [← (Spot.step_eq_ok hs').2.1, s'.get?_names] at hget
      exact (Option.some.inj hget).symm
  · rintro ⟨hsane, s', hw, hdirectory⟩
    rw [route_eq_concat hl, Spot.walk_append_eq_ok] at hw
    obtain ⟨s, hs, hlast⟩ := hw
    obtain ⟨r, hr, hnil⟩ := Spot.walk_cons_eq_ok.mp hlast
    cases hnil
    obtain ⟨hd, hnames, hfits, -⟩ := Spot.step_eq_ok hr
    obtain ⟨place, hplace⟩ := exists_locate hsane hl hs hd hfits
    have hof := locate_eq_ok hplace
    have htarget : place.names = s'.names := by
      rw [hof.names, FilePath.target, route_eq_concat hl, List.foldl_append, hnames, Spot.names_walk hs]
      rfl
    exact status_of_locate hplace (by rw [hof.entry, htarget, s'.get?_names, hdirectory])

end FileTree
end IdentityVault
