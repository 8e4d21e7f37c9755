import IdentityVault.Proofs.File.Trace

/-! Paths that go on from a directory without going up. Where the directory is there, the end of such a path is below
    it, and so are the directories on the way and the unfinished version of the file. -/

namespace IdentityVault

variable {t t' : FileTree} {base : List String} {o p q : FilePath} {n : List Char} {rest : List (List Char)}

namespace FilePath

/-- The path `p` goes on from `o`, through the given pieces. -/
structure Below (o p : FilePath) (rest : List (List Char)) : Prop where
  isAbsolute : p.isAbsolute = o.isAbsolute
  way : p.way = o.way ++ rest
  down : ['.', '.'] ∉ rest

namespace Below

theorem join (h : q.isAbsolute = false) (hdown : ['.', '.'] ∉ q.way) : Below o (o.join q) q.way :=
  ⟨isAbsolute_join h, way_join h, hdown⟩

/-- All pieces are names. -/
theorem names (h : Below o p rest) : ∀ piece ∈ rest, piece ≠ ['.', '.'] ∧ piece ≠ ['.'] := by
  refine fun piece hm => ⟨fun he => h.down (he ▸ hm), ?_⟩
  exact ne_dot_of_mem_way (p := p) (h.way ▸ List.mem_append_right _ hm)

theorem target (h : Below o p rest) (base : List String) :
    p.target base = o.target base ++ rest.map String.ofList := by
  rw [target_of_way base h.isAbsolute h.way, foldl_lead_of_down h.names]

theorem way_ne_nil (h : Below o p (rest ++ [n])) : p.way ≠ [] := by
  rw [h.way]
  simp

theorem lastPiece (h : Below o p (rest ++ [n])) : p.lastPiece = n :=
  lastPiece_of_way (by rw [h.way, List.append_assoc])

theorem dropLast (h : Below o p (rest ++ [n])) : p.way.dropLast = o.way ++ rest := by
  rw [h.way, ← List.append_assoc, List.dropLast_concat]

theorem parent? (h : Below o p (rest ++ [n])) (hq : p.parent? = some q) (hne : q ≠ []) : Below o q rest := by
  refine ⟨(isAbsolute_of_isPrefix (parent?_isPrefix hq) hne).trans h.isAbsolute, ?_, fun hm => h.down ?_⟩
  · rw [way_parent? hq h.way_ne_nil, h.dropLast]
  · exact List.mem_append_left _ hm

/-- The unfinished version is beside the file, unless its path goes up at its end. -/
theorem unfinished (h : Below o p (rest ++ [n])) : Below o (FileAction.unfinished p) (rest ++ [scratch n]) ∨
    (FileAction.unfinished p).pieces.getLast? = some ['.', '.'] := by
  have hslash := p.slash_not_mem_lastPiece
  have hup : p.lastPiece ≠ ['.', '.'] := by
    intro he
    rw [h.lastPiece] at he
    exact h.down (he ▸ List.mem_append_right _ (List.mem_singleton_self n))
  rcases FileAction.unfinished_cases (name?_eq h.way_ne_nil hup) with he | ⟨-, he⟩
  · have hslash' := slash_not_mem_scratch hslash
    obtain ⟨hnil, hdot, hup'⟩ := scratch_ne p.lastPiece
    rw [he, ← h.lastPiece]
    refine .inl ⟨?_, ?_, ?_⟩
    · rw [isAbsolute_beforeLast_append h.way_ne_nil hslash' hnil, h.isAbsolute]
    · rw [way_beforeLast_append h.way_ne_nil hslash' hnil hdot, h.dropLast, List.append_assoc]
    · rw [List.mem_append, List.mem_singleton, not_or]
      exact ⟨fun hm => h.down (List.mem_append_left _ hm), hup'.symm⟩
  · rw [he]
    exact .inr (p.getLast?_beforeLast_append (by decide) (by decide))

end Below

end FilePath

/-! ### What is touched -/

section touched
variable {w : FileWorld} {names : List String} {b : Bytes}

/-- Where an unfinished version is written, it is beside the file. -/
theorem touched_write_unfinished (h : o.Below p (rest ++ [n]))
    (hn : names ∈ (FileEffect.write (FileAction.unfinished p) b).touched w) :
    names = o.target w.base ++ (rest ++ [FilePath.scratch n]).map String.ofList := by
  rcases h.unfinished with hbelow | hup
  · rw [FileWorld.eq_target_of_mem_places hn, hbelow.target]
  · rw [FileEffect.touched_write_of_up hup] at hn
    cases hn

theorem touched_rename_unfinished (h : o.Below p (rest ++ [n]))
    (hn : names ∈ (FileEffect.rename (FileAction.unfinished p) p).touched w) :
    names = o.target w.base ++ (rest ++ [FilePath.scratch n]).map String.ofList ∨
      names = o.target w.base ++ (rest ++ [n]).map String.ofList := by
  rcases h.unfinished with hbelow | hup
  · refine (List.mem_append.mp hn).imp (fun hn => ?_) fun hn => ?_
    · rw [FileWorld.eq_target_of_mem_places hn, hbelow.target]
    · rw [FileWorld.eq_target_of_mem_places hn, h.target]
  · rw [FileEffect.touched_rename_of_up hup] at hn
    cases hn

end touched

theorem FilePath.Sane.of_isPrefix (h : p.Sane) (hbegin : o <+: p) (hne : o ≠ []) : o.Sane := by
  obtain ⟨r, rfl⟩ := hbegin
  have hshort := h.short
  rw [String.ofList_append, String.utf8ByteSize_append] at hshort
  exact ⟨fun hm => h.plain (List.mem_append_left _ hm), hne, Nat.le_trans (Nat.le_add_right _ _) hshort⟩

namespace FileTree

/-- Paths with the same way lead to the same directory. -/
theorem status_of_way (h : p.isAbsolute = o.isAbsolute) (hway : p.way = o.way) (hne : o.way ≠ []) (hp : p.Sane)
    (ho : t.status base o = .ok .directory) : t.status base p = .ok .directory := by
  have hpieces {q : FilePath} (hq : q.way ≠ []) : q.pieces ≠ [] := fun he => hq (by rw [FilePath.way, he]; rfl)
  obtain ⟨-, s, hs, hd⟩ := (status_eq_directory (hpieces hne)).mp ho
  refine (status_eq_directory (hpieces (hway ▸ hne))).mpr ⟨hp, s, ?_, hd⟩
  rwa [← Spot.walk_filter hd, FilePath.route_filter, h, hway, ← FilePath.route_filter, Spot.walk_filter hd]

/-- On the way to a directory that is there, nothing is missing. -/
theorem locate_ne_missing (h : p.isAbsolute = o.isAbsolute) (hway : p.way = o.way) (hne : o.way ≠ [])
    (ho : t.status base o = .ok .directory) : t.locate base p ≠ .error .missing := by
  by_cases hp : p.Sane
  · obtain ⟨place, hplace, -⟩ := locate_of_status (status_of_way h hway hne hp ho)
    simp [hplace]
  intro hmissing
  rw [locate] at hmissing
  simp only [bind, Except.bind, pure, Except.pure, throw, throwThe, MonadExceptOf.throw] at hmissing
  split at hmissing
  · cases hmissing
  next hplain =>
  split at hmissing
  · next hnil =>
    rw [List.isEmpty_iff.mp hnil] at hway
    exact hne hway.symm
  next hnil =>
  split at hmissing
  · cases hmissing
  next hshort => exact hp ⟨by simpa using hplain, by simpa using hnil, Nat.le_of_not_lt hshort⟩

/-! ### Files below a directory -/

/-- Without dots, what comes before the last piece is the way to the directory, and what follows it. -/
theorem dropLast_route {last : List Char} (h : o.Below p (rest ++ [n])) (base : List String)
    (hl : p.pieces.getLast? = some last) (hdot : last ≠ ['.']) :
    (p.route base).dropLast.filter (· ≠ ['.']) = (o.route base).filter (· ≠ ['.']) ++ rest := by
  have hconcat : p.route base = _ := route_eq_concat hl
  have hroute := congrArg (List.filter (· ≠ ['.'])) hconcat
  rw [FilePath.route_filter, List.filter_append, h.way, h.isAbsolute, ← List.append_assoc,
    ← FilePath.route_filter, ← List.append_assoc] at hroute
  exact (List.append_inj' hroute (by simp [hdot])).1.symm

namespace Spot
variable {s s' : Spot t} {pieces : List (List Char)}

theorem fits_of_walk (h : s.walk pieces = .ok s') : ∀ piece ∈ pieces, FilePath.Fits piece := by
  induction pieces generalizing s with
  | nil => exact fun piece hm => absurd hm List.not_mem_nil
  | cons piece pieces ih =>
    obtain ⟨r, hr, hw⟩ := walk_cons_eq_ok.mp h
    exact List.forall_mem_cons.mpr ⟨(step_eq_ok hr).2.2.1, ih hw⟩

/-- One can walk down to a directory that is there. -/
theorem exists_walk (hfits : ∀ piece ∈ pieces, FilePath.Fits piece)
    (hdown : ∀ piece ∈ pieces, piece ≠ ['.', '.'] ∧ piece ≠ ['.'])
    (h : t.get? (s.names ++ pieces.map String.ofList) = some .directory) :
    ∃ r, s.walk pieces = .ok r ∧ r.node.entry = .directory := by
  induction pieces generalizing s with
  | nil =>
    rw [List.map_nil, List.append_nil, s.get?_names, Option.some.injEq] at h
    exact ⟨s, rfl, h⟩
  | cons piece pieces ih =>
    rw [List.forall_mem_cons] at hfits hdown
    have hs : s.node.entry = .directory := by
      simpa only [s.get?_names, Option.some.injEq] using get?_of_isPrefix h (List.prefix_append _ _)
    have hlead : FilePath.lead s.names piece = s.names ++ [String.ofList piece] := by
      rw [FilePath.lead, if_neg hdown.1.2, if_neg hdown.1.1]
    rw [List.map_cons, List.append_cons, ← hlead] at h
    obtain ⟨r, hr⟩ := exists_step hs hfits.1 (get?_of_isPrefix h (List.prefix_append _ _))
    rw [← (step_eq_ok hr).2.1] at h
    obtain ⟨s', hs', hd⟩ := ih hfits.2 hdown.2 h
    exact ⟨s', walk_cons_eq_ok.mpr ⟨r, hr, hs'⟩, hd⟩

end Spot

/-- A path that leads to a place below a directory does so in any other tree where the directories are there. -/
theorem locate_of_locate {place : Place} (h : o.Below p (rest ++ [n])) (hplace : t.locate base p = .ok place)
    (hentry : place.entry ≠ some .directory) (ho : t'.status base o = .ok .directory) (hne : o.way ≠ [])
    (habove : t'.get? (o.target base ++ rest.map String.ofList) = some .directory) :
    ∃ place', t'.locate base p = .ok place' := by
  have hof := locate_eq_ok hplace
  obtain ⟨last, -, hl, hdot, -⟩ := hof.last hentry
  rw [locate_eq hof.sane hl, bind_eq_ok] at hplace
  obtain ⟨s, hw, hplace⟩ := hplace
  obtain ⟨hdirectory, hfits, -⟩ := Spot.settle_eq_ok hplace
  have hway := dropLast_route h base hl hdot
  rw [← Spot.walk_filter hdirectory, hway] at hw
  obtain ⟨-, so, hso, hdo⟩ := (status_eq_directory fun he => hne (by rw [FilePath.way, he]; rfl)).mp ho
  have hnames : so.names = o.target base := Spot.names_walk hso
  rw [← hnames] at habove
  obtain ⟨r, hr, hd⟩ := Spot.exists_walk (fun piece hm => Spot.fits_of_walk hw piece (List.mem_append_right _ hm))
    (fun piece hm => h.names piece (List.mem_append_left _ hm)) habove
  refine exists_locate hof.sane hl (s := r) ?_ hd hfits
  rw [← Spot.walk_filter hd, hway, Spot.walk_append_eq_ok]
  exact ⟨so, (Spot.walk_filter hdo).mpr hso, hr⟩

/-- A path that goes on from a directory and leads to a place in which there is no directory shows that the directory
    is there. -/
theorem status_of_below {place : Place} (h : o.Below p (rest ++ [n])) (hbegin : o <+: p) (hne : o.way ≠ [])
    (hplace : t.locate base p = .ok place) (hentry : place.entry ≠ some .directory) :
    t.status base o = .ok .directory := by
  have hof := locate_eq_ok hplace
  obtain ⟨last, -, hl, hdot, -⟩ := hof.last hentry
  rw [locate_eq hof.sane hl, bind_eq_ok] at hplace
  obtain ⟨s, hw, hplace⟩ := hplace
  obtain ⟨hdirectory, -⟩ := Spot.settle_eq_ok hplace
  rw [← Spot.walk_filter hdirectory, dropLast_route h base hl hdot, Spot.walk_append_eq_ok] at hw
  obtain ⟨so, hso, hrest⟩ := hw
  have hdo : so.node.entry = .directory := Spot.directory_of_walk hrest hdirectory
  have hsane : o.Sane := hof.sane.of_isPrefix hbegin fun he => hne (by rw [he]; rfl)
  exact (status_eq_directory fun he => hne (by rw [FilePath.way, he]; rfl)).mpr
    ⟨hsane, so, (Spot.walk_filter hdo).mp hso, hdo⟩

theorem read_of_locate {place : Place} {b : Bytes} (h : t.locate base p = .ok place)
    (he : place.entry = some (.file b)) (hs : place.slash = false) : t.read base p = .ok b := by
  rw [read, status, h]
  simp only [bind, Except.bind, he, hs]
  rfl

/-- By a path below a directory that can be read, one reads the file at its end in any other tree with the
    directory. -/
theorem read_of_read {b b' : Bytes} (h : o.Below p (rest ++ [n])) (hread : t.read base p = .ok b)
    (ho : t'.status base o = .ok .directory) (hne : o.way ≠ []) (hfile : t'.get? (p.target base) = some (.file b')) :
    t'.read base p = .ok b' := by
  obtain ⟨place, hplace, hentry, hslash⟩ := read_eq_ok hread
  have hnot : place.entry ≠ some .directory := by simp [hentry]
  have habove : t'.get? (o.target base ++ rest.map String.ofList) = some .directory := by
    rw [h.target, List.map_append, ← List.append_assoc] at hfile
    exact get?_of_append hfile (by simp)
  obtain ⟨place', hplace'⟩ := locate_of_locate h hplace hnot ho hne habove
  have hof := locate_eq_ok hplace
  have hof' := locate_eq_ok hplace'
  have hentry' : place'.entry = some (.file b') := by rw [hof'.entry, hof'.names, hfile]
  refine read_of_locate hplace' hentry' ?_
  have hend := hof.slash hnot
  have hend' := hof'.slash (by simp [hentry'])
  rw [← hend, hslash] at hend'
  simpa using hend'

end FileTree
end IdentityVault
