import IdentityVault.Proofs.File.Locate

/-! What an operation does to a tree: it changes what is under the names to which its paths lead, and nothing else. No
    directory disappears. -/

namespace IdentityVault.FileTree

variable {t t' : FileTree} {base : List String} {p q : FilePath} {names others : List String} {b : Bytes}

/-! ### Entries that are put and erased -/

theorem node?_append {below : FileTree} (rest : List String) :
    ∀ {names : List String} {t : FileTree}, t.node? names = some (.directory below) →
      t.node? (names ++ rest) = below.node? rest
  | [], t, h => by
    rw [node?, Option.some.injEq, Node.directory.injEq] at h
    rw [List.nil_append, h]
  | n :: names, t, h => by
    rw [node?] at h
    rw [List.cons_append, node?]
    split at h
    · exact node?_append rest h
    · split at h <;> simp at h
    · cases h

theorem node?_put_self {e : FileEntry} (n : String) : ∀ {names : List String} {t : FileTree},
    t.get? names = some .directory → (t.put (names ++ [n]) e).node? (names ++ [n]) = some (.ofEntry e)
  | [], t, _ => by cases e <;> simp [put, node?, Node.ofEntry]
  | m :: names, t, h => by
    rw [get?, node?] at h
    split at h
    · next below hc =>
      have ih := node?_put_self (e := e) n (t := below) h
      rw [List.cons_append, put, if_neg (by simp), hc]
      simpa only [node?, child?_withChild_self] using ih
    · split at h <;> simp [Node.entry] at h
    · simp at h

variable {above : List String} {n : String}

/-- What is put where no directory was is all that changes. -/
theorem get?_put_of_ne {e : FileEntry} (habove : t.get? above = some .directory)
    (hfree : t.get? (above ++ [n]) ≠ some .directory) (hne : others ≠ above ++ [n]) :
    (t.put (above ++ [n]) e).get? others = t.get? others := by
  have hself := node?_put_self (e := e) n habove
  by_cases hbelow : above ++ [n] <+: others
  · obtain ⟨rest, rfl⟩ := hbelow
    have hrest : rest ≠ [] := fun h => hne (by rw [h, List.append_nil])
    -- Nothing lies below a file or a new directory.
    have hbefore : t.get? (above ++ [n] ++ rest) = none := by
      cases h : t.get? (above ++ [n] ++ rest) with
      | none => rfl
      | some e' => exact absurd (get?_of_append h hrest) hfree
    rw [hbefore]
    cases h : (t.put (above ++ [n]) e).get? (above ++ [n] ++ rest) with
    | none => rfl
    | some e' =>
      have hdirectory := get?_of_append h hrest
      rw [get?, hself, Option.map_some, Option.some.injEq] at hdirectory
      cases e with
      | file => cases hdirectory
      | directory =>
        obtain ⟨m, rest, rfl⟩ := List.exists_cons_of_ne_nil hrest
        rw [get?, node?_append _ hself] at h
        cases h
  · by_cases hprefix : others <+: above ++ [n]
    · rw [get?_of_isPrefix habove ((List.prefix_concat_iff.mp hprefix).resolve_left hne)]
      obtain ⟨rest, hrest⟩ := hprefix
      have hafter : (t.put (above ++ [n]) e).get? (others ++ rest) = some (Node.ofEntry e).entry := by
        rw [hrest, get?, hself, Option.map_some]
      exact get?_of_append hafter fun h => hne (by rw [← hrest, h, List.append_nil])
    · exact get?_put hbelow hprefix

/-- The directories above an entry stay when it is erased. -/
theorem get?_erase_above {below : List String} (hne : below ≠ []) :
    ∀ {above : List String} {t : FileTree}, t.get? above = some .directory →
      (t.erase (above ++ below)).get? above = some .directory
  | [], _, _ => rfl
  | m :: above, t, h => by
    rw [get?, node?] at h
    split at h
    · next inner hc =>
      have ih := get?_erase_above hne (t := inner) h
      rw [List.cons_append, erase, if_neg (by simp [hne]), hc]
      simpa only [get?, node?, child?_withChild_self] using ih
    · split at h <;> simp [Node.entry] at h
    · simp at h

/-- A file that is erased is all that changes. -/
theorem get?_erase_of_ne (hfile : t.get? names = some (.file b)) (hne : others ≠ names) :
    (t.erase names).get? others = t.get? others := by
  have hnames : names ≠ [] := by
    rintro rfl
    cases hfile
  by_cases hbelow : names <+: others
  · obtain ⟨rest, rfl⟩ := hbelow
    have hrest : rest ≠ [] := fun h => hne (by rw [h, List.append_nil])
    have hbefore : t.get? (names ++ rest) = none := by
      cases h : t.get? (names ++ rest) with
      | none => rfl
      | some e => cases (get?_of_append h hrest).symm.trans hfile
    rw [hbefore]
    cases h : (t.erase names).get? (names ++ rest) with
    | none => rfl
    | some e => cases (get?_of_append h hrest).symm.trans (get?_erase_self hnames)
  · by_cases hprefix : others <+: names
    · obtain ⟨rest, rfl⟩ := hprefix
      have hrest : rest ≠ [] := fun h => hne (by rw [h, List.append_nil])
      have hdirectory := get?_of_append hfile hrest
      rw [hdirectory, get?_erase_above hrest hdirectory]
    · exact get?_erase hbelow hprefix

/-! ### Operations that succeed -/

theorem read_eq_ok (h : t.read base p = .ok b) :
    ∃ place, t.locate base p = .ok place ∧ place.entry = some (.file b) ∧ place.slash = false := by
  obtain ⟨e, hs, h⟩ := bind_eq_ok.mp h
  cases e with
  | directory => cases h
  | file b' =>
    cases h
    obtain ⟨place, hplace, hentry, hslash⟩ := locate_of_status hs
    exact ⟨place, hplace, hentry, hslash (by simp)⟩

theorem putFile_eq_ok {place : Place} : t.putFile place b = .ok t' ↔
    place.entry ≠ some .directory ∧ place.slash = false ∧ t' = t.put place.names (.file b) := by
  rw [putFile]
  rcases place.entry with _ | _ | b' <;> cases place.slash <;> simp [eq_comm]

theorem write_eq_ok (h : t.write base p b = .ok t') : ∃ place, t.locate base p = .ok place ∧
    place.entry ≠ some .directory ∧ t' = t.put place.names (.file b) := by
  obtain ⟨place, hplace, h⟩ := bind_eq_ok.mp h
  obtain ⟨hentry, -, ht⟩ := putFile_eq_ok.mp h
  exact ⟨place, hplace, hentry, ht⟩

theorem remove_eq_ok (h : t.remove base p = .ok t') : ∃ place b, t.locate base p = .ok place ∧
    place.entry = some (.file b) ∧ t' = t.erase place.names := by
  obtain ⟨b, hr, h⟩ := bind_eq_ok.mp h
  obtain ⟨place, hplace, hentry, -⟩ := read_eq_ok hr
  rw [hplace] at h
  cases h
  exact ⟨place, b, hplace, hentry, rfl⟩

theorem makeDirectory_eq_ok (h : t.makeDirectory base p = .ok t') : ∃ place, t.locate base p = .ok place ∧
    place.entry = none ∧ t' = t.put place.names .directory := by
  obtain ⟨place, hplace, h⟩ := bind_eq_ok.mp h
  split at h
  · cases h
  · next hentry =>
    cases h
    exact ⟨place, hplace, hentry, rfl⟩

theorem locate_of_makeDirectory (h : t.makeDirectory base p = .error .missing) : t.locate base p = .error .missing := by
  rw [makeDirectory] at h
  cases hl : t.locate base p with
  | error f =>
    rw [hl] at h
    cases h
    rfl
  | ok place =>
    rw [hl] at h
    simp only [bind, Except.bind] at h
    split at h <;> cases h

theorem rename_eq_ok (h : t.rename base p q = .ok t') : ∃ source target b, t.locate base p = .ok source ∧
    t.locate base q = .ok target ∧ source.entry = some (.file b) ∧ target.entry ≠ some .directory ∧
      target.slash = false ∧ (source.names = target.names ∧ t' = t ∨
        source.names ≠ target.names ∧ t' = (t.erase source.names).put target.names (.file b)) := by
  obtain ⟨b, hr, h⟩ := bind_eq_ok.mp h
  obtain ⟨source, hsource, h⟩ := bind_eq_ok.mp h
  obtain ⟨target, htarget, h⟩ := bind_eq_ok.mp h
  obtain ⟨place, hplace, hentry, -⟩ := read_eq_ok hr
  cases hsource.symm.trans hplace
  refine ⟨source, target, b, hsource, htarget, hentry, ?_⟩
  split at h
  · next hsame =>
    cases h
    refine ⟨?_, by simpa using hsame.2, .inl ⟨hsame.1, rfl⟩⟩
    rw [(locate_eq_ok htarget).entry, ← hsame.1, ← (locate_eq_ok hsource).entry, hentry]
    simp
  · next hdiffer =>
    obtain ⟨hfree, hslash, ht⟩ := putFile_eq_ok.mp h
    exact ⟨hfree, hslash, .inr ⟨fun he => hdiffer ⟨he, by simp [hslash]⟩, ht⟩⟩

/-! ### What changes -/

/-- Between two trees, nothing changes but what is under the given names, and no directory disappears. -/
structure Alters (names : List (List String)) (t t' : FileTree) : Prop where
  elsewhere : ∀ others ∉ names, t'.get? others = t.get? others
  retains : t.Retains t'

namespace Alters
variable {altered : List (List String)} {t'' : FileTree}

theorem refl (altered : List (List String)) (t : FileTree) : Alters altered t t :=
  ⟨fun _ _ => rfl, .refl t⟩

theorem trans {more : List (List String)} (h : Alters altered t t') (h' : Alters more t' t'') :
    Alters (altered ++ more) t t'' := by
  refine ⟨fun others hn => ?_, h.retains.trans h'.retains⟩
  rw [List.mem_append, not_or] at hn
  rw [h'.elsewhere others hn.2, h.elsewhere others hn.1]

/-- Where no directory was, none disappears. -/
theorem of_elsewhere (hfree : t.get? names ≠ some .directory)
    (helsewhere : ∀ others, others ≠ names → t'.get? others = t.get? others) : Alters [names] t t' := by
  refine ⟨fun others hn => helsewhere others fun he => hn (he ▸ List.mem_singleton_self others), fun others hd => ?_⟩
  rwa [helsewhere others fun he => hfree (he ▸ hd)]

end Alters

/-- A place where there is no directory is a name in a directory. -/
theorem Place.Of.eq_concat {place : Place} (h : place.Of t base p) (he : place.entry ≠ some .directory) :
    ∃ above n, place.names = above ++ [n] ∧ t.get? above = some .directory := by
  obtain ⟨last, above, -, -, -, hnames, habove⟩ := h.last he
  exact ⟨above, String.ofList last, hnames, habove⟩

theorem alters_put {place : Place} {e : FileEntry} (h : place.Of t base p) (he : place.entry ≠ some .directory) :
    Alters [place.names] t (t.put place.names e) := by
  obtain ⟨above, n, hnames, habove⟩ := h.eq_concat he
  rw [h.entry] at he
  refine .of_elsewhere he fun others hne => ?_
  rw [hnames] at he hne ⊢
  exact get?_put_of_ne habove he hne

theorem alters_erase (h : t.get? names = some (.file b)) : Alters [names] t (t.erase names) :=
  .of_elsewhere (by simp [h]) fun _ hne => get?_erase_of_ne h hne

theorem alters_write (h : t.write base p b = .ok t') : ∃ place, t.locate base p = .ok place ∧
    Alters [place.names] t t' := by
  obtain ⟨place, hplace, hentry, rfl⟩ := write_eq_ok h
  exact ⟨place, hplace, alters_put (locate_eq_ok hplace) hentry⟩

theorem alters_remove (h : t.remove base p = .ok t') : ∃ place, t.locate base p = .ok place ∧
    Alters [place.names] t t' := by
  obtain ⟨place, b, hplace, hentry, rfl⟩ := remove_eq_ok h
  exact ⟨place, hplace, alters_erase ((locate_eq_ok hplace).entry.symm.trans hentry)⟩

/-- A file is put where no directory is, after another one was erased. -/
theorem alters_put_erase {place : Place} (b' : Bytes) (h : place.Of t base p) (he : place.entry ≠ some .directory)
    (hfile : t.get? names = some (.file b)) (hne : names ≠ place.names) :
    Alters [place.names] (t.erase names) ((t.erase names).put place.names (.file b')) ∧
      ((t.erase names).put place.names (.file b')).get? place.names = some (.file b') := by
  have herase := alters_erase hfile
  obtain ⟨above, n, hnames, habove⟩ := h.eq_concat he
  rw [h.entry] at he
  have hstill : (t.erase names).get? place.names ≠ some .directory := by
    rwa [herase.elsewhere _ (by simpa using hne.symm)]
  rw [hnames] at hstill ⊢
  exact ⟨.of_elsewhere hstill fun others ho => get?_put_of_ne (herase.retains above habove) hstill ho,
    get?_put_self n (herase.retains above habove)⟩

theorem alters_rename (h : t.rename base p q = .ok t') : ∃ source target, t.locate base p = .ok source ∧
    t.locate base q = .ok target ∧ Alters [source.names, target.names] t t' := by
  obtain ⟨source, target, b, hsource, htarget, hfile, hfree, -, ⟨-, rfl⟩ | ⟨hne, rfl⟩⟩ := rename_eq_ok h
  · exact ⟨source, target, hsource, htarget, .refl _ _⟩
  have hget := (locate_eq_ok hsource).entry.symm.trans hfile
  have hput := (alters_put_erase b (locate_eq_ok htarget) hfree hget hne).1
  exact ⟨source, target, hsource, htarget, (alters_erase hget).trans hput⟩

/-- A new directory is not where anything was. -/
theorem alters_makeDirectory (h : t.makeDirectory base p = .ok t') : ∃ place, t.locate base p = .ok place ∧
    Alters [place.names] t t' ∧ t.get? place.names = none ∧ t'.get? place.names = some .directory := by
  obtain ⟨place, hplace, hentry, rfl⟩ := makeDirectory_eq_ok h
  have hof := locate_eq_ok hplace
  obtain ⟨above, n, hnames, habove⟩ := hof.eq_concat (by simp [hentry])
  refine ⟨place, hplace, alters_put hof (by simp [hentry]), hof.entry.symm.trans hentry, ?_⟩
  rw [hnames]
  exact get?_put_self n habove

/-! ### Directories that are there -/

theorem status_of_retains (h : t.Retains t') (hp : p.pieces ≠ []) (hd : t.status base p = .ok .directory) :
    t'.status base p = .ok .directory := by
  obtain ⟨hsane, s, hw, hs⟩ := (status_eq_directory hp).mp hd
  have hroot : (Spot.root t').names = (Spot.root t).names := rfl
  obtain ⟨s', hw', -, hs'⟩ := Spot.walk_of_retains h hw hs hroot
  exact (status_eq_directory hp).mpr ⟨hsane, s', hw', hs'⟩

/-- A path that leads to a place leads to one wherever the directories are there. -/
theorem locate_of_retains {place : Place} (h : t.Retains t') (hplace : t.locate base p = .ok place)
    (hentry : place.entry ≠ some .directory) : ∃ place', t'.locate base p = .ok place' := by
  have hof := locate_eq_ok hplace
  obtain ⟨last, -, hl, -⟩ := hof.last hentry
  rw [locate_eq hof.sane hl, bind_eq_ok] at hplace
  obtain ⟨s, hw, hplace⟩ := hplace
  obtain ⟨hs, hfits, -⟩ := Spot.settle_eq_ok hplace
  have hroot : (Spot.root t').names = (Spot.root t).names := rfl
  obtain ⟨s', hw', -, hs'⟩ := Spot.walk_of_retains h hw hs hroot
  exact exists_locate hof.sane hl hw' hs' hfits

theorem status_of_makeDirectory (h : t.makeDirectory base p = .ok t') : t'.status base p = .ok .directory := by
  obtain ⟨place, hplace, ha, hnone, hdirectory⟩ := alters_makeDirectory h
  have hof := locate_eq_ok hplace
  obtain ⟨place', hplace'⟩ := locate_of_retains ha.retains hplace (by simp [hof.entry, hnone])
  have hof' := locate_eq_ok hplace'
  exact status_of_locate hplace' (by rw [hof'.entry, hof'.names, ← hof.names, hdirectory])

end IdentityVault.FileTree
