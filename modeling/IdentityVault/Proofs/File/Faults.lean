import IdentityVault.Proofs.File.Change

/-! Paths on which nothing can be read. As long as directories stay directories and files stay files, such a path fails
    in the same way, unless it failed because something is missing. -/

namespace IdentityVault.FileTree

variable {t t' : FileTree} {base : List String} {p : FilePath} {fault : FileFault}

/-- All directories of a tree are directories of another one, and all files are files of it. -/
structure Lasting (t t' : FileTree) : Prop where
  retains : t.Retains t'
  files : ∀ names b, t.get? names = some (.file b) → ∃ b', t'.get? names = some (.file b')

namespace Spot
variable {s r : Spot t} {s' : Spot t'} {piece : List Char} {pieces : List (List Char)}

theorem directory_of_lasting (h : t.Lasting t') (hs : s'.names = s.names) (hd : s.node.entry = .directory) :
    s'.node.entry = .directory := by
  have hdirectory := h.retains s.names (by rw [s.get?_names, hd])
  rw [← hs, s'.get?_names] at hdirectory
  exact Option.some.inj hdirectory

theorem file_of_lasting (h : t.Lasting t') (hs : s'.names = s.names) {b : Bytes} (hb : s.node = .file b) :
    ∃ b', s'.node = .file b' := by
  obtain ⟨b', hb'⟩ := h.files s.names b (by rw [s.get?_names, hb]; rfl)
  rw [← hs, s'.get?_names, Option.some.injEq] at hb'
  cases hn : s'.node with
  | directory below =>
    rw [hn] at hb'
    cases hb'
  | file b' => exact ⟨b', rfl⟩

/-- A step that fails although nothing is missing starts at a file, or the name is too long. -/
theorem step_eq_error (hr : s.step piece = .error fault) (hne : fault ≠ .missing) :
    (fault = .notDirectory ∧ ∃ b, s.node = .file b) ∨
      fault = .nameTooLong ∧ s.node.entry = .directory ∧ ¬ FilePath.Fits piece := by
  rw [step] at hr
  split at hr
  · next b hb =>
    cases hr
    exact .inl ⟨rfl, b, hb⟩
  next here hs =>
  split at hr
  · cases hr
  next hdot =>
  split at hr
  · split at hr
    · cases hr
    · cases hr
      exact absurd rfl hne
  next hup =>
  simp only at hr
  split at hr
  · next hlong =>
    cases hr
    exact .inr ⟨rfl, by rw [hs]; rfl, fun hfits => Nat.not_le.mpr hlong (hfits hdot hup)⟩
  · split at hr
    · cases hr
    · cases hr
      exact absurd rfl hne

theorem step_of_file {b : Bytes} (hs : s.node = .file b) (piece : List Char) : s.step piece = .error .notDirectory := by
  rw [step]
  split
  · rfl
  · next here hd =>
    rw [hs] at hd
    cases hd

theorem step_of_long (hs : s.node.entry = .directory) (hlong : ¬ FilePath.Fits piece) :
    s.step piece = .error .nameTooLong := by
  obtain ⟨here, hhere⟩ := entry_of_directory.mp hs
  simp only [FilePath.Fits, not_forall, Nat.not_le] at hlong
  obtain ⟨hdot, hup, hlong⟩ := hlong
  rw [step]
  split
  · next b hb =>
    rw [hhere] at hb
    cases hb
  · rw [if_neg hdot, if_neg hup]
    simp only
    rw [if_pos hlong]

/-- A step that leads on does so where all that there is lasts. -/
theorem exists_step_of_lasting (h : t.Lasting t') (hs : s'.names = s.names) (hr : s.step piece = .ok r) :
    ∃ r', s'.step piece = .ok r' ∧ r'.names = r.names := by
  obtain ⟨hd, hnames, hfits, -⟩ := step_eq_ok hr
  have hnext : ∃ e, t'.get? (FilePath.lead s'.names piece) = some e := by
    rw [hs, ← hnames]
    cases hnode : r.node with
    | directory below => exact ⟨_, h.retains _ (by rw [r.get?_names, hnode]; rfl)⟩
    | file b =>
      obtain ⟨b', hb'⟩ := h.files r.names b (by rw [r.get?_names, hnode]; rfl)
      exact ⟨_, hb'⟩
  obtain ⟨e, he⟩ := hnext
  obtain ⟨r', hr'⟩ := exists_step (directory_of_lasting h hs hd) hfits he
  exact ⟨r', hr', by rw [(step_eq_ok hr').2.1, hnames, hs]⟩

theorem exists_walk_of_lasting (h : t.Lasting t') (hs : s'.names = s.names) (hw : s.walk pieces = .ok r) :
    ∃ r', s'.walk pieces = .ok r' ∧ r'.names = r.names := by
  induction pieces generalizing s s' with
  | nil =>
    cases hw
    exact ⟨s', rfl, hs⟩
  | cons piece pieces ih =>
    obtain ⟨u, hu, hrest⟩ := walk_cons_eq_ok.mp hw
    obtain ⟨u', hu', hnames⟩ := exists_step_of_lasting h hs hu
    obtain ⟨r', hr', hsame⟩ := ih hnames hrest
    exact ⟨r', walk_cons_eq_ok.mpr ⟨u', hu', hr'⟩, hsame⟩

theorem walk_of_lasting (h : t.Lasting t') (hs : s'.names = s.names) (hw : s.walk pieces = .error fault)
    (hne : fault ≠ .missing) : s'.walk pieces = .error fault := by
  -- The two walks pass through places of the same names, until one step fails in both.
  induction pieces generalizing s s' with
  | nil => cases hw
  | cons piece pieces ih =>
    rw [walk_cons] at hw ⊢
    cases hstep : s.step piece with
    | error f =>
      rw [hstep] at hw
      cases hw
      rcases step_eq_error hstep hne with ⟨rfl, b, hb⟩ | ⟨rfl, hd, hlong⟩
      · obtain ⟨b', hb'⟩ := file_of_lasting h hs hb
        rw [step_of_file hb']
        rfl
      · rw [step_of_long (directory_of_lasting h hs hd) hlong]
        rfl
    | ok r =>
      rw [hstep] at hw
      obtain ⟨r', hr', hnames⟩ := exists_step_of_lasting h hs hstep
      rw [hr']
      exact ih hnames hw

/-- A last piece that fails, fails like one on the way. -/
theorem settle_of_lasting (h : t.Lasting t') (hs : s'.names = s.names) {slash : Bool}
    (hr : s.settle piece slash = .error fault) : s'.settle piece slash = .error fault := by
  rw [settle] at hr
  split at hr
  · next b hb =>
    cases hr
    obtain ⟨b', hb'⟩ := file_of_lasting h hs hb
    rw [settle, hb']
  next here hd =>
  split at hr
  · cases hr
  next hdot =>
  split at hr
  · cases hr
  next hup =>
  split at hr
  · next hlong =>
    cases hr
    obtain ⟨here', hhere⟩ := entry_of_directory.mp (directory_of_lasting h hs (by rw [hd]; rfl))
    rw [settle, hhere]
    simp only
    rw [if_neg hdot, if_neg hup, if_pos hlong]
  · cases hr

end Spot

/-- A text that cannot be a path leads nowhere in any tree. -/
theorem locate_of_not_sane (h : ¬ p.Sane) : t'.locate base p = t.locate base p := by
  rw [locate, locate]
  simp only [bind, Except.bind, pure, Except.pure, throw, throwThe, MonadExceptOf.throw]
  split
  · rfl
  next hplain =>
  split
  · rfl
  next hnil =>
  split
  · rfl
  next hshort => exact absurd ⟨by simpa using hplain, by simpa using hnil, Nat.le_of_not_lt hshort⟩ h

theorem locate_of_lasting (h : t.Lasting t') (hp : p.pieces ≠ []) (hl : t.locate base p = .error fault)
    (hne : fault ≠ .missing) : t'.locate base p = .error fault := by
  by_cases hsane : p.Sane
  · have hlast := List.getLast?_eq_some_getLast hp
    have hroot : (Spot.root t').names = (Spot.root t).names := rfl
    rw [locate_eq hsane hlast] at hl ⊢
    cases hw : (Spot.root t).walk (p.route base).dropLast with
    | error f =>
      rw [hw] at hl
      cases hl
      rw [Spot.walk_of_lasting h hroot hw hne]
      rfl
    | ok s =>
      rw [hw] at hl
      obtain ⟨s', hs', hnames⟩ := Spot.exists_walk_of_lasting h hroot hw
      rw [hs']
      exact Spot.settle_of_lasting h hnames hl
  · rwa [locate_of_not_sane hsane]

/-- What cannot be read although nothing is missing cannot be read later, for the same reason. -/
theorem read_of_lasting (h : t.Lasting t') (hp : p.pieces ≠ []) (hr : t.read base p = .error fault)
    (hne : fault ≠ .missing) : t'.read base p = .error fault := by
  cases hl : t.locate base p with
  | error f =>
    rw [read, status, hl] at hr
    cases hr
    rw [read, status, locate_of_lasting h hp hl hne]
    rfl
  | ok place =>
    rw [read, status, hl] at hr
    simp only [bind, Except.bind] at hr
    cases hentry : place.entry with
    | none =>
      rw [hentry] at hr
      cases hr
      exact absurd rfl hne
    | some e =>
      cases e with
      | directory =>
        rw [hentry] at hr
        cases hr
        rw [read, status_of_retains h.retains hp (status_of_locate hl hentry)]
        rfl
      | file b =>
        -- A file that is there cannot be read if its path ends in a slash.
        have hof := locate_eq_ok hl
        obtain ⟨place', hplace'⟩ := locate_of_retains h.retains hl (by simp [hentry])
        have hof' := locate_eq_ok hplace'
        obtain ⟨b', hb'⟩ := h.files place.names b (by rw [← hof.entry, hentry])
        have hentry' : place'.entry = some (.file b') := by rw [hof'.entry, hof'.names, ← hof.names, hb']
        have hslash : place'.slash = place.slash := by
          rw [Bool.eq_iff_iff, hof'.slash (by simp [hentry']), hof.slash (by simp [hentry])]
        rw [hentry] at hr
        rw [read, status, hplace']
        simp only [bind, Except.bind, hentry', hslash]
        cases hs : place.slash with
        | false =>
          rw [hs] at hr
          cases hr
        | true =>
          rw [hs] at hr
          cases hr
          rfl

end IdentityVault.FileTree
