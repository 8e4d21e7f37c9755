import IdentityVault.File.Effect
import Mathlib.Data.List.TakeWhile

/-! The way that the text of a path goes: its pieces without the empty ones and the dots. The way to the directory above
    and the way to the unfinished version of a file differ from the way to the file in its last piece only. -/

namespace IdentityVault

namespace Text

theorem split_append_sep (sep : Char) (s r : List Char) : split sep (s ++ sep :: r) = split sep s ++ split sep r := by
  induction s with
  | nil => simp [split]
  | cons c s ih =>
    rw [List.cons_append, split, split]
    split
    · rw [ih, List.cons_append]
    · rw [ih]
      cases h : split sep s with
      | nil => exact absurd h (split_ne_nil sep s)
      | cons part parts => rfl

end Text

namespace FilePath
variable {p q : FilePath} {n : List Char}

/-! ### Pieces -/

@[simp]
theorem pieces_nil : pieces [] = [] := rfl

theorem pieces_append_slash (p q : FilePath) : pieces (p ++ '/' :: q) = p.pieces ++ q.pieces := by
  rw [pieces, Text.split_append_sep, List.filter_append]
  rfl

theorem pieces_of_not_mem (h : '/' ∉ n) (hn : n ≠ []) : pieces n = [n] := by
  rw [pieces, Text.split_of_not_mem h]
  simp [hn]

/-- Only a path of slashes has no pieces. -/
theorem isAbsolute_of_pieces (h : p.pieces = []) (hp : p ≠ []) : p.isAbsolute = true := by
  obtain ⟨c, r, rfl⟩ := List.exists_cons_of_ne_nil hp
  by_cases hc : c = '/'
  · rw [hc]
    rfl
  · rw [pieces, Text.split, if_neg hc] at h
    cases hs : Text.split '/' r with
    | nil => exact absurd hs (Text.split_ne_nil '/' r)
    | cons part parts =>
      rw [hs] at h
      simp at h

/-- The pieces of a path that go somewhere. -/
def way (p : FilePath) : List (List Char) := p.pieces.filter (· ≠ ['.'])

@[simp]
theorem way_nil : way [] = [] := rfl

theorem way_append_slash (p q : FilePath) : way (p ++ '/' :: q) = p.way ++ q.way := by
  rw [way, pieces_append_slash, List.filter_append]
  rfl

theorem way_of_not_mem (h : '/' ∉ n) (hn : n ≠ []) (hdot : n ≠ ['.']) : way n = [n] := by
  rw [way, pieces_of_not_mem h hn]
  simp [hdot]

/-- A path that starts in a directory goes through the pieces of the directory first. -/
theorem pieces_join (hq : q.isAbsolute = false) : (p.join q).pieces = p.pieces ++ q.pieces := by
  rw [join, hq, Bool.false_or]
  split
  · next h => rw [List.isEmpty_iff.mp h]; rfl
  · split
    · next h =>
      obtain ⟨d, rfl⟩ := List.getLast?_eq_some_iff.mp h
      rw [List.append_assoc, List.singleton_append, pieces_append_slash, pieces_append_slash, pieces_nil,
        List.append_nil]
    · exact pieces_append_slash p q

theorem way_join (hq : q.isAbsolute = false) : (p.join q).way = p.way ++ q.way := by
  rw [way, pieces_join hq, List.filter_append]
  rfl

theorem isAbsolute_join (hq : q.isAbsolute = false) : (p.join q).isAbsolute = p.isAbsolute := by
  rw [join, hq, Bool.false_or]
  split
  · next h => rw [List.isEmpty_iff.mp h, hq]; rfl
  · next h =>
    obtain ⟨c, p, rfl⟩ := List.exists_cons_of_ne_nil fun he => h (List.isEmpty_iff.mpr he)
    split <;> rfl

/-! ### The end of a path -/

theorem suffix_trimReversed (r : List Char) : trimReversed r <:+ r := by
  fun_induction trimReversed r with
  | case1 => exact List.suffix_rfl
  | case2 r _ ih => exact ih.trans (List.suffix_cons '/' r)
  | case3 r ih => exact ih.trans (List.suffix_cons '.' _)
  | case4 => exact List.suffix_rfl

/-- No dot is left at the end behind a slash. -/
theorem trimReversed_ne_dot (r u : List Char) : trimReversed r ≠ '.' :: '/' :: u := by
  fun_induction trimReversed r with
  | case1 => simp
  | case2 r _ ih => exact ih
  | case3 r ih => exact ih
  | case4 r _ _ h => exact h u

/-- What is cut off the end of a path goes nowhere. -/
theorem way_trimReversed (r : List Char) : way (trimReversed r).reverse = way r.reverse := by
  fun_induction trimReversed r with
  | case1 => rfl
  | case2 r _ ih => rw [ih, List.reverse_cons, way_append_slash, way_nil, List.append_nil]
  | case3 r ih =>
    have hdot : way ['.'] = [] := by decide
    rw [ih]
    simp only [List.reverse_cons, List.append_assoc, List.singleton_append, way_append_slash, hdot, way_nil]
  | case4 => rfl

/-- The last piece of a path, without what is cut off behind it. -/
def lastPiece (p : FilePath) : List Char := ((trimReversed p.reverse).takeWhile (· ≠ '/')).reverse

/-- What stands before the last piece of a path. -/
def beforeLast (p : FilePath) : FilePath := ((trimReversed p.reverse).dropWhile (· ≠ '/')).reverse

theorem trimReversed_reverse (p : FilePath) : trimReversed p.reverse = p.lastPiece.reverse ++ p.beforeLast.reverse := by
  rw [lastPiece, beforeLast, List.reverse_reverse, List.reverse_reverse, List.takeWhile_append_dropWhile]

theorem slash_not_mem_lastPiece (p : FilePath) : '/' ∉ p.lastPiece := by
  intro hm
  simpa using List.mem_takeWhile_imp (List.mem_reverse.mp hm)

/-- Before the last piece there is nothing, or a path and a slash. -/
theorem beforeLast_cases (p : FilePath) : p.beforeLast = [] ∨ ∃ d, p.beforeLast = d ++ ['/'] := by
  rw [beforeLast]
  cases h : (trimReversed p.reverse).dropWhile (· ≠ '/') with
  | nil => exact .inl rfl
  | cons c r =>
    have hc : c = '/' := by
      have hnot := List.head?_dropWhile_not (· ≠ '/') (trimReversed p.reverse)
      rw [h] at hnot
      simpa using hnot
    exact .inr ⟨r.reverse, by rw [List.reverse_cons, hc]⟩

theorem way_append_of_beforeLast (p : FilePath) (n : List Char) :
    way (p.beforeLast ++ n) = way p.beforeLast ++ way n := by
  rcases p.beforeLast_cases with h | ⟨d, h⟩
  · rw [h]
    rfl
  · rw [h, List.append_assoc, List.singleton_append, way_append_slash, way_append_slash, way_nil, List.append_nil]

theorem way_eq (p : FilePath) : p.way = way p.beforeLast ++ way p.lastPiece := by
  have h := way_trimReversed p.reverse
  rw [trimReversed_reverse, List.reverse_append, List.reverse_reverse, List.reverse_reverse, List.reverse_reverse,
    way_append_of_beforeLast] at h
  exact h.symm

/-- A path that goes anywhere does so with its last piece. -/
theorem way_eq_concat (h : p.way ≠ []) :
    p.way = way p.beforeLast ++ [p.lastPiece] ∧ p.lastPiece ≠ [] ∧ p.lastPiece ≠ ['.'] := by
  have htrim := trimReversed_of_head? p.reverse
  have hway := way_trimReversed p.reverse
  rw [List.reverse_reverse] at hway
  have hnil : p.lastPiece ≠ [] := by
    intro he
    -- Without a last piece, all that is left is nothing or a slash.
    rw [trimReversed_reverse, he, List.reverse_nil, List.nil_append] at htrim hway
    rcases p.beforeLast_cases with hb | ⟨d, hb⟩
    · rw [hb] at hway
      exact h hway.symm
    · rw [hb, List.reverse_append] at htrim hway
      rw [htrim rfl] at hway
      exact h hway.symm
  have hdot : p.lastPiece ≠ ['.'] := by
    intro he
    have hne := trimReversed_ne_dot p.reverse
    rw [trimReversed_reverse, he] at hne
    rcases p.beforeLast_cases with hb | ⟨d, hb⟩
    · rw [way_eq, he, hb] at h
      exact h (by decide)
    · rw [hb, List.reverse_append] at hne
      exact hne _ rfl
  refine ⟨?_, hnil, hdot⟩
  rw [way_eq, way_of_not_mem p.slash_not_mem_lastPiece hnil hdot]

theorem lastPiece_of_way {rest : List (List Char)} (h : p.way = rest ++ [n]) : p.lastPiece = n := by
  have hway := (way_eq_concat (p := p) (by simp [h])).1
  rw [h] at hway
  exact (List.singleton_inj.mp (List.append_inj' hway rfl).2).symm

theorem name?_eq (h : p.way ≠ []) (hup : p.lastPiece ≠ ['.', '.']) : p.name? = some p.lastPiece := by
  obtain ⟨-, hnil, hdot⟩ := way_eq_concat h
  rw [name?, ← lastPiece]
  simp [hnil, hdot, hup]

theorem isAbsolute_of_isPrefix (h : q <+: p) (hq : q ≠ []) : q.isAbsolute = p.isAbsolute := by
  obtain ⟨r, rfl⟩ := h
  obtain ⟨c, q, rfl⟩ := List.exists_cons_of_ne_nil hq
  rfl

/-! ### The directory above -/

theorem prefix_of_suffix_reverse {r : List Char} (h : r <:+ p.reverse) : r.reverse <+: p := by
  rw [← List.reverse_suffix, List.reverse_reverse]
  exact h

theorem beforeLast_isPrefix (p : FilePath) : p.beforeLast <+: p :=
  prefix_of_suffix_reverse ((List.dropWhile_suffix _).trans (suffix_trimReversed p.reverse))

theorem parent?_isPrefix (h : p.parent? = some q) : q <+: p := by
  rw [parent?] at h
  simp only [Option.ite_none_left_eq_some, Option.some.injEq] at h
  obtain ⟨-, rfl⟩ := h
  exact prefix_of_suffix_reverse
    ((suffix_trimReversed _).trans ((List.dropWhile_suffix _).trans (suffix_trimReversed p.reverse)))

/-- The way to the directory above leaves the last piece out. -/
theorem way_parent? (h : p.parent? = some q) (hp : p.way ≠ []) : q.way = p.way.dropLast := by
  rw [parent?] at h
  simp only [Option.ite_none_left_eq_some, Option.some.injEq] at h
  obtain ⟨-, rfl⟩ := h
  rw [way_trimReversed, ← beforeLast, (way_eq_concat hp).1, List.dropLast_concat]

/-! ### Extensions -/

theorem trimReversed_eq_self {r : List Char} (hslash : r.head? ≠ some '/') (hdot : ∀ u, r ≠ '.' :: '/' :: u) :
    trimReversed r = r := by
  fun_induction trimReversed r with
  | case1 => exact absurd rfl hslash
  | case2 r => exact absurd rfl hslash
  | case3 r => exact absurd rfl (hdot r)
  | case4 => rfl

/-- A path of a piece behind a slash, where nothing is cut off. -/
theorem trimReversed_append (p : FilePath) (hslash : '/' ∉ n) (hn : n ≠ []) (hdot : n ≠ ['.']) :
    trimReversed (p ++ n).reverse = n.reverse ++ p.reverse := by
  rw [List.reverse_append]
  obtain ⟨c, r, hr⟩ := List.exists_cons_of_ne_nil fun he => hn (List.reverse_eq_nil_iff.mp he)
  have hmem {a : Char} (ha : a ∈ n.reverse) : a ≠ '/' := fun he => hslash (he ▸ List.mem_reverse.mp ha)
  refine trimReversed_eq_self ?_ fun u hu => ?_
  · rw [hr, List.cons_append, List.head?_cons]
    exact fun he => hmem (hr ▸ List.mem_cons_self) (Option.some.inj he)
  · rw [hr, List.cons_append, List.cons.injEq] at hu
    obtain ⟨rfl, hu⟩ := hu
    cases r with
    | nil => exact hdot (by rw [← List.reverse_reverse n, hr]; rfl)
    | cons a r =>
      rw [List.cons_append, List.cons.injEq] at hu
      exact hmem (hr ▸ List.mem_cons_of_mem _ List.mem_cons_self) hu.1

theorem lastPiece_append (hb : p = [] ∨ ∃ d, p = d ++ ['/']) (hslash : '/' ∉ n) (hn : n ≠ []) (hdot : n ≠ ['.']) :
    lastPiece (p ++ n) = n ∧ beforeLast (p ++ n) = p := by
  have hall : ∀ c ∈ n.reverse, decide (c ≠ '/') = true := by
    intro c hc
    have hne : c ≠ '/' := fun he => hslash (he ▸ List.mem_reverse.mp hc)
    simpa using hne
  have htake : p.reverse.takeWhile (· ≠ '/') = [] ∧ p.reverse.dropWhile (· ≠ '/') = p.reverse := by
    rcases hb with rfl | ⟨d, rfl⟩
    · exact ⟨rfl, rfl⟩
    · simp
  rw [lastPiece, beforeLast, trimReversed_append p hslash hn hdot, List.takeWhile_append_of_pos hall,
    List.dropWhile_append_of_pos hall, htake.1, htake.2, List.append_nil, List.reverse_reverse, List.reverse_reverse]
  exact ⟨rfl, rfl⟩

/-- Of what is cut off the end of a path, some may be cut off before. -/
theorem trimReversed_of_suffix {r u : List Char} (h : trimReversed r <:+ u) (hu : u <:+ r) :
    trimReversed u = trimReversed r := by
  fun_induction trimReversed r with
  | case1 =>
    rw [hu.eq_of_length (Nat.le_antisymm hu.length_le h.length_le), trimReversed]
  | case2 r hr ih =>
    rcases List.suffix_cons_iff.mp hu with rfl | hu
    · rw [trimReversed]
      exact hr
    · exact ih h hu
  | case3 r ih =>
    rcases List.suffix_cons_iff.mp hu with rfl | hu
    · exact trimReversed.eq_3 r
    · exact ih h hu
  | case4 r hroot hslash hdot =>
    rw [hu.eq_of_length (Nat.le_antisymm hu.length_le h.length_le)]
    exact trimReversed.eq_4 r hroot hslash hdot

theorem splitExtension_of_dot {stem old : List Char} (hold : '.' ∉ old) :
    splitExtension (stem ++ '.' :: old) = if stem = [] then (stem ++ '.' :: old, none) else (stem, some old) := by
  have hall : ∀ c ∈ old.reverse, decide (c ≠ '.') = true := by
    intro c hc
    have hne : c ≠ '.' := fun he => hold (he ▸ List.mem_reverse.mp hc)
    simpa using hne
  have htail : ((stem ++ '.' :: old).reverse.takeWhile (· ≠ '.')).reverse = old := by
    rw [List.reverse_append, List.reverse_cons, List.append_assoc, List.takeWhile_append_of_pos hall]
    simp
  have hstem : (stem ++ '.' :: old).take ((stem ++ '.' :: old).length - old.length - 1) = stem := by
    have hlength : (stem ++ '.' :: old).length - old.length - 1 = stem.length := by
      simp only [List.length_append, List.length_cons]
      omega
    rw [hlength, List.take_left']
    rfl
  have hne : old.length ≠ (stem ++ '.' :: old).length := by
    simp only [List.length_append, List.length_cons]
    omega
  rw [splitExtension]
  simp only [htail, hstem, hne, false_or]

theorem splitExtension_of_no_dot (h : '.' ∉ n) : splitExtension n = (n, none) := by
  have htail : n.reverse.takeWhile (· ≠ '.') = n.reverse := by
    refine List.takeWhile_eq_self_iff.mpr fun c hc => ?_
    have hne : c ≠ '.' := fun he => h (he ▸ List.mem_reverse.mp hc)
    simpa using hne
  rw [splitExtension]
  simp only [htail, List.reverse_reverse, true_or, if_true]

/-- A name has no extension, or one behind its last dot. -/
theorem splitExtension_cases (n : List Char) : splitExtension n = (n, none) ∨
    ∃ stem old, splitExtension n = (stem, some old) ∧ n = stem ++ '.' :: old ∧ stem ≠ [] ∧ '.' ∉ old := by
  by_cases h : '.' ∈ n
  · obtain ⟨before, after, hn, hold⟩ := List.eq_append_cons_of_mem (List.mem_reverse.mpr h)
    have hsplit : n = after.reverse ++ '.' :: before.reverse := by
      rw [← List.reverse_reverse n, hn]
      simp
    have hext : splitExtension (after.reverse ++ '.' :: before.reverse) = _ :=
      splitExtension_of_dot (mt List.mem_reverse.mp hold)
    rw [← hsplit] at hext
    split at hext
    · exact .inl hext
    · next hstem => exact .inr ⟨_, _, hext, hsplit, hstem, mt List.mem_reverse.mp hold⟩
  · exact .inl (splitExtension_of_no_dot h)

theorem eq_lastPiece_of_name? (h : p.name? = some n) : n = p.lastPiece := by
  rw [name?, ← lastPiece] at h
  simp only [Option.ite_none_left_eq_some, Option.some.injEq] at h
  exact h.2.symm

/-- A new extension comes behind what the name is without its old one. -/
theorem setExtension_eq (h : p.name? = some n) (extension : List Char) :
    p.setExtension extension = p.beforeLast ++ ((splitExtension n).1 ++ '.' :: extension) := by
  have hn := eq_lastPiece_of_name? h
  obtain ⟨rest, hstem⟩ : ∃ rest, n = (splitExtension n).1 ++ rest := by
    rcases splitExtension_cases n with he | ⟨stem, old, he, hold, -⟩
    · exact ⟨[], by rw [he, List.append_nil]⟩
    · exact ⟨'.' :: old, by rw [he]; exact hold⟩
  have hdrop : (trimReversed p.reverse).drop (n.length - (splitExtension n).1.length) =
      (splitExtension n).1.reverse ++ p.beforeLast.reverse := by
    have hlength : n.length - (splitExtension n).1.length = rest.reverse.length := by
      have := congrArg List.length hstem
      rw [List.length_append] at this
      rw [List.length_reverse]
      omega
    have hreverse : n.reverse = rest.reverse ++ (splitExtension n).1.reverse := by
      rw [← List.reverse_append, ← hstem]
    rw [trimReversed_reverse, ← hn, hlength, hreverse, List.append_assoc, List.drop_left']
    rfl
  rw [setExtension, h]
  simp only [hdrop, List.reverse_append, List.reverse_reverse, List.append_assoc]

/-- A path from which as much was cut as its extension is long: the end behind its last piece, or part of the
    extension. -/
theorem take_extension {stem old : List Char} (h : p.name? = some (stem ++ '.' :: old)) :
    (name? (p.take (p.length - old.length)) = some (stem ++ '.' :: old) ∧
        beforeLast (p.take (p.length - old.length)) = p.beforeLast) ∨
      ∃ left, left <+: old ∧ p.take (p.length - old.length) = p.beforeLast ++ (stem ++ '.' :: left) := by
  have htrim := trimReversed_reverse p
  rw [← eq_lastPiece_of_name? h] at htrim
  obtain ⟨junk, hjunk⟩ := suffix_trimReversed p.reverse
  have hlength : old.length ≤ p.length := by
    have hp := congrArg List.length hjunk
    rw [htrim] at hp
    simp only [List.length_append, List.length_reverse, List.length_cons] at hp
    omega
  have hreverse : (p.take (p.length - old.length)).reverse = p.reverse.drop old.length := by
    rw [List.reverse_take]
    congr 1
    omega
  by_cases hlong : old.length ≤ junk.length
  · have hcut : trimReversed (p.take (p.length - old.length)).reverse = trimReversed p.reverse := by
      rw [hreverse]
      refine trimReversed_of_suffix ⟨junk.drop old.length, ?_⟩ (List.drop_suffix _ _)
      rw [← List.drop_append_of_le_length hlong, hjunk]
    refine .inl ⟨?_, ?_⟩
    · rw [name?, hcut]
      exact h
    · rw [beforeLast, hcut, ← beforeLast]
  · have hshort : old.length - junk.length ≤ old.reverse.length := by
      rw [List.length_reverse]
      omega
    refine .inr ⟨(old.reverse.drop (old.length - junk.length)).reverse, ?_, ?_⟩
    · exact prefix_of_suffix_reverse (List.drop_suffix _ _)
    · rw [← List.reverse_inj, hreverse, ← hjunk, htrim, List.drop_append, List.drop_of_length_le (by omega),
        List.nil_append, List.reverse_append, List.reverse_cons, List.append_assoc, List.append_assoc,
        List.drop_append_of_le_length hshort]
      simp

/-- Another extension comes behind what the name is without its old one. Or else `..` is left, of a name that begins
    with these dots and has no others. -/
theorem withExtension_cases (h : p.name? = some n) (extension : List Char) :
    p.withExtension extension = p.beforeLast ++ ((splitExtension n).1 ++ '.' :: extension) ∨
      (splitExtension n).1 = ['.'] ∧ p.withExtension extension = p.beforeLast ++ ['.', '.'] := by
  rcases splitExtension_cases n with he | ⟨stem, old, he, rfl, hstem, hold⟩
  · rw [withExtension, h, Option.map_some, Option.bind_some, he]
    exact .inl (by rw [setExtension_eq h, he])
  have hcutOff : p.withExtension extension = setExtension (p.take (p.length - old.length)) extension := by
    rw [withExtension, h, Option.map_some, Option.bind_some, he]
  have hfirst : (splitExtension (stem ++ '.' :: old)).1 = stem := by rw [he]
  rw [hcutOff, hfirst]
  rcases take_extension h with ⟨hname, hbefore⟩ | ⟨left, hleft, hcut⟩
  · exact .inl (by rw [setExtension_eq hname, hbefore, hfirst])
  -- What is left behind the last dot of the name has no dot either.
  have hdot : '.' ∉ left := fun hm => hold (hleft.subset hm)
  have hslash : '/' ∉ stem ++ '.' :: left := by
    have hlast := p.slash_not_mem_lastPiece
    rw [← eq_lastPiece_of_name? h] at hlast
    simp only [List.mem_append, List.mem_cons, not_or] at hlast ⊢
    exact ⟨hlast.1, hlast.2.1, fun hm => hlast.2.2 (hleft.subset hm)⟩
  have hne : stem ++ '.' :: left ≠ ['.'] := by
    intro hone
    cases stem with
    | nil => exact hstem rfl
    | cons c stem => simp at hone
  obtain ⟨hlast, hbefore⟩ := lastPiece_append p.beforeLast_cases hslash (by simp) hne
  rw [← hcut] at hlast hbefore
  by_cases hup : stem ++ '.' :: left = ['.', '.']
  · have hnone : name? (p.take (p.length - old.length)) = none := by
      rw [name?, ← lastPiece, hlast, hup]
      simp
    refine .inr ⟨?_, ?_⟩
    · cases stem with
      | nil => exact absurd rfl hstem
      | cons c stem =>
        simp only [List.cons_append, List.cons.injEq] at hup
        rw [hup.1]
        cases stem with
        | nil => rfl
        | cons d stem => simp at hup
    · simp only [setExtension, hnone]
      rw [hcut, hup]
  · have hway : way (p.take (p.length - old.length)) ≠ [] := by
      rw [way_eq, hlast, way_of_not_mem hslash (by simp) hne]
      simp
    have hname := name?_eq hway (by rw [hlast]; exact hup)
    rw [hlast] at hname
    refine .inl ?_
    have hext := setExtension_eq hname extension
    rw [hbefore, splitExtension_of_dot hdot, if_neg hstem] at hext
    exact hext

/-! ### Unfinished versions -/

/-- The name of the unfinished version of a file. -/
def scratch (n : List Char) : List Char := (splitExtension n).1 ++ ['.', 't', 'm', 'p']

theorem slash_not_mem_scratch (h : '/' ∉ n) : '/' ∉ scratch n := by
  have hstem : '/' ∉ (splitExtension n).1 := by
    rcases splitExtension_cases n with he | ⟨stem, old, he, rfl, -⟩
    · rw [he]
      exact h
    · rw [he]
      exact fun hm => h (List.mem_append_left _ hm)
  simpa [scratch] using hstem

theorem scratch_ne (n : List Char) : scratch n ≠ [] ∧ scratch n ≠ ['.'] ∧ scratch n ≠ ['.', '.'] := by
  have hlength : 4 ≤ (scratch n).length := by simp [scratch]
  refine ⟨fun h => ?_, fun h => ?_, fun h => ?_⟩ <;> simp [h] at hlength

/-- The path with another last piece. -/
theorem way_beforeLast_append (hp : p.way ≠ []) (hslash : '/' ∉ n) (hn : n ≠ []) (hdot : n ≠ ['.']) :
    way (p.beforeLast ++ n) = p.way.dropLast ++ [n] := by
  rw [way_append_of_beforeLast, (way_eq_concat hp).1, List.dropLast_concat, way_of_not_mem hslash hn hdot]

theorem getLast?_beforeLast_append (p : FilePath) (hslash : '/' ∉ n) (hn : n ≠ []) :
    (pieces (p.beforeLast ++ n)).getLast? = some n := by
  rcases p.beforeLast_cases with h | ⟨d, h⟩
  · rw [h, List.nil_append, pieces_of_not_mem hslash hn]
    rfl
  · rw [h, List.append_assoc, List.singleton_append, pieces_append_slash, pieces_of_not_mem hslash hn,
      List.getLast?_concat]

theorem isAbsolute_beforeLast_append (hp : p.way ≠ []) (hslash : '/' ∉ n) (hn : n ≠ []) :
    isAbsolute (p.beforeLast ++ n) = p.isAbsolute := by
  rcases p.beforeLast_cases with h | ⟨d, h⟩
  · -- A path that is only a last piece has no slash at its beginning.
    have hprefix : p.lastPiece <+: p := by
      have hsuffix := suffix_trimReversed p.reverse
      rw [trimReversed_reverse, h, List.reverse_nil, List.append_nil] at hsuffix
      have := prefix_of_suffix_reverse hsuffix
      rwa [List.reverse_reverse] at this
    have hrelative {l : List Char} (hl : l ≠ []) (hs : '/' ∉ l) : isAbsolute l = false := by
      obtain ⟨c, l, rfl⟩ := List.exists_cons_of_ne_nil hl
      have hc : c ≠ '/' := fun he => hs (he ▸ List.mem_cons_self)
      simp [isAbsolute, hc]
    rw [h, List.nil_append, hrelative hn hslash, ← isAbsolute_of_isPrefix hprefix (way_eq_concat hp).2.1,
      hrelative (way_eq_concat hp).2.1 p.slash_not_mem_lastPiece]
  · have hne : p.beforeLast ≠ [] := by simp [h]
    rw [← isAbsolute_of_isPrefix p.beforeLast_isPrefix hne]
    obtain ⟨c, b, hb⟩ := List.exists_cons_of_ne_nil hne
    rw [hb]
    rfl

end FilePath

/-- The unfinished version of a file lies beside it, or its path leads to the directory above. -/
theorem FileAction.unfinished_cases {p : FilePath} {n : List Char} (h : p.name? = some n) :
    unfinished p = p.beforeLast ++ FilePath.scratch n ∨
      (FilePath.splitExtension n).1 = ['.'] ∧ unfinished p = p.beforeLast ++ ['.', '.'] :=
  FilePath.withExtension_cases h _

end IdentityVault
