import IdentityVault.Pem
import IdentityVault.Proofs.Text.Base64

/-! PEM blocks that were written can be read back. What is written is plain text, in short lines; nothing in it can be
    taken for a mark but the marks themselves, since no digit and no line end is a hyphen. -/

namespace IdentityVault

namespace Base64

/-- No digit is a hyphen, the end of a line or another blank. -/
theorem Digit.plain {c : UInt8} (h : Digit c) :
    c < 128 ∧ c ≠ 45 ∧ c ≠ 10 ∧ c ≠ 13 ∧ Pem.isSpace c = false ∧ Text.blank (Char.ofNat c.toNat) = false := by
  rcases h with rfl | ⟨n, hn, rfl⟩
  · decide
  · revert hn; revert n; decide

end Base64

namespace Pem

variable {m : UInt8} {l before rest : Bytes}

/-! ### Finding marks -/

/-- Bytes that are not the first one of the marker are passed. -/
theorem scan_of_not_mem (h : m ∉ before) (seen s : Bytes) :
    scan (m :: l) (m :: l) seen (before ++ s) = scan (m :: l) (m :: l) (before.reverse ++ seen) s := by
  induction before generalizing seen with
  | nil => rfl
  | cons b before ih =>
    rw [List.mem_cons, not_or] at h
    rw [List.cons_append, scan, if_neg (Ne.symm h.1), ih h.2, List.reverse_cons, List.append_assoc,
      List.singleton_append]

theorem scan_left (marker left seen rest : Bytes) :
    scan marker left seen (left ++ rest) = some (((left.reverse ++ seen).drop marker.length).reverse, rest) := by
  induction left generalizing seen with
  | nil => rw [List.nil_append, scan, List.reverse_nil, List.nil_append]
  | cons b left ih =>
    rw [List.cons_append, scan, if_pos rfl, ih, List.reverse_cons, List.append_assoc, List.singleton_append]

theorem cut?_append (h : m ∉ before) (l rest : Bytes) :
    cut? (m :: l) (before ++ (m :: l ++ rest)) = some (before, rest) := by
  rw [cut?, scan_of_not_mem h, scan_left, List.append_nil, List.drop_left' (List.length_reverse),
    List.reverse_reverse]

theorem cut?_of_not_mem (h : m ∉ before) (l : Bytes) : cut? (m :: l) before = none := by
  have hscan := scan_of_not_mem (l := l) h [] []
  rw [List.append_nil] at hscan
  rw [cut?, hscan, scan]

/-- What is found around a marker is the whole input. -/
theorem scan_eq_some {marker left seen s after : Bytes} (hpassed : ∃ first, marker = first ++ left ∧
    ∃ old, seen = first.reverse ++ old) (h : scan marker left seen s = some (before, after)) :
    seen.reverse ++ s = before ++ (marker ++ after) := by
  fun_induction scan marker left seen s with
  | case1 seen rest =>
    obtain ⟨first, hmarker, old, rfl⟩ := hpassed
    rw [List.append_nil] at hmarker
    subst hmarker
    rw [List.drop_left' (List.length_reverse), Option.some.injEq, Prod.mk.injEq] at h
    obtain ⟨rfl, rfl⟩ := h
    rw [List.reverse_append, List.reverse_reverse, List.append_assoc]
  | case2 => cases h
  | case3 m left seen b r ih =>
    obtain ⟨first, hmarker, old, rfl⟩ := hpassed
    have hnext := ih ?_ h
    · rwa [List.reverse_cons, List.append_assoc, List.singleton_append] at hnext
    · by_cases hb : b = m
      · subst hb
        exact ⟨first ++ [b], by simp [hmarker], old, by simp⟩
      · exact ⟨[], by simp [hb], _, rfl⟩

theorem cut?_eq_some {marker s after : Bytes} (h : cut? marker s = some (before, after)) :
    s = before ++ (marker ++ after) :=
  scan_eq_some ⟨[], rfl, [], rfl⟩ h

/-! ### Lines -/

/-- What is wrapped stands in lines of at most 64 bytes, none of them empty. -/
theorem exists_lines (s : Bytes) : ∃ lines : List Bytes, wrap s = lines.flatMap (· ++ [10]) ∧ lines.flatten = s ∧
    ∀ l ∈ lines, l ≠ [] ∧ l.length ≤ 64 := by
  fun_induction wrap s with
  | case1 => exact ⟨[], rfl, rfl, nofun⟩
  | case2 s hne ih =>
    obtain ⟨lines, hwrap, hflatten, hlines⟩ := ih
    refine ⟨s.take 64 :: lines, ?_, ?_, ?_⟩
    · rw [List.flatMap_cons, ← hwrap, List.append_assoc, List.singleton_append]
    · rw [List.flatten_cons, hflatten, List.take_append_drop]
    · rw [List.forall_mem_cons]
      exact ⟨⟨by simpa using hne, List.length_take_le 64 s⟩, hlines⟩

variable {lines : List Bytes}

/-- No line is empty, so that no two line ends follow each other. -/
theorem scan_lines (hlines : ∀ l ∈ lines, l ≠ [] ∧ 10 ∉ l) {left : Bytes} (hleft : left = [10] ∨ left = [10, 10])
    (seen : Bytes) : scan [10, 10] left seen (lines.flatMap (· ++ [10])) = none := by
  induction lines generalizing left seen with
  | nil => rcases hleft with rfl | rfl <;> rfl
  | cons l lines ih =>
    rw [List.forall_mem_cons] at hlines
    obtain ⟨c, l, rfl⟩ := List.exists_cons_of_ne_nil hlines.1.1
    obtain ⟨hc, hl⟩ := not_or.mp fun h => hlines.1.2 (List.mem_cons.mpr h)
    have hnext : scan [10, 10] left seen (c :: (l ++ 10 :: lines.flatMap (· ++ [10]))) =
        scan [10, 10] [10, 10] (c :: seen) (l ++ 10 :: lines.flatMap (· ++ [10])) := by
      rcases hleft with rfl | rfl <;> rw [scan, if_neg (Ne.symm hc)]
    simp only [List.flatMap_cons, List.cons_append, List.append_assoc, List.nil_append]
    rw [hnext, scan_of_not_mem hl, scan, if_pos rfl]
    exact ih hlines.2 (.inl rfl) _

theorem mem_lines {c : UInt8} (h : c ∈ lines.flatMap (· ++ [10])) : c = 10 ∨ c ∈ lines.flatten := by
  simp only [List.mem_flatMap, List.mem_append, List.mem_singleton, List.mem_flatten] at h ⊢
  obtain ⟨l, hl, hc | hc⟩ := h
  · exact .inr ⟨l, hl, hc⟩
  · exact .inl hc

/-- Without blanks, nothing is left of the lines but what they consist of. -/
theorem filter_lines (h : ∀ c ∈ lines.flatten, Base64.Digit c) :
    (lines.flatMap (· ++ [10])).filter (fun c => !Text.blank (Char.ofNat c.toNat)) = lines.flatten := by
  induction lines with
  | nil => rfl
  | cons l lines ih =>
    simp only [List.flatten_cons, List.mem_append] at h
    have hl : l.filter (fun c => !Text.blank (Char.ofNat c.toNat)) = l :=
      List.filter_eq_self.mpr fun c hc => by simp [(h c (.inl hc)).plain]
    have hend : ([10] : Bytes).filter (fun c => !Text.blank (Char.ofNat c.toNat)) = [] := by decide
    rw [List.flatMap_cons, List.filter_append, List.filter_append, hl, hend, List.append_nil,
      ih fun c hc => h c (.inr hc), List.flatten_cons]

/-- The data of the lines are those of the text that stands in them. -/
theorem data?_lines (h : ∀ c ∈ lines.flatten, Base64.Digit c) :
    data? (Text.ofAscii (lines.flatMap (· ++ [10]))).toList = Base64.decode? true lines.flatten := by
  have hnat (c : UInt8) : (Char.ofNat c.toNat).toNat = c.toNat :=
    Text.toNat_char (.inl (Nat.lt_trans c.toNat_lt (by decide)))
  have hfilter : ((Text.ofAscii (lines.flatMap (· ++ [10]))).toList.filter fun c => !Text.blank c) =
      lines.flatten.map fun c => Char.ofNat c.toNat := by
    rw [Text.ofAscii, String.toList_ofList, List.filter_map]
    exact congrArg _ (filter_lines h)
  have hascii : (lines.flatten.map fun c => Char.ofNat c.toNat).all (·.toNat < 128) = true := by
    rw [List.all_map, List.all_eq_true]
    intro c hc
    rw [Function.comp_apply, hnat c]
    exact decide_eq_true (UInt8.lt_iff_toNat_lt.mp (h c hc).plain.1)
  have hback : (lines.flatten.map fun c => Char.ofNat c.toNat).map (fun c => UInt8.ofNat c.toNat) = lines.flatten := by
    rw [List.map_map]
    refine (List.map_congr_left fun c _ => ?_).trans (List.map_id _)
    rw [Function.comp_apply, hnat c, UInt8.ofNat_toNat, id]
  rw [data?, hfilter]
  simp only [hascii, if_true, hback]

/-! ### Blocks -/

/-- What stands between the two marks of a block with the given content. -/
structure Body (content body : Bytes) : Prop where
  plain : ∀ c ∈ body, c < 128 ∧ c ≠ 45 ∧ c ≠ 13
  head : ∀ c ∈ body.head?, isSpace c = false
  split : splitBody body = ([], body)
  data : data? (Text.ofAscii body).toList = some content

theorem body_wrap (content : Bytes) : Body content (wrap (Base64.encode true content)) := by
  obtain ⟨lines, hwrap, hflatten, hlines⟩ := exists_lines (Base64.encode true content)
  have hdigits : ∀ c ∈ lines.flatten, Base64.Digit c := hflatten ▸ Base64.digit_of_encode true content
  rw [hwrap]
  have hplain : ∀ c ∈ lines.flatMap (· ++ [10]), c < 128 ∧ c ≠ 45 ∧ c ≠ 13 := by
    intro c hc
    rcases mem_lines hc with rfl | hc
    · decide
    · obtain ⟨hascii, hhyphen, -, hreturn, -⟩ := (hdigits c hc).plain
      exact ⟨hascii, hhyphen, hreturn⟩
  refine ⟨hplain, ?_, ?_, ?_⟩
  · intro c hc
    cases lines with
    | nil => cases hc
    | cons l lines =>
      obtain ⟨b, l, rfl⟩ := List.exists_cons_of_ne_nil (hlines l List.mem_cons_self).1
      cases hc
      exact (hdigits c (by simp)).plain.2.2.2.2.1
  · have hnewlines : ∀ l ∈ lines, l ≠ [] ∧ 10 ∉ l := fun l hl => ⟨(hlines l hl).1, fun hm =>
      (hdigits 10 (List.mem_flatten.mpr ⟨l, hl, hm⟩)).plain.2.2.1 rfl⟩
    rw [splitBody, cut?, scan_lines hnewlines (.inr rfl) [],
      cut?_of_not_mem (fun hm => (hplain 13 hm).2.2 rfl)]
  · rw [data?_lines hdigits, hflatten, Base64.decode?_encode]

theorem beginMark_eq : beginMark = 45 :: [45, 45, 45, 45, 66, 69, 71, 73, 78, 32] := by decide

theorem endMark_eq : endMark = 45 :: [45, 45, 45, 45, 69, 78, 68, 32] := by decide

theorem lineMark_eq : lineMark = 45 :: [45, 45, 45, 45] := by decide

/-- A block that was written can be read back, if there is a label and no hyphen in it. -/
theorem parse?_render {p : Pem} (hne : Text.utf8 p.label ≠ []) (hlabel : 45 ∉ Text.utf8 p.label) :
    parse? p.render = some p := by
  have hbody := body_wrap p.content
  generalize hb : wrap (Base64.encode true p.content) = body at hbody
  generalize hl : Text.utf8 p.label = label at hne hlabel
  -- The text, bracketed in the order in which reading cuts it.
  have hrender : p.render = [] ++ (beginMark ++ (label ++ (lineMark ++ (10 :: (body ++ (endMark ++
      (label ++ (lineMark ++ [10])))))))) := by
    rw [render, hb, hl]
    simp only [List.append_assoc, List.cons_append, List.nil_append]
  have hspace (rest : Bytes) : (10 :: (body ++ (endMark ++ rest))).dropWhile isSpace = body ++ (endMark ++ rest) := by
    rw [List.dropWhile_cons_of_pos (by decide)]
    cases body with
    | nil => rw [endMark_eq]; rfl
    | cons c body => rw [List.cons_append, List.dropWhile_cons_of_neg (by simpa using hbody.head c rfl)]
  have hhyphen : 45 ∉ body := fun hm => (hbody.plain 45 hm).2.1 rfl
  have hbegin (rest : Bytes) : cut? beginMark ([] ++ (beginMark ++ rest)) = some ([], rest) := by
    rw [beginMark_eq]
    exact cut?_append List.not_mem_nil _ rest
  have hline (rest : Bytes) : cut? lineMark (label ++ (lineMark ++ rest)) = some (label, rest) := by
    rw [lineMark_eq]
    exact cut?_append hlabel _ rest
  have hend (rest : Bytes) : cut? endMark (body ++ (endMark ++ rest)) = some (body, rest) := by
    rw [endMark_eq]
    exact cut?_append hhyphen _ rest
  have htext : Text.ofUtf8? label = some p.label := by rw [← hl, Text.ofUtf8?_utf8]
  have hnone : Text.ofUtf8? [] = some "" := by decide
  rw [parse?, hrender]
  simp only [Option.bind_eq_bind, Option.bind_some, hbegin, hline, hspace, hend, htext, hbody.split, hnone,
    Text.ofUtf8?_of_ascii fun c hc => (hbody.plain c hc).1, hbody.data, ne_eq, hne, not_false_eq_true, true_and, if_true]
  rfl

end Pem
end IdentityVault
