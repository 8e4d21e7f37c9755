import IdentityVault.Json.Reader
import IdentityVault.Proofs.Json.Token

/-! Every text that spells a value is read as that value, and what is written of a value, on one line or over many,
    spells it. Both directions meet in the tokens of the value. -/

namespace IdentityVault
namespace Json

variable {j : Json} {d : Depth} {t : Token} {ts : List Token} {rest : List Char}

/-! ### The tokens of a value -/

mutual

def tokens : Json → List Token
  | null => [.null]
  | bool b => [.bool b]
  | number l => [.number l]
  | string t => [.string t]
  | array [] => [.leftBracket, .rightBracket]
  | array (j :: r) => .leftBracket :: (tokens j ++ itemTokens r)
  | object [] => [.leftBrace, .rightBrace]
  | object (m :: r) => .leftBrace :: (memberTokens m ++ membersTokens r)

/-- The items behind the first one, and the end of the array. -/
def itemTokens : List Json → List Token
  | [] => [.rightBracket]
  | j :: r => .comma :: (tokens j ++ itemTokens r)

/-- The members behind the first one, and the end of the object. -/
def membersTokens : List (Option String × Json) → List Token
  | [] => [.rightBrace]
  | m :: r => .comma :: (memberTokens m ++ membersTokens r)

def memberTokens : Option String × Json → List Token
  | (n, j) => .string n :: .colon :: tokens j

end

/-- A value whose numbers are all written in decimal. -/
inductive Plain : Json → Prop
  | null : Plain null
  | bool (b : Bool) : Plain (bool b)
  | ofNat (n : Nat) : Plain (ofNat n)
  | string (t : Option String) : Plain (string t)
  | array {items : List Json} (h : ∀ j ∈ items, Plain j) : Plain (array items)
  | object {members : List (Option String × Json)} (h : ∀ m ∈ members, Plain m.2) : Plain (object members)

/-! ### What is written -/

theorem hexValue?_hexDigit {n : Nat} (h : n < 16) : Token.hexValue? (hexDigit n) = some n := by
  revert h; revert n; decide

theorem unit?_control {n : Nat} (h : n < 0x20) : Token.unit? '0' '0' (hexDigit (n / 16)) (hexDigit (n % 16)) = some n := by
  have hzero : Token.hexValue? '0' = some 0 := by decide
  have hsum : 16 * (n / 16) + n % 16 = n := Nat.div_add_mod n 16
  rw [Token.unit?, hzero, hexValue?_hexDigit (by omega), hexValue?_hexDigit (Nat.mod_lt _ (by decide))]
  simp [hsum]

/-- A string is written in parts, one for each of its characters. -/
theorem exists_spells_escape (c : Char) (r : List Piece) :
    ∃ p : Piece, p.Spells (escape c) ∧ Piece.chars? (p :: r) = (Piece.chars? r).map (c :: ·) := by
  have hshort {e : Char} (h : Token.escape? e = some c) :
      ∃ p : Piece, p.Spells ['\\', e] ∧ Piece.chars? (p :: r) = (Piece.chars? r).map (c :: ·) := ⟨_, .short h, rfl⟩
  rw [escape]
  iterate 7
    split
    · next h => subst h; exact hshort rfl
  split
  · next h =>
    refine ⟨.unit c.toNat, .unit (unit?_control h), ?_⟩
    have hlead : ¬ Piece.IsLead c.toNat := fun hl => absurd hl.1 (by omega)
    have htrail : ¬ Piece.IsTrail c.toNat := fun ht => absurd ht.1 (by omega)
    rw [Piece.chars?.eq_def]
    simp only [if_neg hlead, if_neg htrail, Char.ofNat_toNat]
  · next hquote hbackslash _ _ _ _ _ hprinted =>
    exact ⟨.char c, .plain hquote hbackslash (Nat.not_lt.mp hprinted), rfl⟩

theorem exists_spells_flatMap (s : List Char) :
    ∃ pieces, Piece.SpellsAll pieces (s.flatMap escape) ∧ Piece.chars? pieces = some s := by
  induction s with
  | nil => exact ⟨[], .nil, rfl⟩
  | cons c s ih =>
    obtain ⟨pieces, hspells, hchars⟩ := ih
    obtain ⟨p, hp, hc⟩ := exists_spells_escape c pieces
    rw [List.flatMap_cons]
    exact ⟨p :: pieces, .cons hp hspells, by rw [hc, hchars, Option.map_some]⟩

theorem spells_quoted (n : Option String) : Token.Spells (.string n) (quoted n) := by
  cases n with
  | none =>
    have hlone : Piece.SpellsAll [.unit 0xd800] (['\\', 'u', 'd', '8', '0', '0'] ++ []) :=
      .cons (.unit (by decide)) .nil
    exact .string hlone
  | some s =>
    obtain ⟨pieces, hspells, hchars⟩ := exists_spells_flatMap s.toList
    have htext : Piece.text? pieces = some s := by rw [Piece.text?, hchars, Option.map_some, String.ofList_toList]
    rw [quoted, ← htext]
    exact .string hspells

theorem numeral_decimal (n : Nat) : Numeral (Text.decimal n) := by
  have hwhole : Whole (Text.decimal n) := by
    by_cases hzero : n = 0
    · rw [hzero]
      exact .zero
    · exact .digits ⟨Text.decimal_ne_nil n, fun c hc => Text.isDigit_of_mem_decimal hc⟩ (Text.head?_decimal hzero)
  have hparts := Numeral.positive hwhole .none .none
  rwa [List.append_nil, List.append_nil] at hparts

/-- The text of the value, wherever it ends, spells the tokens of the value. -/
def Lexes (j : Json) : Prop := ∀ (d : Depth) {rest : List Char} {ts : List Token}, Ends rest →
  Spells ts rest → Spells (tokens j ++ ts) (render d j ++ rest)

theorem spells_line (d : Depth) (h : Spells ts rest) : Spells ts (d.line ++ rest) := by
  cases d with
  | none => exact h
  | some n =>
    refine .blank rfl ?_
    induction 2 * n with
    | zero => exact h
    | succ n ih => exact .blank rfl ih

theorem spells_colon (d : Depth) (h : Spells ts rest) : Spells (.colon :: ts) (d.colon ++ rest) := by
  cases d with
  | none => exact .word .colon h
  | some n => exact .word (s := [':']) .colon (.blank rfl h)

theorem ends_line {c : Char} (hc : c = ',' ∨ c = ']' ∨ c = '\x7d') (d : Depth) : Ends (d.line ++ c :: rest) := by
  cases d with
  | none => rcases hc with rfl | rfl | rfl <;> exact ends_cons (by decide) _
  | some n => exact ends_cons (by decide) _

theorem ends_renderItems (d : Depth) (r : List Json) : Ends (renderItems d r ++ rest) := by
  cases r with
  | nil =>
    rw [renderItems, List.append_assoc]
    exact ends_line (by decide) d
  | cons j r =>
    rw [renderItems]
    exact ends_cons (by decide) _

theorem ends_renderMembers (d : Depth) (r : List (Option String × Json)) : Ends (renderMembers d r ++ rest) := by
  cases r with
  | nil =>
    rw [renderMembers, List.append_assoc]
    exact ends_line (by decide) d
  | cons j r =>
    rw [renderMembers]
    exact ends_cons (by decide) _

theorem spells_renderItems {r : List Json} (hr : ∀ j ∈ r, Lexes j) (h : Spells ts rest) :
    Spells (itemTokens r ++ ts) (renderItems d r ++ rest) := by
  induction r with
  | nil =>
    rw [renderItems, List.append_assoc]
    exact spells_line d (.word .rightBracket h)
  | cons j r ih =>
    have hrest := ih fun i hi => hr i (List.mem_cons_of_mem _ hi)
    have hitem := hr j List.mem_cons_self d.deeper (ends_renderItems d r) hrest
    simp only [renderItems, itemTokens, List.cons_append, List.append_assoc]
    exact .word .comma (spells_line d.deeper hitem)

theorem spells_renderMember {m : Option String × Json} (hm : Lexes m.2) (hends : Ends rest) (h : Spells ts rest) :
    Spells (memberTokens m ++ ts) (renderMember d m ++ rest) := by
  obtain ⟨n, j⟩ := m
  simp only [renderMember, memberTokens, List.cons_append, List.append_assoc]
  exact .word (spells_quoted n) (spells_colon d (hm d hends h))

theorem spells_renderMembers {r : List (Option String × Json)} (hr : ∀ m ∈ r, Lexes m.2) (h : Spells ts rest) :
    Spells (membersTokens r ++ ts) (renderMembers d r ++ rest) := by
  induction r with
  | nil =>
    rw [renderMembers, List.append_assoc]
    exact spells_line d (.word .rightBrace h)
  | cons m r ih =>
    have hrest := ih fun i hi => hr i (List.mem_cons_of_mem _ hi)
    have hmember := spells_renderMember (d := d.deeper) (hr m List.mem_cons_self) (ends_renderMembers d r) hrest
    simp only [renderMembers, membersTokens, List.cons_append, List.append_assoc]
    exact .word .comma (spells_line d.deeper hmember)

theorem Plain.lexes (h : Plain j) : Lexes j := by
  induction h with
  | null => exact fun _ _ _ _ h => .word .null h
  | bool b =>
    intro d rest ts _ h
    cases b with
    | false => exact .word .no h
    | true => exact .word .yes h
  | ofNat n => exact fun _ _ _ hends h => .number (numeral_decimal n) hends h
  | string t =>
    intro d rest ts _ h
    simp only [render, tokens]
    exact .word (spells_quoted t) h
  | @array items _ ih =>
    intro d rest ts _ h
    cases items with
    | nil => exact .word (s := ['[']) .leftBracket (.word .rightBracket h)
    | cons j r =>
      -- From the end backwards: whatever stands behind an item, another one or the end, also ends a number in it.
      have hrest := spells_renderItems (d := d) (fun i hi => ih i (List.mem_cons_of_mem _ hi)) h
      have hitem := ih j List.mem_cons_self d.deeper (ends_renderItems d r) hrest
      simp only [render, tokens, List.cons_append, List.append_assoc]
      exact .word .leftBracket (spells_line d.deeper hitem)
  | @object members _ ih =>
    intro d rest ts _ h
    cases members with
    | nil => exact .word (s := ['\x7b']) .leftBrace (.word .rightBrace h)
    | cons m r =>
      have hrest := spells_renderMembers (d := d) (fun i hi => ih i (List.mem_cons_of_mem _ hi)) h
      have hmember := spells_renderMember (d := d.deeper) (ih m List.mem_cons_self) (ends_renderMembers d r) hrest
      simp only [render, tokens, List.cons_append, List.append_assoc]
      exact .word .leftBrace (spells_line d.deeper hmember)

/-! ### From the tokens to the value -/

/-- Where a value is expected, the tokens of this one make it. -/
def Reads (j : Json) : Prop := ∀ (frames : List Frame) (ts : List Token),
  readFrom .value frames (tokens j ++ ts) = readFrom (.rest j) frames ts

theorem readFrom_cons (e : Expect) (frames : List Frame) : readFrom e frames (t :: ts) =
    (e.step? frames t).bind fun p => readFrom p.1 p.2 ts := by
  rw [readFrom]
  cases e.step? frames t <;> rfl

/-- The first item of an array is read like any other. -/
theorem readFrom_firstItem (j : Json) (frames : List Frame) (ts : List Token) :
    readFrom .firstItem frames (tokens j ++ ts) = readFrom .value (.item [] :: frames) (tokens j ++ ts) := by
  match j with
  | null | bool _ | number _ | string _ | array [] | array (_ :: _) | object [] | object (_ :: _) =>
    simp only [tokens, List.cons_append, readFrom_cons, Expect.step?]

theorem readFrom_itemTokens {r : List Json} (hr : ∀ j ∈ r, Reads j) (before : List Json) (frames : List Frame) :
    readFrom (.rest j) (.item before :: frames) (itemTokens r ++ ts) =
      readFrom (.rest (.array ((j :: before).reverse ++ r))) frames ts := by
  induction r generalizing j before with
  | nil => simp only [itemTokens, List.cons_append, List.nil_append, readFrom_cons, Expect.step?, Option.bind_some,
      List.append_nil]
  | cons i r ih =>
    -- The item that was read goes to the front of the frame, which is turned round at the end.
    have hstep : readFrom (.rest j) (.item before :: frames) (itemTokens (i :: r) ++ ts) =
        readFrom .value (.item (j :: before) :: frames) (tokens i ++ (itemTokens r ++ ts)) := by
      simp only [itemTokens, List.cons_append, readFrom_cons, Expect.step?, Option.bind_some, List.append_assoc]
    rw [hstep, hr i List.mem_cons_self, ih fun i hi => hr i (List.mem_cons_of_mem _ hi)]
    simp only [List.reverse_cons, List.append_assoc, List.cons_append, List.nil_append]

theorem readFrom_memberTokens {m : Option String × Json} (hm : Reads m.2) (before : List (Option String × Json))
    (frames : List Frame) : readFrom (.member before) frames (memberTokens m ++ ts) =
      readFrom (.rest m.2) (.member before m.1 :: frames) ts := by
  obtain ⟨n, j⟩ := m
  simp only [memberTokens, List.cons_append, readFrom_cons, Expect.step?, Option.bind_some]
  exact hm (.member before n :: frames) ts

theorem readFrom_firstMember (m : Option String × Json) (frames : List Frame) :
    readFrom .firstMember frames (memberTokens m ++ ts) = readFrom (.member []) frames (memberTokens m ++ ts) := by
  obtain ⟨n, j⟩ := m
  simp only [memberTokens, List.cons_append, readFrom_cons, Expect.step?]

theorem readFrom_membersTokens {r : List (Option String × Json)} (hr : ∀ m ∈ r, Reads m.2)
    (before : List (Option String × Json)) (n : Option String) (frames : List Frame) :
    readFrom (.rest j) (.member before n :: frames) (membersTokens r ++ ts) =
      readFrom (.rest (.object (((n, j) :: before).reverse ++ r))) frames ts := by
  induction r generalizing j before n with
  | nil => simp only [membersTokens, List.cons_append, List.nil_append, readFrom_cons, Expect.step?, Option.bind_some,
      List.append_nil]
  | cons m r ih =>
    have hstep : readFrom (.rest j) (.member before n :: frames) (membersTokens (m :: r) ++ ts) =
        readFrom (.member ((n, j) :: before)) frames (memberTokens m ++ (membersTokens r ++ ts)) := by
      simp only [membersTokens, List.cons_append, readFrom_cons, Expect.step?, Option.bind_some, List.append_assoc]
    rw [hstep, readFrom_memberTokens (hr m List.mem_cons_self), ih fun i hi => hr i (List.mem_cons_of_mem _ hi)]
    simp only [List.reverse_cons, List.append_assoc, List.cons_append, List.nil_append]

/-- The reader makes any value of its tokens. -/
theorem reads (j : Json) : Reads j := by
  intro frames ts
  match j with
  | null | bool _ | number _ | string _ | array [] | object [] =>
    simp only [tokens, List.cons_append, List.nil_append, readFrom_cons, Expect.step?, Expect.ofValue?,
      Option.bind_some]
  | array (i :: r) =>
    simp only [tokens, List.cons_append, readFrom_cons, Expect.step?, Expect.ofValue?, Option.bind_some,
      List.append_assoc]
    rw [readFrom_firstItem, reads i, readFrom_itemTokens fun i hi => reads i]
    rfl
  | object (m :: r) =>
    simp only [tokens, List.cons_append, readFrom_cons, Expect.step?, Expect.ofValue?, Option.bind_some,
      List.append_assoc]
    rw [readFrom_firstMember, readFrom_memberTokens (reads m.2), readFrom_membersTokens fun m hm => reads m.2]
    rfl
termination_by sizeOf j
decreasing_by
  · simp_wf; omega
  · have hlt := List.sizeOf_lt_of_mem hi
    simp_wf; omega
  · have hmember : sizeOf m.2 < sizeOf m := by cases m; simp only [Prod.mk.sizeOf_spec]; omega
    simp_wf; omega
  · have hlt := List.sizeOf_lt_of_mem hm
    have hmember : sizeOf m.2 < sizeOf m := by cases m; simp only [Prod.mk.sizeOf_spec]; omega
    simp_wf; omega

/-! ### There and back -/

/-- The text spells the value. -/
def IsText (j : Json) (s : List Char) : Prop := Spells (tokens j) s

/-- A text is read as the value that it spells. -/
theorem IsText.parse?_eq {text : String} (h : j.IsText text.toList) : parse? text = some j := by
  have hread : readFrom .value [] (tokens j ++ []) = some j := reads j [] []
  rw [List.append_nil] at hread
  rw [parse?, Spells.tokens?_eq h, Option.bind_some, hread]

/-- What is written of a value spells it. -/
theorem Plain.isText_render (h : Plain j) (d : Depth) : j.IsText (render d j) := by
  have hends : Ends [] := fun _ he => nomatch he
  have hspells := h.lexes d hends .done
  rwa [List.append_nil, List.append_nil] at hspells

theorem Plain.parse?_render (h : Plain j) (d : Depth) : parse? (String.ofList (render d j)) = some j :=
  IsText.parse?_eq (by rw [String.toList_ofList]; exact h.isText_render d)

/-! ### Members and numbers -/

theorem Plain.ofMembers {members : List (String × Json)} (h : ∀ m ∈ members, Plain m.2) : Plain (ofMembers members) := by
  refine .object fun m hm => ?_
  obtain ⟨e, he, rfl⟩ := List.mem_map.mp hm
  exact h e he

theorem nat?_ofNat (n : Nat) : (ofNat n).nat? = some n := by
  have hall : (Text.decimal n).all Text.isDigit = true :=
    List.all_eq_true.mpr fun c hc => Text.isDigit_of_mem_decimal hc
  rw [ofNat, nat?, if_pos hall, Text.digitsValue_decimal]

theorem word?_ofNat {bits n : Nat} (h : n < 1 <<< bits) : (ofNat n).word? bits = some n := by
  rw [word?, nat?_ofNat, Option.filter_some, decide_eq_true h, if_pos rfl]

end Json
end IdentityVault
