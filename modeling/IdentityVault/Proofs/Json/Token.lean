import IdentityVault.Json.Printer
import IdentityVault.Json.Token
import IdentityVault.Proofs.Text.Decimal

/-! The spelling of the words of a JSON text, and of texts of many words: numbers with fractions and exponents, strings
    with escapes, and blanks between all of them. Whatever is spelled like that is read, as the words that it spells. -/

namespace IdentityVault
namespace Json

variable {t : Token} {ts : List Token} {c : Char} {s r rest : List Char}

/-! ### Numbers -/

def Digits (d : List Char) : Prop := d ≠ [] ∧ ∀ c ∈ d, Text.isDigit c = true

-- Over the list: characters are finitely many, and an instance that goes through all of them would be found first.
instance (d : List Char) : Decidable (Digits d) :=
  decidable_of_iff (d ≠ [] ∧ d.all Text.isDigit = true) (and_congr_right fun _ => List.all_eq_true)

inductive Whole : List Char → Prop
  | zero : Whole ['0']
  | digits {d : List Char} (h : Digits d) (hzero : d.head? ≠ some '0') : Whole d

inductive Fraction : List Char → Prop
  | none : Fraction []
  | digits {d : List Char} (h : Digits d) : Fraction ('.' :: d)

inductive Exponent : List Char → Prop
  | none : Exponent []
  | digits {mark : Char} {sign d : List Char} (hmark : mark = 'e' ∨ mark = 'E')
    (hsign : sign = [] ∨ sign = ['+'] ∨ sign = ['-']) (h : Digits d) : Exponent (mark :: (sign ++ d))

/-- A number as it can be written. -/
inductive Numeral : List Char → Prop
  | positive {w f e : List Char} (hw : Whole w) (hf : Fraction f) (he : Exponent e) : Numeral (w ++ f ++ e)
  | negative {w f e : List Char} (hw : Whole w) (hf : Fraction f) (he : Exponent e) : Numeral ('-' :: (w ++ f ++ e))

/-- What may stand behind a number: nothing that could belong to it. -/
def Ends (rest : List Char) : Prop := ∀ c ∈ rest.head?, Text.isDigit c = false ∧ c ≠ '.' ∧ c ≠ 'e' ∧ c ≠ 'E'

theorem ends_cons (hc : Text.isDigit c = false ∧ c ≠ '.' ∧ c ≠ 'e' ∧ c ≠ 'E') (r : List Char) : Ends (c :: r) := by
  rintro _ ⟨⟩
  exact hc

theorem Ends.noDigit (h : Ends rest) : Text.NoDigit rest := fun c hc => (h c hc).1

theorem digits?_append {d : List Char} (h : Digits d) (hrest : Text.NoDigit rest) :
    Token.digits? (d ++ rest) = some (d, rest) := by
  rw [Token.digits?, Text.takeWhile_digits h.2 hrest, Text.dropWhile_digits h.2 hrest, if_neg h.1]

theorem Whole.whole?_append {w : List Char} (h : Whole w) (hrest : Text.NoDigit rest) :
    Token.whole? (w ++ rest) = some (w, rest) := by
  cases h with
  | zero => rfl
  | digits hd hzero =>
    have hdigits := digits?_append hd hrest
    obtain ⟨c, r, rfl⟩ := List.exists_cons_of_ne_nil hd.1
    rw [List.cons_append] at hdigits ⊢
    rw [Token.whole?, hdigits]
    intro _ he
    cases he
    exact hzero rfl

theorem Fraction.fraction?_append {f : List Char} (h : Fraction f)
    (hrest : ∀ c ∈ rest.head?, Text.isDigit c = false ∧ c ≠ '.') : Token.fraction? (f ++ rest) = some (f, rest) := by
  cases h with
  | none =>
    rw [List.nil_append, Token.fraction?.eq_def]
    split
    · exact absurd rfl (hrest _ rfl).2
    · rfl
  | digits hd => rw [List.cons_append, Token.fraction?, digits?_append hd fun c hc => (hrest c hc).1, Option.map_some]

theorem Exponent.exponent?_append {e : List Char} (h : Exponent e) (hrest : Ends rest) :
    Token.exponent? (e ++ rest) = some (e, rest) := by
  cases h with
  | none =>
    rw [List.nil_append, Token.exponent?.eq_def]
    split
    all_goals first | exact absurd rfl (hrest _ rfl).2.2.1 | exact absurd rfl (hrest _ rfl).2.2.2 | rfl
  | @digits mark sign d hmark hsign hd =>
    have hdigits := digits?_append hd hrest.noDigit
    obtain ⟨c, r, rfl⟩ := List.exists_cons_of_ne_nil hd.1
    have hdigit : Text.isDigit c = true := hd.2 c List.mem_cons_self
    have hplus : c ≠ '+' := by
      rintro rfl
      cases hdigit
    have hminus : c ≠ '-' := by
      rintro rfl
      cases hdigit
    rw [List.cons_append] at hdigits
    rcases hmark with rfl | rfl <;> rcases hsign with rfl | rfl | rfl <;>
      simp only [List.cons_append, List.nil_append] <;> rw [Token.exponent?, hdigits]
    all_goals first
      | rfl
      | rintro _ he
        cases he
        first | exact hplus rfl | exact hminus rfl

theorem Whole.exists_cons {w : List Char} (h : Whole w) : ∃ c r, w = c :: r ∧ Text.isDigit c = true := by
  cases h with
  | zero => exact ⟨'0', [], rfl, rfl⟩
  | digits hd _ =>
    obtain ⟨c, r, rfl⟩ := List.exists_cons_of_ne_nil hd.1
    exact ⟨c, r, rfl, hd.2 c List.mem_cons_self⟩

/-- Neither a fraction nor an exponent starts with what could belong to the part in front of it. -/
theorem Exponent.parts {e : List Char} (he : Exponent e) (hrest : Ends rest) :
    ∀ c ∈ (e ++ rest).head?, Text.isDigit c = false ∧ c ≠ '.' := by
  intro c hc
  cases he with
  | none => exact ⟨(hrest c hc).1, (hrest c hc).2.1⟩
  | digits hmark _ _ =>
    cases hc
    rcases hmark with rfl | rfl <;> decide

theorem Fraction.noDigit {f e : List Char} (hf : Fraction f) (he : Exponent e) (hrest : Ends rest) :
    Text.NoDigit (f ++ (e ++ rest)) := by
  intro c hc
  cases hf with
  | none => exact (he.parts hrest c hc).1
  | digits _ =>
    cases hc
    decide

theorem unsigned?_append {w f e : List Char} (hw : Whole w) (hf : Fraction f) (he : Exponent e) (hrest : Ends rest) :
    Token.unsigned? (w ++ f ++ e ++ rest) = some (w ++ f ++ e, rest) := by
  simp only [List.append_assoc]
  rw [Token.unsigned?, hw.whole?_append (hf.noDigit he hrest)]
  simp [hf.fraction?_append (he.parts hrest), he.exponent?_append hrest]

/-- A digit begins a number and no other word. -/
theorem next?_of_isDigit (hc : Text.isDigit c = true) (r : List Char) :
    Token.next? (c :: r) = (Token.unsigned? (c :: r)).map fun p => (.number p.1, p.2) := by
  obtain ⟨k, hk, rfl⟩ := Text.eq_digitChar_of_isDigit hc
  match k, hk with
  | 0, _ | 1, _ | 2, _ | 3, _ | 4, _ | 5, _ | 6, _ | 7, _ | 8, _ | 9, _ => rfl

theorem isBlank_of_isDigit (hc : Text.isDigit c = true) : Token.isBlank c = false := by
  obtain ⟨k, hk, rfl⟩ := Text.eq_digitChar_of_isDigit hc
  revert k
  decide

theorem Numeral.exists_cons {l : List Char} (h : Numeral l) : ∃ c r, l = c :: r ∧ Token.isBlank c = false := by
  cases h with
  | positive hw _ _ =>
    obtain ⟨c, r, rfl, hc⟩ := hw.exists_cons
    exact ⟨c, _, rfl, isBlank_of_isDigit hc⟩
  | negative => exact ⟨'-', _, rfl, rfl⟩

theorem Numeral.next? {l : List Char} (h : Numeral l) (hrest : Ends rest) :
    Token.next? (l ++ rest) = some (.number l, rest) := by
  cases h with
  | positive hw hf he =>
    have hnumber := unsigned?_append hw hf he hrest
    obtain ⟨c, r, rfl, hc⟩ := hw.exists_cons
    simp only [List.cons_append] at hnumber ⊢
    rw [next?_of_isDigit hc, hnumber, Option.map_some]
  | negative hw hf he =>
    have hnumber := unsigned?_append hw hf he hrest
    rw [List.cons_append]
    change ((Token.unsigned? _).map _).map _ = _
    rw [hnumber]
    rfl

/-- A number of digits only is written as decimals are. -/
theorem Numeral.decimal_eq {l : List Char} (h : Numeral l) (hdigits : ∀ c ∈ l, Text.isDigit c = true) :
    Text.decimal (Text.digitsValue l) = l := by
  cases h with
  | negative => exact absurd (hdigits '-' List.mem_cons_self) (by decide)
  | @positive w f e hw hf he =>
    have hfraction : f = [] := by
      cases hf with
      | none => rfl
      | digits => exact absurd (hdigits '.' (by simp)) (by decide)
    have hexponent : e = [] := by
      cases he with
      | none => rfl
      | @digits mark _ _ hmark =>
        have hdigit := hdigits mark (by simp)
        rcases hmark with rfl | rfl <;> cases hdigit
    rw [hfraction, hexponent, List.append_nil, List.append_nil]
    cases hw with
    | zero => rfl
    | digits hd hzero => exact Text.decimal_digitsValue hd.1 hd.2 fun hhead => absurd hhead hzero

/-! ### Strings -/

/-- A part of a string: a character, or a code unit that is half of one, or all of it. -/
inductive Piece where
  | char (c : Char)
  | unit (u : Nat)

namespace Piece

/-- How a part can be written: as it is, if nothing speaks against it, or with one of the escapes. -/
inductive Spells : Piece → List Char → Prop
  | plain {c : Char} (hquote : c ≠ '"') (hbackslash : c ≠ '\\') (hprinted : 0x20 ≤ c.toNat) : Spells (char c) [c]
  | short {e c : Char} (h : Token.escape? e = some c) : Spells (char c) ['\\', e]
  | unit {a b c d : Char} {u : Nat} (h : Token.unit? a b c d = some u) : Spells (unit u) ['\\', 'u', a, b, c, d]

def IsLead (u : Nat) : Prop := 0xd800 ≤ u ∧ u < 0xdc00

def IsTrail (u : Nat) : Prop := 0xdc00 ≤ u ∧ u < 0xe000

instance (u : Nat) : Decidable (IsLead u) := inferInstanceAs (Decidable (_ ∧ _))

instance (u : Nat) : Decidable (IsTrail u) := inferInstanceAs (Decidable (_ ∧ _))

/-- The characters of a string, if each half of a character stands with its other half. -/
def chars? : List Piece → Option (List Char)
  | [] => some []
  | char c :: r => (chars? r).map (c :: ·)
  | unit u :: r =>
    if IsLead u then
      match r with
      | unit v :: r =>
        if IsTrail v then (chars? r).map (Char.ofNat (0x10000 + 0x400 * (u - 0xd800) + (v - 0xdc00)) :: ·) else none
      | _ => none
    else if IsTrail u then none
    else (chars? r).map (Char.ofNat u :: ·)

def push (read : Token.Partial) : Piece → Token.Partial
  | char c => read.push c
  | unit u => read.pushUnit u

theorem Spells.stringFrom {p : Piece} (h : p.Spells s) (read : Token.Partial) (r : List Char) :
    Token.stringFrom read (s ++ r) = Token.stringFrom (p.push read) r := by
  cases h with
  | plain hquote hbackslash hprinted =>
    rw [List.singleton_append, Token.stringFrom.eq_def]
    have hnot := Nat.not_lt.mpr hprinted
    split <;> simp_all [push, -Nat.not_lt]
  | short h =>
    simp only [List.cons_append, List.nil_append]
    rw [Token.stringFrom, h]
    · rfl
    · rintro _ _ _ _ _ ⟨rfl, -⟩
      cases h
  | unit h =>
    simp only [List.cons_append, List.nil_append]
    rw [Token.stringFrom, h]
    rfl

/-- How the parts of a string can be written. -/
inductive SpellsAll : List Piece → List Char → Prop
  | nil : SpellsAll [] []
  | cons {p : Piece} {ps : List Piece} {s r : List Char} (h : p.Spells s) (hr : SpellsAll ps r) :
    SpellsAll (p :: ps) (s ++ r)

theorem SpellsAll.stringFrom {pieces : List Piece} (h : SpellsAll pieces s) (read : Token.Partial)
    (rest : List Char) : Token.stringFrom read (s ++ '"' :: rest) = some ((pieces.foldl push read).text?, rest) := by
  induction h generalizing read with
  | nil => rw [List.nil_append, Token.stringFrom, List.foldl_nil]
  | cons hp _ ih => rw [List.append_assoc, hp.stringFrom, ih, List.foldl_cons]

/-- Once half a character has stayed alone, the string stands for no text. -/
theorem foldl_push_none (pieces : List Piece) : pieces.foldl push none = none := by
  induction pieces with
  | nil => rfl
  | cons p r ih => cases p <;> exact ih

theorem push_lead {u : Nat} (h : IsLead u) (done : List Char) :
    push (some (done, none)) (unit u) = some (done, some u) := if_pos h

theorem push_trail {u : Nat} (h : IsTrail u) (done : List Char) : push (some (done, none)) (unit u) = none := by
  have hlead : ¬ IsLead u := fun hl => absurd hl.2 (Nat.not_lt.mpr h.1)
  exact (if_neg hlead).trans (if_pos h)

theorem push_whole {u : Nat} (hlead : ¬ IsLead u) (htrail : ¬ IsTrail u) (done : List Char) :
    push (some (done, none)) (unit u) = some (Char.ofNat u :: done, none) := (if_neg hlead).trans (if_neg htrail)

/-- The second half of a character must follow the first one. -/
theorem text?_foldl_push_half (done : List Char) (u : Nat) {r : List Piece}
    (h : ∀ v r', r = unit v :: r' → ¬ IsTrail v) : (r.foldl push (some (done, some u))).text? = none := by
  match r with
  | [] => rfl
  | char c :: r => exact congrArg _ (foldl_push_none r)
  | unit v :: r =>
    have hpush : push (some (done, some u)) (unit v) = none := if_neg (h v r rfl)
    rw [List.foldl_cons, hpush, foldl_push_none]
    rfl

theorem text?_foldl_push (pieces : List Piece) (done : List Char) :
    (pieces.foldl push (some (done, none))).text? =
      (chars? pieces).map fun cs => String.ofList (done.reverse ++ cs) := by
  have hnext (done : List Char) (c : Char) (o : Option (List Char)) :
      (o.map fun cs => String.ofList ((c :: done).reverse ++ cs)) =
        (o.map (c :: ·)).map fun cs => String.ofList (done.reverse ++ cs) := by
    cases o <;> simp
  fun_induction chars? pieces generalizing done with
  | case1 => simp [Token.Partial.text?]
  | case2 c r ih => exact (ih (c :: done)).trans (hnext done c _)
  | case3 u hlead v r htrail ih =>
    rw [List.foldl_cons, push_lead hlead, List.foldl_cons, ← hnext, ← ih]
    exact congrArg (fun read => (r.foldl push read).text?) (if_pos htrail)
  | case4 u hlead v r htrail =>
    rw [List.foldl_cons, push_lead hlead, text?_foldl_push_half done u, Option.map_none]
    rintro _ _ ⟨rfl, -⟩
    exact htrail
  | case5 u r hlead hr =>
    rw [List.foldl_cons, push_lead hlead, text?_foldl_push_half done u fun v r' hv => absurd hv (hr v r'),
      Option.map_none]
  | case6 u r hlead htrail =>
    rw [List.foldl_cons, push_trail htrail, foldl_push_none]
    rfl
  | case7 u r hlead htrail ih => rw [List.foldl_cons, push_whole hlead htrail, ih, hnext]

/-- The text of a string, if it stands for one. -/
def text? (pieces : List Piece) : Option String := (chars? pieces).map String.ofList

end Piece

/-! ### Words -/

/-- How a word can be written that is not a number. -/
inductive Token.Spells : Token → List Char → Prop
  | leftBracket : Spells .leftBracket ['[']
  | rightBracket : Spells .rightBracket [']']
  | leftBrace : Spells .leftBrace ['\x7b']
  | rightBrace : Spells .rightBrace ['\x7d']
  | comma : Spells .comma [',']
  | colon : Spells .colon [':']
  | null : Spells .null ['n', 'u', 'l', 'l']
  | yes : Spells (.bool true) ['t', 'r', 'u', 'e']
  | no : Spells (.bool false) ['f', 'a', 'l', 's', 'e']
  | string {pieces : List Piece} {s : List Char} (h : Piece.SpellsAll pieces s) :
    Spells (.string (Piece.text? pieces)) ('"' :: s ++ ['"'])

/-- A text of words, with blanks between them. What stands behind a number does not belong to it. -/
inductive Spells : List Token → List Char → Prop
  | done : Spells [] []
  | blank {c : Char} {ts : List Token} {rest : List Char} (hc : Token.isBlank c = true) (h : Spells ts rest) :
    Spells ts (c :: rest)
  | word {t : Token} {ts : List Token} {s rest : List Char} (ht : t.Spells s) (h : Spells ts rest) :
    Spells (t :: ts) (s ++ rest)
  | number {l : List Char} {ts : List Token} {rest : List Char} (hl : Numeral l) (hrest : Ends rest)
    (h : Spells ts rest) : Spells (.number l :: ts) (l ++ rest)

theorem Token.Spells.next? (h : t.Spells s) (rest : List Char) : Token.next? (s ++ rest) = some (t, rest) := by
  cases h with
  | string h =>
    have hstring := h.stringFrom (some ([], none)) rest
    rw [Piece.text?_foldl_push] at hstring
    rw [List.append_assoc, List.cons_append, Token.next?, List.singleton_append, hstring]
    rfl
  | _ => rfl

theorem Token.Spells.exists_cons (h : t.Spells s) : ∃ c r, s = c :: r ∧ Token.isBlank c = false := by
  cases h with
  | _ => exact ⟨_, _, rfl, rfl⟩

/-! ### Texts -/

namespace Token

theorem scan_succ {fuel : Nat} (h : scan fuel r = some ts) : scan (fuel + 1) r = some ts := by
  induction fuel generalizing r ts with
  | zero =>
    cases r with
    | nil => exact h
    | cons c r => cases h
  | succ fuel ih =>
    cases r with
    | nil => exact h
    | cons c r =>
      rw [scan] at h ⊢
      split at h
      · next hblank => rw [if_pos hblank, ih h]
      · next hblank =>
        rw [if_neg hblank]
        split at h
        · next t rest hnext =>
          obtain ⟨ts', hts, rfl⟩ := Option.map_eq_some_iff.mp h
          simp only [ih hts, Option.map_some]
        · cases h

theorem scan_of_le {fuel more : Nat} (hle : fuel ≤ more) (h : scan fuel r = some ts) : scan more r = some ts := by
  induction hle with
  | refl => exact h
  | step _ ih => exact scan_succ ih

end Token

/-- A word in front of a text. -/
theorem tokens?_next (hs : ∃ c r, s = c :: r ∧ Token.isBlank c = false)
    (hnext : Token.next? (s ++ rest) = some (t, rest)) (h : tokens? rest = some ts) :
    tokens? (s ++ rest) = some (t :: ts) := by
  obtain ⟨c, r, rfl, hc⟩ := hs
  have hscan : Token.scan (r ++ rest).length rest = some ts := Token.scan_of_le (by simp) h
  rw [List.cons_append] at hnext ⊢
  rw [tokens?, List.length_cons, Token.scan, if_neg (by simp [hc])]
  simp only [hnext, hscan, Option.map_some]

theorem Spells.numeral {l : List Char} (h : Spells ts s) (hl : .number l ∈ ts) : Numeral l := by
  induction h with
  | done => cases hl
  | blank _ _ ih => exact ih hl
  | word ht _ ih =>
    rcases List.mem_cons.mp hl with rfl | hl
    · cases ht
    · exact ih hl
  | number hnumeral _ _ ih =>
    rcases List.mem_cons.mp hl with he | hl
    · cases he
      exact hnumeral
    · exact ih hl

/-- A text is read as the words that it spells. -/
theorem Spells.tokens?_eq (h : Spells ts s) : tokens? s = some ts := by
  induction h with
  | done => rfl
  | blank hc _ ih =>
    rw [tokens?, List.length_cons, Token.scan, if_pos hc]
    exact ih
  | word ht _ ih => exact tokens?_next ht.exists_cons (ht.next? _) ih
  | number hl hrest _ ih => exact tokens?_next hl.exists_cons (hl.next? hrest) ih

end Json
end IdentityVault
