import IdentityVault.Proofs.Settings.File

/-! Settings that are given in part. Each value that a file gives replaces the standard one, whatever else is in the
    file and in whatever order; a value of another kind is refused. -/

namespace IdentityVault

namespace Json

variable {j i : Json} {names : List String} {n : String} {t : Token} {s : List Char}

/-! ### Members -/

/-- The value that an object gives under a name. -/
def member? (name : String) : Json → Option Json
  | object members => (members.find? (·.1 == some name)).map (·.2)
  | _ => none

/-- An object that gives any of the fields `names`, none of them twice. All of its names stand for texts. -/
inductive Gives (names : List String) : Json → Prop
  | object {members : List (Option String × Json)} (htexts : ∀ m ∈ members, m.1 ≠ none)
    (honce : ∀ n ∈ names, members.countP (·.1 == some n) ≤ 1) : Gives names (.object members)

theorem Gives.fields?_eq (h : Gives names j) : j.fields? names = some (names.map fun n => j.member? n) := by
  cases h with
  | @object members htexts honce =>
    have hall : members.all (·.1.isSome) = true :=
      List.all_eq_true.mpr fun m hm => Option.isSome_iff_ne_none.mpr (htexts m hm)
    have hcount : (names.all fun n => decide ((members.filter (·.1 == some n)).length ≤ 1)) = true := by
      refine List.all_eq_true.mpr fun n hn => decide_eq_true ?_
      rw [← List.countP_eq_length_filter]
      exact honce n hn
    rw [Json.fields?, hall, hcount]
    rfl

theorem mem_memberTokens {m : Option String × Json} (ht : t ∈ tokens m.2) : t ∈ memberTokens m := by
  obtain ⟨n, j⟩ := m
  rw [memberTokens]
  exact List.mem_cons_of_mem _ (List.mem_cons_of_mem _ ht)

theorem mem_membersTokens {members : List (Option String × Json)} {m : Option String × Json} (hm : m ∈ members)
    (ht : t ∈ tokens m.2) : t ∈ membersTokens members := by
  induction members with
  | nil => cases hm
  | cons m' r ih =>
    rw [membersTokens]
    rcases List.mem_cons.mp hm with rfl | hm
    · exact List.mem_cons_of_mem _ (List.mem_append_left _ (mem_memberTokens ht))
    · exact List.mem_cons_of_mem _ (List.mem_append_right _ (ih hm))

/-- What is in a member is in the object. -/
theorem mem_tokens_of_member? (h : j.member? n = some i) (ht : t ∈ tokens i) : t ∈ tokens j := by
  cases j with
  | object members =>
    obtain ⟨m, hm, rfl⟩ := Option.map_eq_some_iff.mp h
    cases members with
    | nil => cases hm
    | cons m' r =>
      rw [tokens]
      rcases List.mem_cons.mp (List.mem_of_find?_eq_some hm) with rfl | hm
      · exact List.mem_cons_of_mem _ (List.mem_append_left _ (mem_memberTokens ht))
      · exact List.mem_cons_of_mem _ (List.mem_append_right _ (mem_membersTokens hm ht))
  | _ => cases h

/-! ### Numbers -/

/-- A value that is read as a number of so many bits is written as that number. -/
theorem eq_ofNat_of_word? {bits k : Nat} (h : j.word? bits = some k) (hj : ∀ l, j = .number l → Numeral l) :
    j = .ofNat k ∧ k < 1 <<< bits := by
  rw [word?, Option.filter_eq_some_iff] at h
  obtain ⟨hnat, hlt⟩ := h
  cases j with
  | number l =>
    rw [nat?] at hnat
    split at hnat
    · next hdigits =>
      cases hnat
      refine ⟨?_, by simpa using hlt⟩
      rw [ofNat, (hj l rfl).decimal_eq fun c hc => List.all_eq_true.mp hdigits c hc]
    · cases hnat
  | _ => cases hnat

end Json

/-! ### Leaves -/

/-- A single value of the settings. -/
inductive Leaf where
  | version
  | cost
  | memoryCost
  | parallelism
  | defaultBits
  | maxConns
  | scopeTimeoutSecs
  | dir
  | sealed
  deriving DecidableEq, Repr

namespace Leaf

variable {j i : Json} {l : Leaf}

abbrev Value : Leaf → Type
  | version | cost | memoryCost | parallelism => UInt32
  | defaultBits | maxConns | scopeTimeoutSecs => UInt64
  | dir => Option String
  | sealed => Bool

/-- The name of the section that the leaf is in, if it is in one. -/
def section? : Leaf → Option String
  | version => none
  | cost | memoryCost | parallelism => some "hasher"
  | defaultBits => some "rsa"
  | maxConns | scopeTimeoutSecs => some "database"
  | dir | sealed => some "keys"

def key : Leaf → String
  | version => "version"
  | cost => "cost"
  | memoryCost => "memoryCost"
  | parallelism => "parallelism"
  | defaultBits => "defaultBits"
  | maxConns => "maxConns"
  | scopeTimeoutSecs => "scopeTimeoutSecs"
  | dir => "dir"
  | sealed => "sealed"

def of (s : Settings) : (l : Leaf) → l.Value
  | version => s.version
  | cost => s.hasher.cost
  | memoryCost => s.hasher.memoryCost
  | parallelism => s.hasher.parallelism
  | defaultBits => s.rsa.defaultBits
  | maxConns => s.database.maxConns
  | scopeTimeoutSecs => s.database.scopeTimeoutSecs
  | dir => s.keys.dir
  | sealed => s.keys.sealed

/-- How a value of the leaf is given: a number by its digits, a directory as a string or `null`. -/
def toJson : (l : Leaf) → l.Value → Json
  | version, n | cost, n | memoryCost, n | parallelism, n => .ofNat (UInt32.toNat n)
  | defaultBits, n | maxConns, n | scopeTimeoutSecs, n => .ofNat (UInt64.toNat n)
  | dir, none => .null
  | dir, some d => .ofString d
  | sealed, b => .bool b

/-- What is given for the leaf. -/
def given? (l : Leaf) (j : Json) : Option Json :=
  match l.section? with
  | none => j.member? l.key
  | some s => (j.member? s).bind (·.member? l.key)

def read? : (l : Leaf) → Json → Option l.Value
  | version | cost | memoryCost | parallelism => HashSettings.word32?
  | defaultBits | maxConns | scopeTimeoutSecs => Json.word64?
  | dir => KeySettings.dirOfJson?
  | sealed => Json.bool?

/-- What the leaf comes to. -/
def value? (l : Leaf) (j : Json) : Option l.Value := Json.optional (l.of .standard) l.read? (l.given? j)

theorem read?_toJson (l : Leaf) (v : l.Value) : l.read? (l.toJson v) = some v := by
  cases l with
  | version | cost | memoryCost | parallelism => exact HashSettings.word32?_ofNat v
  | defaultBits | maxConns | scopeTimeoutSecs => exact Json.word64?_ofNat v
  | dir => cases v <;> rfl
  | sealed => rfl

/-- What is read as a value of the leaf gives this value, since a number has only one spelling of digits. -/
theorem eq_toJson {v : l.Value} (h : l.read? i = some v) (hi : ∀ n, i = .number n → Json.Numeral n) :
    i = l.toJson v := by
  cases l with
  | version | cost | memoryCost | parallelism =>
    obtain ⟨k, hk, rfl⟩ := Option.map_eq_some_iff.mp h
    obtain ⟨rfl, hlt⟩ := Json.eq_ofNat_of_word? hk hi
    exact congrArg Json.ofNat (UInt32.toNat_ofNat_of_lt hlt).symm
  | defaultBits | maxConns | scopeTimeoutSecs =>
    obtain ⟨k, hk, rfl⟩ := Option.map_eq_some_iff.mp h
    obtain ⟨rfl, hlt⟩ := Json.eq_ofNat_of_word? hk hi
    exact congrArg Json.ofNat (UInt64.toNat_ofNat_of_lt hlt).symm
  | dir =>
    cases i with
    | null =>
      cases h
      rfl
    | string t =>
      obtain ⟨d, rfl, rfl⟩ := Option.map_eq_some_iff.mp h
      rfl
    | _ => cases h
  | sealed =>
    cases i with
    | bool b =>
      cases h
      rfl
    | _ => cases h

theorem value?_of_absent {name : String} (hl : l.section? = some name) (h : j.member? name = none) :
    l.value? j = some (l.of .standard) := by
  rw [value?, given?, hl]
  simp only [h, Option.bind_none, Json.optional]

theorem value?_of_section {name : String} (hl : l.section? = some name) (h : j.member? name = some i) :
    l.value? j = Json.optional (l.of .standard) l.read? (i.member? l.key) := by
  rw [value?, given?, hl]
  simp only [h, Option.bind_some]

/-- No leaf has a value with a sign, a point or an exponent. -/
theorem number_ne_toJson {n : List Char} {c : Char} (hc : c ∈ n) (hdigit : Text.isDigit c = false) (v : l.Value) :
    Json.number n ≠ l.toJson v := by
  have hdecimal (k : Nat) : Json.number n ≠ .ofNat k := by
    intro h
    rw [Json.ofNat, Json.number.injEq] at h
    cases hdigit.symm.trans (Text.isDigit_of_mem_decimal (h ▸ hc))
  cases l with
  | version | cost | memoryCost | parallelism => exact hdecimal _
  | defaultBits | maxConns | scopeTimeoutSecs => exact hdecimal _
  | dir =>
    intro h
    cases v <;> cases h
  | sealed =>
    intro h
    cases h

/-- A number that is given for a leaf is a word of the text. -/
theorem numeral_of_given? {text : List Char} {n : List Char} (htext : j.IsText text)
    (h : l.given? j = some (.number n)) : Json.Numeral n := by
  have hmem : Json.Token.number n ∈ (Json.number n).tokens := List.mem_singleton_self _
  refine Json.Spells.numeral htext ?_
  rw [given?] at h
  split at h
  · exact Json.mem_tokens_of_member? h hmem
  · obtain ⟨inner, hinner, h⟩ := Option.bind_eq_some_iff.mp h
    exact Json.mem_tokens_of_member? hinner (Json.mem_tokens_of_member? h hmem)

end Leaf

/-! ### Settings that are given in part -/

namespace Settings

variable {j : Json} {s : Settings}

/-- An object that gives any of the settings, each at most once, and sections of which the same is true. -/
structure Partial (j : Json) : Prop where
  top : j.Gives ["version", "hasher", "rsa", "database", "keys"]
  hasher : ∀ i, j.member? "hasher" = some i → i.Gives ["cost", "memoryCost", "parallelism"]
  rsa : ∀ i, j.member? "rsa" = some i → i.Gives ["defaultBits"]
  database : ∀ i, j.member? "database" = some i → i.Gives ["maxConns", "scopeTimeoutSecs"]
  keys : ∀ i, j.member? "keys" = some i → i.Gives ["dir", "sealed"]

theorem Partial.hasher_eq_some (h : Partial j) {x : HashSettings} :
    Json.optional standard.hasher HashSettings.ofJson? (j.member? "hasher") = some x ↔
      Leaf.cost.value? j = some x.cost ∧ Leaf.memoryCost.value? j = some x.memoryCost ∧
        Leaf.parallelism.value? j = some x.parallelism := by
  obtain ⟨cost, memoryCost, parallelism⟩ := x
  cases hi : j.member? "hasher" with
  | none =>
    rw [Leaf.value?_of_absent rfl hi, Leaf.value?_of_absent rfl hi, Leaf.value?_of_absent rfl hi]
    simp [Json.optional, Leaf.of, standard, HashSettings.standard]
  | some i =>
    rw [Json.optional, HashSettings.ofJson?, (h.hasher i hi).fields?_eq, Leaf.value?_of_section rfl hi,
      Leaf.value?_of_section rfl hi, Leaf.value?_of_section rfl hi]
    simp [Leaf.key, Leaf.of, Leaf.read?, standard, Option.bind_eq_some_iff]

theorem Partial.rsa_eq_some (h : Partial j) {x : RsaSettings} :
    Json.optional standard.rsa RsaSettings.ofJson? (j.member? "rsa") = some x ↔
      Leaf.defaultBits.value? j = some x.defaultBits := by
  obtain ⟨defaultBits⟩ := x
  cases hi : j.member? "rsa" with
  | none =>
    rw [Leaf.value?_of_absent rfl hi]
    simp [Json.optional, Leaf.of, standard, RsaSettings.standard]
  | some i =>
    rw [Json.optional, RsaSettings.ofJson?, (h.rsa i hi).fields?_eq, Leaf.value?_of_section rfl hi]
    simp [Leaf.key, Leaf.of, Leaf.read?, standard, Option.bind_eq_some_iff]

theorem Partial.database_eq_some (h : Partial j) {x : DatabaseSettings} :
    Json.optional standard.database DatabaseSettings.ofJson? (j.member? "database") = some x ↔
      Leaf.maxConns.value? j = some x.maxConns ∧ Leaf.scopeTimeoutSecs.value? j = some x.scopeTimeoutSecs := by
  obtain ⟨maxConns, scopeTimeoutSecs⟩ := x
  cases hi : j.member? "database" with
  | none =>
    rw [Leaf.value?_of_absent rfl hi, Leaf.value?_of_absent rfl hi]
    simp [Json.optional, Leaf.of, standard, DatabaseSettings.standard]
  | some i =>
    rw [Json.optional, DatabaseSettings.ofJson?, (h.database i hi).fields?_eq, Leaf.value?_of_section rfl hi,
      Leaf.value?_of_section rfl hi]
    simp [Leaf.key, Leaf.of, Leaf.read?, standard, Option.bind_eq_some_iff]

theorem Partial.keys_eq_some (h : Partial j) {x : KeySettings} :
    Json.optional standard.keys KeySettings.ofJson? (j.member? "keys") = some x ↔
      Leaf.dir.value? j = some x.dir ∧ Leaf.sealed.value? j = some x.sealed := by
  obtain ⟨dir, isSealed⟩ := x
  cases hi : j.member? "keys" with
  | none =>
    rw [Leaf.value?_of_absent rfl hi, Leaf.value?_of_absent rfl hi]
    simp [Json.optional, Leaf.of, standard, KeySettings.standard]
  | some i =>
    rw [Json.optional, KeySettings.ofJson?, (h.keys i hi).fields?_eq, Leaf.value?_of_section rfl hi,
      Leaf.value?_of_section rfl hi]
    simp [Leaf.key, Leaf.of, Leaf.read?, standard, Option.bind_eq_some_iff]

/-- The settings that are read are the ones whose leaves are read one by one. -/
theorem Partial.ofJson?_eq_some (h : Partial j) : ofJson? j = some s ↔ ∀ l : Leaf, l.value? j = some (l.of s) := by
  obtain ⟨version, hasher, rsa, database, keys⟩ := s
  have hread : ofJson? j = some ⟨version, hasher, rsa, database, keys⟩ ↔ Leaf.version.value? j = some version ∧
      Json.optional standard.hasher HashSettings.ofJson? (j.member? "hasher") = some hasher ∧
      Json.optional standard.rsa RsaSettings.ofJson? (j.member? "rsa") = some rsa ∧
      Json.optional standard.database DatabaseSettings.ofJson? (j.member? "database") = some database ∧
      Json.optional standard.keys KeySettings.ofJson? (j.member? "keys") = some keys := by
    rw [ofJson?, h.top.fields?_eq]
    simp [Leaf.value?, Leaf.given?, Leaf.section?, Leaf.key, Leaf.of, Leaf.read?, Option.bind_eq_some_iff]
  rw [hread, h.hasher_eq_some, h.rsa_eq_some, h.database_eq_some, h.keys_eq_some]
  constructor
  · rintro ⟨hversion, ⟨hcost, hmemory, hparallelism⟩, hbits, ⟨hconns, htimeout⟩, hdir, hsealed⟩ l
    cases l <;> assumption
  · intro hl
    exact ⟨hl .version, ⟨hl .cost, hl .memoryCost, hl .parallelism⟩, hl .defaultBits,
      ⟨hl .maxConns, hl .scopeTimeoutSecs⟩, hl .dir, hl .sealed⟩

/-- Any values of the leaves are those of some settings. -/
theorem exists_of_leaves (value : (l : Leaf) → l.Value) : ∃ s : Settings, ∀ l : Leaf, l.of s = value l := by
  refine ⟨⟨value .version, ⟨value .cost, value .memoryCost, value .parallelism⟩, ⟨value .defaultBits⟩,
    ⟨value .maxConns, value .scopeTimeoutSecs⟩, ⟨value .dir, value .sealed⟩⟩, fun l => ?_⟩
  cases l <;> rfl

variable {path : FilePath} {w : FileWorld} {text : String}

/-- In a file with an object that gives some of the settings, each value that is given in digits, as a string or as what
    else it can be given, replaces the standard one. If one is given as anything else, the file is refused. -/
theorem load_given (hfile : w.tree.read w.base path = .ok (Text.utf8 text)) (htext : j.IsText text.toList)
    (hj : Partial j) :
    (∀ given : (l : Leaf) → Option l.Value, (∀ l, l.given? j = (given l).map l.toJson) →
      ∃ s, (load path).run.outcome w = (.ok s, w) ∧ ∀ l : Leaf, l.of s = (given l).getD (l.of .standard)) ∧
    ∀ (l : Leaf) (i : Json), l.given? j = some i → (∀ v, i ≠ l.toJson v) →
      ∃ message, (load path).run.outcome w = (.error (.serialization message), w) := by
  rw [load_of_read hfile]
  refine ⟨fun given hgiven => ?_, fun l i hi hother => ?_⟩
  · obtain ⟨s, hs⟩ := exists_of_leaves fun l => (given l).getD (l.of .standard)
    refine ⟨s, Prod.ext (Json.decode_eq_ok.mpr ⟨j, htext.parse?_eq, ?_⟩) rfl, hs⟩
    refine hj.ofJson?_eq_some.mpr fun l => ?_
    rw [Leaf.value?, hgiven l, hs l]
    cases given l with
    | none => rfl
    | some v => exact l.read?_toJson v
  · have hread : ofJson? j = none := by
      refine Option.eq_none_iff_forall_ne_some.mpr fun s hs => ?_
      have hvalue := hj.ofJson?_eq_some.mp hs l
      rw [Leaf.value?, hi] at hvalue
      refine hother _ (Leaf.eq_toJson hvalue ?_)
      rintro n rfl
      exact Leaf.numeral_of_given? htext hi
    exact ⟨_, Prod.ext (by rw [Json.decode, htext.parse?_eq, Option.bind_some, hread]) rfl⟩

/-- A world with one file. -/
def worldWith (path : FilePath) (text : String) : FileWorld :=
  ((FileEffect.write path (Text.utf8 text)).outcome (.new [] (.ofSeed []) ⟨0, 0⟩)).2

/-- A cost whose name is spelled with an escape, among values that nobody asked for; and a size below zero. -/
theorem load_given_of_escape :
    let path := "settings.json".toList
    let text := "\x7b\"hasher\":\x7b\"\\u0063ost\":7,\"x\":[-1.5e9,\"\\ud800\"]\x7d ,\"version\":4294967295\x7d"
    let below := "\x7b\"rsa\":\x7b\"defaultBits\":-1\x7d\x7d"
    (∃ s, (load path).run.outcome (worldWith path text) = (.ok s, worldWith path text) ∧
      s.version = 4294967295 ∧ s.hasher.cost = 7 ∧ s.hasher.memoryCost = standard.hasher.memoryCost) ∧
    ∃ message, (load path).run.outcome (worldWith path below) =
      (.error (.serialization message), worldWith path below) := by
  intro path text below
  constructor
  · let hasher : Json := .object [(some "cost", .ofNat 7), (some "x", .array [.number "-1.5e9".toList, .string none])]
    let j : Json := .object [(some "hasher", hasher), (some "version", .ofNat 4294967295)]
    have hexponent : Json.Exponent ['e', '9'] := .digits (d := ['9']) (.inl rfl) (.inl rfl) (by decide)
    have hnumeral : Json.Numeral "-1.5e9".toList :=
      .negative (.digits (d := ['1']) (by decide) (by decide)) (.digits (d := ['5']) (by decide)) hexponent
    have hcost : Json.Token.Spells (.string (some "cost")) "\"\\u0063ost\"".toList :=
      .string (.cons (.unit (u := 0x63) (by decide)) (.cons (.plain (c := 'o') (by decide) (by decide) (by decide))
        (.cons (.plain (c := 's') (by decide) (by decide) (by decide))
          (.cons (.plain (c := 't') (by decide) (by decide) (by decide)) .nil))))
    -- From the end backwards, since a text is spelled in front of another one.
    have hversion := Json.Spells.word .comma (.word (Json.spells_quoted (some "version")) (.word .colon
      (.number (Json.numeral_decimal 4294967295) (Json.ends_cons (by decide) _) (.word .rightBrace .done))))
    have hitems := Json.Spells.word .leftBracket (.number hnumeral (Json.ends_cons (by decide) _)
      (.word .comma (.word (Json.spells_quoted none) (.word .rightBracket
        (.word .rightBrace (.blank (c := ' ') rfl hversion))))))
    have hunasked := Json.Spells.word .comma (.word (Json.spells_quoted (some "x")) (.word .colon hitems))
    have hspells := Json.Spells.word .leftBrace (.word (Json.spells_quoted (some "hasher")) (.word .colon
      (.word .leftBrace (.word hcost (.word .colon
        (.number (Json.numeral_decimal 7) (Json.ends_cons (by decide) _) hunasked))))))
    have htext : j.IsText text.toList :=
      Eq.mpr (congrArg₂ Json.Spells (by decide +kernel) (by decide +kernel)) hspells
    have hgiven : Partial j := by
      refine ⟨.object (by decide) (by decide), fun i hi => ?_, fun i hi => ?_, fun i hi => ?_, fun i hi => ?_⟩
      · cases hi
        exact .object (by decide) (by decide)
      all_goals cases hi
    have hfile : (worldWith path text).tree.read (worldWith path text).base path = .ok (Text.utf8 text) := by
      decide +kernel
    obtain ⟨s, hs, hleaf⟩ := (load_given hfile htext hgiven).1
      (fun | .cost => some 7 | .version => some 4294967295 | _ => none) (by intro l; cases l <;> rfl)
    exact ⟨s, hs, hleaf .version, hleaf .cost, hleaf .memoryCost⟩
  · let rsa : Json := .object [(some "defaultBits", .number ['-', '1'])]
    let j : Json := .object [(some "rsa", rsa)]
    have hnumeral : Json.Numeral ['-', '1'] := .negative (.digits (d := ['1']) (by decide) (by decide)) .none .none
    have hspells := Json.Spells.word .leftBrace (.word (Json.spells_quoted (some "rsa")) (.word .colon
      (.word .leftBrace (.word (Json.spells_quoted (some "defaultBits")) (.word .colon
        (.number hnumeral (Json.ends_cons (by decide) _) (.word .rightBrace (.word .rightBrace .done))))))))
    have htext : j.IsText below.toList :=
      Eq.mpr (congrArg₂ Json.Spells (by decide +kernel) (by decide +kernel)) hspells
    have hpartial : Partial j := by
      refine ⟨.object (by decide) (by decide), fun i hi => ?_, fun i hi => ?_, fun i hi => ?_, fun i hi => ?_⟩
      all_goals cases hi
      exact .object (by decide) (by decide)
    have hfile : (worldWith path below).tree.read (worldWith path below).base path = .ok (Text.utf8 below) := by
      decide +kernel
    exact (load_given hfile htext hpartial).2 .defaultBits _ rfl
      (Leaf.number_ne_toJson List.mem_cons_self (by decide))

/-- The name of a member must stand for a text, also where nobody asks for it; and a number must be written in digits
    only, also where its value is whole. -/
theorem load_given_spelled :
    let path := "settings.json".toList
    let lone := "\x7b\"\\ud800\":0\x7d"
    let exponent := "\x7b\"version\":1e2\x7d"
    (Json.IsText (.object [(none, .number ['0'])]) lone.toList ∧
      (load path).run.outcome (worldWith path lone) =
        (.error (.serialization "not the expected JSON"), worldWith path lone)) ∧
    Json.IsText (.object [(some "version", .number ['1', 'e', '2'])]) exponent.toList ∧
      (load path).run.outcome (worldWith path exponent) =
        (.error (.serialization "not the expected JSON"), worldWith path exponent) := by
  intro path lone exponent
  refine ⟨⟨?_, Prod.ext (by decide +kernel) (by decide +kernel)⟩, ?_, Prod.ext (by decide +kernel) (by decide +kernel)⟩
  · have hspells := Json.Spells.word .leftBrace (.word (Json.spells_quoted none) (.word .colon
      (.number (.positive .zero .none .none) (Json.ends_cons (by decide) _) (.word .rightBrace .done))))
    exact Eq.mpr (congrArg₂ Json.Spells (by decide +kernel) (by decide +kernel)) hspells
  · have hexponent : Json.Exponent ['e', '2'] := .digits (d := ['2']) (.inl rfl) (.inl rfl) (by decide)
    have hspells := Json.Spells.word .leftBrace (.word (Json.spells_quoted (some "version")) (.word .colon
      (.number (.positive (.digits (d := ['1']) (by decide) (by decide)) .none hexponent)
        (Json.ends_cons (by decide) _) (.word .rightBrace .done))))
    exact Eq.mpr (congrArg₂ Json.Spells (by decide +kernel) (by decide +kernel)) hspells

end Settings
end IdentityVault
