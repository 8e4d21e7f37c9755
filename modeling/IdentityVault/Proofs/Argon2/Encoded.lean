import IdentityVault.Argon2.Encoded
import IdentityVault.Proofs.Text.Base64
import IdentityVault.Proofs.Text.Decimal

/-! The text of a password hash is read back. No field contains the character that separates it from the next one, so
    cutting the text at its separators yields the fields again; and each field is read as what was written there. -/

namespace IdentityVault
namespace Argon2
namespace Encoded

variable {c : Char} {n : Nat} {s : List Char} {p : List Char × List Char} {params : List (List Char × List Char)}

/-! ### Characters -/

theorem valueChar_of_isValue (h : isValue s = true) (hc : c ∈ s) : valueChar c = true := by
  simp only [isValue, Bool.and_eq_true] at h
  exact List.all_eq_true.mp h.2 c hc

theorem valueChar_of_isName (h : isName s = true) (hc : c ∈ s) : valueChar c = true := by
  simp only [isName, Bool.and_eq_true] at h
  have hname := List.all_eq_true.mp h.2 c hc
  simp only [nameChar, valueChar, Bool.or_eq_true] at hname ⊢
  rcases hname with (hname | hname) | hname <;> simp only [hname, true_or, or_true]

/-- Nothing that separates fields, parameters, or a name from its value stands in one of them. -/
theorem not_mem_of_valueChar (h : ∀ {c}, c ∈ s → valueChar c = true) (hc : valueChar c = false) : c ∉ s := by
  intro hmem
  rw [h hmem] at hc
  cases hc

/-- All these characters are ASCII. -/
theorem utf8Size_of_valueChar (h : valueChar c = true) : c.utf8Size = 1 := by
  have hascii : c.val.toNat ≤ 127 := by
    simp only [valueChar, Text.isDigit, Bool.or_eq_true, Bool.and_eq_true, decide_eq_true_eq, beq_iff_eq, Char.le_def,
      UInt32.le_iff_toNat_le] at h
    obtain (((((⟨-, h⟩ | ⟨-, h⟩) | ⟨-, h⟩) | rfl) | rfl) | rfl) | rfl := h
    · exact Nat.le_trans h (by decide)
    · exact Nat.le_trans h (by decide)
    · exact Nat.le_trans h (by decide)
    all_goals decide
  rw [Char.utf8Size, if_pos (UInt32.le_iff_toNat_le.mpr hascii)]

theorem utf8Length_eq_length (h : ∀ c ∈ s, c.utf8Size = 1) : utf8Length s = s.length := by
  have hfold (n : Nat) : s.foldl (fun n c => n + c.utf8Size) n = n + s.length := by
    induction s generalizing n with
    | nil => rfl
    | cons c s ih =>
      rw [List.forall_mem_cons] at h
      rw [List.foldl_cons, h.1, ih h.2, List.length_cons]
      omega
  rw [utf8Length, hfold, Nat.zero_add]

/-! ### Numbers -/

theorem length_decimal_le_ten (h : n < 1 <<< 32) : (Text.decimal n).length ≤ 10 :=
  Text.length_decimal_le (by decide) (Nat.lt_trans h (by decide))

theorem isValue_decimal (h : n < 1 <<< 32) : isValue (Text.decimal n) = true := by
  have hlength := length_decimal_le_ten h
  have hdigits : (Text.decimal n).all valueChar = true := by
    refine List.all_eq_true.mpr fun c hc => ?_
    simp [valueChar, Text.isDigit_of_mem_decimal hc]
  simp only [isValue, hdigits, Bool.and_true, decide_eq_true_eq]
  omega

theorem number?_decimal (h : n < 1 <<< 32) : number? (Text.decimal n) = some n := by
  rw [number?, if_pos (isValue_decimal h), Text.decimal?_decimal, Option.filter_some, if_pos (decide_eq_true h)]

/-! ### Bytes -/

theorem valueChar_of_mem_base64 {b : Bytes} (h : c ∈ base64 b) : valueChar c = true := by
  obtain ⟨d, hd, rfl⟩ := List.mem_map.mp h
  obtain ⟨⟨⟩, -⟩ | ⟨n, hn, rfl⟩ := Base64.mem_encode hd
  clear h hd
  revert hn; revert n; decide

theorem digits_base64 (b : Bytes) : digits (base64 b) = Base64.encode false b := by
  rw [digits, base64, List.map_map]
  refine (List.map_congr_left fun d hd => ?_).trans (List.map_id _)
  obtain ⟨⟨⟩, -⟩ | ⟨n, hn, rfl⟩ := Base64.mem_encode hd
  clear hd
  revert hn; revert n; decide

theorem base64?_base64 (b : Bytes) : base64? (base64 b) = some b := by
  rw [base64?, digits_base64, Base64.decode?_encode]

theorem length_base64 (b : Bytes) : (base64 b).length = (4 * b.length + 2) / 3 := by
  rw [base64, List.length_map, Base64.length_encode]

theorem isValue_base64 {b : Bytes} (h : b.length ≤ 48) : isValue (base64 b) = true := by
  have hall : (base64 b).all valueChar = true := List.all_eq_true.mpr fun _ => valueChar_of_mem_base64
  have hlength := length_base64 b
  simp only [isValue, hall, Bool.and_true, decide_eq_true_eq]
  omega

/-! ### Parameters -/

/-- The field of the parameters. -/
def joined (params : List (List Char × List Char)) : List Char :=
  (List.intersperse [','] (params.map renderParam)).flatten

theorem mem_joined (h : c ∈ joined params) :
    c = ',' ∨ ∃ p ∈ params, c ∈ renderParam p := by
  induction params with
  | nil => cases h
  | cons p params ih =>
    cases params with
    | nil =>
      rw [joined, List.map_singleton, List.intersperse_singleton, List.flatten_singleton] at h
      exact .inr ⟨p, List.mem_cons_self, h⟩
    | cons q params =>
      rw [joined, List.map_cons, List.map_cons, List.intersperse_cons_cons, List.flatten_cons, List.flatten_cons,
        List.singleton_append, List.mem_append, List.mem_cons] at h
      rcases h with h | h | h
      · exact .inr ⟨p, List.mem_cons_self, h⟩
      · exact .inl h
      · obtain h | ⟨r, hr, h⟩ := ih h
        · exact .inl h
        · exact .inr ⟨r, List.mem_cons_of_mem _ hr, h⟩

/-- A parameter that can be written. -/
def Plain (p : List Char × List Char) : Prop := isName p.1 = true ∧ isValue p.2 = true

theorem Plain.mem_renderParam (h : Plain p) (hc : c ∈ renderParam p) : c = '=' ∨ valueChar c = true := by
  rw [renderParam, List.mem_append, List.mem_cons] at hc
  obtain hc | rfl | hc := hc
  · exact .inr (valueChar_of_isName h.1 hc)
  · exact .inl rfl
  · exact .inr (valueChar_of_isValue h.2 hc)

theorem utf8Length_joined (h : ∀ p ∈ params, Plain p) :
    utf8Length (joined params) = (joined params).length := by
  refine utf8Length_eq_length fun c hc => ?_
  obtain rfl | ⟨p, hp, hc⟩ := mem_joined hc
  · rfl
  · obtain rfl | hvalue := (h p hp).mem_renderParam hc
    · rfl
    · exact utf8Size_of_valueChar hvalue

theorem param?_renderParam (h : Plain p) : param? (renderParam p) = some p := by
  rw [param?, renderParam, Text.split_append (not_mem_of_valueChar (valueChar_of_isName h.1) (by decide)),
    Text.split_of_not_mem (not_mem_of_valueChar (valueChar_of_isValue h.2) (by decide))]
  simp only [h.1, h.2, Bool.and_self, if_true]

theorem params?_joined (hne : params ≠ []) (h : ∀ p ∈ params, Plain p)
    (hshort : (joined params).length ≤ 127) : params? (joined params) = some params := by
  have hsplit : Text.split ',' (joined params) = params.map renderParam := by
    refine Text.split_flatten_intersperse (by simpa using hne) fun t ht hmem => ?_
    obtain ⟨p, hp, rfl⟩ := List.mem_map.mp ht
    exact absurd ((h p hp).mem_renderParam hmem) (by decide)
  rw [params?, utf8Length_joined h, if_pos hshort, hsplit]
  clear hne hshort hsplit
  induction params with
  | nil => rfl
  | cons p params ih =>
    rw [List.forall_mem_cons] at h
    rw [List.map_cons, List.mapM_cons, param?_renderParam h.1, ih h.2]
    rfl

/-! ### Hashes -/

/-- No field is missing, and all of them can be written. -/
structure Complete (e : Encoded) : Prop where
  function : isName e.function = true
  version : ∃ n < 1 <<< 32, e.version = some n
  params : e.params ≠ []
  plain : ∀ p ∈ e.params, Plain p
  short : (joined e.params).length ≤ 127
  salt : ∃ s, e.salt = some s ∧ 4 ≤ s.length ∧ isValue s = true
  digest : ∃ d, e.digest = some d ∧ 10 ≤ d.length ∧ d.length ≤ 64

theorem parse?_render {e : Encoded} (h : e.Complete) : parse? e.render = some e := by
  obtain ⟨function, version, params, salt, digest⟩ := e
  obtain ⟨hfunction, ⟨n, hn, rfl⟩, hne, hplain, hshort, ⟨s, rfl, hlong, hs⟩, d, rfl, hd⟩ := h
  have hrender : render ⟨function, some n, params, some s, some d⟩ =
      [] ++ '$' :: (function ++ '$' :: ('v' :: '=' :: Text.decimal n ++ '$' :: (joined params ++ '$' ::
        (s ++ '$' :: base64 d)))) := by
    simp [render, joined, hne]
  have hnumber {c : Char} (hc : valueChar c = false) : c ∉ Text.decimal n :=
    not_mem_of_valueChar (valueChar_of_isValue (isValue_decimal hn)) hc
  -- What begins like a version is taken for parameters if it has a comma.
  have hcomma : ',' ∉ Text.decimal n := hnumber (by decide)
  have hversion : '$' ∉ 'v' :: '=' :: Text.decimal n := by
    simpa using hnumber (by decide)
  have hparams : '$' ∉ joined params := by
    intro hmem
    obtain h | ⟨p, hp, hmem⟩ := mem_joined hmem
    · cases h
    · exact absurd ((hplain p hp).mem_renderParam hmem) (by decide)
  -- The parameters are told from a salt by an equals sign.
  have hequals : '=' ∈ joined params := by
    obtain ⟨p, rest, rfl⟩ := List.exists_cons_of_ne_nil hne
    cases rest <;> simp [joined, renderParam]
  have hsplit : Text.split '$' (render ⟨function, some n, params, some s, some d⟩) =
      [[], function, 'v' :: '=' :: Text.decimal n, joined params, s, base64 d] := by
    rw [hrender, Text.split_append List.not_mem_nil,
      Text.split_append (not_mem_of_valueChar (valueChar_of_isName hfunction) (by decide)), Text.split_append hversion,
      Text.split_append hparams, Text.split_append (not_mem_of_valueChar (valueChar_of_isValue hs) (by decide)),
      Text.split_of_not_mem (not_mem_of_valueChar valueChar_of_mem_base64 (by decide))]
  have hsalt : salt? s = some s := by simp [salt?, hlong, hs]
  have hdecoded : digest? (base64 d) = some d := by simp [digest?, base64?_base64, hd]
  simp only [parse?, hsplit, if_pos hfunction, ofVersion?, if_neg hcomma, number?_decimal hn, ofParams?, if_pos hequals,
    params?_joined hne hplain hshort, ofTail?, hsalt, hdecoded, Option.bind_eq_bind, Option.bind_some]

end Encoded
end Argon2
end IdentityVault
