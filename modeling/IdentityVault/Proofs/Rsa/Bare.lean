import IdentityVault.Proofs.Rsa.KeyFile
import IdentityVault.Proofs.Rsa.Reading

/-! Bare plain containers. They are read last, when no PEM block is found anywhere in the input, and the numbers of a key
    can spell a block. Whatever stands in such a block, it is never the key itself: a block inside the container of a key
    fits into one of its numbers, which leaves no room for the others. -/

namespace IdentityVault

/-! ### Parts without a byte -/

theorem infix_of_append_cons {α : Type} {x : α} {l before after : List α} (hx : x ∉ l)
    (h : l <:+: before ++ x :: after) : l <:+: before ∨ l <:+: after := by
  have hnil {part : List α} (hpart : part <+: x :: after) (hsub : ∀ y ∈ part, y ∈ l) : part = [] := by
    cases part with
    | nil => rfl
    | cons y part =>
      obtain ⟨rfl, -⟩ := List.cons_prefix_cons.mp hpart
      exact absurd (hsub y List.mem_cons_self) hx
  rcases List.infix_append_iff.mp h with h | h | ⟨first, last, rfl, hfirst, hlast⟩
  · exact .inl h
  · rcases List.infix_cons_iff.mp h with h | h
    · rw [hnil h fun _ => id]
      exact .inl List.nil_infix
    · exact .inr h
  · rw [hnil hlast fun y hy => List.mem_append_right _ hy, List.append_nil]
    exact .inl hfirst.isInfix

namespace Der
variable {data : Bytes} {parts : List Element} {n : Nat}

/-- A piece of a sequence in which the tag of all its parts does not occur, lies within one part. -/
theorem infix_of_parts {tag : UInt8} (htag : tag ∉ data) (hparts : ∀ e ∈ parts, e.tag = tag) {before : Bytes}
    (h : data <:+: before ++ parts.flatMap Element.bytes) :
    data <:+: before ∨ ∃ e ∈ parts, data <:+: lengthBytes e.content.length ++ e.content := by
  induction parts generalizing before with
  | nil => exact .inl (by simpa using h)
  | cons e parts ih =>
    rw [List.forall_mem_cons] at hparts
    obtain ⟨rfl, hparts⟩ := hparts
    rw [List.flatMap_cons, Element.bytes, List.cons_append, List.cons_append] at h
    rcases infix_of_append_cons htag h with h | h
    · exact .inl h
    · rcases ih hparts h with h | ⟨e', he', h⟩
      · exact .inr ⟨e, List.mem_cons_self, h⟩
      · exact .inr ⟨e', List.mem_cons_of_mem _ he', h⟩

theorem length_lengthBytes (h : n < limit) : (lengthBytes n).length ≤ 5 := by
  rw [lengthBytes]
  split
  · exact Nat.le_add_left 1 4
  · have hwidth : BigEndian.width n ≤ 4 := BigEndian.width_le.mpr (Nat.lt_of_lt_of_le h (by decide))
    rw [List.length_cons, BigEndian.length_ofNat]
    exact Nat.succ_le_succ hwidth

theorem length_bytes (e : Element) : e.content.length + 2 ≤ e.bytes.length := by
  have hpos : 0 < (lengthBytes e.content.length).length := by
    rw [lengthBytes]
    split <;> simp
  simp only [Element.bytes, List.length_append, List.length_cons]
  omega

theorem length_integer (n : Nat) : BigEndian.width n ≤ (integer n).content.length ∧
    0 < (integer n).content.length ∧ (integer n).content.length ≤ BigEndian.width n + 1 := by
  have hlength := BigEndian.length_ofNat n
  rw [integer]
  split
  · next hb =>
    rw [hb] at hlength
    simp [← hlength]
  · next hb =>
    rw [hb] at hlength
    split
    · rw [← hlength, hb]
      simp
    · rw [← hlength, hb]
      simp

theorem tag_of_mem_integers {numbers : List Nat} : ∀ e ∈ numbers.map integer, e.tag = Tag.integer := by
  intro e he
  obtain ⟨n, -, rfl⟩ := List.mem_map.mp he
  rfl

end Der

namespace Pem
variable {s : Bytes}

theorem data_infix_body (body : Bytes) : (splitBody body).2 <:+: body := by
  have hcut {marker before after : Bytes} (h : cut? marker body = some (before, after)) : after <:+: body :=
    ⟨before ++ marker, [], by simp [cut?_eq_some h]⟩
  rw [splitBody]
  split
  · next h => exact hcut h
  · split
    · next h => exact hcut h
    · exact List.infix_rfl

/-- A text that is read as data consists of digits and blanks, and is not shorter than what it is read as. -/
theorem data?_eq_some {data content : Bytes} {text : String} (ht : Text.ofUtf8? data = some text)
    (h : data? text.toList = some content) : Der.Tag.integer ∉ data ∧ content.length ≤ data.length := by
  rw [data?, Option.ite_none_right_eq_some] at h
  obtain ⟨-, h⟩ := h
  obtain ⟨hdigits, hlength⟩ := Base64.decode?_eq_some h
  rw [List.length_map] at hlength
  have hutf8 := Text.utf8_of_ofUtf8? ht
  refine ⟨fun hm => ?_, ?_⟩
  · rw [← hutf8] at hm
    obtain ⟨c, hc, htag⟩ := Text.exists_mem_of_mem_utf8 hm (by decide)
    have hchar : c = Char.ofNat 2 := by rw [← Char.ofNat_toNat c, htag]; rfl
    subst hchar
    have hdigit := hdigits 2 (List.mem_map.mpr ⟨_, List.mem_filter.mpr ⟨hc, by decide⟩, rfl⟩)
    rcases hdigit with h | ⟨n, hn, h⟩
    · exact absurd h (by decide)
    · exact absurd h (by revert n; decide)
  · rw [← hutf8]
    exact Nat.le_trans hlength (Nat.le_trans (List.length_filter_le _ _) (Text.length_toList_le text))

/-- The data of a block are as long as its content at least, and no byte of them is the tag of an integer. -/
theorem data_of_parse? {block : Pem} (h : parse? s = some block) :
    beginMark <:+: s ∧ ∃ data, data <:+: s ∧ Der.Tag.integer ∉ data ∧ block.content.length ≤ data.length := by
  rw [parse?] at h
  simp only [Option.bind_eq_bind, Option.bind_eq_some_iff, Prod.exists] at h
  obtain ⟨before, rest, hbegin, opening, rest', hopening, body, rest'', hbody, closing, after, hclosing, label, hlabel,
    h⟩ := h
  rw [Option.ite_none_right_eq_some] at h
  obtain ⟨-, h⟩ := h
  simp only [Option.bind_eq_some_iff, Option.ite_none_right_eq_some, Option.some.injEq] at h
  obtain ⟨headers, hheaders, text, htext, content, hcontent, -, rfl⟩ := h
  obtain ⟨htag, hlength⟩ := data?_eq_some htext hcontent
  refine ⟨⟨before, rest, ?_⟩, _, ?_, htag, hlength⟩
  · rw [cut?_eq_some hbegin, List.append_assoc]
  · have hrest : rest <:+ s := ⟨before ++ beginMark, by rw [cut?_eq_some hbegin, List.append_assoc]⟩
    have hrest' : rest' <:+ rest := ⟨opening ++ lineMark, by rw [cut?_eq_some hopening, List.append_assoc]⟩
    have hblanks : rest'.dropWhile isSpace <:+ rest' := List.dropWhile_suffix _
    have hfront : body <+: rest'.dropWhile isSpace := ⟨_, (cut?_eq_some hbody).symm⟩
    exact (data_infix_body body).trans (hfront.isInfix.trans (hblanks.trans (hrest'.trans hrest)).isInfix)

end Pem
namespace Rsa

theorem inverse?_lt {a m c : Nat} (h : inverse? a m = some c) (hm : 0 < m) : c < m := by
  rw [inverse?, Option.ite_none_right_eq_some, Option.some.injEq] at h
  obtain ⟨-, rfl⟩ := h
  have hpos : 0 < (m : Int) := Int.natCast_pos.mpr hm
  have hlt := Int.emod_lt_of_pos (euclid (a % m) m 1 0).2 hpos
  omega

namespace PrivateKey
variable {k : PrivateKey} {s der : Bytes}

/-- The numbers from which the others follow. -/
def numbers (k : PrivateKey) : List Nat := [k.modulus, k.publicExponent, k.privateExponent, k.p, k.q]

/-- A container in which a key stands has room for any number of the key and for some more. -/
theorem width_of_ofPkcs1? (h : ofPkcs1? s = some k) : ∀ n ∈ k.numbers, BigEndian.width n + 7 ≤ s.length := by
  obtain ⟨-, x, y, z, rfl⟩ := ofPkcs1?_eq_some.mp h
  have hinteger (n : Nat) :
      BigEndian.width n + 2 ≤ (Der.integer n).bytes.length ∧ 3 ≤ (Der.integer n).bytes.length := by
    have hbytes := Der.length_bytes (Der.integer n)
    obtain ⟨hwidth, hpos, -⟩ := Der.length_integer n
    omega
  have hsequence := Der.length_bytes (k.container x y z)
  simp only [container, entries, Der.sequence, List.map_cons, List.flatMap_cons, List.length_append] at hsequence ⊢
  have hzero := hinteger 0
  have hmodulus := hinteger k.modulus
  have hpublic := hinteger k.publicExponent
  have hprivate := hinteger k.privateExponent
  have hp := hinteger k.p
  have hq := hinteger k.q
  intro n hn
  simp only [numbers, List.mem_cons, List.not_mem_nil, or_false] at hn
  rcases hn with rfl | rfl | rfl | rfl | rfl <;> omega

/-- The key that is read of a block stands in the content of the block. -/
theorem held_of_parse {block : Pem} (hblock : Pem.parse? s = some block) (h : parse s = .ok k) :
    ∃ d, ofPkcs1? d = some k ∧ d.length ≤ block.content.length := by
  obtain ⟨label, content⟩ := block
  by_cases hplain : label = "RSA PRIVATE KEY"
  · subst hplain
    rw [parse_of_plain hblock, ofDer_eq_ok] at h
    exact ⟨content, h, Nat.le_refl _⟩
  by_cases htagged : label = "PRIVATE KEY"
  · subst htagged
    cases hc : Pkcs8.parse? content with
    | none =>
      rw [parse_of_untagged hblock hc] at h
      cases h
    | some c =>
      rw [parse_of_tagged hblock hc, Pkcs8.key_eq_ok] at h
      obtain ⟨doc, -, rfl, rfl⟩ := Pkcs8.parse?_eq_some.mp hc
      have hinner : doc.inner.length < doc.element.content.length :=
        Der.length_of_mem_sequence (e := ⟨Der.Tag.octetString, doc.inner⟩) (by simp)
      exact ⟨doc.inner, h.2.2, Nat.le_of_lt (Nat.lt_trans hinner (Der.length_lt_bytes _))⟩
  · rw [parse_of_other hblock hplain htagged] at h
    cases h

/-- A piece of a key's container without the tag of an integer is hardly longer than one of the key's numbers. -/
theorem width_of_infix (h : k.toPkcs1? = some der) {data : Bytes} (hdata : data <:+: der)
    (htag : Der.Tag.integer ∉ data) : ∃ n ∈ k.numbers, data.length ≤ BigEndian.width n + 6 := by
  obtain ⟨hlimit, coefficient, hcoefficient, rfl⟩ := toPkcs1?_eq_some.mp h
  have hlength := Nat.lt_trans (Der.length_lt_bytes _) hlimit
  have hfits := Der.fits_integer hlength
  obtain ⟨-, -, -, -, -, hp, hq, -⟩ := k.fits
  have hinverse : coefficient < k.p := inverse?_lt hcoefficient (by omega)
  have hexponentp : k.privateExponent % (k.p - 1) < k.p - 1 := Nat.mod_lt _ (by omega)
  have hexponentq : k.privateExponent % (k.q - 1) < k.q - 1 := Nat.mod_lt _ (by omega)
  have hle : ∀ m ∈ k.entries (k.privateExponent % (k.p - 1)) (k.privateExponent % (k.q - 1)) coefficient,
      ∃ n ∈ k.numbers, m ≤ n := by
    simp only [entries, List.forall_mem_cons]
    exact ⟨⟨k.modulus, by simp [numbers]⟩, ⟨k.modulus, by simp [numbers]⟩, ⟨k.publicExponent, by simp [numbers]⟩,
      ⟨k.privateExponent, by simp [numbers]⟩, ⟨k.p, by simp [numbers]⟩, ⟨k.q, by simp [numbers]⟩,
      ⟨k.p, by simp [numbers], by omega⟩, ⟨k.q, by simp [numbers], by omega⟩, ⟨k.p, by simp [numbers], by omega⟩, nofun⟩
  rcases Der.infix_of_parts htag Der.tag_of_mem_integers hdata with h | ⟨e, he, h⟩
  · have hheader := Der.length_lengthBytes hlength
    have hshort := h.length_le
    rw [List.length_cons] at hshort
    exact ⟨k.modulus, by simp [numbers], by omega⟩
  · have hheader := Der.length_lengthBytes (hfits e he).length
    have hshort := h.length_le
    rw [List.length_append] at hshort
    obtain ⟨m, hm, rfl⟩ := List.mem_map.mp he
    obtain ⟨-, -, hcontent⟩ := Der.length_integer m
    obtain ⟨n, hn, hmn⟩ := hle m hm
    have hwidth := BigEndian.width_mono hmn
    exact ⟨n, hn, by omega⟩

theorem serialize_der_eq_ok : k.serialize .der = .ok der ↔ k.toPkcs1? = some der := by
  rw [serialize]
  cases k.toPkcs1? <;> simp

/-- A key is read back from its bare container exactly if no PEM block is found in it; a block that is found is never
    another container of the same key. Without the mark that begins a block, there is none. -/
theorem parse_der_iff (h : k.serialize .der = .ok der) :
    (parse der = .ok k ↔ Pem.parse? der = none) ∧ (¬Pem.beginMark <:+: der → parse der = .ok k) := by
  have hder := serialize_der_eq_ok.mp h
  have hbare (hnone : Pem.parse? der = none) : parse der = .ok k := by
    rw [parse, hnone]
    exact ofDer_eq_ok.mpr (ofPkcs1?_of_toPkcs1? hder)
  cases hblock : Pem.parse? der with
  | none => exact ⟨iff_of_true (hbare hblock) rfl, fun _ => hbare hblock⟩
  | some block =>
    obtain ⟨hmark, data, hdata, htag, hcontent⟩ := Pem.data_of_parse? hblock
    refine ⟨iff_of_false (fun hparse => ?_) (Option.some_ne_none block), fun hno => absurd hmark hno⟩
    -- The block would hold the key, but its data lie within one number of the key.
    obtain ⟨d, hd, hheld⟩ := held_of_parse hblock hparse
    obtain ⟨n, hn, hshort⟩ := width_of_infix hder hdata htag
    have hlong := width_of_ofPkcs1? hd n hn
    omega

theorem parse_der_iff_of_small : ∃ (k : PrivateKey) (der : Bytes), k.bits = 8 ∧ k.serialize .der = .ok der ∧
    Pem.parse? der = none ∧ parse der = .ok k := by
  let k : PrivateKey := ⟨143, 7, 43, 11, 13, by decide⟩
  have hblock : k.toPkcs1?.map Pem.parse? = some none := by decide +kernel
  obtain ⟨der, hder, hnone⟩ := Option.map_eq_some_iff.mp hblock
  have hserialize : k.serialize .der = .ok der := serialize_der_eq_ok.mpr hder
  exact ⟨k, der, by decide +kernel, hserialize, hnone, (parse_der_iff hserialize).1.mpr hnone⟩

/-- A key one of whose factors spells a block. It is read from its PEM form, but not from its bare container. -/
theorem parse_der_spelled : ∃ (k : PrivateKey) (pem der : Bytes), parse pem = .ok k ∧ k.serialize .der = .ok der ∧
    parse der = .error (.blockType "X") := by
  let p := BigEndian.toNat (Text.utf8 "-----BEGIN X-----\nAAAA\n-----END X-----")
  let d := 1917210330668565789110432791137270108534283641349617673566894748596626866261151123678105359
  let k : PrivateKey := ⟨p * 5, 3, d, p, 5, by decide +kernel⟩
  have hblock : k.toPkcs1?.bind Pem.parse? = some ⟨"X", [0, 0, 0]⟩ := by decide +kernel
  obtain ⟨der, hder, hblock⟩ := Option.bind_eq_some_iff.mp hblock
  have hpem : k.serialize .pem = .ok _ := serialize_pem_eq_ok.mpr ⟨der, hder, rfl⟩
  exact ⟨k, _, der, parse_of_serialize_pem hpem, serialize_der_eq_ok.mpr hder,
    parse_of_other hblock (by decide) (by decide)⟩

end PrivateKey
end Rsa
end IdentityVault
