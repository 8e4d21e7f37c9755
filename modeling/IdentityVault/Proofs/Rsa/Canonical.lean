import IdentityVault.Proofs.Rsa.Container
import IdentityVault.Rsa.Pkcs8

/-! Containers that are read are the ones that would be written: elements, numbers and containers of both kinds are
    accepted in their only form, so that an input is accepted exactly if it is the encoding of what it is read as. -/

namespace IdentityVault
namespace Der

variable {s rest : Bytes} {n : Nat} {e : Element} {parts : List Element}

/-! ### Lengths -/

theorem length?_eq_some : length? s = some (n, rest) ↔ n < limit ∧ s = lengthBytes n ++ rest := by
  refine ⟨fun h => ?_, ?_⟩
  · match s, h with
    | b :: r, h =>
      rw [length?] at h
      by_cases hb : b < 0x80
      · rw [if_pos hb, Option.some.injEq, Prod.mk.injEq] at h
        obtain ⟨rfl, rfl⟩ := h
        have hshort : b.toNat < 0x80 := UInt8.lt_iff_toNat_lt.mp hb
        refine ⟨Nat.lt_trans hshort (by decide), ?_⟩
        rw [lengthBytes, if_pos hshort, UInt8.ofNat_toNat, List.singleton_append]
      · simp only [if_neg hb] at h
        rw [Option.ite_none_right_eq_some, Option.some.injEq, Prod.mk.injEq] at h
        obtain ⟨⟨-, -, hlimit, hbytes⟩, rfl, rfl⟩ := h
        refine ⟨hlimit, ?_⟩
        rw [hbytes, List.cons_append, List.take_append_drop]
  · rintro ⟨h, rfl⟩
    exact length?_lengthBytes h rest

/-! ### Elements -/

theorem element?_eq_some : element? s = some (e, rest) ↔ e.Fits ∧ s = e.bytes ++ rest := by
  refine ⟨fun h => ?_, ?_⟩
  · match s, h with
    | t :: r, h =>
      rw [element?, Option.ite_none_right_eq_some] at h
      obtain ⟨htag, h⟩ := h
      split at h
      · next n q hq =>
        obtain ⟨hlimit, rfl⟩ := length?_eq_some.mp hq
        rw [Option.ite_none_right_eq_some, Option.some.injEq, Prod.mk.injEq] at h
        obtain ⟨hlength, rfl, rfl⟩ := h
        refine ⟨⟨htag, hlength.symm ▸ hlimit⟩, ?_⟩
        simp only [Element.bytes, hlength, List.cons_append, List.append_assoc, List.take_append_drop]
      · cases h
  · rintro ⟨h, rfl⟩
    exact element?_bytes h rest

theorem only?_eq_some : only? s = some e ↔ e.Fits ∧ s = e.bytes := by
  refine ⟨fun h => ?_, ?_⟩
  · rw [only?] at h
    split at h
    · next he =>
      cases h
      rw [element?_eq_some, List.append_nil] at he
      exact he
    · cases h
  · rintro ⟨h, rfl⟩
    exact only?_bytes h

theorem elements?_eq_some : elements? s = some parts ↔ (∀ e ∈ parts, e.Fits) ∧ s = parts.flatMap Element.bytes := by
  refine ⟨fun h => ?_, ?_⟩
  · fun_induction elements? s generalizing parts with
    | case1 =>
      cases h
      exact ⟨nofun, rfl⟩
    | case2 s hne e r he ih =>
      obtain ⟨parts, hparts, rfl⟩ := Option.map_eq_some_iff.mp h
      obtain ⟨hfits, rfl⟩ := element?_eq_some.mp he
      obtain ⟨hrest, rfl⟩ := ih hparts
      exact ⟨List.forall_mem_cons.mpr ⟨hfits, hrest⟩, rfl⟩
    | case3 => cases h
  · rintro ⟨h, rfl⟩
    exact elements?_flatMap h

theorem parts?_eq_some : e.parts? = some parts ↔ (∀ e ∈ parts, e.Fits) ∧ e = sequence parts := by
  refine ⟨fun h => ?_, ?_⟩
  · rw [Element.parts?, Option.ite_none_right_eq_some, elements?_eq_some] at h
    obtain ⟨htag, hfits, hcontent⟩ := h
    refine ⟨hfits, ?_⟩
    rw [sequence, ← htag, ← hcontent]
  · rintro ⟨h, rfl⟩
    exact parts?_sequence h

/-! ### Integers -/

theorem nat?_eq_some : e.nat? = some n ↔ e = integer n := by
  refine ⟨fun h => ?_, ?_⟩
  · obtain ⟨tag, content⟩ := e
    rw [Element.nat?, Option.ite_none_right_eq_some] at h
    obtain ⟨rfl, h⟩ := h
    rcases content with _ | ⟨x, _ | ⟨y, r⟩⟩
    · cases h
    · simp only [Option.ite_none_right_eq_some, Option.some.injEq] at h
      obtain ⟨hx, rfl⟩ := h
      by_cases hzero : x = 0
      · subst hzero
        rfl
      · have hbytes : BigEndian.ofNat x.toNat = [x] := by
          rw [← BigEndian.toNat_singleton, BigEndian.ofNat_toNat_cons hzero]
        simp only [integer, hbytes, hx, if_true]
    · simp only [Option.ite_none_left_eq_some, Option.ite_none_right_eq_some, Option.some.injEq] at h
      obtain ⟨hform, hx, rfl⟩ := h
      by_cases hzero : x = 0
      · -- The zero in front is there because the next byte looks negative.
        subst hzero
        have hy : ¬y < 0x80 := fun hy => hform ⟨rfl, hy⟩
        have hne : y ≠ 0 := by
          rintro rfl
          exact hy (by decide)
        simp only [integer, BigEndian.toNat_zero_cons, BigEndian.ofNat_toNat_cons hne, hy, if_false]
      · simp only [integer, BigEndian.ofNat_toNat_cons hzero, hx, if_true]
  · rintro rfl
    exact nat?_integer n

theorem mapM_nat?_eq_some {numbers : List Nat} :
    parts.mapM Element.nat? = some numbers ↔ parts = numbers.map integer := by
  refine ⟨fun h => ?_, ?_⟩
  · induction parts generalizing numbers with
    | nil =>
      cases h
      rfl
    | cons e parts ih =>
      rw [List.mapM_cons, Option.bind_eq_bind, Option.bind_eq_some_iff] at h
      obtain ⟨n, hn, h⟩ := h
      rw [Option.bind_eq_bind, Option.bind_eq_some_iff] at h
      obtain ⟨numbers, hnumbers, h⟩ := h
      cases h
      rw [nat?_eq_some.mp hn, ih hnumbers, List.map_cons]
  · rintro rfl
    exact mapM_nat?_integer numbers

theorem fits_sequence : (sequence parts).Fits ↔ (sequence parts).content.length < limit :=
  ⟨Element.Fits.length, fun h => ⟨rfl, h⟩⟩

end Der

namespace Rsa

/-! ### Plain containers -/

namespace PrivateKey
variable {s : Bytes} {k : PrivateKey}

theorem ofNumbers?_eq_some {n e d p q : Nat} : ofNumbers? n e d p q = some k ↔
    k.modulus = n ∧ k.publicExponent = e ∧ k.privateExponent = d ∧ k.p = p ∧ k.q = q := by
  rw [ofNumbers?]
  split
  · next h =>
    cases k
    simp only [Option.some.injEq, PrivateKey.mk.injEq]
    constructor
    · rintro ⟨rfl, rfl, rfl, rfl, rfl⟩
      exact ⟨rfl, rfl, rfl, rfl, rfl⟩
    · rintro ⟨rfl, rfl, rfl, rfl, rfl⟩
      exact ⟨rfl, rfl, rfl, rfl, rfl⟩
  · next h =>
    refine iff_of_false nofun ?_
    rintro ⟨rfl, rfl, rfl, rfl, rfl⟩
    exact h k.fits

/-- The numbers of a plain container: its version, those of the key, and three that follow from them. -/
def entries (k : PrivateKey) (x y z : Nat) : List Nat :=
  [0, k.modulus, k.publicExponent, k.privateExponent, k.p, k.q, x, y, z]

/-- The plain container of a key with the given numbers behind those of the key. -/
def container (k : PrivateKey) (x y z : Nat) : Der.Element := Der.sequence ((k.entries x y z).map Der.integer)

/-- A plain container is read as the key whose numbers it holds. Its last three numbers may be any. -/
theorem ofPkcs1?_eq_some : ofPkcs1? s = some k ↔
    s.length < Der.limit ∧ ∃ x y z, s = (k.container x y z).bytes := by
  rw [ofPkcs1?, Option.ite_none_right_eq_some]
  refine and_congr_right fun hlimit => ⟨fun h => ?_, ?_⟩
  · simp only [Option.bind_eq_bind, Option.bind_eq_some_iff] at h
    obtain ⟨e, he, parts, hparts, numbers, hnumbers, h⟩ := h
    obtain ⟨-, rfl⟩ := Der.only?_eq_some.mp he
    obtain ⟨-, rfl⟩ := Der.parts?_eq_some.mp hparts
    obtain rfl := Der.mapM_nat?_eq_some.mp hnumbers
    split at h
    · next x y z =>
      obtain ⟨rfl, rfl, rfl, rfl, rfl⟩ := ofNumbers?_eq_some.mp h
      exact ⟨x, y, z, rfl⟩
    · cases h
  · rintro ⟨x, y, z, rfl⟩
    have hlength := Nat.lt_trans (Der.length_lt_bytes _) hlimit
    have hparts : (k.container x y z).parts? = some _ := Der.parts?_sequence (Der.fits_integer hlength)
    have hfits : (k.container x y z).Fits := Der.fits_sequence.mpr hlength
    rw [Der.only?_bytes hfits]
    simp only [Option.bind_eq_bind, Option.bind_some, hparts, Der.mapM_nat?_integer]
    exact ofNumbers?_eq_some.mpr ⟨rfl, rfl, rfl, rfl, rfl⟩

theorem toPkcs1?_eq_some {der : Bytes} : k.toPkcs1? = some der ↔ der.length < Der.limit ∧
    ∃ coefficient, inverse? k.q k.p = some coefficient ∧
      der = (k.container (k.privateExponent % (k.p - 1)) (k.privateExponent % (k.q - 1)) coefficient).bytes := by
  simp only [toPkcs1?, toDer?, Option.bind_eq_bind, Option.bind_eq_some_iff, Option.ite_none_right_eq_some,
    Option.some.injEq]
  constructor
  · rintro ⟨_, ⟨coefficient, hcoefficient, rfl⟩, hlimit, rfl⟩
    exact ⟨hlimit, coefficient, hcoefficient, rfl⟩
  · rintro ⟨hlimit, coefficient, hcoefficient, rfl⟩
    exact ⟨_, ⟨coefficient, hcoefficient, rfl⟩, hlimit, rfl⟩

/-- A key that was written can be read back. -/
theorem ofPkcs1?_of_toPkcs1? {der : Bytes} (h : k.toPkcs1? = some der) : ofPkcs1? der = some k := by
  obtain ⟨hlimit, coefficient, -, rfl⟩ := toPkcs1?_eq_some.mp h
  exact ofPkcs1?_eq_some.mpr ⟨hlimit, _, _, _, rfl⟩

end PrivateKey

/-! ### Tagged containers -/

namespace Pkcs8

/-- What a tagged container is the encoding of. -/
structure Document where
  version : Nat
  /-- The content of the algorithm's object identifier. -/
  algorithm : Bytes
  parameters : Option Der.Element
  inner : Bytes
  fields : List Der.Element

namespace Document

/-- The object identifier and the parameters. -/
def algorithmParts (doc : Document) : List Der.Element := ⟨Der.Tag.objectId, doc.algorithm⟩ :: doc.parameters.toList

def element (doc : Document) : Der.Element :=
  Der.sequence (Der.integer doc.version :: Der.sequence doc.algorithmParts :: ⟨Der.Tag.octetString, doc.inner⟩ ::
    doc.fields)

/-- What is read of a document. -/
def container (doc : Document) : Pkcs8 := ⟨doc.algorithm, doc.parameters, doc.inner⟩

structure WellFormed (doc : Document) : Prop where
  name : Der.isObjectId doc.algorithm = true
  known : ∀ e ∈ doc.parameters.toList ++ doc.fields, Der.Tag.isKnown e.tag = true
  fields : fieldsFit doc.version doc.fields = true
  length : doc.element.bytes.length < Der.limit

variable {doc : Document}

theorem WellFormed.fits (h : doc.WellFormed) : doc.element.Fits :=
  Der.fits_sequence.mpr (Nat.lt_trans (Der.length_lt_bytes _) h.length)

theorem WellFormed.fits_algorithmParts (h : doc.WellFormed) : ∀ e ∈ doc.algorithmParts, e.Fits := by
  intro e he
  have hlt : e.content.length < doc.element.content.length :=
    Nat.lt_trans (Der.length_of_mem_sequence he) (Der.length_of_mem_sequence (by simp))
  refine ⟨?_, Nat.lt_trans hlt h.fits.length⟩
  rcases List.mem_cons.mp he with rfl | he
  · rfl
  · exact h.known e (List.mem_append_left _ he)

theorem WellFormed.fits_parts (h : doc.WellFormed) : ∀ e ∈ Der.integer doc.version ::
    Der.sequence doc.algorithmParts :: ⟨Der.Tag.octetString, doc.inner⟩ :: doc.fields, e.Fits := by
  intro e he
  refine ⟨?_, Nat.lt_trans (Der.length_of_mem_sequence he) h.fits.length⟩
  simp only [List.mem_cons] at he
  rcases he with rfl | rfl | rfl | he
  · rfl
  · rfl
  · rfl
  · exact h.known e (List.mem_append_right _ he)

end Document

variable {s : Bytes} {c : Pkcs8} {e : Der.Element} {name : Bytes} {parameters : Option Der.Element}

theorem algorithm?_eq_some : algorithm? e = some (name, parameters) ↔
    Der.isObjectId name = true ∧ e.parts? = some (⟨Der.Tag.objectId, name⟩ :: parameters.toList) := by
  rw [algorithm?]
  cases hparts : e.parts? with
  | none => simp
  | some parts =>
    simp only [Option.bind_eq_bind, Option.bind_some, Option.some.injEq]
    refine ⟨fun h => ?_, ?_⟩
    · split at h
      · rw [Option.ite_none_right_eq_some] at h
        obtain ⟨⟨htag, hname⟩, h⟩ := h
        cases h
        exact ⟨hname, by rw [← htag]; rfl⟩
      · rw [Option.ite_none_right_eq_some] at h
        obtain ⟨⟨htag, hname⟩, h⟩ := h
        cases h
        exact ⟨hname, by rw [← htag]; rfl⟩
      · cases h
    · rintro ⟨hname, rfl⟩
      cases parameters <;> simp [hname]

/-- A tagged container is accepted exactly if it is the encoding of a document, and it is read as that document. -/
theorem parse?_eq_some : parse? s = some c ↔
    ∃ doc : Document, doc.WellFormed ∧ s = doc.element.bytes ∧ c = doc.container := by
  refine ⟨fun h => ?_, ?_⟩
  · rw [parse?, Option.ite_none_right_eq_some] at h
    obtain ⟨hlimit, h⟩ := h
    simp only [Option.bind_eq_bind, Option.bind_eq_some_iff] at h
    obtain ⟨e, he, parts, hparts, h⟩ := h
    obtain ⟨-, rfl⟩ := Der.only?_eq_some.mp he
    obtain ⟨hfits, rfl⟩ := Der.parts?_eq_some.mp hparts
    split at h
    · next version algorithm inner fields =>
      simp only [Option.bind_eq_some_iff] at h
      obtain ⟨⟨name, parameters⟩, halgorithm, number, hversion, h⟩ := h
      rw [Option.ite_none_right_eq_some] at h
      obtain ⟨⟨hfields, htag⟩, h⟩ := h
      cases h
      obtain ⟨hname, halgorithm⟩ := algorithm?_eq_some.mp halgorithm
      obtain ⟨hknown, rfl⟩ := Der.parts?_eq_some.mp halgorithm
      obtain rfl := Der.nat?_eq_some.mp hversion
      obtain ⟨tag, content⟩ := inner
      obtain rfl : tag = Der.Tag.octetString := htag
      refine ⟨⟨number, name, parameters, content, fields⟩, ⟨hname, fun e he => ?_, hfields, hlimit⟩, rfl, rfl⟩
      rcases List.mem_append.mp he with he | he
      · exact (hknown e (List.mem_cons_of_mem _ he)).tag
      · exact (hfits e (by simp [he])).tag
    · cases h
  · rintro ⟨doc, h, rfl, rfl⟩
    have halgorithm : algorithm? (Der.sequence doc.algorithmParts) = some (doc.algorithm, doc.parameters) :=
      algorithm?_eq_some.mpr ⟨h.name, Der.parts?_sequence h.fits_algorithmParts⟩
    have hparts : doc.element.parts? = some _ := Der.parts?_sequence h.fits_parts
    rw [parse?, if_pos h.length, Der.only?_bytes h.fits]
    simp only [Option.bind_eq_bind, Option.bind_some, hparts, halgorithm, Der.nat?_integer, h.fields, and_self, if_true]
    rfl

end Pkcs8
end Rsa
end IdentityVault
