import IdentityVault.Proofs.Rsa.Canonical
import IdentityVault.Proofs.Rsa.Pem
import IdentityVault.Rsa.KeyFile

/-! What is read of an input, by the label of its PEM block. A key is the same one in either container, and every input
    without a key is refused for one reason: its label, its algorithm, or its form. -/

namespace IdentityVault
namespace Rsa

namespace Pkcs8

/-- The tagged container around a plain one, if elements can be that long. -/
def wrap? (pkcs1 : Bytes) : Option Bytes := if (wrap pkcs1).length < Der.limit then some (wrap pkcs1) else none

/-- The document of an RSA key whose plain container is given. -/
def Document.ofPlain (pkcs1 : Bytes) : Document := ⟨0, rsaEncryption, some ⟨Der.Tag.null, []⟩, pkcs1, []⟩

theorem Document.wellFormed_ofPlain {pkcs1 : Bytes} (h : (wrap pkcs1).length < Der.limit) :
    (ofPlain pkcs1).WellFormed where
  name := (by decide : Der.isObjectId rsaEncryption = true)
  known e he := by
    obtain rfl := List.mem_singleton.mp he
    rfl
  fields := rfl
  length := h

theorem parse?_of_wrap? {pkcs1 s : Bytes} (h : wrap? pkcs1 = some s) :
    parse? s = some ⟨rsaEncryption, some ⟨Der.Tag.null, []⟩, pkcs1⟩ := by
  rw [wrap?, Option.ite_none_right_eq_some, Option.some.injEq] at h
  obtain ⟨hlength, rfl⟩ := h
  exact parse?_eq_some.mpr ⟨_, Document.wellFormed_ofPlain hlength, rfl, rfl⟩

theorem key_eq_ok {c : Pkcs8} {k : PrivateKey} : c.key = .ok k ↔
    c.algorithm = rsaEncryption ∧ c.parameters = some ⟨Der.Tag.null, []⟩ ∧ PrivateKey.ofPkcs1? c.inner = some k := by
  rw [key]
  by_cases halgorithm : c.algorithm = rsaEncryption
  · by_cases hparameters : c.parameters = some ⟨Der.Tag.null, []⟩
    · cases PrivateKey.ofPkcs1? c.inner <;> simp [halgorithm, hparameters]
    · simp [halgorithm, hparameters]
  · simp [halgorithm]

theorem key_eq_error {c : Pkcs8} {f : Failure} (h : c.key = .error f) :
    c.algorithm ≠ rsaEncryption ∧ f = .notRsaKey ∨ c.algorithm = rsaEncryption ∧ f = .malformed .pkcs8 := by
  rw [key] at h
  by_cases halgorithm : c.algorithm = rsaEncryption
  · rw [if_neg fun hne => hne halgorithm] at h
    split at h
    · cases h
      exact .inr ⟨halgorithm, rfl⟩
    · split at h <;> cases h
      exact .inr ⟨halgorithm, rfl⟩
  · rw [if_pos halgorithm] at h
    cases h
    exact .inl ⟨halgorithm, rfl⟩

theorem key_eq_notRsaKey {c : Pkcs8} : c.key = .error .notRsaKey ↔ c.algorithm ≠ rsaEncryption := by
  refine ⟨fun h => ?_, fun h => if_pos h⟩
  rcases key_eq_error h with ⟨halgorithm, -⟩ | ⟨-, hf⟩
  · exact halgorithm
  · cases hf

end Pkcs8

namespace PrivateKey
variable {s content : Bytes} {k : PrivateKey} {f : Failure}

theorem ofDer_eq_ok : ofDer s = .ok k ↔ ofPkcs1? s = some k := by
  rw [ofDer]
  cases ofPkcs1? s <;> simp

theorem ofDer_eq_error (h : ofDer s = .error f) : f = .malformed .pkcs1 := by
  rw [ofDer] at h
  split at h <;> cases h
  rfl

/-! ### By the label -/

theorem parse_of_plain (h : Pem.parse? s = some ⟨"RSA PRIVATE KEY", content⟩) : parse s = ofDer content := by
  have hlabel : BlockType.ofLabel "RSA PRIVATE KEY" = .pkcs1 := by decide
  rw [parse, h]
  simp only [ofPem, hlabel]

theorem parse_of_tagged (h : Pem.parse? s = some ⟨"PRIVATE KEY", content⟩) {c : Pkcs8}
    (hc : Pkcs8.parse? content = some c) : parse s = c.key := by
  have hlabel : BlockType.ofLabel "PRIVATE KEY" = .pkcs8 := by decide
  rw [parse, h]
  simp only [ofPem, hlabel, hc]

theorem parse_of_untagged (h : Pem.parse? s = some ⟨"PRIVATE KEY", content⟩)
    (hc : Pkcs8.parse? content = none) : parse s = .error (.malformed .pkcs8) := by
  have hlabel : BlockType.ofLabel "PRIVATE KEY" = .pkcs8 := by decide
  rw [parse, h]
  simp only [ofPem, hlabel, hc]

theorem parse_of_other {block : Pem} (h : Pem.parse? s = some block) (hplain : block.label ≠ "RSA PRIVATE KEY")
    (htagged : block.label ≠ "PRIVATE KEY") : parse s = .error (.blockType block.label) := by
  have hlabel : BlockType.ofLabel block.label = .unknown := by
    rw [BlockType.ofLabel, BlockType.label, if_neg hplain, BlockType.label, if_neg htagged]
  rw [parse, h]
  simp only [ofPem, hlabel]

/-- What is read of an input, and why it is refused. -/
structure Reads (s : Bytes) : Prop where
  plain : ∀ d k, Pem.parse? s = some ⟨"RSA PRIVATE KEY", d⟩ → (parse s = .ok k ↔ ofPkcs1? d = some k)
  tagged : ∀ d w k, Pkcs8.wrap? d = some w → Pem.parse? s = some ⟨"PRIVATE KEY", w⟩ →
    (parse s = .ok k ↔ ofPkcs1? d = some k)
  /-- The algorithm is asked for first, whatever the key, the parameters and the fields behind the key are. -/
  algorithm : ∀ doc : Pkcs8.Document, doc.WellFormed → Pem.parse? s = some ⟨"PRIVATE KEY", doc.element.bytes⟩ →
    (parse s = .error .notRsaKey ↔ doc.algorithm ≠ Pkcs8.rsaEncryption)
  other : ∀ block, Pem.parse? s = some block → block.label ≠ "RSA PRIVATE KEY" → block.label ≠ "PRIVATE KEY" →
    parse s = .error (.blockType block.label)
  refused : ∀ f, parse s = .error f → f = .malformed .pkcs1 ∨ f = .malformed .pkcs8 ∨
    (f = .notRsaKey ∧ ∃ doc : Pkcs8.Document, doc.WellFormed ∧ doc.algorithm ≠ Pkcs8.rsaEncryption ∧
      Pem.parse? s = some ⟨"PRIVATE KEY", doc.element.bytes⟩) ∨
    ∃ block, Pem.parse? s = some block ∧ block.label ≠ "RSA PRIVATE KEY" ∧ block.label ≠ "PRIVATE KEY" ∧
      f = .blockType block.label

theorem refused_of_parse (h : parse s = .error f) : f = .malformed .pkcs1 ∨ f = .malformed .pkcs8 ∨
    (f = .notRsaKey ∧ ∃ doc : Pkcs8.Document, doc.WellFormed ∧ doc.algorithm ≠ Pkcs8.rsaEncryption ∧
      Pem.parse? s = some ⟨"PRIVATE KEY", doc.element.bytes⟩) ∨
    ∃ block, Pem.parse? s = some block ∧ block.label ≠ "RSA PRIVATE KEY" ∧ block.label ≠ "PRIVATE KEY" ∧
      f = .blockType block.label := by
  cases hblock : Pem.parse? s with
  | none =>
    rw [parse, hblock] at h
    exact .inl (ofDer_eq_error h)
  | some block =>
    obtain ⟨label, content⟩ := block
    by_cases hplain : label = "RSA PRIVATE KEY"
    · subst hplain
      exact .inl (ofDer_eq_error ((parse_of_plain hblock).symm.trans h))
    by_cases htagged : label = "PRIVATE KEY"
    · subst htagged
      cases hc : Pkcs8.parse? content with
      | some c =>
        rw [parse_of_tagged hblock hc] at h
        obtain ⟨doc, hdoc, rfl, rfl⟩ := Pkcs8.parse?_eq_some.mp hc
        rcases Pkcs8.key_eq_error h with ⟨halgorithm, hf⟩ | ⟨-, hf⟩
        · exact .inr (.inr (.inl ⟨hf, doc, hdoc, halgorithm, rfl⟩))
        · exact .inr (.inl hf)
      | none =>
        rw [parse_of_untagged hblock hc] at h
        cases h
        exact .inr (.inl rfl)
    · rw [parse_of_other hblock hplain htagged] at h
      cases h
      exact .inr (.inr (.inr ⟨_, rfl, hplain, htagged, rfl⟩))

theorem reads (s : Bytes) : Reads s where
  plain d k h := by rw [parse_of_plain h, ofDer_eq_ok]
  tagged d w k hw h := by
    rw [parse_of_tagged h (Pkcs8.parse?_of_wrap? hw)]
    simp only [Pkcs8.key_eq_ok, true_and]
  algorithm doc hdoc h := by
    rw [parse_of_tagged h (Pkcs8.parse?_eq_some.mpr ⟨doc, hdoc, rfl, rfl⟩)]
    exact Pkcs8.key_eq_notRsaKey
  other block h hplain htagged := parse_of_other h hplain htagged
  refused f h := refused_of_parse h

/-- Any bytes can stand in a block of either label, and each input is read by the label of its block. -/
theorem containers_alike :
    (∀ content, Pem.parse? (Pem.render ⟨"RSA PRIVATE KEY", content⟩) = some ⟨"RSA PRIVATE KEY", content⟩ ∧
      Pem.parse? (Pem.render ⟨"PRIVATE KEY", content⟩) = some ⟨"PRIVATE KEY", content⟩) ∧
    ∀ s, Reads s := by
  have hplain : Text.utf8 "RSA PRIVATE KEY" ≠ [] ∧ 45 ∉ Text.utf8 "RSA PRIVATE KEY" := by decide
  have htagged : Text.utf8 "PRIVATE KEY" ≠ [] ∧ 45 ∉ Text.utf8 "PRIVATE KEY" := by decide
  exact ⟨fun content => ⟨Pem.parse?_render hplain.1 hplain.2, Pem.parse?_render htagged.1 htagged.2⟩, reads⟩

/-- A key of eight bits in both containers, and a key of another algorithm. -/
theorem containers_alike_of_small : ∃ (k : PrivateKey) (d w : Bytes) (doc : Pkcs8.Document), k.bits = 8 ∧
    Pkcs8.wrap? d = some w ∧ parse (Pem.render ⟨"RSA PRIVATE KEY", d⟩) = .ok k ∧
    parse (Pem.render ⟨"PRIVATE KEY", w⟩) = .ok k ∧
    parse (Pem.render ⟨"PRIVATE KEY", doc.element.bytes⟩) = .error .notRsaKey := by
  let k : PrivateKey := ⟨143, 7, 43, 11, 13, by decide⟩
  let d : Bytes := [0x30, 0x1c, 2, 1, 0, 2, 2, 0, 0x8f, 2, 1, 7, 2, 1, 0x2b, 2, 1, 0x0b, 2, 1, 0x0d, 2, 1, 3,
    2, 1, 7, 2, 1, 6]
  let doc : Pkcs8.Document := ⟨0, [0x2b, 0x65, 0x70], none, [4, 2, 7, 7], []⟩
  have hd : ofPkcs1? d = some k := by decide +kernel
  have hw : Pkcs8.wrap? d = some (Pkcs8.wrap d) := by decide +kernel
  have hdoc : doc.WellFormed := ⟨by decide, by decide, by decide, by decide⟩
  obtain ⟨hblocks, hreads⟩ := containers_alike
  exact ⟨k, d, _, doc, by decide +kernel, hw, ((hreads _).plain d k (hblocks d).1).mpr hd,
    ((hreads _).tagged d _ k hw (hblocks _).2).mpr hd, ((hreads _).algorithm doc hdoc (hblocks _).2).mpr (by decide)⟩

end PrivateKey
end Rsa
end IdentityVault
