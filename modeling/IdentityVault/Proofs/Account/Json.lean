import IdentityVault.Account.Json
import IdentityVault.Proofs.Json.RoundTrip
import IdentityVault.Proofs.Time.Rfc3339

/-! Identities and credentials in JSON. What was read is written so that it is read again, as the same value. Reading does
    not ask whether ids, emails and hashes are empty, which is all that the checks of their texts ask. -/

namespace IdentityVault

theorem Json.decode_render {α : Type} {read : Json → Option α} {j : Json} {a : α} (h : Plain j)
    (hread : read j = some a) (d : Depth) : decode read (String.ofList (render d j)) = .ok a := by
  rw [decode, h.parse?_render d, Option.bind_some, hread]

theorem Json.decode_eq_ok {α : Type} {read : Json → Option α} {s : String} {a : α} :
    decode read s = .ok a ↔ ∃ j, parse? s = some j ∧ read j = some a := by
  rw [← Option.bind_eq_some_iff, decode]
  cases (parse? s).bind read <;> simp

/-! ### Checked texts -/

/-- A part of a record whose text is checked where it is typed in. -/
inductive CheckedText where
  | id (i : Id)
  | email (e : Email)
  | passwordHash (h : PasswordHash)
  deriving DecidableEq, Repr

namespace CheckedText

def text : CheckedText → String
  | id i => i.text
  | email e => e.text
  | passwordHash h => h.text

/-- What the check makes of the text. -/
def parsed : CheckedText → Outcome CheckedText
  | id i => (Id.parse i.text).map id
  | email e => (Email.parse e.text).map email
  | passwordHash h => (PasswordHash.parse h.text).map passwordHash

/-- A check refuses the empty text and nothing else. -/
theorem parsed_eq_ok (t : CheckedText) : t.parsed = .ok t ↔ t.text ≠ "" := by
  rcases t with i | e | h
  · by_cases hs : i.text = "" <;> simp [parsed, text, Id.parse, Except.map, hs]
  · by_cases hs : e.text = "" <;> simp [parsed, text, Email.parse, Except.map, hs]
  · by_cases hs : h.text = "" <;> simp [parsed, text, PasswordHash.parse, Except.map, hs]

end CheckedText

/-! ### Entities -/

theorem Timestamp.Valid.ofJson?_toJson {t : Timestamp} (h : t.Valid) : Timestamp.ofJson? t.toJson = some t := by
  rw [Timestamp.ofJson?, Timestamp.toJson, Json.ofString, Json.text?, Option.bind_some, h.parse?_render]

theorem Timestamp.valid_of_ofJson? {j : Json} {t : Timestamp} (h : Timestamp.ofJson? j = some t) : t.Valid := by
  obtain ⟨s, -, hs⟩ := Option.bind_eq_some_iff.mp h
  exact Timestamp.valid_of_parse? hs

theorem User.ofJson?_toJson (u : User) : User.ofJson? u.toJson = some u := by
  have hfields : u.toJson.fields? ["id", "name", "email"] =
      some [some u.id.toJson, some (.ofString u.name), some u.email.toJson] := by
    simp [User.toJson, Json.ofMembers, Json.fields?]
  rw [User.ofJson?, hfields]
  rfl

theorem User.plain_toJson (u : User) : Json.Plain u.toJson := by
  refine .ofMembers fun m hm => ?_
  simp only [List.mem_cons, List.not_mem_nil, or_false] at hm
  rcases hm with rfl | rfl | rfl <;> exact .string _

namespace Credential
variable {c : Credential}

/-- Both points in time are ones that are kept. -/
structure Dated (c : Credential) : Prop where
  createdAt : c.createdAt.Valid
  updatedAt : c.updatedAt.Valid

theorem Dated.ofJson?_toJson (h : c.Dated) : ofJson? c.toJson = some c := by
  have hfields : c.toJson.fields? ["id", "user_id", "email", "password", "created_at", "updated_at"] =
      some [some c.id.toJson, some c.user.toJson, some c.email.toJson, some c.password.toJson,
        some c.createdAt.toJson, some c.updatedAt.toJson] := by
    simp [toJson, Json.ofMembers, Json.fields?]
  rw [ofJson?, hfields]
  simp only [Json.required, Option.bind_some, h.createdAt.ofJson?_toJson, h.updatedAt.ofJson?_toJson]
  rfl

theorem dated_of_ofJson? {j : Json} (h : ofJson? j = some c) : c.Dated := by
  rw [ofJson?] at h
  split at h
  · simp only [bind, Json.required, Option.bind_eq_some_iff] at h
    obtain ⟨_, -, _, -, _, -, _, -, created, ⟨_, -, hcreated⟩, updated, ⟨_, -, hupdated⟩, h⟩ := h
    cases h
    exact ⟨Timestamp.valid_of_ofJson? hcreated, Timestamp.valid_of_ofJson? hupdated⟩
  · cases h

theorem plain_toJson (c : Credential) : Json.Plain c.toJson := by
  refine .ofMembers fun m hm => ?_
  simp only [List.mem_cons, List.not_mem_nil, or_false] at hm
  rcases hm with rfl | rfl | rfl | rfl | rfl | rfl <;> exact .string _

end Credential

/-- What is kept of accounts as JSON. -/
inductive Entity where
  | id
  | email
  | passwordHash
  | user
  | credential
  deriving DecidableEq, Repr

namespace Entity

abbrev Value : Entity → Type
  | id => Id
  | email => Email
  | passwordHash => PasswordHash
  | user => User
  | credential => Credential

def ofJson? : (e : Entity) → Json → Option e.Value
  | id => Id.ofJson?
  | email => Email.ofJson?
  | passwordHash => PasswordHash.ofJson?
  | user => User.ofJson?
  | credential => Credential.ofJson?

def toJson : (e : Entity) → e.Value → Json
  | id => Id.toJson
  | email => Email.toJson
  | passwordHash => PasswordHash.toJson
  | user => User.toJson
  | credential => Credential.toJson

def checkedTexts : (e : Entity) → e.Value → List CheckedText
  | id, i => [.id i]
  | email, e => [.email e]
  | passwordHash, h => [.passwordHash h]
  | user, u => [.id u.id, .email u.email]
  | credential, c => [.id c.id, .id c.user, .email c.email, .passwordHash c.password]

theorem plain_toJson (e : Entity) (a : e.Value) : Json.Plain (e.toJson a) := by
  cases e with
  | id | email | passwordHash => exact .string _
  | user => exact User.plain_toJson a
  | credential => exact Credential.plain_toJson a

/-- What was read of any value is read of its own. -/
theorem ofJson?_toJson {e : Entity} {j : Json} {a : e.Value} (h : e.ofJson? j = some a) :
    e.ofJson? (e.toJson a) = some a := by
  cases e with
  | id | email | passwordHash => rfl
  | user => exact User.ofJson?_toJson a
  | credential => exact (Credential.dated_of_ofJson? h).ofJson?_toJson

/-- Whatever was read is read again from every text that it is written as. Its ids, emails and hashes pass their checks
    where they are not empty, and only there. -/
theorem reread {e : Entity} {s : String} {a : e.Value} (h : Json.decode e.ofJson? s = .ok a) :
    (∀ d : Json.Depth, Json.decode e.ofJson? (String.ofList (Json.render d (e.toJson a))) = .ok a) ∧
      ∀ t ∈ e.checkedTexts a, t.parsed = .ok t ↔ t.text ≠ "" := by
  obtain ⟨j, -, hj⟩ := Json.decode_eq_ok.mp h
  exact ⟨Json.decode_render (e.plain_toJson a) (ofJson?_toJson hj), fun t _ => t.parsed_eq_ok⟩

/-- A credential whose hash was left empty. -/
theorem reread_of_unset :
    let c : Credential := ⟨⟨"c1"⟩, ⟨"u1"⟩, ⟨"ann@example.com"⟩, ⟨""⟩, ⟨1000000000, 0⟩, ⟨1000000000, 5⟩⟩
    Json.decode Credential.ofJson? c.toJson.pretty = .ok c ∧
      Json.decode Credential.ofJson? c.toJson.compact = .ok c ∧
        (CheckedText.passwordHash c.password).parsed ≠ .ok (.passwordHash c.password) := by
  intro c
  have hc : c.Dated := ⟨by decide +kernel, by decide +kernel⟩
  obtain ⟨hreread, hchecked⟩ := reread (e := .credential) (s := c.toJson.pretty) (a := c)
    (Json.decode_render c.plain_toJson hc.ofJson?_toJson _)
  refine ⟨hreread (some 0), hreread none, fun h => ?_⟩
  exact (hchecked (.passwordHash c.password) (by decide)).mp h rfl

/-- The empty text is read as an id, and is none to those that check it. -/
theorem read_unchecked : Json.decode Id.ofJson? "\"\"" = .ok ⟨""⟩ ∧
    (CheckedText.id ⟨""⟩).parsed = .error (.malformed (.empty .id)) := ⟨rfl, rfl⟩

end Entity
end IdentityVault
