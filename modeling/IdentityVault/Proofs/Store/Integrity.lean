import IdentityVault.Proofs.Store.Run

/-! Integrity of the tables: ids and emails of identities are unique, an identity owns at most one credential, and a
    credential belongs to an identity. A write that is allowed keeps this, on a copy as well as on the shared tables,
    so that it holds after every run. -/

namespace IdentityVault

structure Tables.Sound (t : Tables) : Prop where
  userKey : ∀ {k : Id} {u : User}, t.users.get? k = some u → u.id = k
  email : ∀ {k l : Id} {u v : User}, t.users.get? k = some u → t.users.get? l = some v → u.email = v.email → k = l
  credentialKey : ∀ {k : Id} {c : Credential}, t.credentials.get? k = some c → c.user = k
  owner : ∀ {k : Id} {c : Credential}, t.credentials.get? k = some c → ∃ u, t.users.get? c.user = some u

namespace Tables.Sound
variable {t t' : Tables}

theorem empty : Tables.empty.Sound :=
  ⟨fun h => (nomatch h), fun h => (nomatch h), fun h => (nomatch h), fun h => (nomatch h)⟩

/-- In sound tables, looking an email up is looking for the identity that has it. -/
theorem userByEmail?_eq_some (h : t.Sound) {e : Email} {u : User} :
    t.userByEmail? e = some u ↔ t.users.get? u.id = some u ∧ u.email = e := by
  constructor
  · intro hf
    obtain ⟨⟨k, hk⟩, he⟩ := exists_of_userByEmail? hf
    exact ⟨h.userKey hk ▸ hk, he⟩
  · rintro ⟨hu, rfl⟩
    cases hf : t.userByEmail? u.email with
    | none => exact absurd rfl (userByEmail?_eq_none.mp hf _ u hu)
    | some v =>
      obtain ⟨⟨k, hk⟩, he⟩ := exists_of_userByEmail? hf
      obtain rfl := h.email hk hu he
      exact hk.symm.trans hu

theorem of_credentialOf? (h : t.Sound) {k : Id} {c : Credential} (hc : t.credentialOf? k = some c) :
    ∃ old, t.credentials.get? k = some old ∧ c.user = k ∧ c.id = old.id ∧ c.password = old.password := by
  obtain ⟨u, -, hc⟩ := Option.bind_eq_some_iff.mp hc
  obtain ⟨old, hold, hc⟩ := Option.bind_eq_some_iff.mp hc
  have hkey : old.user = k := h.credentialKey hold
  cases hc
  exact ⟨old, hold, hkey, rfl, rfl⟩

/-- An identity may be put under its id, new or not, if no other identity has its email. -/
theorem putUser (h : t.Sound) {u : User}
    (free : ∀ {k : Id} {v : User}, t.users.get? k = some v → v.email = u.email → k = u.id) : (t.putUser u).Sound where
  userKey {k v} hv := by
    rw [get?_users_putUser] at hv
    split at hv
    · next hk =>
      cases hv
      exact hk
    · exact h.userKey hv
  email {k l v w} hv hw he := by
    rw [get?_users_putUser] at hv hw
    split at hv <;> split at hw
    · next hk hl => exact hk.symm.trans hl
    · next hk _ =>
      cases hv
      exact hk.symm.trans (free hw he.symm).symm
    · next _ hl =>
      cases hw
      exact (free hv he).trans hl
    · exact h.email hv hw he
  credentialKey hc := h.credentialKey hc
  owner {k c} hc := by
    obtain ⟨v, hv⟩ := h.owner hc
    rw [get?_users_putUser]
    split
    · exact ⟨u, rfl⟩
    · exact ⟨v, hv⟩

/-- A credential may be put under the id of an identity, new or not. -/
theorem putCredential (h : t.Sound) {c : Credential} (owned : ∃ u, t.users.get? c.user = some u) :
    (t.putCredential c).Sound where
  userKey hu := h.userKey hu
  email hu hv he := h.email hu hv he
  credentialKey {k b} hb := by
    rw [get?_credentials_putCredential] at hb
    split at hb
    · next hk =>
      cases hb
      exact hk
    · exact h.credentialKey hb
  owner {k b} hb := by
    rw [get?_credentials_putCredential] at hb
    split at hb
    · cases hb
      exact owned
    · exact h.owner hb

theorem apply (h : t.Sound) {w : Write} (ha : t.apply w = .ok t') : t'.Sound := by
  cases w with
  | insertUser u =>
    obtain ⟨-, hfree, rfl⟩ := apply_insertUser.mp ha
    exact h.putUser fun hv he => absurd he (userByEmail?_eq_none.mp hfree _ _ hv)
  | updateUser u =>
    obtain ⟨-, hfree, rfl⟩ := apply_updateUser.mp ha
    refine h.putUser fun {k v} hv he => ?_
    -- The identity that has the email is the one that the lookup by email finds.
    have hid := h.userKey hv
    rw [← hid]
    exact hfree v (h.userByEmail?_eq_some.mpr ⟨hid.symm ▸ hv, he⟩)
  | insertCredential c =>
    obtain ⟨howner, -, rfl⟩ := apply_insertCredential.mp ha
    exact h.putCredential howner
  | updateCredential c =>
    obtain ⟨⟨old, hold, -⟩, rfl⟩ := apply_updateCredential.mp ha
    obtain ⟨u, hu⟩ := h.owner hold
    exact h.putCredential ⟨u, h.credentialKey hold ▸ hu⟩

theorem replay (h : t.Sound) {log : List Write} (hr : t.replay log = .ok t') : t'.Sound :=
  foldlM_keeps (fun h => h.apply) h hr

end Tables.Sound

namespace Database

/-- The constraints hold on the shared tables and on the copy of every open transaction. -/
structure Sound (d : Database) : Prop where
  tables : d.tables.Sound
  snapshot : ∀ {t : TxId} {x : Transaction}, (t, x) ∈ d.opened → x.snapshot.Sound

namespace Sound
variable {d : Database}

theorem new (capacity : Nat) : (Database.new capacity).Sound := ⟨.empty, nofun⟩

/-- One action keeps the constraints: a begin copies sound tables, a query does allowed writes, and a commit replays
    writes that are allowed again. -/
theorem act (h : d.Sound) (hn : d.Named) (op : Op) : (d.act op).Sound where
  tables := foldlM_keeps (fun h => h.replay) h.tables (d.tables_act op)
  snapshot {t y} hy := by
    rcases tx?_act ((hn.act op).mem_opened.mp hy) with ⟨-, -, rfl⟩ | ⟨x, hx, hr, -⟩
    · exact h.tables
    · exact (h.snapshot (hn.mem_opened.mpr hx)).replay hr

theorem after (h : d.Sound) (hn : d.Named) (ops : List Op) : (d.after ops).Sound := by
  induction ops generalizing d with
  | nil => exact h
  | cons op ops ih => exact ih (h.act hn op) (hn.act op)

end Sound

/-- After every run of any number of transactions on an empty database, ids and emails of identities are unique, an
    identity owns at most one credential, and a credential belongs to an identity: on the shared tables, and on the
    copy of every open transaction. -/
theorem sound_after (capacity : Nat) (ops : List Op) : ((new capacity).after ops).Sound :=
  (Sound.new capacity).after (.new capacity) ops

end Database
end IdentityVault
