import IdentityVault.Proofs.Store.Retention

/-! The two lookups of credentials, by the owner and by the email of the owner. The one reads the key of a row, the
    other one looks for an email among all identities; both give the email that the identity has now. On sound tables
    they agree, so that a credential moves with the email of its owner. -/

namespace IdentityVault

namespace Tables
variable {t t' : Tables} {k : Id} {e : Email} {u : User} {c : Credential}

/-- The credential of the identity that has the given email. -/
def credentialByEmail? (t : Tables) (e : Email) : Option Credential :=
  (t.userByEmail? e).bind fun u => t.credentialOf? u.id

/-! ### Credentials that are written to, and others -/

/-- A credential with the email of its owner is seen as it is. -/
theorem credentialOf?_putCredential_self (hu : t.users.get? c.user = some u) (he : c.email = u.email) (k : Id) :
    (t.putCredential c).credentialOf? k = if c.user = k then some c else t.credentialOf? k := by
  rw [credentialOf?_putCredential hu, ← he]

/-- A credential stays as it is, or it is updated. -/
theorem credential_of_apply {w : Write} (h : t.apply w = .ok t') {old : Credential}
    (hold : t.credentials.get? k = some old) :
    t'.credentials.get? k = some old ∨ ∃ c, w = .updateCredential c ∧ c.user = k := by
  cases w with
  | insertUser u =>
    obtain ⟨-, -, rfl⟩ := apply_insertUser.mp h
    exact .inl hold
  | updateUser u =>
    obtain ⟨-, -, rfl⟩ := apply_updateUser.mp h
    exact .inl hold
  | insertCredential c =>
    obtain ⟨-, hnone, rfl⟩ := apply_insertCredential.mp h
    rw [get?_credentials_putCredential]
    split
    · next hk =>
      rw [hk, hold] at hnone
      cases hnone
    · exact .inl hold
  | updateCredential c =>
    obtain ⟨-, rfl⟩ := apply_updateCredential.mp h
    rw [get?_credentials_putCredential]
    split
    · next hk => exact .inr ⟨c, rfl, hk⟩
    · exact .inl hold

/-- The log updates the credential of an identity. -/
def Replaces (k : Id) (log : List Write) : Prop := ∃ c, .updateCredential c ∈ log ∧ c.user = k

theorem credential_of_replay {log : List Write} (h : t.replay log = .ok t') {old : Credential}
    (hold : t.credentials.get? k = some old) : t'.credentials.get? k = some old ∨ Replaces k log := by
  refine (foldlM_keeps_or (P := fun t => t.credentials.get? k = some old)
    (fun hold ha => credential_of_apply ha hold) hold h).imp_right ?_
  rintro ⟨_, hm, c, rfl, hc⟩
  exact ⟨c, hm, hc⟩

/-! ### On sound tables -/

namespace Sound

/-- Whoever is seen to own a credential is an identity with the email that stands in it. -/
theorem owner_of_credentialOf? (h : t.Sound) (hc : t.credentialOf? k = some c) :
    c.user = k ∧ ∃ u, t.users.get? k = some u ∧ c.email = u.email := by
  obtain ⟨u, old, hu, hold, rfl⟩ := credentialOf?_eq_some.mp hc
  have hkey : old.user = k := h.credentialKey hold
  exact ⟨hkey, u, hu, rfl⟩

theorem credentialByEmail?_eq_some (h : t.Sound) :
    t.credentialByEmail? e = some c ↔ t.credentialOf? c.user = some c ∧ c.email = e := by
  rw [credentialByEmail?, Option.bind_eq_some_iff]
  constructor
  · rintro ⟨u, hu, hc⟩
    obtain ⟨hget, rfl⟩ := h.userByEmail?_eq_some.mp hu
    obtain ⟨hkey, v, hv, hemail⟩ := h.owner_of_credentialOf? hc
    rw [hkey]
    exact ⟨hc, hemail.trans (congrArg User.email (Option.some.inj (hv.symm.trans hget)))⟩
  · rintro ⟨hc, rfl⟩
    obtain ⟨-, u, hu, hemail⟩ := h.owner_of_credentialOf? hc
    have hid := h.userKey hu
    exact ⟨u, h.userByEmail?_eq_some.mpr ⟨hid.symm ▸ hu, hemail.symm⟩, hid.symm ▸ hc⟩

theorem credentialByEmail?_putCredential (h : t.Sound) (hu : t.users.get? c.user = some u) (he : c.email = u.email)
    (e : Email) :
    (t.putCredential c).credentialByEmail? e = if c.email = e then some c else t.credentialByEmail? e := by
  have hid : u.id = c.user := h.userKey hu
  have hseen := credentialOf?_putCredential_self hu he
  change (t.userByEmail? e).bind (fun v => (t.putCredential c).credentialOf? v.id) = _
  split
  · next hemail =>
    have howner : t.userByEmail? e = some u := h.userByEmail?_eq_some.mpr ⟨hid.symm ▸ hu, he.symm.trans hemail⟩
    rw [howner, Option.bind_some, hid, hseen, if_pos rfl]
  · next hemail =>
    refine Option.bind_congr fun v hfound => ?_
    obtain ⟨hv, rfl⟩ := h.userByEmail?_eq_some.mp hfound
    -- Only the owner would be affected, who has another email.
    rw [hseen, if_neg]
    intro hk
    rw [← hk, hu] at hv
    exact hemail (he.trans (congrArg User.email (Option.some.inj hv)))

/-- A credential whose row stays as it is, is found under the email that its owner has afterwards, and no longer under
    the one that the owner had before, unless that is the same. -/
theorem credentialByEmail?_of_moved (h : t'.Sound) (hc : t.credentialOf? k = some c)
    (hkept : t'.credentials.get? k = t.credentials.get? k) (hu : t'.users.get? k = some u) :
    t'.credentialByEmail? u.email = some { c with email := u.email } ∧
      ∀ c', t'.credentialByEmail? c.email = some c' → c.email ≠ u.email → c'.user ≠ k := by
  obtain ⟨v, old, hv, hold, rfl⟩ := credentialOf?_eq_some.mp hc
  have hold' : t'.credentials.get? k = some old := hkept.trans hold
  have hkey : old.user = k := h.credentialKey hold'
  have hnow : t'.credentialOf? k = some { old with email := u.email } := credentialOf?_eq_some.mpr ⟨u, old, hu, hold', rfl⟩
  refine ⟨h.credentialByEmail?_eq_some.mpr ⟨hkey ▸ hnow, rfl⟩, fun c' hc' hne hown => hne ?_⟩
  obtain ⟨hc', hemail⟩ := h.credentialByEmail?_eq_some.mp hc'
  rw [hown, hnow] at hc'
  rw [← hemail, ← Option.some.inj hc']

/-- After the email of an identity was changed, nobody has the old one. -/
theorem userByEmail?_of_updateUser (h : t.Sound) (ha : t.apply (.updateUser u) = .ok t') {old : User}
    (hold : t.users.get? u.id = some old) (hne : old.email ≠ u.email) : t'.userByEmail? old.email = none := by
  obtain ⟨-, -, rfl⟩ := apply_updateUser.mp ha
  refine userByEmail?_eq_none.mpr fun k v hv hemail => ?_
  rw [get?_users_putUser] at hv
  split at hv
  · cases hv
    exact hne hemail.symm
  · next hk => exact hk (h.email hold hv hemail.symm)

end Sound
end Tables

/-! ### What a transaction answers -/

namespace Database
variable {d : Database} {t : TxId} {x : Transaction}

theorem query_credentialOf (hx : d.tx? t = some x) (k : Id) :
    (d.query t (.credentialOf k)).1 = Transaction.found (x.snapshot.credentialOf? k) := by
  rw [query_of_some hx]
  rfl

theorem query_credentialByEmail (hx : d.tx? t = some x) (e : Email) :
    (d.query t (.credentialByEmail e)).1 = Transaction.found (x.snapshot.credentialByEmail? e) := by
  rw [query_of_some hx]
  rfl

theorem query_user (hx : d.tx? t = some x) (k : Id) :
    (d.query t (.user k)).1 = Transaction.found (x.snapshot.users.get? k) := by
  rw [query_of_some hx]
  rfl

/-- A lookup that fails says that there is nothing to be found. -/
theorem eq_notFound_of_found {α : Type} {row : Option α} {f : Failure} (h : Transaction.found row = .error f) :
    f = .notFound := by
  cases row with
  | none => exact (Except.error.inj h).symm
  | some a => cases h

/-- What the lookups of credentials in a transaction say of each other and of the identities. -/
structure Lookups (d : Database) (t : TxId) (x : Transaction) : Prop where
  agree : ∀ e c, (d.query t (.credentialByEmail e)).1 = .ok c ↔
    (d.query t (.credentialOf c.user)).1 = .ok c ∧ c.email = e
  owned : ∀ k, (∃ c, (d.query t (.credentialOf k)).1 = .ok c) ↔
    (∃ u, x.snapshot.users.get? k = some u) ∧ ∃ row, x.snapshot.credentials.get? k = some row
  /-- The email is the one that the identity has now. -/
  joined : ∀ k c, (d.query t (.credentialOf k)).1 = .ok c →
    c.user = k ∧ ∃ u, (d.query t (.user k)).1 = .ok u ∧ c.email = u.email
  missing : (∀ k f, (d.query t (.credentialOf k)).1 = .error f → f = .notFound) ∧
    ∀ e f, (d.query t (.credentialByEmail e)).1 = .error f → f = .notFound
  distinct : ∀ e e' c c', (d.query t (.credentialByEmail e)).1 = .ok c →
    (d.query t (.credentialByEmail e')).1 = .ok c' → c.user = c'.user → e = e'
  /-- A credential goes with the email of its owner, with the same id and hash. -/
  moved : ∀ u c, (d.query t (.updateUser u)).1 = .ok () → (d.query t (.credentialOf u.id)).1 = .ok c →
    c.email ≠ u.email →
      ((d.query t (.updateUser u)).2.query t (.credentialByEmail u.email)).1 = .ok { c with email := u.email } ∧
        ((d.query t (.updateUser u)).2.query t (.credentialByEmail c.email)).1 = .error .notFound
  /-- So it does on the shared tables, when the transaction is committed without having replaced the credential. -/
  published : (d.commit t).1 = .ok () → ∀ k c u, d.tables.credentialOf? k = some c → ¬Tables.Replaces k x.log →
    (d.commit t).2.tables.users.get? k = some u →
      (d.commit t).2.tables.credentialByEmail? u.email = some { c with email := u.email } ∧
        ∀ c', (d.commit t).2.tables.credentialByEmail? c.email = some c' → c.email ≠ u.email → c'.user ≠ k

namespace Sound

theorem moved (h : d.Sound) (hn : d.Named) (hx : d.tx? t = some x) {u : User} {c : Credential}
    (hok : (d.query t (.updateUser u)).1 = .ok ()) (hc : x.snapshot.credentialOf? u.id = some c)
    (hne : c.email ≠ u.email) :
    ((d.query t (.updateUser u)).2.query t (.credentialByEmail u.email)).1 = .ok { c with email := u.email } ∧
      ((d.query t (.updateUser u)).2.query t (.credentialByEmail c.email)).1 = .error .notFound := by
  have hsound := h.snapshot (hn.mem_opened.mpr hx)
  rw [query_of_some hx] at hok
  cases ha : x.snapshot.apply (.updateUser u) with
  | error f => simp [Transaction.perform, Transaction.write, ha] at hok
  | ok tables =>
    have hy : (d.query t (.updateUser u)).2.tx? t = some ⟨tables, x.log ++ [.updateUser u]⟩ := by
      rw [tx?_query hx, if_pos rfl, Transaction.perform, Transaction.write, ha]
    obtain ⟨v, old, hv, hold, rfl⟩ := Tables.credentialOf?_eq_some.mp hc
    have hnobody := hsound.userByEmail?_of_updateUser ha hv hne
    have hafter : tables.Sound := hsound.apply ha
    obtain ⟨-, -, rfl⟩ := Tables.apply_updateUser.mp ha
    have hu : (x.snapshot.putUser u).users.get? u.id = some u := by
      rw [Tables.get?_users_putUser, if_pos rfl]
    have hfound := (hafter.credentialByEmail?_of_moved hc rfl hu).1
    rw [query_credentialByEmail hy, query_credentialByEmail hy, hfound, Tables.credentialByEmail?, hnobody]
    exact ⟨rfl, rfl⟩

theorem published (h : d.Sound) (hn : d.Named) (hx : d.tx? t = some x) (hok : (d.commit t).1 = .ok ()) {k : Id}
    {c : Credential} {u : User} (hc : d.tables.credentialOf? k = some c) (hlog : ¬Tables.Replaces k x.log)
    (hu : (d.commit t).2.tables.users.get? k = some u) :
    (d.commit t).2.tables.credentialByEmail? u.email = some { c with email := u.email } ∧
      ∀ c', (d.commit t).2.tables.credentialByEmail? c.email = some c' → c.email ≠ u.email → c'.user ≠ k := by
  have hafter : (d.commit t).2.tables.Sound := (h.act hn (.commit t)).tables
  refine hafter.credentialByEmail?_of_moved hc ?_ hu
  obtain ⟨v, old, -, hold, -⟩ := Tables.credentialOf?_eq_some.mp hc
  cases hr : d.tables.replay x.log with
  | error f => cases (congrArg Prod.fst (commit_eq_error hx hr)).symm.trans hok
  | ok tables =>
    rw [commit_eq_ok hx hr, hold]
    exact (Tables.credential_of_replay hr hold).resolve_right hlog

end Sound

/-- In every transaction of every run, a credential is found under the email of its owner and no other one, as it is
    found under the owner's id. So it is after each change of an email, in the transaction as well as on the shared
    tables once the change is committed. -/
theorem lookups_after (capacity : Nat) (ops : List Op) (hx : ((new capacity).after ops).tx? t = some x) :
    Lookups ((new capacity).after ops) t x := by
  have hn : ((new capacity).after ops).Named := (Named.new capacity).after ops
  have hd : ((new capacity).after ops).Sound := (Sound.new capacity).after (.new capacity) ops
  have hsound := hd.snapshot (hn.mem_opened.mpr hx)
  have hbyId (k : Id) (c : Credential) := congrArg (· = .ok c) (query_credentialOf hx k)
  have hbyEmail (e : Email) (c : Credential) := congrArg (· = .ok c) (query_credentialByEmail hx e)
  simp only [Transaction.found_eq_ok, eq_iff_iff] at hbyId hbyEmail
  refine ⟨fun e c => ?_, fun k => ?_, fun k c hc => ?_, ⟨fun k f hf => ?_, fun e f hf => ?_⟩,
    fun e e' c c' hc hc' hown => ?_, fun u c hok hc hne => ?_, fun hok k c u hc hlog hu => ?_⟩
  · rw [hbyEmail, hbyId]
    exact hsound.credentialByEmail?_eq_some
  · simp only [hbyId, Tables.credentialOf?_eq_some]
    constructor
    · rintro ⟨_, u, row, hu, hrow, -⟩
      exact ⟨⟨u, hu⟩, row, hrow⟩
    · rintro ⟨⟨u, hu⟩, row, hrow⟩
      exact ⟨_, u, row, hu, hrow, rfl⟩
  · obtain ⟨hkey, u, hu, hemail⟩ := hsound.owner_of_credentialOf? ((hbyId k c).mp hc)
    exact ⟨hkey, u, by rw [query_user hx, hu]; rfl, hemail⟩
  · exact eq_notFound_of_found ((query_credentialOf hx k).symm.trans hf)
  · exact eq_notFound_of_found ((query_credentialByEmail hx e).symm.trans hf)
  · obtain ⟨hof, rfl⟩ := hsound.credentialByEmail?_eq_some.mp ((hbyEmail e c).mp hc)
    obtain ⟨hof', rfl⟩ := hsound.credentialByEmail?_eq_some.mp ((hbyEmail e' c').mp hc')
    rw [hown, hof', Option.some.injEq] at hof
    rw [hof]
  · exact hd.moved hn hx hok ((hbyId u.id c).mp hc) hne
  · exact hd.published hn hx hok hc hlog hu

/-- Ann has an identity with a credential when the second transaction begins. -/
def owning : List Op :=
  [.begin, .query 0 (.insertUser ⟨⟨"u1"⟩, "Ann", ⟨"ann@example.com"⟩⟩),
    .query 0 (.insertCredential ⟨⟨"c1"⟩, ⟨"u1"⟩, ⟨"ann@example.com"⟩, ⟨"hash"⟩, ⟨0, 0⟩, ⟨0, 0⟩⟩), .commit 0, .begin]

theorem lookups_after_of_owning : ∃ x, ((new 2).after owning).tx? 1 = some x ∧
    (((new 2).after owning).query 1 (.credentialOf ⟨"u1"⟩)).1 =
      .ok ⟨⟨"c1"⟩, ⟨"u1"⟩, ⟨"ann@example.com"⟩, ⟨"hash"⟩, ⟨0, 0⟩, ⟨0, 0⟩⟩ ∧
    (((new 2).after owning).query 1 (.updateUser ⟨⟨"u1"⟩, "Ann", ⟨"ann@example.org"⟩⟩)).1 = .ok () ∧
      Lookups ((new 2).after owning) 1 x :=
  ⟨_, rfl, rfl, rfl, lookups_after 2 owning rfl⟩

end Database
end IdentityVault
