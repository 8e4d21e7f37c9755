import IdentityVault.Proofs.Store.Conflict

/-! Credentials keep the date of their creation, if no update touches the date of the row that it replaces. A log that
    was modest in this on the copy of a transaction is modest on the shared tables too, whatever was committed in the
    meantime, since these rows have the same dates. -/

namespace IdentityVault

namespace Tables
variable {P Q : Tables → Write → Prop} {t t' b b' u : Tables} {w : Write} {log : List Write}

/-! ### The writes of a log, each on the tables that it comes to -/

/-- Every write of a log is as `P` says, on the tables after the writes before it. -/
def EachWrite (P : Tables → Write → Prop) : Tables → List Write → Prop
  | _, [] => True
  | t, w :: log => P t w ∧ EachWrite P (t.put w) log

theorem EachWrite.append {more : List Write} (h : t.EachWrite P log) (hr : t.replay log = .ok u)
    (hmore : u.EachWrite P more) : t.EachWrite P (log ++ more) := by
  induction log generalizing t with
  | nil =>
    cases hr
    exact hmore
  | cons w log ih =>
    obtain ⟨v, ha, hr⟩ := replay_cons_eq_ok.mp hr
    obtain rfl := eq_put_of_apply ha
    exact ⟨h.1, ih h.2 hr⟩

/-- What holds of every write that is allowed on sound tables and is as `P` says. -/
theorem EachWrite.of_replay (step : ∀ {t u w}, t.Sound → t.apply w = .ok u → P t w → Q t w) (ht : t.Sound)
    (hr : t.replay log = .ok u) (h : t.EachWrite P log) : t.EachWrite Q log := by
  induction log generalizing t with
  | nil => trivial
  | cons w log ih =>
    obtain ⟨v, ha, hr⟩ := replay_cons_eq_ok.mp hr
    obtain rfl := eq_put_of_apply ha
    exact ⟨step ht ha h.1, ih (ht.apply ha) hr h.2⟩

/-! ### Dates of creation -/

/-- An update of a credential says of its creation what the row says that it replaces. -/
def Modest (t : Tables) : Write → Prop
  | .updateCredential c => ∃ old, t.credentials.get? c.user = some old ∧ c.createdAt = old.createdAt
  | _ => True

/-- `t'` has the identities and the credentials of `t`, and these were created when they were in `t`. -/
structure Retains (t t' : Tables) : Prop extends t.Keeps t' where
  createdAt : ∀ {k : Id} {c c' : Credential}, t.credentials.get? k = some c → t'.credentials.get? k = some c' →
    c'.createdAt = c.createdAt

namespace Retains

theorem refl (t : Tables) : t.Retains t where
  toKeeps := .refl t
  createdAt h h' := by rw [Option.some.inj (h.symm.trans h')]

theorem trans (h : t.Retains t') (h' : t'.Retains u) : t.Retains u where
  toKeeps := h.toKeeps.trans h'.toKeeps
  createdAt hc hc'' := by
    obtain ⟨c', hc', -⟩ := h.credential hc
    exact (h'.createdAt hc' hc'').trans (h.createdAt hc hc')

theorem apply (hm : t.Modest w) (ha : t.apply w = .ok u) : t.Retains u where
  toKeeps := .apply ha
  createdAt {k c c'} hc hc' := by
    have same (h : u.credentials = t.credentials) : c'.createdAt = c.createdAt := by
      rw [h] at hc'
      rw [Option.some.inj (hc.symm.trans hc')]
    obtain rfl := eq_put_of_apply ha
    cases w with
    | insertUser v | updateUser v => exact same rfl
    | insertCredential d =>
      obtain ⟨-, hnone, -⟩ := apply_insertCredential.mp ha
      rw [put, get?_credentials_putCredential] at hc'
      split at hc'
      · next hk => cases hnone.symm.trans (hk ▸ hc)
      · rw [Option.some.inj (hc.symm.trans hc')]
    | updateCredential d =>
      obtain ⟨old, hold, hcreated⟩ := hm
      rw [put, get?_credentials_putCredential] at hc'
      split at hc'
      · next hk =>
        cases hc'
        rw [hcreated, Option.some.inj (hold.symm.trans (hk ▸ hc))]
      · rw [Option.some.inj (hc.symm.trans hc')]

theorem replay (hm : t.EachWrite Modest log) (hr : t.replay log = .ok u) : t.Retains u := by
  induction log generalizing t with
  | nil =>
    cases hr
    exact .refl _
  | cons w log ih =>
    obtain ⟨v, ha, hr⟩ := replay_cons_eq_ok.mp hr
    obtain rfl := eq_put_of_apply ha
    exact (apply hm.1 ha).trans (ih hm.2 hr)

end Retains

/-- Tables that came from others by the same writes retain what these retain. -/
theorem Abreast.createdAt (h : Abreast b b' t t') (hb : b.Retains b') {k : Id} {c c' : Credential}
    (hc : t.credentials.get? k = some c) (hc' : t'.credentials.get? k = some c') : c'.createdAt = c.createdAt := by
  rcases h.credential k with ⟨d, hd, hd'⟩ | ⟨hbefore, hafter⟩
  · rw [← Option.some.inj (hd.symm.trans hc), ← Option.some.inj (hd'.symm.trans hc')]
  · exact hb.createdAt (hbefore.symm.trans hc) (hafter.symm.trans hc')

theorem Modest.of_abreast (hm : t.Modest w) (h : Abreast b b' t t') (hb : b.Retains b') : t'.Modest w := by
  cases w with
  | insertUser | updateUser | insertCredential => trivial
  | updateCredential c =>
    obtain ⟨old, hold, hcreated⟩ := hm
    obtain ⟨old', hold', -⟩ := (h.keeps hb.toKeeps).credential hold
    exact ⟨old', hold', hcreated.trans (h.createdAt hb hold hold').symm⟩

/-- A log that is modest on the tables that it was written on is modest on tables that retain those. -/
theorem EachWrite.of_retains (hm : t.EachWrite Modest log) (h : Abreast b b' t t') (hb : b.Retains b') :
    t'.EachWrite Modest log := by
  induction log generalizing t t' with
  | nil => trivial
  | cons w log ih => exact ⟨hm.1.of_abreast h hb, ih hm.2 (h.put w)⟩

/-! ### What a write does to credentials as they are seen -/

/-- A new credential replaces none. An update changes the password and the date of the last change of one credential,
    as it is seen with the email of its owner, and no other credential. -/
def Spares (t : Tables) : Write → Prop
  | .insertUser _ | .updateUser _ => True
  | .insertCredential c => t.credentials.get? c.user = none
  | .updateCredential c => ∃ old, t.credentialOf? c.user = some old ∧
    ∀ k, (t.putCredential c).credentialOf? k =
      if c.user = k then some { old with password := c.password, updatedAt := c.updatedAt } else t.credentialOf? k

theorem credentialOf?_eq_some {k : Id} {c : Credential} : t.credentialOf? k = some c ↔
    ∃ u old, t.users.get? k = some u ∧ t.credentials.get? k = some old ∧ c = { old with email := u.email } := by
  cases hu : t.users.get? k <;> cases hc : t.credentials.get? k <;> simp [credentialOf?, hu, hc, eq_comm]

/-- The credential of an identity is the row that stands under its id, with its email. -/
theorem credentialOf?_eq_map {k : Id} {u : User} (hu : t.users.get? k = some u) :
    t.credentialOf? k = (t.credentials.get? k).map fun row => { row with email := u.email } := by
  rw [credentialOf?, hu, Option.map_eq_bind]
  rfl

/-- A credential that is put is seen with the email of its owner. -/
theorem credentialOf?_putCredential {c : Credential} {u : User} (hu : t.users.get? c.user = some u) (k : Id) :
    (t.putCredential c).credentialOf? k = if c.user = k then some { c with email := u.email } else t.credentialOf? k := by
  have hrow := get?_credentials_putCredential t c k
  have huser : (t.putCredential c).users.get? k = t.users.get? k := rfl
  split
  · next hk =>
    subst hk
    rw [if_pos rfl] at hrow
    exact credentialOf?_eq_some.mpr ⟨u, c, hu, hrow, rfl⟩
  · next hk =>
    rw [if_neg hk] at hrow
    simp only [credentialOf?, huser, hrow]

theorem spares_of_apply (ht : t.Sound) (ha : t.apply w = .ok u) (hm : t.Modest w) : t.Spares w := by
  cases w with
  | insertUser | updateUser => trivial
  | insertCredential c => exact (apply_insertCredential.mp ha).2.1
  | updateCredential c =>
    obtain ⟨old, hold, hcreated⟩ := hm
    obtain ⟨⟨old', hold', hid⟩, -⟩ := apply_updateCredential.mp ha
    obtain rfl : old' = old := Option.some.inj (hold'.symm.trans hold)
    have hkey := ht.credentialKey hold
    obtain ⟨owner, howner⟩ := ht.owner hold
    rw [hkey] at howner
    refine ⟨_, credentialOf?_eq_some.mpr ⟨owner, old', howner, hold, rfl⟩, fun k => ?_⟩
    rw [credentialOf?_putCredential howner, hid, hkey, ← hcreated]

end Tables

/-! ### Databases -/

namespace Database
variable {d : Database} {t : TxId} {x y : Transaction} {op : Op}

/-- Where an action updates a credential, it says of its creation what the copy of the transaction says. -/
def Op.Modest (d : Database) : Op → Prop
  | .query t q => ∀ x, d.tx? t = some x → ∀ w, q.write? = some w → x.snapshot.Modest w
  | _ => True

/-- Every open transaction has written a modest log, on tables that the shared tables retain. -/
structure Modest (d : Database) : Prop where
  opened : ∀ {t : TxId} {x : Transaction}, d.tx? t = some x → ∃ start : Tables, start.Sound ∧
    start.replay x.log = .ok x.snapshot ∧ start.EachWrite Tables.Modest x.log ∧ start.Retains d.tables

theorem Op.Modest.accepted (h : op.Modest d) (hx : d.tx? t = some x) :
    x.snapshot.EachWrite Tables.Modest (d.accepted t op) := by
  cases op with
  | begin | commit | rollback | drop => trivial
  | query u q =>
    rw [Database.accepted]
    split
    · next hu =>
      obtain ⟨rfl, -⟩ := hu
      cases hw : q.write? with
      | none => trivial
      | some w => exact ⟨h x hx w hw, trivial⟩
    · trivial

namespace Modest

theorem new (capacity : Nat) : (Database.new capacity).Modest := ⟨nofun⟩

/-- The log of an open transaction is modest on the shared tables as well. -/
theorem shared (h : d.Modest) (hx : d.tx? t = some x) : d.tables.EachWrite Tables.Modest x.log := by
  obtain ⟨start, -, -, hlog, hretains⟩ := h.opened hx
  exact hlog.of_retains (.start start d.tables) hretains

theorem retains (h : d.Modest) (op : Op) : d.tables.Retains (d.act op).tables := by
  rcases d.tables_act_cases op with hsame | ⟨t, rfl, hok⟩
  · rw [hsame]
    exact .refl _
  · rcases d.commit_cases t with ⟨-, hc⟩ | ⟨x, tables, hx, hr, hc⟩ | ⟨_, _, -, -, hc⟩
    · rw [hc] at hok
      cases hok
    · rw [act, hc]
      exact .replay (h.shared hx) hr
    · rw [hc] at hok
      cases hok

theorem act (h : d.Modest) (hs : d.Sound) (hop : op.Modest d) : (d.act op).Modest where
  opened {t y} hy := by
    have hretains := h.retains op
    rcases tx?_act hy with ⟨rfl, hb, rfl⟩ | ⟨x, hx, hr, hl⟩
    · exact ⟨d.tables, hs.tables, rfl, trivial, hretains⟩
    · obtain ⟨start, hstart, hreplay, hlog, hshared⟩ := h.opened hx
      refine ⟨start, hstart, ?_, ?_, hshared.trans hretains⟩
      · rw [hl, Tables.replay_append, hreplay]
        exact hr
      · rw [hl]
        exact hlog.append hreplay (hop.accepted hx)

/-- What the copy of a transaction had, it has as long as the transaction is open. -/
theorem retains_snapshot (hop : op.Modest d) (hx : d.tx? t = some x) (hn : d.Named)
    (hy : (d.act op).tx? t = some y) : x.snapshot.Retains y.snapshot := by
  rcases tx?_act hy with ⟨-, hb, -⟩ | ⟨x', hx', hr, -⟩
  · exact absurd (begin_eq_ok.mp hb).2 (Nat.ne_of_lt (hn.lt hx))
  · obtain rfl : x' = x := Option.some.inj (hx'.symm.trans hx)
    exact .replay (hop.accepted hx) hr

end Modest
end Database
end IdentityVault
