import IdentityVault.Proofs.World.Moment

/-! The emails in the rows of credentials are never seen: whoever reads a credential gets the email that its owner has.
    A database whose credentials have lost their emails answers everything as before. -/

namespace IdentityVault

variable {α β : Type}

/-- The credential without the email that its row has. -/
def Credential.blank (c : Credential) : Credential := { c with email := ⟨""⟩ }

def Write.blank : Write → Write
  | .insertCredential c => .insertCredential c.blank
  | .updateCredential c => .updateCredential c.blank
  | w => w

def Query.blank {α : Type} : Query α → Query α
  | .insertCredential c => .insertCredential c.blank
  | .updateCredential c => .updateCredential c.blank
  | q => q

def Effect.blank {β : Type} : Effect β → Effect β
  | .query deadline t q => .query deadline t q.blank
  | e => e

/-! ### Tables -/

namespace Tables

def blank (t : Tables) : Tables := { t with credentials := t.credentials.mapRows fun _ => Credential.blank }

@[simp]
theorem users_blank (t : Tables) : t.blank.users = t.users := rfl

theorem get?_credentials_blank (t : Tables) (k : Id) :
    t.blank.credentials.get? k = (t.credentials.get? k).map Credential.blank :=
  Table.get?_mapRows t.credentials _ k

@[simp]
theorem contains_credentials_blank (t : Tables) (k : Id) :
    t.blank.credentials.contains k = t.credentials.contains k := by
  simp [Table.contains, get?_credentials_blank]

@[simp]
theorem userByEmail?_blank (t : Tables) (e : Email) : t.blank.userByEmail? e = t.userByEmail? e := rfl

@[simp]
theorem list_blank (t : Tables) (f : UserFilter) : t.blank.list f = t.list f := rfl

@[simp]
theorem credentialOf?_blank (t : Tables) (k : Id) : t.blank.credentialOf? k = t.credentialOf? k := by
  rw [credentialOf?, credentialOf?, users_blank, get?_credentials_blank]
  cases t.users.get? k <;> cases t.credentials.get? k <;> rfl

theorem blank_putCredential (t : Tables) (c : Credential) :
    (t.putCredential c).blank = t.blank.putCredential c.blank := by
  rw [blank, putCredential, Table.mapRows_insert]
  rfl

/-- A write is allowed without the emails where it is allowed with them, and does the same. -/
theorem apply_blank (t : Tables) (w : Write) : t.blank.apply w.blank = (t.apply w).map blank := by
  cases w with
  | insertUser u =>
    simp only [Write.blank, apply, users_blank, userByEmail?_blank, apply_ite (Except.map blank)]
    rfl
  | updateUser u =>
    simp only [Write.blank, apply, users_blank, userByEmail?_blank, apply_ite (Except.map blank)]
    cases t.userByEmail? u.email with
    | none => rfl
    | some other =>
      simp only [apply_ite (Except.map blank)]
      rfl
  | insertCredential c =>
    have hput := t.blank_putCredential c
    have huser : c.blank.user = c.user := rfl
    simp only [Write.blank, apply, users_blank, contains_credentials_blank, huser]
    split
    · rfl
    · split
      · rfl
      · exact congrArg Except.ok hput.symm
  | updateCredential c =>
    have hput := t.blank_putCredential c
    have huser : c.blank.user = c.user := rfl
    have hid (c : Credential) : c.blank.id = c.id := rfl
    simp only [Write.blank, apply, huser, get?_credentials_blank]
    cases t.credentials.get? c.user with
    | none => rfl
    | some old =>
      simp only [Option.map_some, hid]
      split
      · exact congrArg Except.ok hput.symm
      · rfl

theorem replay_blank (t : Tables) (log : List Write) : t.blank.replay (log.map .blank) = (t.replay log).map blank := by
  induction log generalizing t with
  | nil => rfl
  | cons w log ih =>
    rw [List.map_cons, replay_cons, replay_cons, apply_blank]
    cases t.apply w with
    | error f => rfl
    | ok u => exact ih u

/-! ### Emails of identities -/

/-- A write keeps the identities that it does not update. -/
theorem user_of_apply {t t' : Tables} {w : Write} {k : Id} {u : User} (hw : ∀ v, w = .updateUser v → v.id ≠ k)
    (ha : t.apply w = .ok t') (hu : t.users.get? k = some u) : t'.users.get? k = some u := by
  cases w with
  | insertUser v =>
    obtain ⟨hfree, -, rfl⟩ := apply_insertUser.mp ha
    rw [get?_users_putUser, if_neg fun hk => nomatch (hk ▸ hfree).symm.trans hu]
    exact hu
  | updateUser v =>
    obtain ⟨-, -, rfl⟩ := apply_updateUser.mp ha
    rw [get?_users_putUser, if_neg (hw v rfl)]
    exact hu
  | insertCredential c =>
    obtain ⟨-, -, rfl⟩ := apply_insertCredential.mp ha
    exact hu
  | updateCredential c =>
    obtain ⟨-, rfl⟩ := apply_updateCredential.mp ha
    exact hu

end Tables

theorem Database.user_of_commit {d : Database} {t : TxId} {x : Transaction} {k : Id} {u : User} (hx : d.tx? t = some x)
    (hu : d.tables.users.get? k = some u) (hlog : ∀ v, .updateUser v ∈ x.log → v.id ≠ k) :
    (d.commit t).2.tables.users.get? k = some u := by
  cases hr : d.tables.replay x.log with
  | error f =>
    rw [commit_eq_error hx hr]
    exact hu
  | ok tables =>
    rw [commit_eq_ok hx hr]
    have step {b b' : Tables} {w : Write} (hm : w ∈ x.log) (hb : b.users.get? k = some u) (ha : b.apply w = .ok b') :
        b'.users.get? k = some u :=
      Tables.user_of_apply (fun v hv => hlog v (hv ▸ hm)) ha hb
    exact foldlM_keeps_of_mem (P := fun b => b.users.get? k = some u) step hu hr

/-! ### Transactions -/

namespace Transaction

def blank (x : Transaction) : Transaction := ⟨x.snapshot.blank, x.log.map .blank⟩

theorem write_blank (x : Transaction) (w : Write) :
    x.blank.write w.blank = ((x.write w).1, (x.write w).2.blank) := by
  rw [write, write, blank, Tables.apply_blank]
  cases x.snapshot.apply w with
  | error f => rfl
  | ok tables => simp [Except.map, blank]

theorem perform_blank (x : Transaction) (q : Query α) :
    x.blank.perform q.blank = ((x.perform q).1, (x.perform q).2.blank) := by
  cases q with
  | user | users | countUsers => rfl
  | credentialOf | credentialByEmail => simp [Query.blank, perform, blank]
  | insertUser u => exact x.write_blank (.insertUser u)
  | updateUser u => exact x.write_blank (.updateUser u)
  | insertCredential c => exact x.write_blank (.insertCredential c)
  | updateCredential c => exact x.write_blank (.updateCredential c)

end Transaction

/-! ### Databases -/

namespace Database
variable {d : Database} {t : TxId}

def blank (d : Database) : Database :=
  { d with tables := d.tables.blank, opened := d.opened.map fun e => (e.1, e.2.blank) }

def Op.blank : Op → Op
  | .query t q => .query t q.blank
  | op => op

theorem tx?_blank (d : Database) (t : TxId) : d.blank.tx? t = (d.tx? t).map Transaction.blank := by
  simp only [tx?, blank, List.find?_map, Option.map_map]
  rfl

theorem release_blank (d : Database) (t : TxId) : d.blank.release t = (d.release t).blank := by
  simp only [release, blank, List.filter_map]
  rfl

theorem begin_blank (d : Database) : d.blank.begin = (d.begin.1, d.begin.2.blank) := by
  have havailable : d.blank.available = d.available := by simp [available, blank]
  rw [begin, begin, havailable]
  split <;> rfl

theorem query_blank (d : Database) (t : TxId) (q : Query α) :
    d.blank.query t q.blank = ((d.query t q).1, (d.query t q).2.blank) := by
  rw [query, query, tx?_blank]
  cases d.tx? t with
  | none => rfl
  | some x =>
    simp only [Option.map_some, Transaction.perform_blank]
    refine congrArg (Prod.mk _) ?_
    simp only [blank, List.map_map]
    congr 1
    refine List.map_congr_left fun e _ => ?_
    simp only [Function.comp_apply]
    split <;> rfl

theorem commit_blank (d : Database) (t : TxId) : d.blank.commit t = ((d.commit t).1, (d.commit t).2.blank) := by
  rw [commit, commit, tx?_blank]
  cases d.tx? t with
  | none => rfl
  | some x =>
    have hreplay : d.blank.tables.replay x.blank.log = (d.tables.replay x.log).map .blank :=
      d.tables.replay_blank x.log
    simp only [Option.map_some, hreplay, release_blank]
    cases d.tables.replay x.log <;> rfl

theorem rollback_blank (d : Database) (t : TxId) : d.blank.rollback t = ((d.rollback t).1, (d.rollback t).2.blank) := by
  rw [rollback, rollback, tx?_blank, release_blank]
  cases d.tx? t <;> rfl

theorem act_blank (d : Database) (op : Op) : d.blank.act op.blank = (d.act op).blank := by
  cases op with
  | begin => exact congrArg Prod.snd d.begin_blank
  | query t q => exact congrArg Prod.snd (d.query_blank t q)
  | commit t => exact congrArg Prod.snd (d.commit_blank t)
  | rollback t => exact congrArg Prod.snd (d.rollback_blank t)
  | drop t => exact d.release_blank t

theorem after_blank (d : Database) (ops : List Op) : d.blank.after (ops.map .blank) = (d.after ops).blank := by
  induction ops generalizing d with
  | nil => rfl
  | cons op ops ih => rw [List.map_cons, after_cons, act_blank, ih, after_cons]

end Database

/-! ### Effects -/

/-- An effect yields the same on a database without the emails, and does the same to it. -/
theorem Effect.answer_blank (fits : Verifier) (m : Moment) (d : Database) (e : Effect β) :
    e.blank.answer fits m d.blank = (e.answer fits m d).map fun r => (r.1, r.2.map .blank) := by
  cases e with
  | now | freshToken | timestamp | freshId | hash | compare | release | crash => rfl
  | query deadline t q =>
    simp only [blank, answer, Moment.orFail, d.query_blank]
    cases m.fault <;> rfl
  | begin deadline =>
    simp only [blank, answer, Moment.orFail, d.begin_blank]
    cases m.fault <;> rfl
  | commit t =>
    simp only [blank, answer, Moment.orDrop, d.commit_blank]
    cases m.fault <;> rfl
  | rollback t =>
    simp only [blank, answer, Moment.orDrop, d.rollback_blank]
    cases m.fault <;> rfl

end IdentityVault
