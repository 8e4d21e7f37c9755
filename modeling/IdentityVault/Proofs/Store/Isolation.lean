import IdentityVault.Proofs.Store.Trace

/-! Isolation: whatever others do in the meantime, a transaction gets the answers that it would get alone, on the tables
    as they were shared when it began. It reads the rows that it has written itself. -/

namespace IdentityVault

/-- A question to the row store with its answer. -/
structure Exchange where
  {α : Type}
  question : Query α
  answer : Outcome α

namespace Write

/-- The row that a write puts, that of an identity or that of the credential of one. -/
def row : Write → Id ⊕ Id
  | .insertUser u | .updateUser u => .inl u.id
  | .insertCredential c | .updateCredential c => .inr c.user

end Write

namespace Tables
variable {t t' : Tables} {w v : Write} {log : List Write}

/-- The row that a write puts is there as the write puts it. -/
def Shows (t : Tables) : Write → Prop
  | .insertUser u | .updateUser u => t.users.get? u.id = some u
  | .insertCredential c | .updateCredential c => t.credentials.get? c.user = some c

theorem shows_put (t : Tables) (w : Write) : (t.put w).Shows w := by
  cases w with
  | insertUser u | updateUser u => exact (get?_users_putUser t u u.id).trans (if_pos rfl)
  | insertCredential c | updateCredential c => exact (get?_credentials_putCredential t c c.user).trans (if_pos rfl)

namespace Shows

theorem putUser (h : t.Shows w) {u : User} (hne : .inl u.id ≠ w.row) : (t.putUser u).Shows w := by
  cases w with
  | insertUser v | updateUser v =>
    exact (get?_users_putUser t u v.id).trans ((if_neg fun hid => hne (congrArg Sum.inl hid)).trans h)
  | insertCredential | updateCredential => exact h

theorem putCredential (h : t.Shows w) {c : Credential} (hne : .inr c.user ≠ w.row) : (t.putCredential c).Shows w := by
  cases w with
  | insertUser | updateUser => exact h
  | insertCredential d | updateCredential d =>
    exact (get?_credentials_putCredential t c d.user).trans ((if_neg fun hid => hne (congrArg Sum.inr hid)).trans h)

/-- A write to another row leaves this one alone. -/
theorem put (h : t.Shows w) (hne : v.row ≠ w.row) : (t.put v).Shows w := by
  cases v with
  | insertUser u | updateUser u => exact h.putUser hne
  | insertCredential c | updateCredential c => exact h.putCredential hne

theorem replay (h : t.Shows w) (hlog : ∀ v ∈ log, v.row ≠ w.row) (hr : t.replay log = .ok t') : t'.Shows w :=
  foldlM_keeps_of_mem (P := (·.Shows w)) (fun hm h ha => eq_put_of_apply ha ▸ h.put (hlog _ hm)) h hr

end Shows
end Tables

namespace Database
variable {d d' : Database} {t : TxId} {op : Op}

/-- What `t` is asked by an action, and what it answers. -/
def exchange (d : Database) (t : TxId) : Op → List Exchange
  | .query u q => if u = t then [⟨q, (d.query u q).1⟩] else []
  | _ => []

/-- What `t` is asked along a run, and what it answers. -/
def exchanges (d : Database) (t : TxId) : List Op → List Exchange
  | [] => []
  | op :: ops => d.exchange t op ++ (d.act op).exchanges t ops

/-- The actions of a run that name `t`. -/
def actionsOf (t : TxId) (ops : List Op) : List Op := ops.filter (·.tx? = some t)

/-- A database on which `t` has begun from the given tables, and nobody else ever did. -/
def alone (tables : Tables) (t : TxId) : Database := (⟨1, tables, [], t⟩ : Database).act .begin

theorem tx?_alone (tables : Tables) (t : TxId) : (alone tables t).tx? t = some ⟨tables, []⟩ := by
  have hb : (⟨1, tables, [], t⟩ : Database).begin.1 = .ok t := rfl
  rw [alone, act, tx?_begin hb, if_pos rfl]

/-! ### Two databases with the same transaction -/

theorem exchange_of_ne (h : op.tx? ≠ some t) : d.exchange t op = [] := by
  cases op with
  | query u q =>
    have hu : u ≠ t := fun hu => h (congrArg some hu)
    simp [exchange, hu]
  | begin | commit | rollback | drop => rfl

theorem exchange_congr (h : d.tx? t = d'.tx? t) (op : Op) : d.exchange t op = d'.exchange t op := by
  cases op with
  | begin | commit | rollback | drop => rfl
  | query u q =>
    by_cases hu : u = t
    · subst hu
      have same : (d.query u q).1 = (d'.query u q).1 := by
        cases hx : d'.tx? u with
        | none => rw [query_of_none hx, query_of_none (h.trans hx)]
        | some x => rw [query_of_some hx, query_of_some (h.trans hx)]
      simp [exchange, same]
    · simp [exchange, hu]

theorem tx?_act_congr (h : d.tx? t = d'.tx? t) (hop : op.tx? = some t) : (d.act op).tx? t = (d'.act op).tx? t := by
  cases op with
  | begin => cases hop
  | query u q =>
    cases hop
    cases hx : d'.tx? t with
    | none =>
      have hx' := h.trans hx
      rw [act, act, query_of_none hx, query_of_none hx', hx, hx']
    | some x => rw [act, act, tx?_query hx, tx?_query (h.trans hx), if_pos rfl, if_pos rfl]
  | commit u =>
    cases hop
    rw [act, act, tx?_commit, tx?_commit]
  | rollback u =>
    cases hop
    rw [act, act, tx?_rollback, tx?_rollback]
  | drop u =>
    cases hop
    rw [act, act, tx?_release, tx?_release, if_pos rfl, if_pos rfl]

/-- Where two databases agree on `t`, a run on the one and its actions on `t` on the other get the same answers from
    `t`, and the databases agree on `t` again. -/
theorem exchanges_eq (ops : List Op) (h : d.tx? t = d'.tx? t) (ht : t < d.nextTx) :
    d.exchanges t ops = d'.exchanges t (actionsOf t ops) ∧
      (d.after ops).tx? t = (d'.after (actionsOf t ops)).tx? t := by
  induction ops generalizing d d' with
  | nil => exact ⟨rfl, h⟩
  | cons op ops ih =>
    have hlater : t < (d.act op).nextTx := Nat.lt_of_lt_of_le ht (d.nextTx_act op)
    by_cases hop : op.tx? = some t
    · have hown : actionsOf t (op :: ops) = op :: actionsOf t ops := List.filter_cons_of_pos (by simpa using hop)
      obtain ⟨hanswers, hafter⟩ := ih (tx?_act_congr h hop) hlater
      rw [hown, exchanges, exchanges, exchange_congr h, hanswers]
      exact ⟨rfl, hafter⟩
    · -- The other database does nothing while somebody else acts on this one.
      have hothers : actionsOf t (op :: ops) = actionsOf t ops := List.filter_cons_of_neg (by simpa using hop)
      have hkept : (d.act op).tx? t = d'.tx? t := (tx?_act_of_ne hop ht).trans h
      obtain ⟨hanswers, hafter⟩ := ih hkept hlater
      rw [hothers, exchanges, exchange_of_ne hop, List.nil_append]
      exact ⟨hanswers, hafter⟩

/-! ### Transactions among others -/

/-- What holds after `later` of a transaction that began after `earlier`. -/
structure Isolated (start : Database) (earlier later : List Op) (t : TxId) : Prop where
  /-- Every question was answered as in a run in which only `t` acts, on the tables that were shared when it began. -/
  answers : (start.after (earlier ++ [.begin])).exchanges t later =
    (alone (start.after earlier).tables t).exchanges t (actionsOf t later)
  /-- So are its copy and its log, and whether it is still open. -/
  transaction : (start.after (earlier ++ .begin :: later)).tx? t =
    ((alone (start.after earlier).tables t).after (actionsOf t later)).tx? t
  /-- It sees the writes that it was allowed to do, all of them and no other ones. -/
  writes : ∀ {x : Transaction}, (start.after (earlier ++ .begin :: later)).tx? t = some x →
    (start.after earlier).tables.replay ((start.after (earlier ++ [.begin])).acceptedAlong t later) = .ok x.snapshot

/-- No begin, write, commit, rollback or drop of others changes what a transaction sees. -/
theorem isolated_after (capacity : Nat) (earlier later : List Op)
    (hb : ((new capacity).after earlier).begin.1 = .ok t) : Isolated (new capacity) earlier later t := by
  have hbegun : (new capacity).after (earlier ++ [.begin]) = ((new capacity).after earlier).act .begin := by
    rw [after_append, after_cons, after_nil]
  have hopen : ((new capacity).after (earlier ++ [.begin])).tx? t =
      (alone ((new capacity).after earlier).tables t).tx? t := by
    rw [hbegun, tx?_alone, act, tx?_begin hb, if_pos rfl]
  have hnamed : t < ((new capacity).after (earlier ++ [.begin])).nextTx :=
    ((Named.new capacity).after _).lt (hopen.trans (tx?_alone _ t))
  obtain ⟨hanswers, htx⟩ := exchanges_eq later hopen hnamed
  rw [← after_append, List.append_assoc, List.singleton_append] at htx
  refine ⟨hanswers, htx, fun hx => ?_⟩
  obtain ⟨hlog, hreplay⟩ := snapshot_after (.new capacity) hb hx
  rw [← hlog, hreplay]

/-- The transaction answers with the row as the write puts it, a credential with the email that its owner has. -/
def Reads (d : Database) (t : TxId) : Write → Prop
  | .insertUser u | .updateUser u => (d.query t (.user u.id)).1 = .ok u
  | .insertCredential c | .updateCredential c => ∃ u, (d.query t (.user c.user)).1 = .ok u ∧
    (d.query t (.credentialOf c.user)).1 = .ok { c with email := u.email }

theorem reads_of_shows {x : Transaction} (hx : d.tx? t = some x) (hs : x.snapshot.Sound) {w : Write}
    (h : x.snapshot.Shows w) : d.Reads t w := by
  cases w with
  | insertUser u | updateUser u =>
    rw [Reads, query_of_some hx]
    exact Transaction.found_eq_ok.mpr h
  | insertCredential c | updateCredential c =>
    obtain ⟨u, hu⟩ := hs.owner h
    rw [Tables.Shows] at h
    refine ⟨u, ?_, ?_⟩
    · rw [query_of_some hx]
      exact Transaction.found_eq_ok.mpr hu
    · rw [query_of_some hx]
      exact Transaction.found_eq_ok.mpr (by simp [Tables.credentialOf?, hu, h])

/-- A transaction reads each row as it has last been allowed to write it, whatever others have done to the row. -/
theorem reads_own_writes (capacity : Nat) (earlier later : List Op) (hb : ((new capacity).after earlier).begin.1 = .ok t)
    {x : Transaction} (hx : ((new capacity).after (earlier ++ .begin :: later)).tx? t = some x)
    {front back : List Write} {w : Write}
    (hw : ((new capacity).after (earlier ++ [.begin])).acceptedAlong t later = front ++ w :: back)
    (hlast : ∀ v ∈ back, v.row ≠ w.row) : ((new capacity).after (earlier ++ .begin :: later)).Reads t w := by
  have hn := (Named.new capacity).after (earlier ++ .begin :: later)
  have hs := (Sound.new capacity).after (.new capacity) (earlier ++ .begin :: later)
  obtain ⟨hlog, hreplay⟩ := snapshot_after (.new capacity) hb hx
  refine reads_of_shows hx (hs.snapshot (hn.mem_opened.mpr hx)) ?_
  rw [hlog, hw, Tables.replay_append] at hreplay
  cases hfront : ((new capacity).after earlier).tables.replay front with
  | error f => simp [hfront, Except.bind] at hreplay
  | ok before =>
    rw [hfront] at hreplay
    obtain ⟨written, ha, hback⟩ := Tables.replay_cons_eq_ok.mp hreplay
    obtain rfl := Tables.eq_put_of_apply ha
    exact (before.shows_put w).replay hlast hback

/-- A transaction that registers Ann and looks for her, while another one registers her and is committed. -/
def contested : List Op :=
  [.begin, .query 1 (.insertUser ⟨⟨"u1"⟩, "Ann", ⟨"ann@example.com"⟩⟩), .commit 1,
    .query 0 (.countUsers (.byEmail ⟨"ann@example.com"⟩)),
    .query 0 (.insertUser ⟨⟨"u2"⟩, "Ann", ⟨"ann@example.com"⟩⟩), .query 0 (.user ⟨"u1"⟩), .commit 0]

theorem isolated_after_of_contested : (new 2).begin.1 = .ok 0 ∧ Isolated (new 2) [] contested 0 :=
  ⟨rfl, isolated_after 2 [] contested rfl⟩

end Database
end IdentityVault
