import IdentityVault.Proofs.Store.Write
import IdentityVault.Store.Database
import Mathlib.Data.List.Nodup

/-! Runs of a database: actions of any number of transactions, in any order. An action changes the transaction it
    names and no other, and only a commit that succeeds changes the shared tables. -/

namespace IdentityVault

def Query.write? {α : Type} : Query α → Option Write
  | .insertUser u => some (.insertUser u)
  | .updateUser u => some (.updateUser u)
  | .insertCredential c => some (.insertCredential c)
  | .updateCredential c => some (.updateCredential c)
  | _ => none

namespace Transaction

theorem found_eq_ok {α : Type} {r : Option α} {a : α} : found r = .ok a ↔ r = some a := by
  cases r <;> simp [found]

/-- The write that a query asks for, if it is answered with success. -/
def accepted {α : Type} (x : Transaction) (q : Query α) : List Write :=
  if (x.perform q).1.isOk then q.write?.toList else []

theorem accepted_of_read {α : Type} (x : Transaction) {q : Query α} (h : q.write? = none) : x.accepted q = [] := by
  simp [accepted, h]

/-- A write is tried on the copy, and is logged if it was allowed. -/
theorem write_eq (x : Transaction) (w : Write) :
    x.snapshot.replay (if (x.write w).1.isOk then [w] else []) = .ok (x.write w).2.snapshot ∧
      (x.write w).2.log = x.log ++ if (x.write w).1.isOk then [w] else [] := by
  rw [write]
  cases h : x.snapshot.apply w with
  | ok tables => simp [Except.isOk, Except.toBool, Tables.replay_singleton, h]
  | error f => simp [Except.isOk, Except.toBool]

/-- A query does on the copy what it adds to the log. -/
theorem perform_eq {α : Type} (x : Transaction) (q : Query α) :
    x.snapshot.replay (x.accepted q) = .ok (x.perform q).2.snapshot ∧
      (x.perform q).2.log = x.log ++ x.accepted q := by
  cases q with
  | user | users | countUsers | credentialOf | credentialByEmail =>
    rw [accepted_of_read x rfl]
    exact ⟨rfl, (List.append_nil _).symm⟩
  | insertUser | updateUser | insertCredential | updateCredential => exact x.write_eq _

/-- What has taken up no write is still the same. -/
theorem eq_of_nil {x y : Transaction} (hsnapshot : x.snapshot.replay [] = .ok y.snapshot)
    (hlog : y.log = x.log ++ []) : y = x :=
  congrArg₂ Transaction.mk (Except.ok.inj hsnapshot).symm (hlog.trans (List.append_nil _))

theorem replay_accepted {α : Type} (x : Transaction) (q : Query α) :
    x.snapshot.replay (x.accepted q) = .ok (x.perform q).2.snapshot :=
  (x.perform_eq q).1

theorem log_perform {α : Type} (x : Transaction) (q : Query α) :
    (x.perform q).2.log = x.log ++ x.accepted q :=
  (x.perform_eq q).2

end Transaction

namespace Database

/-- What is done to a database: a transaction is begun, asked, or ended in one of three ways. -/
inductive Op : Type 1 where
  | begin
  | query {α : Type} (t : TxId) (q : Query α)
  | commit (t : TxId)
  | rollback (t : TxId)
  | drop (t : TxId)

def act (d : Database) : Op → Database
  | .begin => d.begin.2
  | .query t q => (d.query t q).2
  | .commit t => (d.commit t).2
  | .rollback t => (d.rollback t).2
  | .drop t => d.release t

def after (d : Database) (ops : List Op) : Database := ops.foldl act d

@[simp]
theorem after_nil (d : Database) : d.after [] = d := rfl

@[simp]
theorem after_cons (d : Database) (op : Op) (ops : List Op) : d.after (op :: ops) = (d.act op).after ops := rfl

theorem after_append (d : Database) (ops more : List Op) : d.after (ops ++ more) = (d.after ops).after more :=
  List.foldl_append

variable {d : Database} {t u : TxId} {x : Transaction}

/-! ### Open transactions -/

theorem begin_eq_ok : d.begin.1 = .ok t ↔ d.available ≠ 0 ∧ t = d.nextTx := by
  rw [begin]
  split <;> simp_all [eq_comm]

theorem tx?_begin (h : d.begin.1 = .ok t) : d.begin.2.tx? u = if u = t then some ⟨d.tables, []⟩ else d.tx? u := by
  obtain ⟨ha, rfl⟩ := begin_eq_ok.mp h
  by_cases hu : u = d.nextTx
  · simp [begin, ha, tx?, hu]
  · have hne : ¬d.nextTx = u := fun h => hu h.symm
    simp [begin, ha, tx?, hu, hne]

/-- A database without a free connection stays as it is. -/
theorem begin_eq_error {f : Failure} (h : d.begin.1 = .error f) : d.begin.2 = d := by
  rw [begin] at h ⊢
  split
  · rfl
  · simp_all

theorem tx?_release : (d.release t).tx? u = if u = t then none else d.tx? u := by
  by_cases h : u = t
  · subst h
    simp [tx?, release, List.find?_filter]
  · simp only [tx?, release, List.find?_filter, h, if_false]
    congr 2
    funext e
    by_cases he : e.1 = u <;> simp [he, h]

theorem query_of_none {α : Type} {q : Query α} (h : d.tx? t = none) :
    d.query t q = (.error .transactionFinalized, d) := by
  simp [query, h]

theorem query_of_some {α : Type} {q : Query α} (h : d.tx? t = some x) :
    d.query t q = ((x.perform q).1,
      { d with opened := d.opened.map fun e => if e.1 == t then (t, (x.perform q).2) else e }) := by
  simp [query, h]

theorem tx?_query {α : Type} {q : Query α} (h : d.tx? t = some x) :
    (d.query t q).2.tx? u = if u = t then some (x.perform q).2 else d.tx? u := by
  have key (e : TxId × Transaction) : (if e.1 == t then (t, (x.perform q).2) else e).1 = e.1 := by
    split <;> simp_all
  rw [query_of_some h]
  simp only [tx?, List.find?_map, Function.comp_def, key]
  simp only [tx?, Option.map_eq_some_iff] at h
  obtain ⟨e, he, rfl⟩ := h
  by_cases hu : u = t
  · subst hu
    have hk : e.1 = u := by simpa using List.find?_some he
    simp [he, hk]
  · cases hf : d.opened.find? (·.1 == u) with
    | none => simp [hu]
    | some e' =>
      have hk : e'.1 = u := by simpa using List.find?_some hf
      have hne : ¬e'.1 = t := fun h => hu (hk.symm.trans h)
      simp [hu, hne]

theorem commit_of_none (h : d.tx? t = none) : d.commit t = (.error .transactionFinalized, d) := by
  simp [commit, h]

theorem commit_eq_ok (h : d.tx? t = some x) {tables : Tables} (hr : d.tables.replay x.log = .ok tables) :
    d.commit t = (.ok (), { d.release t with tables }) := by
  simp [commit, h, hr]

theorem commit_eq_error (h : d.tx? t = some x) {f : Failure} (hr : d.tables.replay x.log = .error f) :
    d.commit t = (.error f, d.release t) := by
  simp [commit, h, hr]

theorem commit_cases (d : Database) (t : TxId) :
    (d.tx? t = none ∧ d.commit t = (.error .transactionFinalized, d)) ∨
      (∃ x tables, d.tx? t = some x ∧ d.tables.replay x.log = .ok tables ∧
        d.commit t = (.ok (), { d.release t with tables })) ∨
      ∃ x f, d.tx? t = some x ∧ d.tables.replay x.log = .error f ∧ d.commit t = (.error f, d.release t) := by
  cases h : d.tx? t with
  | none => exact .inl ⟨rfl, commit_of_none h⟩
  | some x =>
    cases hr : d.tables.replay x.log with
    | ok tables => exact .inr (.inl ⟨x, tables, rfl, hr, commit_eq_ok h hr⟩)
    | error f => exact .inr (.inr ⟨x, f, rfl, hr, commit_eq_error h hr⟩)

theorem rollback_cases (d : Database) (t : TxId) :
    (d.tx? t = none ∧ d.rollback t = (.error .transactionFinalized, d)) ∨
      ∃ x, d.tx? t = some x ∧ d.rollback t = (.ok (), d.release t) := by
  rw [rollback]
  cases d.tx? t with
  | none => exact .inl ⟨rfl, rfl⟩
  | some x => exact .inr ⟨x, rfl, rfl⟩

theorem tx?_commit (d : Database) (t : TxId) : (d.commit t).2.tx? t = none := by
  rcases d.commit_cases t with ⟨hx, hc⟩ | ⟨_, _, -, -, hc⟩ | ⟨_, _, -, -, hc⟩ <;> rw [hc]
  · exact hx
  · exact tx?_release.trans (if_pos rfl)
  · exact tx?_release.trans (if_pos rfl)

theorem tx?_rollback (d : Database) (t : TxId) : (d.rollback t).2.tx? t = none := by
  rcases d.rollback_cases t with ⟨hx, hr⟩ | ⟨_, -, hr⟩ <;> rw [hr]
  · exact hx
  · exact tx?_release.trans (if_pos rfl)

/-! ### What an action does -/

/-- The writes of `t` that an action is answered with success. -/
def accepted (d : Database) (t : TxId) : Op → List Write
  | .query u q => if u = t ∧ (d.query u q).1.isOk then q.write?.toList else []
  | _ => []

/-- The log that an action publishes. -/
def published (d : Database) : Op → List (List Write)
  | .commit t => if (d.commit t).1.isOk then (d.tx? t).toList.map (·.log) else []
  | _ => []

theorem accepted_query {α : Type} {q : Query α} (h : d.tx? t = some x) :
    d.accepted t (.query t q) = x.accepted q := by
  simp [accepted, Transaction.accepted, query_of_some h]

/-- A transaction that is open after an action was begun by it, from the tables as they were, or was open before and
    did what the action asked of it. -/
theorem tx?_act {op : Op} {y : Transaction} (h : (d.act op).tx? t = some y) :
    (op = .begin ∧ d.begin.1 = .ok t ∧ y = ⟨d.tables, []⟩) ∨
      ∃ x, d.tx? t = some x ∧ x.snapshot.replay (d.accepted t op) = .ok y.snapshot ∧
        y.log = x.log ++ d.accepted t op := by
  have same {op : Op} (h : d.tx? t = some y) (ha : d.accepted t op = []) : ∃ x, d.tx? t = some x ∧
      x.snapshot.replay (d.accepted t op) = .ok y.snapshot ∧ y.log = x.log ++ d.accepted t op :=
    ⟨y, h, by rw [ha, Tables.replay_nil], by rw [ha, List.append_nil]⟩
  have released {u : TxId} (h : (d.release u).tx? t = some y) : d.tx? t = some y := by
    rw [tx?_release] at h
    split at h
    · cases h
    · exact h
  cases op with
  | begin =>
    rw [act] at h
    cases hb : d.begin.1 with
    | error f =>
      rw [begin_eq_error hb] at h
      exact .inr (same h rfl)
    | ok u =>
      rw [tx?_begin hb] at h
      split at h
      · next hu =>
        cases h
        exact .inl ⟨rfl, hu ▸ rfl, rfl⟩
      · exact .inr (same h rfl)
  | query u q =>
    rw [act] at h
    cases hu : d.tx? u with
    | none =>
      rw [query_of_none hu] at h
      have hne : u ≠ t := fun he => by
        rw [he] at hu
        exact nomatch hu.symm.trans h
      exact .inr (same h (by simp [accepted, hne]))
    | some x =>
      rw [tx?_query hu] at h
      split at h
      · next he =>
        subst he
        cases h
        rw [accepted_query hu]
        exact .inr ⟨x, hu, x.replay_accepted q, x.log_perform q⟩
      · next he => exact .inr (same h (by simp [accepted, Ne.symm he]))
  | commit u =>
    rw [act] at h
    refine .inr (same ?_ rfl)
    rcases d.commit_cases u with ⟨-, hc⟩ | ⟨_, _, -, -, hc⟩ | ⟨_, _, -, -, hc⟩ <;> rw [hc] at h
    · exact h
    · exact released h
    · exact released h
  | rollback u =>
    rw [act] at h
    refine .inr (same ?_ rfl)
    rcases d.rollback_cases u with ⟨-, hr⟩ | ⟨_, -, hr⟩ <;> rw [hr] at h
    · exact h
    · exact released h
  | drop u => exact .inr (same (released h) rfl)

/-- The shared tables take up the log that an action publishes, and nothing else. -/
theorem tables_act (d : Database) (op : Op) :
    (d.published op).foldlM Tables.replay d.tables = .ok (d.act op).tables := by
  cases op with
  | begin =>
    rw [act, begin]
    split <;> rfl
  | query u q =>
    rw [act]
    cases hu : d.tx? u with
    | none => rw [query_of_none hu]; rfl
    | some x => rw [query_of_some hu]; rfl
  | commit u =>
    rw [act, published]
    rcases d.commit_cases u with ⟨-, hc⟩ | ⟨x, tables, hx, hr, hc⟩ | ⟨_, _, -, -, hc⟩ <;> rw [hc]
    · rfl
    · simp [hx, hr, Except.isOk, Except.toBool]
    · rfl
  | rollback u =>
    rw [act]
    rcases d.rollback_cases u with ⟨-, hr⟩ | ⟨_, -, hr⟩ <;> rw [hr] <;> rfl
  | drop u => rfl

/-! ### What is kept -/

theorem tables_begin (d : Database) : d.begin.2.tables = d.tables := by
  rw [begin]
  split <;> rfl

theorem tables_commit_of_error (d : Database) (t : TxId) (h : (d.commit t).1 ≠ .ok ()) :
    (d.commit t).2.tables = d.tables := by
  rcases d.commit_cases t with ⟨-, hc⟩ | ⟨_, _, -, -, hc⟩ | ⟨_, _, -, -, hc⟩ <;> rw [hc] at h ⊢
  · exact absurd rfl h
  · rfl

theorem tables_rollback (d : Database) (t : TxId) : (d.rollback t).2.tables = d.tables := by
  rcases d.rollback_cases t with ⟨-, hr⟩ | ⟨_, -, hr⟩ <;> exact hr ▸ rfl

theorem nextTx_act (d : Database) (op : Op) : d.nextTx ≤ (d.act op).nextTx := by
  cases op with
  | begin =>
    rw [act, begin]
    split
    · exact Nat.le_refl _
    · exact Nat.le_succ _
  | query t q =>
    have hsame : (d.query t q).2.nextTx = d.nextTx := by
      cases hx : d.tx? t with
      | none => rw [query_of_none hx]
      | some x => rw [query_of_some hx]
    exact Nat.le_of_eq hsame.symm
  | commit t =>
    have hsame : (d.commit t).2.nextTx = d.nextTx := by
      rcases d.commit_cases t with ⟨-, hc⟩ | ⟨_, _, -, -, hc⟩ | ⟨_, _, -, -, hc⟩ <;> rw [hc] <;> rfl
    exact Nat.le_of_eq hsame.symm
  | rollback t =>
    have hsame : (d.rollback t).2.nextTx = d.nextTx := by
      rcases d.rollback_cases t with ⟨-, hr⟩ | ⟨_, -, hr⟩
      · rw [hr]
      · rw [hr, release]
    exact Nat.le_of_eq hsame.symm
  | drop t => exact Nat.le_refl _

/-! ### Names -/

/-- The names of the transactions that are open. -/
def names (d : Database) : List TxId := d.opened.map (·.1)

theorem names_query {α : Type} (d : Database) (t : TxId) (q : Query α) : (d.query t q).2.names = d.names := by
  cases hx : d.tx? t with
  | none => rw [query_of_none hx]
  | some x =>
    rw [query_of_some hx, names, names, List.map_map]
    refine List.map_congr_left fun e _ => ?_
    by_cases he : e.1 = t <;> simp [he]

/-- Open transactions have names of their own, and none has the name of the next one. -/
structure Named (d : Database) : Prop where
  below : ∀ e ∈ d.opened, e.1 < d.nextTx
  distinct : (d.opened.map (·.1)).Nodup

namespace Named

theorem new (capacity : Nat) : (Database.new capacity).Named := ⟨nofun, .nil⟩

theorem mem_opened (h : d.Named) : (t, x) ∈ d.opened ↔ d.tx? t = some x := by
  simp only [tx?, Option.map_eq_some_iff]
  constructor
  · intro hm
    cases hf : d.opened.find? (·.1 == t) with
    | none => exact absurd (beq_self_eq_true t) (List.find?_eq_none.mp hf _ hm)
    | some e =>
      have hk : e.1 = t := by simpa using List.find?_some hf
      obtain rfl : e = (t, x) := List.inj_on_of_nodup_map h.distinct (List.mem_of_find?_eq_some hf) hm hk
      exact ⟨_, rfl, rfl⟩
  · rintro ⟨e, he, rfl⟩
    have hk : e.1 = t := by simpa using List.find?_some he
    exact hk ▸ List.mem_of_find?_eq_some he

theorem lt (h : d.Named) (hx : d.tx? t = some x) : t < d.nextTx := h.below _ (h.mem_opened.mpr hx)

/-- Looking for rows leaves the database as it is. -/
theorem query_read {α : Type} (h : d.Named) {q : Query α} (hx : d.tx? t = some x) (hq : (x.perform q).2 = x) :
    d.query t q = ((x.perform q).1, d) := by
  have hopened : d.opened.map (fun e => if e.1 == t then (t, x) else e) = d.opened := by
    refine (List.map_congr_left fun e he => ?_).trans (List.map_id' _)
    obtain ⟨u, y⟩ := e
    by_cases hu : u = t
    · subst hu
      obtain rfl : x = y := Option.some.inj (hx.symm.trans (h.mem_opened.mp he))
      simp
    · simp [hu]
  rw [query_of_some hx, hq, hopened]

theorem release (h : d.Named) (t : TxId) : (d.release t).Named where
  below e he := h.below e (List.mem_filter.mp he).1
  distinct := h.distinct.sublist (List.filter_sublist.map _)

theorem begin (h : d.Named) : d.begin.2.Named := by
  rw [Database.begin]
  split
  · exact h
  · refine ⟨fun e he => ?_, List.nodup_cons.mpr ⟨fun hm => ?_, h.distinct⟩⟩
    · rcases List.mem_cons.mp he with rfl | he
      · exact Nat.lt_succ_self d.nextTx
      · exact Nat.lt_succ_of_lt (h.below e he)
    · obtain ⟨e, he, hk⟩ := List.mem_map.mp hm
      exact absurd hk (Nat.ne_of_lt (h.below e he))

theorem query {α : Type} (h : d.Named) (t : TxId) (q : Query α) : (d.query t q).2.Named := by
  cases hx : d.tx? t with
  | none =>
    rw [query_of_none hx]
    exact h
  | some x =>
    have keys := d.names_query t q
    rw [query_of_some hx, names, names] at keys
    rw [query_of_some hx]
    refine ⟨fun e he => ?_, keys ▸ h.distinct⟩
    obtain ⟨e', he', hk⟩ := List.mem_map.mp (keys ▸ List.mem_map_of_mem he : e.1 ∈ d.opened.map (·.1))
    exact hk ▸ h.below e' he'

theorem act (h : d.Named) (op : Op) : (d.act op).Named := by
  cases op with
  | begin => exact h.begin
  | query t q => exact h.query t q
  | commit t =>
    rw [Database.act]
    rcases d.commit_cases t with ⟨-, hc⟩ | ⟨_, _, -, -, hc⟩ | ⟨_, _, -, -, hc⟩ <;> rw [hc]
    · exact h
    · exact ⟨(h.release t).below, (h.release t).distinct⟩
    · exact h.release t
  | rollback t =>
    rw [Database.act]
    rcases d.rollback_cases t with ⟨-, hr⟩ | ⟨_, -, hr⟩ <;> rw [hr]
    · exact h
    · exact h.release t
  | drop t => exact h.release t

theorem after (h : d.Named) (ops : List Op) : (d.after ops).Named := by
  induction ops generalizing d with
  | nil => exact h
  | cons op ops ih => exact ih (h.act op)

end Named
end Database
end IdentityVault
