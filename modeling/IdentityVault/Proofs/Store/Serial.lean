import IdentityVault.Proofs.Store.Run

/-! Commits are serial: the shared tables are what the logs that were published make of the empty tables, one whole
    log after the other, and the copy of an open transaction is what its own log makes of the tables that were shared
    when it began. -/

namespace IdentityVault.Database
variable {d : Database} {t : TxId} {x y : Transaction}

/-- The logs that are published along a run, in the order of the commits. -/
def publishedAlong (d : Database) : List Op → List (List Write)
  | [] => []
  | op :: ops => d.published op ++ (d.act op).publishedAlong ops

/-- The writes of `t` that are answered with success along a run, in their order. -/
def acceptedAlong (d : Database) (t : TxId) : List Op → List Write
  | [] => []
  | op :: ops => d.accepted t op ++ (d.act op).acceptedAlong t ops

theorem tables_after (d : Database) (ops : List Op) :
    (d.publishedAlong ops).foldlM Tables.replay d.tables = .ok (d.after ops).tables := by
  induction ops generalizing d with
  | nil => rfl
  | cons op ops ih =>
    rw [publishedAlong, List.foldlM_append, tables_act]
    exact ih (d.act op)

/-- Where no log is published, the shared tables stay as they are. -/
theorem tables_after_of_unpublished {ops : List Op} (h : d.publishedAlong ops = []) :
    (d.after ops).tables = d.tables := by
  have ht := d.tables_after ops
  rw [h] at ht
  exact (Except.ok.inj ht).symm

/-! ### The life of a transaction -/

/-- The name of a transaction that has ended is not given to another one. -/
theorem tx?_after_of_none {ops : List Op} (ht : t < d.nextTx) (h : d.tx? t = none) : (d.after ops).tx? t = none := by
  induction ops generalizing d with
  | nil => exact h
  | cons op ops ih =>
    refine ih (Nat.lt_of_lt_of_le ht (d.nextTx_act op)) ?_
    cases hy : (d.act op).tx? t with
    | none => rfl
    | some y =>
      rcases tx?_act hy with ⟨-, hb, -⟩ | ⟨x, hx, -⟩
      · exact absurd (begin_eq_ok.mp hb).2 (Nat.ne_of_lt ht)
      · exact nomatch h.symm.trans hx

theorem nextTx_after (d : Database) (ops : List Op) : d.nextTx ≤ (d.after ops).nextTx := by
  induction ops generalizing d with
  | nil => exact Nat.le_refl _
  | cons op ops ih => exact Nat.le_trans (d.nextTx_act op) (ih (d.act op))

/-- The action puts no question to the transaction `t`. -/
def Op.Avoids (t : TxId) : Op → Prop
  | .query u _ => u ≠ t
  | _ => True

theorem accepted_of_avoids {op : Op} (h : op.Avoids t) : d.accepted t op = [] := by
  cases op with
  | query u q => exact if_neg fun hu => h hu.1
  | begin | commit | rollback | drop => rfl

/-- A transaction to which no question is put stays as it is until it ends. -/
theorem tx?_of_avoids {ops : List Op} (ht : t < d.nextTx) (hops : ∀ op ∈ ops, op.Avoids t)
    (hx : (d.after ops).tx? t = some x) : d.tx? t = some x := by
  induction ops generalizing d with
  | nil => exact hx
  | cons op ops ih =>
    have hact := ih (Nat.lt_of_lt_of_le ht (d.nextTx_act op)) (fun op' h => hops op' (.tail op h)) hx
    rcases tx?_act hact with ⟨-, hb, -⟩ | ⟨y, hy, hsnapshot, hlog⟩
    · exact absurd (begin_eq_ok.mp hb).2 (Nat.ne_of_lt ht)
    · rw [accepted_of_avoids (hops op List.mem_cons_self)] at hsnapshot hlog
      exact Transaction.eq_of_nil hsnapshot hlog ▸ hy

/-- A transaction that stays open adds the writes that it was allowed to do to its log, and has done them on its
    copy. -/
theorem tx?_after_of_some {ops : List Op} (hn : d.Named) (hx : d.tx? t = some x) (hy : (d.after ops).tx? t = some y) :
    x.snapshot.replay (d.acceptedAlong t ops) = .ok y.snapshot ∧ y.log = x.log ++ d.acceptedAlong t ops := by
  induction ops generalizing d x with
  | nil =>
    obtain rfl : x = y := Option.some.inj (hx.symm.trans hy)
    exact ⟨rfl, (List.append_nil _).symm⟩
  | cons op ops ih =>
    have ht := hn.lt hx
    cases hz : (d.act op).tx? t with
    | none =>
      rw [after_cons, tx?_after_of_none (Nat.lt_of_lt_of_le ht (d.nextTx_act op)) hz] at hy
      cases hy
    | some z =>
      rcases tx?_act hz with ⟨-, hb, -⟩ | ⟨x', hx', hr, hl⟩
      · exact absurd (begin_eq_ok.mp hb).2 (Nat.ne_of_lt ht)
      · obtain rfl : x = x' := Option.some.inj (hx.symm.trans hx')
        obtain ⟨hr', hl'⟩ := ih (hn.act op) hz hy
        rw [acceptedAlong, Tables.replay_append, hr]
        exact ⟨hr', by rw [hl', hl, List.append_assoc]⟩

/-- A transaction that is open after a run was open before, or was begun in it. -/
theorem begun_of_tx?_after {ops : List Op} (h : (d.after ops).tx? t = some y) :
    (∃ x, d.tx? t = some x) ∨ ∃ pre post, ops = pre ++ .begin :: post ∧ (d.after pre).begin.1 = .ok t := by
  induction ops generalizing d with
  | nil => exact .inl ⟨y, h⟩
  | cons op ops ih =>
    rcases ih h with ⟨z, hz⟩ | ⟨pre, post, rfl, hb⟩
    · rcases tx?_act hz with ⟨rfl, hb, -⟩ | ⟨x, hx, -⟩
      · exact .inr ⟨[], ops, rfl, hb⟩
      · exact .inl ⟨x, hx⟩
    · exact .inr ⟨op :: pre, post, rfl, hb⟩

/-! ### Serial runs -/

/-- What ties the shared tables, the copies and the logs together after a run. -/
structure Serial (start : Database) (ops : List Op) : Prop where
  /-- The shared tables are the logs of the commits that succeeded, replayed one after the other. -/
  shared : (start.publishedAlong ops).foldlM Tables.replay start.tables = .ok (start.after ops).tables
  /-- Every open transaction was begun in the run. -/
  begun : ∀ {t : TxId} {x : Transaction}, (start.after ops).tx? t = some x →
    ∃ pre post, ops = pre ++ .begin :: post ∧ (start.after pre).begin.1 = .ok t
  /-- The log of a transaction is what it was allowed to write, and its copy is that log on the tables that were
      shared when it began. -/
  snapshot : ∀ {pre post : List Op} {t : TxId} {x : Transaction}, ops = pre ++ .begin :: post →
    (start.after pre).begin.1 = .ok t → (start.after ops).tx? t = some x →
      x.log = (start.after (pre ++ [.begin])).acceptedAlong t post ∧
        (start.after pre).tables.replay x.log = .ok x.snapshot
  /-- If nothing was published since a transaction began, its commit succeeds and shares its copy. -/
  undisturbed : ∀ {pre post : List Op} {t : TxId} {x : Transaction}, ops = pre ++ .begin :: post →
    (start.after pre).begin.1 = .ok t → (start.after ops).tx? t = some x →
      (start.after (pre ++ [.begin])).publishedAlong post = [] →
        ((start.after ops).commit t).1 = .ok () ∧ ((start.after ops).commit t).2.tables = x.snapshot
  /-- A commit that fails publishes nothing, nor does a rollback or a drop. -/
  discarded : ∀ (t : TxId),
    (((start.after ops).commit t).1 ≠ .ok () → ((start.after ops).commit t).2.tables = (start.after ops).tables) ∧
      ((start.after ops).rollback t).2.tables = (start.after ops).tables ∧
        ((start.after ops).release t).tables = (start.after ops).tables

/-- The copy of a transaction that began after `pre`. -/
theorem snapshot_after {start : Database} (hn : start.Named) {pre post : List Op}
    (hb : (start.after pre).begin.1 = .ok t) (hx : (start.after (pre ++ .begin :: post)).tx? t = some x) :
    x.log = (start.after (pre ++ [.begin])).acceptedAlong t post ∧
      (start.after pre).tables.replay x.log = .ok x.snapshot := by
  rw [after_append, after_cons] at hx
  rw [after_append, after_cons, after_nil]
  have hnew : ((start.after pre).act .begin).tx? t = some ⟨(start.after pre).tables, []⟩ := by
    rw [act, tx?_begin hb, if_pos rfl]
  obtain ⟨hr, hl⟩ := tx?_after_of_some ((hn.after pre).act .begin) hnew hx
  rw [List.nil_append] at hl
  exact ⟨hl, hl ▸ hr⟩

/-- Every run of transactions on an empty database is serial. -/
theorem serial_after (capacity : Nat) (ops : List Op) : Serial (new capacity) ops where
  shared := tables_after _ ops
  begun h := by
    rcases begun_of_tx?_after h with ⟨x, hx⟩ | hb
    · cases hx
    · exact hb
  snapshot hops hb hx := snapshot_after (.new capacity) hb (hops ▸ hx)
  undisturbed {pre post t x} hops hb hx hp := by
    have hr := (snapshot_after (.new capacity) hb (hops ▸ hx)).2
    have htables : ((new capacity).after ops).tables = ((new capacity).after pre).tables := by
      have := tables_after_of_unpublished hp
      rw [← after_append, List.append_assoc] at this
      rw [hops]
      exact this.trans (by rw [after_append]; exact tables_begin _)
    rw [commit_eq_ok hx (htables ▸ hr)]
    exact ⟨rfl, rfl⟩
  discarded t := ⟨tables_commit_of_error _ t, tables_rollback _ t, rfl⟩

end IdentityVault.Database
