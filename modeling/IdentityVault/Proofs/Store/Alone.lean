import IdentityVault.Proofs.Store.Run

/-! A transaction from its begin to its end, while nothing else is done to the database. -/

namespace IdentityVault

namespace Transaction
variable {x : Transaction} {tables : Tables}

/-- The log of a transaction leads from `tables` to its copy. -/
def LeadsFrom (x : Transaction) (tables : Tables) : Prop := tables.replay x.log = .ok x.snapshot

theorem LeadsFrom.start (tables : Tables) : LeadsFrom ⟨tables, []⟩ tables := rfl

theorem LeadsFrom.perform {α : Type} (h : x.LeadsFrom tables) (q : Query α) : (x.perform q).2.LeadsFrom tables := by
  rw [LeadsFrom, log_perform, Tables.replay_append, h]
  exact x.replay_accepted q

theorem write_eq_ok {write : Write} (h : x.snapshot.apply write = .ok tables) :
    x.write write = (.ok (), ⟨tables, x.log ++ [write]⟩) := by
  rw [Transaction.write, h]

end Transaction

namespace Database
variable {d : Database} {x : Transaction}

/-- The database while its next transaction is open, as `x`. -/
def working (d : Database) (x : Transaction) : Database :=
  { d with opened := (d.nextTx, x) :: d.opened, nextTx := d.nextTx + 1 }

/-- The database after its next transaction has ended, and has left `tables`. -/
def left (d : Database) (tables : Tables) : Database := { d with tables, nextTx := d.nextTx + 1 }

theorem begin_eq (h : d.available ≠ 0) : d.begin = (.ok d.nextTx, d.working ⟨d.tables, []⟩) := by
  rw [begin, if_neg h, working]

@[simp]
theorem tx?_working (d : Database) (x : Transaction) : (d.working x).tx? d.nextTx = some x := by
  simp [tx?, working]

namespace Named

theorem release_working (h : d.Named) (x : Transaction) : (d.working x).release d.nextTx = d.left d.tables := by
  have hothers : d.opened.filter (·.1 != d.nextTx) = d.opened :=
    List.filter_eq_self.mpr fun e he => by simpa using Nat.ne_of_lt (h.below e he)
  simp [Database.release, working, left, hothers]

theorem query_working {α : Type} (h : d.Named) (x : Transaction) (q : Query α) :
    (d.working x).query d.nextTx q = ((x.perform q).1, d.working (x.perform q).2) := by
  have hothers : d.opened.map (fun e => if e.1 == d.nextTx then (d.nextTx, (x.perform q).2) else e) = d.opened := by
    refine (List.map_congr_left fun e he => ?_).trans (List.map_id' _)
    exact if_neg (by simpa using Nat.ne_of_lt (h.below e he))
  rw [query_of_some (d.tx?_working x), working, List.map_cons, hothers, beq_self_eq_true]
  rfl

theorem commit_working (h : d.Named) (hx : x.LeadsFrom d.tables) :
    (d.working x).commit d.nextTx = (.ok (), d.left x.snapshot) := by
  rw [commit_eq_ok (d.tx?_working x) hx, h.release_working]
  rfl

theorem rollback_working (h : d.Named) (x : Transaction) :
    (d.working x).rollback d.nextTx = (.ok (), d.left d.tables) := by
  rw [rollback, tx?_working, h.release_working]

theorem left (h : d.Named) (tables : Tables) : (d.left tables).Named :=
  ⟨fun e he => Nat.lt_succ_of_lt (h.below e he), h.distinct⟩

end Named
end Database
end IdentityVault
