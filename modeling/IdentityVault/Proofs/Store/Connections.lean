import IdentityVault.Proofs.Store.Trace

/-! The connections of a database. Every open transaction holds one of them: what parties have begun and not ended yet
    is what is open, so that no connection is lost and none is given out twice. -/

namespace IdentityVault.Database
variable {ι : Type} {d : Database} {capacity : Nat} {own frame : List TxId} {t : TxId} {op : Op}

/-! ### What a party holds -/

/-- The transaction that an action ends, if it is open. -/
def Op.ended? : Op → Option TxId
  | .begin | .query _ _ => none
  | .commit t | .rollback t | .drop t => some t

/-- The action neither begins nor ends a transaction. -/
def Op.Quiet (op : Op) : Prop := op ≠ .begin ∧ op.ended? = none

theorem Op.tx?_of_ended? (h : op.ended? = some t) : op.tx? = some t := by
  cases op with
  | begin | query => cases h
  | commit | rollback | drop => exact h

/-- The open transactions of a party that had `own` open, after it has done something. -/
def held (d : Database) (own : List TxId) (op : Op) : List TxId :=
  match op.ended? with
  | some t => own.erase t
  | none => d.begun op ++ own

def heldAlong (d : Database) (own : List TxId) : List Op → List TxId
  | [] => own
  | op :: ops => (d.act op).heldAlong (d.held own op) ops

/-- The open transactions of a party that had `own` open, after a trace. -/
def heldBy [DecidableEq ι] (d : Database) (i : ι) (own : List TxId) : List (ι × Op) → List TxId
  | [] => own
  | (j, op) :: trace => (d.act op).heldBy i (if j = i then d.held own op else own) trace

theorem held_of_quiet (h : op.Quiet) (d : Database) (own : List TxId) : d.held own op = own := by
  obtain ⟨hbegins, hends⟩ := h
  rw [held, hends]
  cases op with
  | begin => exact absurd rfl hbegins
  | query => rfl
  | commit | rollback | drop => cases hends

theorem mem_held (h : t ∈ d.held own op) : t ∈ own ∨ t ∈ d.begun op := by
  rw [held] at h
  split at h
  · exact .inl (List.mem_of_mem_erase h)
  · exact (List.mem_append.mp h).symm

theorem mem_heldAlong {ops : List Op} (h : t ∈ d.heldAlong own ops) : t ∈ own ∨ t ∈ d.begunAlong ops := by
  induction ops generalizing d own with
  | nil => exact .inl h
  | cons op ops ih =>
    rcases ih h with hheld | hlater
    · exact (mem_held hheld).imp_right (List.mem_append_left _)
    · exact .inr (List.mem_append_right _ hlater)

section
variable [DecidableEq ι] {i j : ι}

theorem heldBy_append (d : Database) (i : ι) (own : List TxId) (trace more : List (ι × Op)) :
    d.heldBy i own (trace ++ more) = (d.along trace).heldBy i (d.heldBy i own trace) more := by
  induction trace generalizing d own with
  | nil => rfl
  | cons e trace ih => exact ih _ _

theorem heldBy_self (d : Database) (i : ι) (own : List TxId) (ops : List Op) :
    d.heldBy i own (ops.map (i, ·)) = d.heldAlong own ops := by
  induction ops generalizing d own with
  | nil => rfl
  | cons op ops ih => rw [List.map_cons, heldBy, if_pos rfl, ih, heldAlong]

theorem heldBy_of_quiet {trace : List (ι × Op)} (h : ∀ op, (i, op) ∈ trace → op.Quiet) :
    d.heldBy i own trace = own := by
  induction trace generalizing d with
  | nil => rfl
  | cons e trace ih =>
    obtain ⟨j, op⟩ := e
    have hfirst : (if j = i then d.held own op else own) = own := by
      split
      · next hj => exact held_of_quiet (h op (hj ▸ List.mem_cons_self)) d own
      · rfl
    rw [heldBy, hfirst]
    exact ih fun op' hm => h op' (List.mem_cons_of_mem _ hm)

theorem heldBy_of_ne (h : j ≠ i) (d : Database) (own : List TxId) (ops : List Op) :
    d.heldBy i own (ops.map (j, ·)) = own := by
  induction ops generalizing d with
  | nil => rfl
  | cons op ops ih => rw [List.map_cons, heldBy, if_neg h, ih]

end

/-! ### What is open -/

/-- Of as many connections as there are, the transactions `own` hold one each, and nobody else holds any. -/
structure Holds (capacity : Nat) (own : List TxId) (d : Database) : Prop where
  named : d.Named
  size : d.capacity = capacity
  room : d.names.length ≤ capacity
  names : d.names.Perm own

theorem Holds.new (capacity : Nat) : (new capacity).Holds capacity [] :=
  ⟨.new capacity, rfl, Nat.zero_le _, .nil⟩

/-- The transactions that are open hold the connections that are not free. -/
theorem Holds.available_add (h : d.Holds capacity own) : d.available + own.length = capacity := by
  have hroom := h.room
  have hlength : d.opened.length = own.length := by
    rw [← h.names.length_eq, Database.names, List.length_map]
  have hnames : d.names.length = d.opened.length := List.length_map _
  rw [available, h.size]
  omega

theorem Holds.perm {own' : List TxId} (h : d.Holds capacity own) (hp : own.Perm own') : d.Holds capacity own' :=
  ⟨h.named, h.size, h.room, h.names.trans hp⟩

theorem names_release (hn : d.Named) (t : TxId) : (d.release t).names = d.names.erase t := by
  have hnodup : d.names.Nodup := hn.distinct
  rw [hnodup.erase_eq_filter, names, names, release, List.filter_map]
  rfl

theorem erase_names_of_none (h : d.tx? t = none) : d.names.erase t = d.names := by
  refine List.erase_of_not_mem fun hm => ?_
  obtain ⟨e, he, rfl⟩ := List.mem_map.mp hm
  simp only [tx?, Option.map_eq_none_iff, List.find?_eq_none] at h
  exact h e he (beq_self_eq_true e.1)

/-- An action that ends a transaction takes its name away, also if the database refuses it. -/
theorem names_act_of_ended (hn : d.Named) (h : op.ended? = some t) : (d.act op).names = d.names.erase t := by
  cases op with
  | begin | query => cases h
  | commit u =>
    cases h
    rw [act]
    rcases d.commit_cases t with ⟨hx, hc⟩ | ⟨_, tables, -, -, hc⟩ | ⟨_, _, -, -, hc⟩ <;> rw [hc]
    · exact (erase_names_of_none hx).symm
    · exact names_release hn t
    · exact names_release hn t
  | rollback u =>
    cases h
    rw [act]
    rcases d.rollback_cases t with ⟨hx, hr⟩ | ⟨_, -, hr⟩ <;> rw [hr]
    · exact (erase_names_of_none hx).symm
    · exact names_release hn t
  | drop u =>
    cases h
    exact names_release hn t

theorem names_act_of_begun (h : op.ended? = none) : (d.act op).names = d.begun op ++ d.names := by
  cases op with
  | commit | rollback | drop => cases h
  | query u q => exact d.names_query u q
  | begin =>
    rw [act, begun, begin]
    split <;> rfl

theorem capacity_act (d : Database) (op : Op) : (d.act op).capacity = d.capacity := by
  cases op with
  | begin =>
    rw [act, begin]
    split <;> rfl
  | query u q =>
    rw [act]
    cases hx : d.tx? u with
    | none => rw [query_of_none hx]
    | some x => rw [query_of_some hx]
  | commit u =>
    rw [act]
    rcases d.commit_cases u with ⟨-, hc⟩ | ⟨_, _, -, -, hc⟩ | ⟨_, _, -, -, hc⟩ <;> rw [hc] <;> rfl
  | rollback u =>
    rw [act]
    rcases d.rollback_cases u with ⟨-, hr⟩ | ⟨_, -, hr⟩ <;> rw [hr]
    rfl
  | drop u => rfl

theorem room_act (h : d.Holds capacity own) (op : Op) : (d.act op).names.length ≤ capacity := by
  have hroom := h.room
  cases he : op.ended? with
  | some t =>
    rw [names_act_of_ended h.named he]
    exact Nat.le_trans (List.length_erase_le) hroom
  | none =>
    rw [names_act_of_begun he]
    cases op with
    | commit | rollback | drop => cases he
    | query => exact hroom
    | begin =>
      rw [begun]
      cases hb : d.begin.1 with
      | error f => exact hroom
      | ok t =>
        have hfree := (begin_eq_ok.mp hb).1
        have hlength : d.names.length = d.opened.length := List.length_map _
        rw [available, h.size] at hfree
        simp only [Except.toOption, Option.toList, List.length_append, List.length_singleton]
        omega

/-- What is open after an action of a party is what it holds then, and what the others have held all along. -/
theorem Holds.act (h : d.Holds capacity (own ++ frame)) (hop : ∀ t, op.ended? = some t → t ∉ frame) :
    (d.act op).Holds capacity (d.held own op ++ frame) where
  named := h.named.act op
  size := (d.capacity_act op).trans h.size
  room := room_act h op
  names := by
    rw [held]
    cases he : op.ended? with
    | none =>
      rw [names_act_of_begun he, List.append_assoc]
      exact h.names.append_left _
    | some t =>
      -- The transaction is not one of the others', so that what they hold is not touched.
      have hown : (own ++ frame).erase t = own.erase t ++ frame := by
        by_cases ht : t ∈ own
        · exact List.erase_append_left frame ht
        · rw [List.erase_append_right frame ht, List.erase_of_not_mem (hop t he), List.erase_of_not_mem ht]
      rw [names_act_of_ended h.named he, ← hown]
      exact h.names.erase t

theorem Holds.after (h : d.Holds capacity (own ++ frame)) {ops : List Op}
    (hops : ∀ op ∈ ops, ∀ t, op.ended? = some t → t ∉ frame) :
    (d.after ops).Holds capacity (d.heldAlong own ops ++ frame) := by
  induction ops generalizing d own with
  | nil => exact h
  | cons op ops ih =>
    exact ih (h.act (hops op List.mem_cons_self)) fun op' hm => hops op' (List.mem_cons_of_mem op hm)

theorem Holds.begin (h : d.Holds capacity own) (hb : d.begin.1 = .ok t) : d.begin.2.Holds capacity (t :: own) := by
  have hact : (d.act .begin).Holds capacity (d.held [] .begin ++ own) := Holds.act h nofun
  rw [held, Op.ended?, begun, hb] at hact
  exact hact

theorem Holds.end (h : d.Holds capacity (t :: own)) (hop : op.ended? = some t) : (d.act op).Holds capacity own := by
  have hmine : t ∉ own := (List.nodup_cons.mp (h.names.nodup h.named.distinct)).1
  have hact : (d.act op).Holds capacity (d.held [t] op ++ own) := Holds.act h fun u hu => by
    rw [hop] at hu
    exact Option.some.inj hu ▸ hmine
  rw [held, hop] at hact
  simpa using hact

/-- After any run of transactions, the ones that were begun and have not ended hold the connections that are not
    free. -/
theorem holds_after (capacity : Nat) (ops : List Op) :
    ((new capacity).after ops).Holds capacity ((new capacity).heldAlong [] ops) := by
  have hstart : (new capacity).Holds capacity ([] ++ []) := Holds.new capacity
  have hends : ∀ op ∈ ops, ∀ t, op.ended? = some t → t ∉ ([] : List TxId) := fun _ _ _ _ => nofun
  have h := hstart.after hends
  rwa [List.append_nil] at h

/-- No transaction is begun where no connection is free, and that is the only reason. -/
theorem begin_eq_error_iff {f : Failure} : d.begin.1 = .error f ↔ f = .poolExhausted ∧ d.available = 0 := by
  rw [begin]
  split <;> simp_all [eq_comm]

/-- A third transaction waits for the end of one of the first two. -/
example : ((new 2).after [.begin, .begin]).begin.1 = .error .poolExhausted ∧
    ((new 2).after [.begin, .begin, .rollback 0]).begin.1 = .ok 2 := ⟨rfl, rfl⟩

end IdentityVault.Database
