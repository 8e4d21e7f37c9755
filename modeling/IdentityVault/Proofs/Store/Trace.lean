import IdentityVault.Proofs.Store.Integrity
import IdentityVault.Proofs.Store.Serial

/-! Runs of which it is known who does what. A log is published by one party, and an action that names no transaction
    of a party leaves its transactions alone. -/

namespace IdentityVault.Database

/-- The transaction that an action names. -/
def Op.tx? : Op → Option TxId
  | .begin => none
  | .query t _ | .commit t | .rollback t | .drop t => some t

variable {ι : Type} {d : Database} {t : TxId} {x : Transaction} {op : Op} {trace more : List (ι × Op)}

/-! ### Actions of others -/

/-- An action leaves the transactions alone that it does not name. -/
theorem tx?_act_of_ne (h : op.tx? ≠ some t) (ht : t < d.nextTx) : (d.act op).tx? t = d.tx? t := by
  have released {u : TxId} (hu : u ≠ t) : (d.release u).tx? t = d.tx? t := by
    rw [tx?_release, if_neg (Ne.symm hu)]
  cases op with
  | begin =>
    rw [act]
    cases hb : d.begin.1 with
    | error f => rw [begin_eq_error hb]
    | ok u =>
      have hu := (begin_eq_ok.mp hb).2
      rw [tx?_begin hb, if_neg (hu ▸ Nat.ne_of_lt ht)]
  | query u q =>
    have hu : u ≠ t := fun hu => h (congrArg some hu)
    rw [act]
    cases hx : d.tx? u with
    | none => rw [query_of_none hx]
    | some x => rw [tx?_query hx, if_neg (Ne.symm hu)]
  | commit u =>
    have hu : u ≠ t := fun hu => h (congrArg some hu)
    rw [act]
    rcases d.commit_cases u with ⟨-, hc⟩ | ⟨_, _, -, -, hc⟩ | ⟨_, _, -, -, hc⟩ <;> rw [hc]
    · exact released hu
    · exact released hu
  | rollback u =>
    have hu : u ≠ t := fun hu => h (congrArg some hu)
    rw [act]
    rcases d.rollback_cases u with ⟨-, hr⟩ | ⟨_, -, hr⟩ <;> rw [hr]
    exact released hu
  | drop u => exact released fun hu => h (congrArg some hu)

/-! ### Traces -/

/-- The database after a trace, in which every action stands with the party that did it. -/
def along (d : Database) (trace : List (ι × Op)) : Database := d.after (trace.map (·.2))

@[simp]
theorem along_nil (d : Database) : d.along ([] : List (ι × Op)) = d := rfl

@[simp]
theorem along_cons (d : Database) (e : ι × Op) (trace : List (ι × Op)) :
    d.along (e :: trace) = (d.act e.2).along trace := rfl

@[simp]
theorem along_by (d : Database) (i : ι) (ops : List Op) : d.along (ops.map (i, ·)) = d.after ops := by
  rw [along, List.map_map]
  exact congrArg d.after (List.map_id _)

theorem along_append (d : Database) (trace more : List (ι × Op)) :
    d.along (trace ++ more) = (d.along trace).along more := by
  rw [along, along, along, List.map_append, after_append]

theorem Named.along (h : d.Named) (trace : List (ι × Op)) : (d.along trace).Named := h.after _

theorem Sound.along (h : d.Sound) (hn : d.Named) (trace : List (ι × Op)) : (d.along trace).Sound := h.after hn _

/-- The logs that are published along a trace, each with the party that publishes it. -/
def publications (d : Database) : List (ι × Op) → List (ι × List Write)
  | [] => []
  | (i, op) :: trace => (d.published op).map (i, ·) ++ (d.act op).publications trace

theorem publications_append (d : Database) (trace more : List (ι × Op)) :
    d.publications (trace ++ more) = d.publications trace ++ (d.along trace).publications more := by
  induction trace generalizing d with
  | nil => rfl
  | cons e trace ih =>
    rw [List.cons_append, publications, publications, ih, List.append_assoc]
    rfl

theorem publications_by (d : Database) (i : ι) (ops : List Op) :
    d.publications (ops.map (i, ·)) = (d.publishedAlong ops).map (i, ·) := by
  induction ops generalizing d with
  | nil => rfl
  | cons op ops ih => rw [List.map_cons, publications, ih, publishedAlong, List.map_append]

theorem map_snd_publications (d : Database) (trace : List (ι × Op)) :
    (d.publications trace).map (·.2) = d.publishedAlong (trace.map (·.2)) := by
  induction trace generalizing d with
  | nil => rfl
  | cons e trace ih => simp [publications, publishedAlong, ih, Function.comp_def]

/-- The shared tables after a trace are the logs that were published, replayed one after the other. -/
theorem tables_along (d : Database) (trace : List (ι × Op)) :
    ((d.publications trace).map (·.2)).foldlM Tables.replay d.tables = .ok (d.along trace).tables := by
  rw [map_snd_publications]
  exact d.tables_after _

/-- A log that was published along a trace was published by a commit in it, which succeeded. -/
theorem mem_publications {i : ι} {log : List Write} (h : (i, log) ∈ d.publications trace) :
    ∃ pre t post x, trace = pre ++ (i, .commit t) :: post ∧ (d.along pre).tx? t = some x ∧ x.log = log ∧
      ((d.along pre).commit t).1 = .ok () := by
  induction trace generalizing d with
  | nil => cases h
  | cons e trace ih =>
    obtain ⟨j, op⟩ := e
    rcases List.mem_append.mp h with h | h
    · obtain ⟨log', hlog, he⟩ := List.mem_map.mp h
      cases he
      cases op with
      | commit t =>
        rcases d.commit_cases t with ⟨-, hc⟩ | ⟨x, tables, hx, -, hc⟩ | ⟨_, _, -, -, hc⟩
        · rw [published, hc] at hlog
          cases hlog
        · rw [published, hc, hx] at hlog
          exact ⟨[], t, trace, x, rfl, hx, (List.mem_singleton.mp hlog).symm, by rw [along_nil, hc]⟩
        · rw [published, hc] at hlog
          cases hlog
      | begin | query | rollback | drop => cases hlog
    · obtain ⟨pre, t, post, x, rfl, hx, hlog, hc⟩ := ih h
      exact ⟨(j, op) :: pre, t, post, x, rfl, hx, hlog, hc⟩

/-! ### What one party publishes -/

variable [DecidableEq ι] {i j : ι}

/-- The logs that a party publishes along a trace. -/
def publishedBy (d : Database) (i : ι) (trace : List (ι × Op)) : List (List Write) :=
  ((d.publications trace).filter (·.1 = i)).map (·.2)

@[simp]
theorem publishedBy_nil (d : Database) (i : ι) : d.publishedBy i [] = [] := rfl

theorem mem_publishedBy {log : List Write} : log ∈ d.publishedBy i trace ↔ (i, log) ∈ d.publications trace := by
  simp [publishedBy]

theorem publishedBy_append (d : Database) (i : ι) (trace more : List (ι × Op)) :
    d.publishedBy i (trace ++ more) = d.publishedBy i trace ++ (d.along trace).publishedBy i more := by
  simp only [publishedBy, publications_append, List.filter_append, List.map_append]

/-- What a party does alone, it publishes. -/
theorem publishedBy_self (d : Database) (i : ι) (ops : List Op) :
    d.publishedBy i (ops.map (i, ·)) = d.publishedAlong ops := by
  rw [publishedBy, publications_by, List.filter_eq_self.mpr, List.map_map]
  · exact List.map_id _
  · intro e he
    obtain ⟨log, -, rfl⟩ := List.mem_map.mp he
    exact decide_eq_true rfl

theorem publishedBy_of_ne (h : j ≠ i) (d : Database) (ops : List Op) : d.publishedBy i (ops.map (j, ·)) = [] := by
  rw [publishedBy, publications_by, List.filter_eq_nil_iff.mpr]
  · rfl
  · intro e he
    obtain ⟨log, -, rfl⟩ := List.mem_map.mp he
    simpa using h

/-! ### What one party begins -/

/-- The transaction that an action begins. -/
def begun (d : Database) : Op → List TxId
  | .begin => d.begin.1.toOption.toList
  | _ => []

def begunAlong (d : Database) : List Op → List TxId
  | [] => []
  | op :: ops => d.begun op ++ (d.act op).begunAlong ops

/-- The transactions that a party begins along a trace. -/
def begunBy (d : Database) (i : ι) : List (ι × Op) → List TxId
  | [] => []
  | (j, op) :: trace => (if j = i then d.begun op else []) ++ (d.act op).begunBy i trace

theorem begunBy_append (d : Database) (i : ι) (trace more : List (ι × Op)) :
    d.begunBy i (trace ++ more) = d.begunBy i trace ++ (d.along trace).begunBy i more := by
  induction trace generalizing d with
  | nil => rfl
  | cons e trace ih =>
    rw [List.cons_append, begunBy, begunBy, ih, List.append_assoc]
    rfl

theorem begunBy_self (d : Database) (i : ι) (ops : List Op) : d.begunBy i (ops.map (i, ·)) = d.begunAlong ops := by
  induction ops generalizing d with
  | nil => rfl
  | cons op ops ih => rw [List.map_cons, begunBy, if_pos rfl, ih, begunAlong]

theorem begunBy_of_ne (h : j ≠ i) (d : Database) (ops : List Op) : d.begunBy i (ops.map (j, ·)) = [] := by
  induction ops generalizing d with
  | nil => rfl
  | cons op ops ih => rw [List.map_cons, begunBy, if_neg h, ih, List.append_nil]

end IdentityVault.Database
