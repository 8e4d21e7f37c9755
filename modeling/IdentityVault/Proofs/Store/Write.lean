import IdentityVault.Store.Tables

/-! What a write does to the tables, for each kind of write: when it is allowed, and which row it puts. -/

namespace IdentityVault

/-! ### Folds and rows -/

/-- What every step of a fold keeps, the whole fold keeps. -/
theorem foldlM_keeps_of_mem {α β : Type} {f : β → α → Outcome β} {P : β → Prop} :
    ∀ {l : List α} {b b' : β}, (∀ {b a b'}, a ∈ l → P b → f b a = .ok b' → P b') → P b → l.foldlM f b = .ok b' → P b'
  | [], b, b', _, hb, h => by
    cases h
    exact hb
  | a :: l, b, b', step, hb, h => by
    rw [List.foldlM_cons] at h
    cases ha : f b a with
    | ok c =>
      rw [ha] at h
      exact foldlM_keeps_of_mem (fun hm => step (List.mem_cons_of_mem a hm)) (step List.mem_cons_self hb ha) h
    | error e =>
      rw [ha] at h
      cases h

theorem foldlM_keeps {α β : Type} {f : β → α → Outcome β} {P : β → Prop}
    (step : ∀ {b a b'}, P b → f b a = .ok b' → P b') {l : List α} {b b' : β} (hb : P b)
    (h : l.foldlM f b = .ok b') : P b' :=
  foldlM_keeps_of_mem (fun _ => step) hb h

/-- What a fold does not keep, one of its steps breaks. -/
theorem foldlM_keeps_or {α β : Type} {f : β → α → Outcome β} {P : β → Prop} {B : α → Prop}
    (step : ∀ {b a b'}, P b → f b a = .ok b' → P b' ∨ B a) {l : List α} {b b' : β} (hb : P b)
    (h : l.foldlM f b = .ok b') : P b' ∨ ∃ a ∈ l, B a := by
  by_cases hbreaks : ∃ a ∈ l, B a
  · exact .inr hbreaks
  · exact .inl (foldlM_keeps_of_mem (fun hm hp ha => (step hp ha).resolve_right fun h => hbreaks ⟨_, hm, h⟩) hb h)

namespace Table
variable {κ α β : Type} [Ord κ]

theorem mem_rows [Std.TransOrd κ] [DecidableEq κ] {t : Table κ α} {a : α} : a ∈ t.rows ↔ ∃ k, t.get? k = some a := by
  simp only [rows, List.mem_map]
  constructor
  · rintro ⟨⟨k, b⟩, hm, rfl⟩
    exact ⟨k, get?_eq_some.mpr hm⟩
  · rintro ⟨k, hk⟩
    exact ⟨(k, a), get?_eq_some.mp hk, rfl⟩

theorem contains_iff [DecidableEq κ] {t : Table κ α} {k : κ} : t.contains k = true ↔ ∃ a, t.get? k = some a := by
  rw [contains, Option.isSome_iff_exists]

theorem contains_eq_false [DecidableEq κ] {t : Table κ α} {k : κ} : t.contains k = false ↔ t.get? k = none := by
  rw [contains, Option.isSome_eq_false_iff, Option.isNone_iff_eq_none]

/-- The table with other rows under the same keys. -/
def mapRows (t : Table κ α) (f : κ → α → β) : Table κ β :=
  ⟨t.entries.map fun e => (e.1, f e.1 e.2), List.pairwise_map.mpr t.sorted⟩

theorem get?_mapRows [DecidableEq κ] (t : Table κ α) (f : κ → α → β) (k : κ) :
    (t.mapRows f).get? k = (t.get? k).map (f k) := by
  simp only [get?, mapRows, List.find?_map, Function.comp_def, Option.map_map]
  cases h : t.entries.find? (·.1 = k) with
  | none => rfl
  | some e =>
    obtain rfl : e.1 = k := by simpa using List.find?_some h
    rfl

theorem mapRows_insert [Std.TransOrd κ] [Std.LawfulEqOrd κ] [DecidableEq κ] (t : Table κ α) (f : κ → α → β) (k : κ)
    (a : α) : (t.insert k a).mapRows f = (t.mapRows f).insert k (f k a) := by
  refine ext_get? fun k' => ?_
  rw [get?_mapRows, get?_insert, get?_insert, get?_mapRows]
  split
  · next h => rw [← h]; rfl
  · rfl

end Table

namespace Tables
variable {t t' : Tables}

/-! ### Looking identities up by email -/

theorem userByEmail?_eq_none {e : Email} :
    t.userByEmail? e = none ↔ ∀ k u, t.users.get? k = some u → u.email ≠ e := by
  simp only [userByEmail?, List.find?_eq_none, decide_eq_true_eq]
  constructor
  · intro h k u hu
    exact h u (Table.mem_rows.mpr ⟨k, hu⟩)
  · intro h u hm
    obtain ⟨k, hk⟩ := Table.mem_rows.mp hm
    exact h k u hk

theorem exists_of_userByEmail? {e : Email} {u : User} (h : t.userByEmail? e = some u) :
    (∃ k, t.users.get? k = some u) ∧ u.email = e := by
  refine ⟨Table.mem_rows.mp (List.mem_of_find?_eq_some h), ?_⟩
  simpa using List.find?_some h

theorem list_byEmail_eq_nil {e : Email} : t.list (.byEmail e) = [] ↔ t.userByEmail? e = none := by
  rw [list, userByEmail?, List.filter_eq_nil_iff, List.find?_eq_none]
  simp [UserFilter.isMatch, UserFilter.byEmail]

/-! ### Puts -/

/-- The tables with an identity under its own id. -/
def putUser (t : Tables) (u : User) : Tables := { t with users := t.users.insert u.id u }

/-- The tables with a credential under the id of its owner. -/
def putCredential (t : Tables) (c : Credential) : Tables :=
  { t with credentials := t.credentials.insert c.user c }

theorem get?_users_putUser (t : Tables) (u : User) (k : Id) :
    (t.putUser u).users.get? k = if u.id = k then some u else t.users.get? k :=
  Table.get?_insert t.users u.id k u

theorem get?_credentials_putCredential (t : Tables) (c : Credential) (k : Id) :
    (t.putCredential c).credentials.get? k = if c.user = k then some c else t.credentials.get? k :=
  Table.get?_insert t.credentials c.user k c

/-! ### When a write is allowed -/

theorem apply_insertUser {u : User} :
    t.apply (.insertUser u) = .ok t' ↔
      t.users.get? u.id = none ∧ t.userByEmail? u.email = none ∧ t' = t.putUser u := by
  rw [apply, ← Table.contains_eq_false]
  cases t.users.contains u.id <;> cases t.userByEmail? u.email <;> simp [putUser, @eq_comm _ t']

theorem apply_updateUser {u : User} :
    t.apply (.updateUser u) = .ok t' ↔
      (∃ old, t.users.get? u.id = some old) ∧ (∀ v, t.userByEmail? u.email = some v → v.id = u.id) ∧
        t' = t.putUser u := by
  rw [apply, ← Table.contains_iff]
  cases t.users.contains u.id with
  | false => simp
  | true =>
    cases t.userByEmail? u.email with
    | none => simp [putUser, @eq_comm _ t']
    | some v => by_cases hv : v.id = u.id <;> simp [hv, putUser, @eq_comm _ t']

theorem apply_insertCredential {c : Credential} :
    t.apply (.insertCredential c) = .ok t' ↔
      (∃ u, t.users.get? c.user = some u) ∧ t.credentials.get? c.user = none ∧ t' = t.putCredential c := by
  rw [apply, ← Table.contains_iff, ← Table.contains_eq_false]
  cases t.users.contains c.user <;> cases t.credentials.contains c.user <;> simp [putCredential, @eq_comm _ t']

theorem apply_updateCredential {c : Credential} :
    t.apply (.updateCredential c) = .ok t' ↔
      (∃ old, t.credentials.get? c.user = some old ∧ old.id = c.id) ∧ t' = t.putCredential c := by
  rw [apply]
  cases t.credentials.get? c.user with
  | none => simp
  | some old => by_cases ho : old.id = c.id <;> simp [ho, putCredential, @eq_comm _ t']

/-- The tables with the row of a write. -/
def put (t : Tables) : Write → Tables
  | .insertUser u | .updateUser u => t.putUser u
  | .insertCredential c | .updateCredential c => t.putCredential c

theorem eq_put_of_apply {w : Write} (h : t.apply w = .ok t') : t' = t.put w := by
  cases w with
  | insertUser u => exact (apply_insertUser.mp h).2.2
  | updateUser u => exact (apply_updateUser.mp h).2.2
  | insertCredential c => exact (apply_insertCredential.mp h).2.2
  | updateCredential c => exact (apply_updateCredential.mp h).2

/-! ### When a write is refused -/

theorem apply_insertUser_of_taken {u : User} (h : t.users.get? u.id ≠ none ∨ t.userByEmail? u.email ≠ none) :
    t.apply (.insertUser u) = .error .alreadyExists := by
  rw [← Option.isSome_iff_ne_none, ← Option.isSome_iff_ne_none] at h
  exact if_pos (by simpa [Table.contains] using h)

theorem apply_updateUser_of_taken {u v : User} (h : t.users.get? u.id ≠ none) (hv : t.userByEmail? u.email = some v)
    (hne : v.id ≠ u.id) : t.apply (.updateUser u) = .error .alreadyExists := by
  rw [← Option.isSome_iff_ne_none] at h
  simp [apply, Table.contains, h, hv, hne]

theorem apply_insertCredential_of_taken {c : Credential} (h : t.users.get? c.user ≠ none)
    (hc : t.credentials.get? c.user ≠ none) : t.apply (.insertCredential c) = .error .alreadyExists := by
  rw [← Option.isSome_iff_ne_none] at h hc
  simp [apply, Table.contains, h, hc]

/-! ### Logs -/

@[simp]
theorem replay_nil (t : Tables) : t.replay [] = .ok t := rfl

theorem replay_cons (t : Tables) (w : Write) (log : List Write) :
    t.replay (w :: log) = (t.apply w).bind fun t => t.replay log := rfl

theorem replay_cons_eq_ok {w : Write} {log : List Write} :
    t.replay (w :: log) = .ok t' ↔ ∃ u, t.apply w = .ok u ∧ u.replay log = .ok t' := by
  rw [replay_cons]
  cases t.apply w <;> simp [Except.bind]

theorem replay_append (t : Tables) (l m : List Write) :
    t.replay (l ++ m) = (t.replay l).bind fun t => t.replay m := by
  simp only [replay, List.foldlM_append]
  rfl

theorem replay_singleton (t : Tables) (w : Write) : t.replay [w] = t.apply w := by
  rw [replay_cons]
  cases t.apply w <;> rfl

end Tables
end IdentityVault
