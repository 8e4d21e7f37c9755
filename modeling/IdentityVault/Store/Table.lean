/-! Tables: rows under keys, in the strictly ascending order of the keys. There is only one way to keep a set of rows,
    so tables with equal contents are equal. -/

namespace IdentityVault

/-- Rows under keys. -/
structure Table (κ α : Type) [Ord κ] where
  entries : List (κ × α)
  sorted : entries.Pairwise fun a b => compare a.1 b.1 = .lt
  deriving DecidableEq, Repr

namespace Table

variable {κ α : Type} [Ord κ]

def empty : Table κ α := ⟨[], .nil⟩

def rows (t : Table κ α) : List α := t.entries.map (·.2)

def get? [DecidableEq κ] (t : Table κ α) (k : κ) : Option α := (t.entries.find? (·.1 = k)).map (·.2)

def contains [DecidableEq κ] (t : Table κ α) (k : κ) : Bool := (t.get? k).isSome

/-- Puts a row at its place, over the one that has the same key. -/
def insertEntry (k : κ) (a : α) : List (κ × α) → List (κ × α)
  | [] => [(k, a)]
  | e :: r =>
    match compare k e.1 with
    | .lt => (k, a) :: e :: r
    | .eq => (k, a) :: r
    | .gt => e :: insertEntry k a r

theorem mem_insertEntry {k : κ} {a : α} {x : κ × α} : ∀ {l : List (κ × α)}, x ∈ insertEntry k a l → x = (k, a) ∨ x ∈ l
  | [], h => by simpa [insertEntry] using h
  | e :: r, h => by
    rw [insertEntry] at h
    split at h
    · simpa using h
    · rcases List.mem_cons.mp h with rfl | h
      · exact .inl rfl
      · exact .inr (List.mem_cons_of_mem _ h)
    · rcases List.mem_cons.mp h with rfl | h
      · exact .inr List.mem_cons_self
      · exact (mem_insertEntry h).imp_right (List.mem_cons_of_mem _)

theorem sorted_insertEntry [Std.TransOrd κ] [Std.LawfulEqOrd κ] {k : κ} {a : α} : ∀ {l : List (κ × α)},
    (l.Pairwise fun a b => compare a.1 b.1 = .lt) →
      (insertEntry k a l).Pairwise fun a b => compare a.1 b.1 = .lt
  | [], _ => by simp [insertEntry]
  | e :: r, h => by
    obtain ⟨he, hr⟩ := List.pairwise_cons.mp h
    rw [insertEntry]
    split
    · next hc =>
      refine List.pairwise_cons.mpr ⟨fun x hx => ?_, h⟩
      rcases List.mem_cons.mp hx with rfl | hx
      · exact hc
      · exact Std.TransCmp.lt_trans hc (he x hx)
    · next hc =>
      obtain rfl := Std.LawfulEqOrd.eq_of_compare hc
      exact List.pairwise_cons.mpr ⟨he, hr⟩
    · next hc =>
      refine List.pairwise_cons.mpr ⟨fun x hx => ?_, sorted_insertEntry hr⟩
      rcases mem_insertEntry hx with rfl | hx
      · exact Std.OrientedCmp.gt_iff_lt.mp hc
      · exact he x hx

def insert [Std.TransOrd κ] [Std.LawfulEqOrd κ] (t : Table κ α) (k : κ) (a : α) : Table κ α :=
  ⟨insertEntry k a t.entries, sorted_insertEntry t.sorted⟩

def erase [DecidableEq κ] (t : Table κ α) (k : κ) : Table κ α :=
  ⟨t.entries.filter (·.1 ≠ k), t.sorted.sublist List.filter_sublist⟩

/-! ### Looking rows up -/

@[simp]
theorem get?_empty [DecidableEq κ] (k : κ) : (empty : Table κ α).get? k = none := rfl

theorem get?_erase [DecidableEq κ] (t : Table κ α) (k k' : κ) :
    (t.erase k).get? k' = if k = k' then none else t.get? k' := by
  by_cases h : k = k'
  · subst h
    simp [get?, erase, List.find?_filter]
  · simp only [get?, erase, List.find?_filter, h, if_false]
    congr 2
    funext e
    by_cases he : e.1 = k' <;> simp [he, Ne.symm h]

theorem lt_irrefl [Std.TransOrd κ] (k : κ) : compare k k ≠ .lt := fun h => by
  have : compare k k = .eq := Std.ReflCmp.compare_self
  rw [this] at h
  cases h

theorem find?_insertEntry [Std.LawfulEqOrd κ] [DecidableEq κ] (k k' : κ) (a : α) : ∀ l : List (κ × α),
    ((insertEntry k a l).find? (·.1 = k')).map (·.2) =
      if k = k' then some a else (l.find? (·.1 = k')).map (·.2)
  | [] => by by_cases h : k = k' <;> simp [insertEntry, h]
  | e :: r => by
    rw [insertEntry]
    cases hc : compare k e.1 with
    | lt => by_cases h : k = k' <;> simp [h]
    | eq =>
      have he : k = e.1 := Std.LawfulEqOrd.eq_of_compare hc
      by_cases h : k = k'
      · simp [h]
      · have h' : ¬e.1 = k' := he ▸ h
        simp [h, h']
    | gt =>
      have hne : k ≠ e.1 := by
        rintro rfl
        have : compare e.1 e.1 = .eq := Std.ReflCmp.compare_self
        rw [this] at hc
        cases hc
      have ih := find?_insertEntry k k' a r
      by_cases he : e.1 = k'
      · have h : ¬k = k' := fun h => hne (h.trans he.symm)
        simp [he, h]
      · simpa [List.find?_cons, he] using ih

variable [Std.TransOrd κ] [DecidableEq κ]

theorem get?_insert [Std.LawfulEqOrd κ] (t : Table κ α) (k k' : κ) (a : α) :
    (t.insert k a).get? k' = if k = k' then some a else t.get? k' :=
  find?_insertEntry k k' a t.entries

/-- A table holds exactly the rows that can be looked up in it. -/
theorem get?_eq_some {t : Table κ α} {k : κ} {a : α} : t.get? k = some a ↔ (k, a) ∈ t.entries := by
  obtain ⟨l, hl⟩ := t
  simp only [get?]
  induction l with
  | nil => simp
  | cons e r ih =>
    obtain ⟨he, hr⟩ := List.pairwise_cons.mp hl
    by_cases hk : e.1 = k
    · subst hk
      have hnot : (e.1, a) ∉ r := fun h => lt_irrefl e.1 (he (e.1, a) h)
      simp only [List.find?_cons, decide_true, Option.map_some, Option.some.injEq, List.mem_cons, hnot, or_false]
      exact ⟨fun h => h ▸ rfl, fun h => congrArg Prod.snd h.symm⟩
    · have hne : (k, a) ≠ e := fun h => hk (congrArg Prod.fst h.symm)
      simpa [List.find?_cons, hk, hne] using ih hr

/-- Tables in which the same rows are found are the same. -/
theorem ext_get? {t u : Table κ α} (h : ∀ k, t.get? k = u.get? k) : t = u := by
  have distinct (t : Table κ α) : t.entries.Nodup := t.sorted.imp fun {a b} hab hne => by
    rw [hne] at hab
    exact lt_irrefl b.1 hab
  have same : t.entries = u.entries :=
    List.Perm.eq_of_pairwise
      (fun a b _ _ hab hba => by
        rw [Std.OrientedCmp.gt_iff_lt.mpr hba] at hab
        cases hab)
      t.sorted u.sorted
      ((List.perm_ext_iff_of_nodup (distinct t) (distinct u)).mpr fun ⟨k, a⟩ => by
        rw [← get?_eq_some, ← get?_eq_some, h])
  obtain ⟨l, hl⟩ := t
  obtain ⟨r, hr⟩ := u
  cases same
  rfl

end Table
end IdentityVault
