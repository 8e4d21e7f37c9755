import IdentityVault.Object.Index
import IdentityVault.Proofs.Account.Json

/-! An index is read as it was written, whatever the paths of the objects are. -/

namespace IdentityVault

/-! ### Tables -/

namespace Table
variable {κ α : Type} [Ord κ] [Std.TransOrd κ]

/-- A row behind all others. -/
theorem insertEntry_of_lt {k : κ} {a : α} {l : List (κ × α)} (h : ∀ e ∈ l, compare e.1 k = .lt) :
    insertEntry k a l = l ++ [(k, a)] := by
  induction l with
  | nil => rfl
  | cons e r ih =>
    rw [insertEntry, Std.OrientedCmp.gt_iff_lt.mpr (h e List.mem_cons_self)]
    simp only
    rw [ih fun x hx => h x (List.mem_cons_of_mem _ hx), List.cons_append]

variable [Std.LawfulEqOrd κ]

theorem foldl_insert_entries (l : List (κ × α)) (t : Table κ α)
    (h : (t.entries ++ l).Pairwise fun a b => compare a.1 b.1 = .lt) :
    (l.foldl (fun t e => t.insert e.1 e.2) t).entries = t.entries ++ l := by
  induction l generalizing t with
  | nil => exact (List.append_nil _).symm
  | cons e r ih =>
    have hlast : (t.insert e.1 e.2).entries = t.entries ++ [e] :=
      insertEntry_of_lt fun x hx => (List.pairwise_append.mp h).2.2 x hx e List.mem_cons_self
    rw [List.append_cons] at h
    rw [List.foldl_cons, ih _ (by rwa [hlast]), hlast, ← List.append_cons]

/-- A table is what its rows make, one after the other. -/
theorem foldl_insert (t : Table κ α) : t.entries.foldl (fun t e => t.insert e.1 e.2) empty = t := by
  have hentries := foldl_insert_entries t.entries empty t.sorted
  generalize t.entries.foldl (fun t e => t.insert e.1 e.2) empty = u at hentries
  obtain ⟨l, hl⟩ := t
  obtain ⟨r, hr⟩ := u
  cases hentries
  rfl

end Table

namespace ObjectMeta

theorem ofJson?_toJson {m : ObjectMeta} (h : m.updatedAt.Valid) : ofJson? m.toJson = some m := by
  have hfields : m.toJson.fields? ["contentType", "size", "updatedAt"] =
      some [some (.ofString m.contentType), some (.ofNat m.size.toNat), some m.updatedAt.toJson] := by
    simp [toJson, Json.ofMembers, Json.fields?]
  have hsize : (Json.ofNat m.size.toNat).word? 64 = some m.size.toNat := Json.word?_ofNat m.size.toNat_lt
  rw [ofJson?, hfields]
  simp [Json.required, Json.ofString, Json.text?, hsize, h.ofJson?_toJson]

theorem plain_toJson (m : ObjectMeta) : Json.Plain m.toJson := by
  refine .ofMembers fun e he => ?_
  simp only [List.mem_cons, List.not_mem_nil, or_false] at he
  rcases he with rfl | rfl | rfl
  · exact .string _
  · exact .ofNat _
  · exact .string _

end ObjectMeta

namespace ObjectIndex

/-- All points in time in an index are ones that are kept. -/
def Dated (t : ObjectIndex) : Prop := ∀ e ∈ t.entries, e.2.updatedAt.Valid

theorem entriesOfJson?_toJson {t : ObjectIndex} (h : t.Dated) :
    entriesOfJson? (.ofMembers (t.entries.map fun e => (e.1, e.2.toJson))) = some t := by
  have hfold (l : List (String × ObjectMeta)) (hl : ∀ e ∈ l, e.2.updatedAt.Valid) (u : ObjectIndex) :
      (l.map fun e => (some e.1, e.2.toJson)).foldlM
        (fun t m => do some (t.insert (← m.1) (← ObjectMeta.ofJson? m.2))) u =
        some (l.foldl (fun t e => t.insert e.1 e.2) u) := by
    induction l generalizing u with
    | nil => rfl
    | cons e r ih =>
      have he := ObjectMeta.ofJson?_toJson (hl e List.mem_cons_self)
      simp only [List.map_cons, List.foldlM_cons, he, bind, Option.bind_some]
      exact ih (fun x hx => hl x (List.mem_cons_of_mem _ hx)) _
  have hall := hfold t.entries h .empty
  rw [Table.foldl_insert] at hall
  rw [Json.ofMembers, List.map_map, entriesOfJson?]
  exact hall

theorem plain_toJson (t : ObjectIndex) : Json.Plain t.toJson := by
  refine .ofMembers fun e he => ?_
  simp only [List.mem_cons, List.not_mem_nil, or_false] at he
  rcases he with rfl | rfl
  · exact .ofNat _
  · refine .ofMembers fun e he => ?_
    obtain ⟨row, -, rfl⟩ := List.mem_map.mp he
    exact row.2.plain_toJson

theorem ofJson?_toJson {t : ObjectIndex} (h : t.Dated) : ofJson? t.toJson = some t := by
  have hfields : t.toJson.fields? ["version", "entries"] = some [some (.ofNat version),
      some (.ofMembers (t.entries.map fun e => (e.1, e.2.toJson)))] := by
    simp [toJson, Json.ofMembers, Json.fields?]
  have hversion : (Json.ofNat version).word? 32 = some version := Json.word?_ofNat (by decide)
  rw [ofJson?, hfields]
  simp [Json.required, hversion, entriesOfJson?_toJson h]

/-- The text of an index says what is in it. -/
theorem decode_pretty {t : ObjectIndex} (h : t.Dated) : Json.decode ofJson? t.toJson.pretty = .ok t :=
  Json.decode_render (plain_toJson t) (ofJson?_toJson h) (some 0)

theorem dated_empty : Dated .empty := fun _ he => absurd he List.not_mem_nil

theorem Dated.insert {t : ObjectIndex} (h : t.Dated) (path : String) {m : ObjectMeta} (hm : m.updatedAt.Valid) :
    Dated (t.insert path m) := by
  intro e he
  rcases Table.mem_insertEntry he with rfl | he
  · exact hm
  · exact h e he

theorem Dated.erase {t : ObjectIndex} (h : t.Dated) (path : String) : Dated (t.erase path) :=
  fun e he => h e (List.mem_filter.mp he).1

/-! ### What is read -/

theorem valid_of_row? {j : Json} {m : ObjectMeta} (h : ObjectMeta.ofJson? j = some m) : m.updatedAt.Valid := by
  rw [ObjectMeta.ofJson?] at h
  split at h
  · simp only [bind, Option.bind_eq_some_iff] at h
    obtain ⟨_, -, _, -, t, ht, h⟩ := h
    cases h
    obtain ⟨_, -, ht⟩ := Option.bind_eq_some_iff.mp ht
    exact Timestamp.valid_of_ofJson? ht
  · cases h

/-- Every index that is read is dated. -/
theorem dated_of_ofJson? {j : Json} {t : ObjectIndex} (h : ofJson? j = some t) : t.Dated := by
  have hfold (members : List (Option String × Json)) {u t : ObjectIndex} (hu : u.Dated)
      (h : members.foldlM (fun t m => do some (t.insert (← m.1) (← ObjectMeta.ofJson? m.2))) u = some t) :
      t.Dated := by
    induction members generalizing u with
    | nil =>
      cases h
      exact hu
    | cons m r ih =>
      simp only [List.foldlM_cons, bind, Option.bind_eq_some_iff] at h
      obtain ⟨_, ⟨path, -, row, hrow, he⟩, h⟩ := h
      cases he
      exact ih (hu.insert path (valid_of_row? hrow)) h
  rw [ofJson?] at h
  split at h
  · simp only [bind, Option.bind_eq_some_iff] at h
    obtain ⟨_, -, h⟩ := h
    obtain ⟨entries, -, h⟩ := Option.bind_eq_some_iff.mp h
    rw [entriesOfJson?.eq_def] at h
    split at h
    · exact hfold _ dated_empty h
    · cases h
  · cases h

end ObjectIndex
end IdentityVault
