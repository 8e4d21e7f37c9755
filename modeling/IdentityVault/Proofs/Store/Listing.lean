import IdentityVault.Proofs.Store.Lookup
import IdentityVault.Proofs.Text.Utf8

/-! Listings of identities. The rows of a table are in the order of their keys, and these are the ids of the identities.
    So a listing has every identity that is asked for, once, in the order of the ids. No two identities have the same
    email: a listing by an email is a lookup, and to count it is to ask whether the constraint on emails stands in the
    way of a new identity. -/

namespace IdentityVault

/-- Ids are in the order of their bytes. -/
theorem Id.utf8_lt {a b : Id} (h : compare a b = .lt) : Text.utf8 a.text < Text.utf8 b.text :=
  Text.utf8_lt (compareOfLessAndEq_eq_lt.mp h)

namespace Tables
variable {t : Tables} {f : UserFilter} {u : User} {e : Email}

theorem mem_list : u ∈ t.list f ↔ (∃ k, t.users.get? k = some u) ∧ ∀ e, f.email = some e → u.email = e := by
  rw [list, List.mem_filter, Table.mem_rows, UserFilter.isMatch]
  cases f.email with
  | none => simp
  | some e => simp

namespace Sound

/-- A listing is in the order of the ids. -/
theorem ordered_list (h : t.Sound) (f : UserFilter) : (t.list f).Pairwise fun u v => compare u.id v.id = .lt := by
  have hkey {e : Id × User} (he : e ∈ t.users.entries) : e.2.id = e.1 := h.userKey (Table.get?_eq_some.mpr he)
  refine List.Pairwise.filter _ (List.pairwise_map.mpr ?_)
  refine t.users.sorted.imp_of_mem fun {a b} ha hb hab => ?_
  rwa [hkey ha, hkey hb]

theorem nodup_list (h : t.Sound) (f : UserFilter) : (t.list f).Nodup :=
  (h.ordered_list f).imp fun {u v} hlt (heq : u = v) => Table.lt_irrefl v.id (heq ▸ hlt)

/-- A listing by an email is the identity that a lookup of the email finds. -/
theorem list_byEmail (h : t.Sound) (e : Email) : t.list (.byEmail e) = (t.userByEmail? e).toList := by
  have hmem (u : User) : u ∈ t.list (.byEmail e) ↔ t.userByEmail? e = some u := by
    rw [mem_list, h.userByEmail?_eq_some]
    refine and_congr ⟨?_, fun hu => ⟨u.id, hu⟩⟩ ⟨fun hall => hall e rfl, fun he _ hf => he.trans (Option.some.inj hf)⟩
    rintro ⟨k, hk⟩
    exact h.userKey hk ▸ hk
  cases hfound : t.userByEmail? e with
  | none => exact list_byEmail_eq_nil.mpr hfound
  | some v =>
    refine List.perm_singleton.mp ((List.perm_ext_iff_of_nodup (h.nodup_list _) (List.nodup_singleton v)).mpr fun u => ?_)
    rw [hmem, hfound, Option.some.injEq, List.mem_singleton, eq_comm]

end Sound

/-- An identity with an id of its own is refused if and only if its email is found. -/
theorem apply_insertUser_of_unused (h : t.users.get? u.id = none) :
    t.apply (.insertUser u) =
      if (t.userByEmail? u.email).isSome then .error .alreadyExists else .ok (t.putUser u) := by
  have hid : t.users.contains u.id = false := Table.contains_eq_false.mpr h
  rw [apply, hid, Bool.false_or]
  rfl

end Tables

namespace Database
variable {d : Database} {t : TxId} {x : Transaction}

theorem query_users (hx : d.tx? t = some x) (f : UserFilter) : (d.query t (.users f)).1 = .ok (x.snapshot.list f) := by
  rw [query_of_some hx]
  rfl

theorem query_countUsers (hx : d.tx? t = some x) (f : UserFilter) :
    (d.query t (.countUsers f)).1 = .ok (x.snapshot.list f).length := by
  rw [query_of_some hx]
  rfl

theorem query_insertUser (hx : d.tx? t = some x) (u : User) :
    (d.query t (.insertUser u)).1 = (x.snapshot.apply (.insertUser u)).map fun _ => () := by
  rw [query_of_some hx, Transaction.perform, Transaction.write]
  cases x.snapshot.apply (.insertUser u) <;> rfl

/-- What the listings of a transaction say of its identities, and of each other. -/
structure Listings (d : Database) (t : TxId) (x : Transaction) : Prop where
  /-- The identities that the filter asks for, each once, in the order of the bytes of their ids. -/
  listed : ∀ f, ∃ l, (d.query t (.users f)).1 = .ok l ∧
    (∀ u, u ∈ l ↔ (∃ k, x.snapshot.users.get? k = some u) ∧ ∀ e, f.email = some e → u.email = e) ∧
      l.Nodup ∧ l.Pairwise fun u v => Text.utf8 u.id.text < Text.utf8 v.id.text
  counted : ∀ f l, (d.query t (.users f)).1 = .ok l → (d.query t (.countUsers f)).1 = .ok l.length
  /-- By an email, there is the identity that a lookup of the email finds, and no other one. -/
  byEmail : ∀ e, (d.query t (.users (.byEmail e))).1 = .ok (x.snapshot.userByEmail? e).toList
  /-- Where a new identity is counted under its email, the constraint on emails refuses it, and nowhere else. -/
  countCheck : ∀ u n, x.snapshot.users.get? u.id = none → (d.query t (.countUsers (.byEmail u.email))).1 = .ok n →
    (d.query t (.insertUser u)).1 = if 0 < n then .error .alreadyExists else .ok ()

/-- In every transaction of every run, a listing has exactly the identities that the filter asks for, each once and in
    the order of the bytes of their ids. By an email, it is what a lookup of the email finds, so that counting it tells
    whether an identity with this email can be inserted. -/
theorem listings_after (capacity : Nat) (ops : List Op) (hx : ((new capacity).after ops).tx? t = some x) :
    Listings ((new capacity).after ops) t x := by
  have hn : ((new capacity).after ops).Named := (Named.new capacity).after ops
  have hd : ((new capacity).after ops).Sound := (Sound.new capacity).after (.new capacity) ops
  have hsound := hd.snapshot (hn.mem_opened.mpr hx)
  refine ⟨fun f => ?_, fun f l hl => ?_, fun e => ?_, fun u n hid hcount => ?_⟩
  · refine ⟨x.snapshot.list f, query_users hx f, fun u => Tables.mem_list, hsound.nodup_list f, ?_⟩
    exact (hsound.ordered_list f).imp Id.utf8_lt
  · rw [query_users hx, Except.ok.injEq] at hl
    rw [query_countUsers hx, hl]
  · rw [query_users hx, hsound.list_byEmail]
  · rw [query_countUsers hx, hsound.list_byEmail, Except.ok.injEq] at hcount
    rw [query_insertUser hx, Tables.apply_insertUser_of_unused hid, ← hcount]
    cases x.snapshot.userByEmail? u.email <;> rfl

/-- Three identities, which are not inserted in the order of their ids. -/
def crowded : List Op :=
  [.begin, .query 0 (.insertUser ⟨⟨"u2"⟩, "Ann", ⟨"ann@example.com"⟩⟩),
    .query 0 (.insertUser ⟨⟨"ü"⟩, "Bob", ⟨"bob@example.com"⟩⟩),
    .query 0 (.insertUser ⟨⟨"u10"⟩, "Cid", ⟨"cid@example.com"⟩⟩), .commit 0, .begin]

theorem listings_after_of_crowded : ∃ x, ((new 2).after crowded).tx? 1 = some x ∧
    (((new 2).after crowded).query 1 (.users .all)).1 = .ok [⟨⟨"u10"⟩, "Cid", ⟨"cid@example.com"⟩⟩,
      ⟨⟨"u2"⟩, "Ann", ⟨"ann@example.com"⟩⟩, ⟨⟨"ü"⟩, "Bob", ⟨"bob@example.com"⟩⟩] ∧
      Listings ((new 2).after crowded) 1 x :=
  ⟨_, rfl, rfl, listings_after 2 crowded rfl⟩

end Database
end IdentityVault
