import IdentityVault.Proofs.Store.Conflict

/-! Transactions that began on the same tables, and that write about different identities and emails, can be committed in
    either order. None of them is refused, and nobody can tell afterwards which one came first. -/

namespace IdentityVault

theorem Table.insert_comm {κ α : Type} [Ord κ] [Std.TransOrd κ] [Std.LawfulEqOrd κ] [DecidableEq κ] (t : Table κ α)
    {k l : κ} (h : k ≠ l) (a b : α) : (t.insert k a).insert l b = (t.insert l b).insert k a := by
  refine ext_get? fun i => ?_
  simp only [get?_insert]
  by_cases hl : l = i
  · have hk : k ≠ i := fun hk => h (hk.trans hl.symm)
    simp [hl, hk]
  · simp [hl]

namespace Write

/-- The identity that a write is about. -/
def subject : Write → Id
  | insertUser u | updateUser u => u.id
  | insertCredential c | updateCredential c => c.user

/-- The email that a write gives to an identity. -/
def email? : Write → Option Email
  | insertUser u | updateUser u => some u.email
  | insertCredential _ | updateCredential _ => none

/-- No write of one log is about an identity that the other log writes about, or gives it an email that the other log
    gives to anyone. -/
structure Independent (l m : List Write) : Prop where
  subject : ∀ v ∈ l, ∀ w ∈ m, v.subject ≠ w.subject
  email : ∀ v ∈ l, ∀ w ∈ m, ∀ e ∈ v.email?, e ∉ w.email?

theorem Independent.symm {l m : List Write} (h : Independent l m) : Independent m l where
  subject v hv w hw := (h.subject w hw v hv).symm
  email v hv w hw e he he' := h.email w hw v hv e he' he

/-- A slot that a write needs belongs to its subject, or is the email that it gives. -/
theorem of_mem_slots {w : Write} {s : Slot} (h : s ∈ w.slots) :
    s = .id w.subject ∨ s = .credential w.subject ∨ ∃ e ∈ w.email?, s = .email e := by
  cases w with
  | insertUser u =>
    simp only [slots, List.mem_cons, List.not_mem_nil, or_false] at h
    rcases h with rfl | rfl
    · exact .inl rfl
    · exact .inr (.inr ⟨u.email, rfl, rfl⟩)
  | updateUser u => exact .inr (.inr ⟨u.email, rfl, List.mem_singleton.mp h⟩)
  | insertCredential c => exact .inr (.inl (List.mem_singleton.mp h))
  | updateCredential c => cases h

theorem Independent.slots {l m : List Write} (h : Independent l m) {v w : Write} (hv : v ∈ l) (hw : w ∈ m) {s : Slot}
    (hs : s ∈ v.slots) : s ∉ w.slots := by
  intro hs'
  have hsubject := h.subject v hv w hw
  have hneeded := of_mem_slots hs'
  rcases of_mem_slots hs with rfl | rfl | ⟨e, he, rfl⟩
  · have hsame : v.subject = w.subject := by simpa using hneeded
    exact hsubject hsame
  · have hsame : v.subject = w.subject := by simpa using hneeded
    exact hsubject hsame
  · have he' : e ∈ w.email? := by simpa using hneeded
    exact h.email v hv w hw e he he'

end Write

namespace Tables
variable {t t' a b : Tables} {k : Id} {s : Slot} {v w : Write} {l m : List Write}

/-! ### Which slots a log takes -/

/-- A slot that a row gets by a write is one that the write needs. -/
theorem mem_slots_of_apply (h : t.apply w = .ok t') (hfree : ¬t.Holds k s) (hheld : t'.Holds k s) : s ∈ w.slots := by
  cases w with
  | insertUser u =>
    obtain ⟨-, -, rfl⟩ := apply_insertUser.mp h
    cases s with
    | id id =>
      obtain ⟨rfl, v, hv⟩ := hheld
      rw [get?_users_putUser] at hv
      split at hv
      · next hk => simp [Write.slots, hk]
      · exact absurd ⟨rfl, v, hv⟩ hfree
    | email e =>
      obtain ⟨v, hv, rfl⟩ := hheld
      rw [get?_users_putUser] at hv
      split at hv
      · cases hv
        simp [Write.slots]
      · exact absurd ⟨v, hv, rfl⟩ hfree
    | credential owner => exact absurd hheld hfree
  | updateUser u =>
    obtain ⟨⟨old, hold⟩, -, rfl⟩ := apply_updateUser.mp h
    cases s with
    | id id =>
      obtain ⟨rfl, v, hv⟩ := hheld
      rw [get?_users_putUser] at hv
      split at hv
      · next hk => exact absurd ⟨rfl, old, hk ▸ hold⟩ hfree
      · exact absurd ⟨rfl, v, hv⟩ hfree
    | email e =>
      obtain ⟨v, hv, rfl⟩ := hheld
      rw [get?_users_putUser] at hv
      split at hv
      · cases hv
        simp [Write.slots]
      · exact absurd ⟨v, hv, rfl⟩ hfree
    | credential owner => exact absurd hheld hfree
  | insertCredential c =>
    obtain ⟨-, -, rfl⟩ := apply_insertCredential.mp h
    cases s with
    | id id => exact absurd hheld hfree
    | email e => exact absurd hheld hfree
    | credential owner =>
      obtain ⟨rfl, c', hc⟩ := hheld
      rw [get?_credentials_putCredential] at hc
      split at hc
      · next hk => simp [Write.slots, hk]
      · exact absurd ⟨rfl, c', hc⟩ hfree
  | updateCredential c =>
    obtain ⟨⟨old, hold, -⟩, rfl⟩ := apply_updateCredential.mp h
    cases s with
    | id id => exact absurd hheld hfree
    | email e => exact absurd hheld hfree
    | credential owner =>
      obtain ⟨rfl, c', hc⟩ := hheld
      rw [get?_credentials_putCredential] at hc
      split at hc
      · next hk => exact absurd ⟨rfl, old, hk ▸ hold⟩ hfree
      · exact absurd ⟨rfl, c', hc⟩ hfree

theorem mem_slots_of_replay (h : t.replay l = .ok t') (htakes : t.Takes t' s) : ∃ w ∈ l, s ∈ w.slots := by
  obtain ⟨k, hheld, hfree⟩ := htakes
  have hkept := foldlM_keeps_or (P := fun t => ¬t.Holds k s) (B := fun w => s ∈ w.slots)
    (fun {t w t'} hfree ha => by
      by_cases hheld : t'.Holds k s
      · exact .inr (mem_slots_of_apply ha hfree hheld)
      · exact .inl hheld) hfree h
  exact hkept.resolve_left fun hfree' => hfree' hheld

/-! ### Independent logs -/

/-- A log finds all its slots free after a log that is independent of it, if it did so before. -/
theorem replay_of_independent (ht : t.Sound) (hl : t.replay l = .ok a) (hm : t.replay m = .ok b)
    (h : Write.Independent l m) : ∃ c, a.replay m = .ok c := by
  rcases replay_of_abreast (.replay hl) (.start t a) ht (ht.replay hl) hm with hok | ⟨-, w, hw, s, hs, htakes⟩
  · exact hok
  · obtain ⟨v, hv, hs'⟩ := mem_slots_of_replay hl htakes
    exact absurd hs (h.slots hv hw hs')

theorem put_comm (t : Tables) (h : v.subject ≠ w.subject) : (t.put v).put w = (t.put w).put v := by
  cases v with
  | insertUser u | updateUser u =>
    cases w with
    | insertUser u' | updateUser u' => exact congrArg (Tables.mk · _) (Table.insert_comm _ h _ _)
    | insertCredential c | updateCredential c => rfl
  | insertCredential c | updateCredential c =>
    cases w with
    | insertUser u' | updateUser u' => rfl
    | insertCredential c' | updateCredential c' => exact congrArg (Tables.mk _) (Table.insert_comm _ h _ _)

theorem foldl_put_put (t : Tables) (h : ∀ w ∈ l, v.subject ≠ w.subject) :
    l.foldl put (t.put v) = (l.foldl put t).put v := by
  induction l generalizing t with
  | nil => rfl
  | cons w l ih =>
    rw [List.foldl_cons, List.foldl_cons, put_comm t (h w List.mem_cons_self)]
    exact ih _ fun w' hw' => h w' (List.mem_cons_of_mem w hw')

theorem foldl_put_comm (t : Tables) (h : ∀ v ∈ l, ∀ w ∈ m, v.subject ≠ w.subject) :
    m.foldl put (l.foldl put t) = l.foldl put (m.foldl put t) := by
  induction l generalizing t with
  | nil => rfl
  | cons v l ih =>
    rw [List.foldl_cons, List.foldl_cons, ih _ fun v' hv' => h v' (List.mem_cons_of_mem v hv'),
      foldl_put_put t (h v List.mem_cons_self)]

/-- Independent logs lead to the same tables in either order. -/
theorem replay_comm (ht : t.Sound) (hl : t.replay l = .ok a) (hm : t.replay m = .ok b) (h : Write.Independent l m) :
    ∃ c, a.replay m = .ok c ∧ b.replay l = .ok c := by
  obtain ⟨c, hc⟩ := replay_of_independent ht hl hm h
  obtain ⟨c', hc'⟩ := replay_of_independent ht hm hl h.symm
  have hsame : c = c' := by
    rw [eq_puts_of_replay hc, eq_puts_of_replay hc', eq_puts_of_replay hl, eq_puts_of_replay hm]
    exact foldl_put_comm t h.subject
  exact ⟨c, hc, hsame ▸ hc'⟩

end Tables

/-! ### Commits -/

namespace Database
variable {d : Database} {t u : TxId} {x y : Transaction} {tables : Tables}

/-- In the run, `t` was begun when the shared tables were `tables`. -/
def BegunOn (start : Database) (ops : List Op) (t : TxId) (tables : Tables) : Prop :=
  ∃ pre post, ops = pre ++ .begin :: post ∧ (start.after pre).begin.1 = .ok t ∧ (start.after pre).tables = tables

theorem replay_of_begunOn {start : Database} {ops : List Op} (hn : start.Named) (hb : BegunOn start ops t tables)
    (hx : (start.after ops).tx? t = some x) : tables.replay x.log = .ok x.snapshot := by
  obtain ⟨pre, post, rfl, hb, rfl⟩ := hb
  exact (snapshot_after hn hb hx).2

/-- Two commits, one after the other, of logs that can be replayed one after the other. -/
theorem commit_commit (hx : d.tx? t = some x) (hy : d.tx? u = some y) (hne : t ≠ u) {a c : Tables}
    (ha : d.tables.replay x.log = .ok a) (hc : a.replay y.log = .ok c) :
    (d.commit t).1 = .ok () ∧ (d.commit t).2.commit u = (.ok (), { (d.release t).release u with tables := c }) := by
  have hrest : (d.release t).tx? u = some y := by rw [tx?_release, if_neg hne.symm, hy]
  have hy' : Database.tx? { d.release t with tables := a } u = some y := hrest
  rw [commit_eq_ok hx ha, commit_eq_ok hy' hc]
  exact ⟨rfl, rfl⟩

theorem release_comm (d : Database) (t u : TxId) : (d.release t).release u = (d.release u).release t := by
  simp only [release, List.filter_filter, Bool.and_comm]

/-- Transactions that are independent, and that began on the tables that are still shared, can be committed in either
    order: all commits succeed, and both orders leave the same database behind. -/
theorem commits_commute (capacity : Nat) (ops : List Op) (hne : t ≠ u)
    (hx : ((new capacity).after ops).tx? t = some x) (hy : ((new capacity).after ops).tx? u = some y)
    (ht : BegunOn (new capacity) ops t ((new capacity).after ops).tables)
    (hu : BegunOn (new capacity) ops u ((new capacity).after ops).tables) (h : Write.Independent x.log y.log) :
    (((new capacity).after ops).commit t).1 = .ok () ∧
      ((((new capacity).after ops).commit t).2.commit u).1 = .ok () ∧
        (((new capacity).after ops).commit u).1 = .ok () ∧
          ((((new capacity).after ops).commit u).2.commit t).1 = .ok () ∧
            ((((new capacity).after ops).commit t).2.commit u).2 =
              ((((new capacity).after ops).commit u).2.commit t).2 := by
  have hlogx := replay_of_begunOn (.new capacity) ht hx
  have hlogy := replay_of_begunOn (.new capacity) hu hy
  obtain ⟨c, hxy, hyx⟩ := Tables.replay_comm ((Sound.new capacity).after (.new capacity) ops).tables hlogx hlogy h
  obtain ⟨ht, htu⟩ := commit_commit hx hy hne hlogx hxy
  obtain ⟨hu, hut⟩ := commit_commit hy hx hne.symm hlogy hyx
  refine ⟨ht, by rw [htu], hu, by rw [hut], ?_⟩
  rw [htu, hut, release_comm]

/-- One transaction gives Ann another email, while another one registers Bob. -/
def apart : List Op :=
  [.begin, .query 0 (.insertUser ⟨⟨"u1"⟩, "Ann", ⟨"ann@example.com"⟩⟩), .commit 0, .begin, .begin,
    .query 1 (.updateUser ⟨⟨"u1"⟩, "Ann", ⟨"ann@example.org"⟩⟩),
    .query 2 (.insertUser ⟨⟨"u2"⟩, "Bob", ⟨"bob@example.com"⟩⟩),
    .query 2 (.insertCredential ⟨⟨"c2"⟩, ⟨"u2"⟩, ⟨"bob@example.com"⟩, ⟨"hash"⟩, ⟨0, 0⟩, ⟨0, 0⟩⟩)]

theorem commits_commute_of_apart : ∃ x y, ((new 2).after apart).tx? 1 = some x ∧
    ((new 2).after apart).tx? 2 = some y ∧ BegunOn (new 2) apart 1 ((new 2).after apart).tables ∧
      BegunOn (new 2) apart 2 ((new 2).after apart).tables ∧ Write.Independent x.log y.log ∧
        (((new 2).after apart).commit 1).1 = .ok () ∧ ((((new 2).after apart).commit 1).2.commit 2).1 = .ok () ∧
          (((new 2).after apart).commit 2).1 = .ok () ∧ ((((new 2).after apart).commit 2).2.commit 1).1 = .ok () ∧
            ((((new 2).after apart).commit 1).2.commit 2).2 = ((((new 2).after apart).commit 2).2.commit 1).2 := by
  have hfirst : BegunOn (new 2) apart 1 ((new 2).after apart).tables := ⟨apart.take 3, apart.drop 4, rfl, rfl, rfl⟩
  have hsecond : BegunOn (new 2) apart 2 ((new 2).after apart).tables := ⟨apart.take 4, apart.drop 5, rfl, rfl, rfl⟩
  have hindependent : Write.Independent [.updateUser ⟨⟨"u1"⟩, "Ann", ⟨"ann@example.org"⟩⟩]
      [.insertUser ⟨⟨"u2"⟩, "Bob", ⟨"bob@example.com"⟩⟩,
        .insertCredential ⟨⟨"c2"⟩, ⟨"u2"⟩, ⟨"bob@example.com"⟩, ⟨"hash"⟩, ⟨0, 0⟩, ⟨0, 0⟩⟩] :=
    ⟨by decide, by decide⟩
  exact ⟨_, _, rfl, rfl, hfirst, hsecond, hindependent,
    commits_commute 2 apart (by decide) rfl rfl hfirst hsecond hindependent⟩

end Database
end IdentityVault
