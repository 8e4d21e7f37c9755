import IdentityVault.Proofs.Store.Integrity
import IdentityVault.Proofs.Store.Serial

/-! Why a commit is refused. Identities and credentials never disappear and credentials keep their ids, so a log misses
    no row when it is replayed. It can only meet a row that is in its way, and that row was put there by the commit of
    another transaction in the meantime. -/

namespace IdentityVault

/-- What one row at most can have: an id, an email, or the place of an identity's credential. -/
inductive Slot where
  | id (id : Id)
  | email (email : Email)
  | credential (owner : Id)
  deriving DecidableEq, Repr

namespace Write

/-- The slots that a write needs: those of the row that it inserts, or the email that it moves an identity to. -/
def slots : Write → List Slot
  | .insertUser u => [.id u.id, .email u.email]
  | .updateUser u => [.email u.email]
  | .insertCredential c => [.credential c.user]
  | .updateCredential _ => []

/-- The identity that a write moves, which is not in the way of itself. -/
def moved? : Write → Option Id
  | .updateUser u => some u.id
  | _ => none

end Write

namespace Tables
variable {t t' b b' u : Tables} {k : Id} {s : Slot} {w : Write}

/-- The row under `k` has the slot. -/
def Holds (t : Tables) (k : Id) : Slot → Prop
  | .id id => k = id ∧ ∃ u, t.users.get? k = some u
  | .email e => ∃ u, t.users.get? k = some u ∧ u.email = e
  | .credential owner => k = owner ∧ ∃ c, t.credentials.get? k = some c

/-- From `t` to `t'`, a row has got the slot that did not have it. -/
def Takes (t t' : Tables) (s : Slot) : Prop := ∃ k, t'.Holds k s ∧ ¬t.Holds k s

/-! ### Rows stay -/

/-- Every identity and every credential of `t` is in `t'` too, credentials under the id that they had. -/
structure Keeps (t t' : Tables) : Prop where
  user : ∀ {k : Id} {u : User}, t.users.get? k = some u → ∃ v, t'.users.get? k = some v
  credential : ∀ {k : Id} {c : Credential}, t.credentials.get? k = some c →
    ∃ c', t'.credentials.get? k = some c' ∧ c'.id = c.id

namespace Keeps

theorem refl (t : Tables) : t.Keeps t := ⟨fun h => ⟨_, h⟩, fun h => ⟨_, h, rfl⟩⟩

theorem trans (h : t.Keeps t') (h' : t'.Keeps u) : t.Keeps u where
  user hu := by
    obtain ⟨v, hv⟩ := h.user hu
    exact h'.user hv
  credential hc := by
    obtain ⟨c', hc', hid⟩ := h.credential hc
    obtain ⟨c'', hc'', hid'⟩ := h'.credential hc'
    exact ⟨c'', hc'', hid'.trans hid⟩

theorem putUser (t : Tables) (v : User) : t.Keeps (t.putUser v) where
  user {k u} hu := by
    rw [get?_users_putUser]
    split
    · exact ⟨v, rfl⟩
    · exact ⟨u, hu⟩
  credential hc := ⟨_, hc, rfl⟩

theorem putCredential {c : Credential} (h : ∀ {old}, t.credentials.get? c.user = some old → c.id = old.id) :
    t.Keeps (t.putCredential c) where
  user hu := ⟨_, hu⟩
  credential {k old} hold := by
    rw [get?_credentials_putCredential]
    split
    · next hk => exact ⟨c, rfl, h (hk ▸ hold)⟩
    · exact ⟨old, hold, rfl⟩

theorem apply (h : t.apply w = .ok t') : t.Keeps t' := by
  cases w with
  | insertUser u =>
    obtain ⟨-, -, rfl⟩ := apply_insertUser.mp h
    exact putUser t u
  | updateUser u =>
    obtain ⟨-, -, rfl⟩ := apply_updateUser.mp h
    exact putUser t u
  | insertCredential c =>
    obtain ⟨-, hnone, rfl⟩ := apply_insertCredential.mp h
    exact putCredential fun hold => nomatch hnone.symm.trans hold
  | updateCredential c =>
    obtain ⟨⟨old, hold, hid⟩, rfl⟩ := apply_updateCredential.mp h
    exact putCredential fun hold' => by rw [← hid, Option.some.inj (hold.symm.trans hold')]

theorem replay {log : List Write} (h : t.replay log = .ok t') : t.Keeps t' :=
  foldlM_keeps (P := t.Keeps) (fun hk ha => hk.trans (.apply ha)) (.refl t) h

end Keeps

/-! ### The same log on two tables -/

theorem eq_puts_of_replay {log : List Write} (h : t.replay log = .ok t') : t' = log.foldl put t := by
  induction log generalizing t with
  | nil =>
    cases h
    rfl
  | cons w log ih =>
    obtain ⟨u, ha, hr⟩ := replay_cons_eq_ok.mp h
    rw [List.foldl_cons, ← eq_put_of_apply ha]
    exact ih hr

/-- `t` and `t'` came from `b` and `b'` by the same writes: a row is the same in both, or as it was. -/
structure Abreast (b b' t t' : Tables) : Prop where
  user : ∀ k, (∃ u, t.users.get? k = some u ∧ t'.users.get? k = some u) ∨
    t.users.get? k = b.users.get? k ∧ t'.users.get? k = b'.users.get? k
  credential : ∀ k, (∃ c, t.credentials.get? k = some c ∧ t'.credentials.get? k = some c) ∨
    t.credentials.get? k = b.credentials.get? k ∧ t'.credentials.get? k = b'.credentials.get? k

namespace Abreast

theorem start (b b' : Tables) : Abreast b b' b b' := ⟨fun _ => .inr ⟨rfl, rfl⟩, fun _ => .inr ⟨rfl, rfl⟩⟩

theorem putUser (h : Abreast b b' t t') (v : User) : Abreast b b' (t.putUser v) (t'.putUser v) where
  user k := by
    rw [get?_users_putUser, get?_users_putUser]
    split
    · exact .inl ⟨v, rfl, rfl⟩
    · exact h.user k
  credential := h.credential

theorem putCredential (h : Abreast b b' t t') (c : Credential) :
    Abreast b b' (t.putCredential c) (t'.putCredential c) where
  user := h.user
  credential k := by
    rw [get?_credentials_putCredential, get?_credentials_putCredential]
    split
    · exact .inl ⟨c, rfl, rfl⟩
    · exact h.credential k

theorem put (h : Abreast b b' t t') (w : Write) : Abreast b b' (t.put w) (t'.put w) := by
  cases w with
  | insertUser v | updateUser v => exact h.putUser v
  | insertCredential c | updateCredential c => exact h.putCredential c

theorem keeps (h : Abreast b b' t t') (hb : b.Keeps b') : t.Keeps t' where
  user {k u} hu := by
    rcases h.user k with ⟨v, -, hv⟩ | ⟨hbefore, hafter⟩
    · exact ⟨v, hv⟩
    · rw [hafter]
      exact hb.user (hbefore.symm.trans hu)
  credential {k c} hc := by
    rcases h.credential k with ⟨c', hc', hv⟩ | ⟨hbefore, hafter⟩
    · obtain rfl : c' = c := Option.some.inj (hc'.symm.trans hc)
      exact ⟨c', hv, rfl⟩
    · rw [hafter]
      exact hb.credential (hbefore.symm.trans hc)

/-- A slot that a row has in `t'` but not in `t` was taken from `b` to `b'`. -/
theorem takes (h : Abreast b b' t t') (hheld : t'.Holds k s) (hfree : ¬t.Holds k s) : b.Takes b' s := by
  refine ⟨k, ?_⟩
  cases s with
  | id id =>
    simp only [Holds] at hheld hfree ⊢
    rcases h.user k with ⟨u, hu, hu'⟩ | ⟨hbefore, hafter⟩
    · exact absurd ⟨hheld.1, u, hu⟩ hfree
    · rw [← hbefore, ← hafter]
      exact ⟨hheld, hfree⟩
  | email e =>
    simp only [Holds] at hheld hfree ⊢
    rcases h.user k with ⟨u, hu, hu'⟩ | ⟨hbefore, hafter⟩
    · rw [hu'] at hheld
      rw [hu] at hfree
      exact absurd hheld hfree
    · rw [← hbefore, ← hafter]
      exact ⟨hheld, hfree⟩
  | credential owner =>
    simp only [Holds] at hheld hfree ⊢
    rcases h.credential k with ⟨c, hc, hc'⟩ | ⟨hbefore, hafter⟩
    · exact absurd ⟨hheld.1, c, hc⟩ hfree
    · rw [← hbefore, ← hafter]
      exact ⟨hheld, hfree⟩

end Abreast

/-! ### What is in the way of a write -/

/-- An allowed write finds its slots free, except for those of the identity that it moves. -/
theorem free_of_apply (ht : t.Sound) (h : t.apply w = .ok t') (hs : s ∈ w.slots) (hheld : t.Holds k s) :
    w.moved? = some k := by
  cases w with
  | insertUser u =>
    obtain ⟨hid, hemail, -⟩ := apply_insertUser.mp h
    simp only [Write.slots, List.mem_cons, List.not_mem_nil, or_false] at hs
    rcases hs with rfl | rfl
    · obtain ⟨rfl, v, hv⟩ := hheld
      cases hid.symm.trans hv
    · obtain ⟨v, hv, he⟩ := hheld
      exact absurd he (userByEmail?_eq_none.mp hemail k v hv)
  | updateUser u =>
    obtain ⟨-, hemail, -⟩ := apply_updateUser.mp h
    obtain rfl := List.mem_singleton.mp hs
    obtain ⟨v, hv, he⟩ := hheld
    have hid := ht.userKey hv
    rw [Write.moved?, ← hid, hemail v (ht.userByEmail?_eq_some.mpr ⟨hid.symm ▸ hv, he⟩)]
  | insertCredential c =>
    obtain ⟨-, hnone, -⟩ := apply_insertCredential.mp h
    obtain rfl := List.mem_singleton.mp hs
    obtain ⟨rfl, c', hc'⟩ := hheld
    cases hnone.symm.trans hc'
  | updateCredential c => cases hs

/-- A write that was allowed is allowed again where the rows are still there, unless another row is in its way. -/
theorem apply_of_keeps (h : t.apply w = .ok u) (hk : t.Keeps t') (ht' : t'.Sound) :
    (∃ u', t'.apply w = .ok u') ∨
      t'.apply w = .error .alreadyExists ∧ ∃ s ∈ w.slots, ∃ k, t'.Holds k s ∧ w.moved? ≠ some k := by
  cases w with
  | insertUser v =>
    cases hid : t'.users.get? v.id with
    | some old =>
      refine .inr ⟨apply_insertUser_of_taken (.inl (by simp [hid])), .id v.id, by simp [Write.slots], v.id, ?_⟩
      exact ⟨⟨rfl, old, hid⟩, by simp [Write.moved?]⟩
    | none =>
      cases hemail : t'.userByEmail? v.email with
      | none => exact .inl ⟨_, apply_insertUser.mpr ⟨hid, hemail, rfl⟩⟩
      | some other =>
        obtain ⟨⟨k, hother⟩, he⟩ := exists_of_userByEmail? hemail
        refine .inr ⟨apply_insertUser_of_taken (.inr (by simp [hemail])), .email v.email, by simp [Write.slots], k, ?_⟩
        exact ⟨⟨other, hother, he⟩, by simp [Write.moved?]⟩
  | updateUser v =>
    obtain ⟨⟨old, hold⟩, -, -⟩ := apply_updateUser.mp h
    obtain ⟨old', hold'⟩ := hk.user hold
    by_cases hothers : ∀ other, t'.userByEmail? v.email = some other → other.id = v.id
    · exact .inl ⟨_, apply_updateUser.mpr ⟨⟨old', hold'⟩, hothers, rfl⟩⟩
    · push Not at hothers
      obtain ⟨other, hemail, hne⟩ := hothers
      obtain ⟨hother, he⟩ := ht'.userByEmail?_eq_some.mp hemail
      refine .inr ⟨apply_updateUser_of_taken (by simp [hold']) hemail hne, .email v.email, by simp [Write.slots], ?_⟩
      exact ⟨other.id, ⟨other, hother, he⟩, fun hmoved => hne (Option.some.inj hmoved).symm⟩
  | insertCredential c =>
    obtain ⟨⟨owner, howner⟩, -, -⟩ := apply_insertCredential.mp h
    obtain ⟨owner', howner'⟩ := hk.user howner
    cases hc : t'.credentials.get? c.user with
    | none => exact .inl ⟨_, apply_insertCredential.mpr ⟨⟨owner', howner'⟩, hc, rfl⟩⟩
    | some old =>
      refine .inr ⟨apply_insertCredential_of_taken (by simp [howner']) (by simp [hc]), .credential c.user,
        by simp [Write.slots], c.user, ?_⟩
      exact ⟨⟨rfl, old, hc⟩, by simp [Write.moved?]⟩
  | updateCredential c =>
    obtain ⟨⟨old, hold, hid⟩, -⟩ := apply_updateCredential.mp h
    obtain ⟨old', hold', hid'⟩ := hk.credential hold
    exact .inl ⟨_, apply_updateCredential.mpr ⟨⟨old', hold', hid'.trans hid⟩, rfl⟩⟩

/-- A log that was allowed on `t` is allowed on `t'`, unless it needs a slot that was taken in between. -/
theorem replay_of_abreast (hb : b.Keeps b') : ∀ {log : List Write} {t t' : Tables}, Abreast b b' t t' → t.Sound →
    t'.Sound → t.replay log = .ok u → (∃ u', t'.replay log = .ok u') ∨
      t'.replay log = .error .alreadyExists ∧ ∃ w ∈ log, ∃ s ∈ w.slots, b.Takes b' s
  | [], _, t', _, _, _, _ => .inl ⟨t', rfl⟩
  | w :: log, t, t', hab, ht, ht', h => by
    obtain ⟨v, ha, hr⟩ := replay_cons_eq_ok.mp h
    rw [replay_cons]
    rcases apply_of_keeps ha (hab.keeps hb) ht' with ⟨v', ha'⟩ | ⟨ha', s, hs, k, hheld, hne⟩
    · have hput := hab.put w
      rw [← eq_put_of_apply ha, ← eq_put_of_apply ha'] at hput
      rw [ha']
      exact (replay_of_abreast hb hput (ht.apply ha) (ht'.apply ha') hr).imp_right fun ⟨hr', w', hw', hs⟩ =>
        ⟨hr', w', List.mem_cons_of_mem w hw', hs⟩
    · rw [ha']
      refine .inr ⟨rfl, w, List.mem_cons_self, s, hs, hab.takes hheld fun hheld' => ?_⟩
      exact hne (free_of_apply ht ha hs hheld')

end Tables

/-! ### What happens between a begin and a commit -/

namespace Database
variable {d : Database} {t : TxId} {x : Transaction} {s : Slot}

theorem keeps_after (d : Database) (ops : List Op) : d.tables.Keeps (d.after ops).tables :=
  foldlM_keeps (P := d.tables.Keeps) (fun h hr => h.trans (.replay hr)) (.refl _) (d.tables_after ops)

theorem tables_act_of_unpublished {op : Op} (h : d.published op = []) : (d.act op).tables = d.tables := by
  have ht := d.tables_act op
  rw [h] at ht
  exact (Except.ok.inj ht).symm

/-- Only a commit that succeeds changes the shared tables. -/
theorem tables_act_cases (d : Database) (op : Op) :
    (d.act op).tables = d.tables ∨ ∃ t, op = .commit t ∧ (d.commit t).1 = .ok () := by
  cases op with
  | commit t =>
    by_cases h : (d.commit t).1 = .ok ()
    · exact .inr ⟨t, rfl, h⟩
    · exact .inl (d.tables_commit_of_error t h)
  | begin | query | rollback | drop => exact .inl (tables_act_of_unpublished rfl)

/-- A slot that is taken along a run is taken by a commit. -/
theorem takes_along {ops : List Op} (h : d.tables.Takes (d.after ops).tables s) :
    ∃ pre u post, ops = pre ++ .commit u :: post ∧ ((d.after pre).commit u).1 = .ok () ∧
      (d.after pre).tables.Takes ((d.after pre).commit u).2.tables s := by
  obtain ⟨k, hheld, hfree⟩ := h
  induction ops generalizing d with
  | nil => exact absurd hheld hfree
  | cons op ops ih =>
    by_cases hnext : (d.act op).tables.Holds k s
    · rcases d.tables_act_cases op with hsame | ⟨u, rfl, hok⟩
      · exact absurd (hsame ▸ hnext) hfree
      · exact ⟨[], u, ops, rfl, hok, k, hnext, hfree⟩
    · obtain ⟨pre, u, post, rfl, hok, htakes⟩ := ih hheld hnext
      exact ⟨op :: pre, u, post, rfl, hok, htakes⟩

/-- A transaction that is open after a commit that succeeded is not the one that was committed. -/
theorem ne_of_commit {ops : List Op} {u : TxId} (hn : d.Named) (hok : (d.commit u).1 = .ok ())
    (hx : ((d.commit u).2.after ops).tx? t = some x) : u ≠ t := by
  rintro rfl
  have hlt : u < (d.commit u).2.nextTx := by
    rcases d.commit_cases u with ⟨-, hc⟩ | ⟨y, _, hy, -, -⟩ | ⟨_, _, -, -, hc⟩
    · rw [hc] at hok
      cases hok
    · exact Nat.lt_of_lt_of_le (hn.lt hy) (d.nextTx_act (.commit u))
    · rw [hc] at hok
      cases hok
  cases (tx?_after_of_none hlt (d.tx?_commit u)).symm.trans hx

/-- A commit succeeds, or it fails because a row is in the way of one of its writes. That row was put there, since the
    transaction began, by the commit of another one. -/
theorem commit_conflict (capacity : Nat) (ops : List Op) (hx : ((new capacity).after ops).tx? t = some x) :
    (((new capacity).after ops).commit t).1 = .ok () ∨
      (((new capacity).after ops).commit t).1 = .error .alreadyExists ∧
        ∃ pre mid u post, ops = pre ++ .begin :: (mid ++ .commit u :: post) ∧
          ((new capacity).after pre).begin.1 = .ok t ∧ u ≠ t ∧
            (((new capacity).after (pre ++ .begin :: mid)).commit u).1 = .ok () ∧
              ∃ w ∈ x.log, ∃ s ∈ w.slots, ((new capacity).after (pre ++ .begin :: mid)).tables.Takes
                (((new capacity).after (pre ++ .begin :: mid)).commit u).2.tables s := by
  obtain ⟨pre, post, rfl, hb⟩ := (begun_of_tx?_after hx).resolve_left fun ⟨_, hnone⟩ => nomatch hnone
  have hr := (snapshot_after (.new capacity) hb hx).2
  have hbegun : (new capacity).after (pre ++ .begin :: post) = (((new capacity).after pre).act .begin).after post := by
    rw [after_append, after_cons]
  have hstart : (((new capacity).after pre).act .begin).tables = ((new capacity).after pre).tables := tables_begin _
  have hkeeps := keeps_after (((new capacity).after pre).act .begin) post
  rw [← hbegun, hstart] at hkeeps
  have hsound := (Sound.new capacity).after (.new capacity) pre
  have hsound' := (Sound.new capacity).after (.new capacity) (pre ++ .begin :: post)
  rcases Tables.replay_of_abreast hkeeps (.start _ _) hsound.tables hsound'.tables hr with
    ⟨tables, hok⟩ | ⟨herror, w, hw, s, hs, htakes⟩
  · exact .inl (by rw [commit_eq_ok hx hok])
  · rw [← hstart, hbegun] at htakes
    obtain ⟨mid, u, rest, rfl, hcommit, htaken⟩ := takes_along htakes
    have hmid : (((new capacity).after pre).act .begin).after mid = (new capacity).after (pre ++ .begin :: mid) := by
      rw [after_append, after_cons]
    rw [hmid] at hcommit htaken
    refine .inr ⟨by rw [commit_eq_error hx herror], pre, mid, u, rest, rfl, hb, ?_, hcommit, w, hw, s, hs, htaken⟩
    rw [hbegun, after_append, hmid, after_cons] at hx
    exact ne_of_commit ((Named.new capacity).after _) hcommit hx

/-- Two transactions that register the same email, of which one has been committed. -/
def rivals : List Op :=
  [.begin, .begin, .query 0 (.insertUser ⟨⟨"u1"⟩, "Ann", ⟨"ann@example.com"⟩⟩),
    .query 1 (.insertUser ⟨⟨"u2"⟩, "Ann", ⟨"ann@example.com"⟩⟩), .commit 0]

theorem commit_conflict_of_rivals : ∃ x, ((new 2).after rivals).tx? 1 = some x ∧
    (((new 2).after rivals).commit 1).1 = .error .alreadyExists ∧
      ∃ pre mid u post, rivals = pre ++ .begin :: (mid ++ .commit u :: post) ∧
        ((new 2).after pre).begin.1 = .ok 1 ∧ u ≠ 1 ∧ (((new 2).after (pre ++ .begin :: mid)).commit u).1 = .ok () ∧
          ∃ w ∈ x.log, ∃ s ∈ w.slots, ((new 2).after (pre ++ .begin :: mid)).tables.Takes
            (((new 2).after (pre ++ .begin :: mid)).commit u).2.tables s :=
  ⟨_, rfl, (commit_conflict 2 rivals rfl).resolve_left (by decide)⟩

end Database
end IdentityVault
