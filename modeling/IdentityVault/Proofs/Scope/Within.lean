import IdentityVault.Proofs.Scope.Backend
import IdentityVault.Proofs.Store.Alone
import IdentityVault.Proofs.World.Ends

/-! A scope in a world where nothing fails: what is done in it becomes what the database holds if it succeeds, and is
    gone if it fails. Only its deadline can come in between, if there is one. -/

namespace IdentityVault

namespace World

/-- A world in which the next transaction of `d` is open as `x`, after `n` ids were given out. -/
structure Working (d : Database) (x : Transaction) (n : Nat) (w : World) : Prop where
  database : w.database = d.working x
  ids : w.ids = n
  leads : x.LeadsFrom d.tables

/-- While the next transaction of `d` was open, an action has ended with `r` as `P` says, or its deadline has come. -/
def Timely {α : Type} (d : Database) (deadline : Option Instant) (P : Outcome α → Transaction → Nat → Prop)
    (r : Outcome α) (w : World) : Prop :=
  ∃ x n, w.Working d x n ∧ (P r x n ∨ r = .error .deadlineExceeded ∧ Expired deadline w.clock)

variable {d : Database} {x : Transaction} {n : Nat} {w : World}

theorem Timely.of_open {α : Type} {deadline : Option Instant} {P : Outcome α → Transaction → Nat → Prop}
    {r : Outcome α} (h : w.Timely d deadline P r) (hopen : deadline = none) : ∃ x n, w.Working d x n ∧ P r x n := by
  obtain ⟨x, n, hw, hr | ⟨-, e, he, -⟩⟩ := h
  · exact ⟨x, n, hw, hr⟩
  · cases hopen.symm.trans he

namespace Working

theorem freshId (h : w.Working d x n) {s : Surroundings} {id : Id} (hid : s.id n = .ok id) :
    ∃ w', InWorld.handle s .freshId w = .ok (.ok id, w') ∧ w'.Working d x (n + 1) :=
  ⟨{ w with ids := w.ids + 1 }, by rw [← hid, ← h.ids]; rfl, h.database, by rw [h.ids], h.leads⟩

theorem timestamp (h : w.Working d x n) (s : Surroundings) :
    ∃ now w', InWorld.handle s .timestamp w = .ok (now, w') ∧ w'.Working d x n :=
  ⟨_, _, rfl, h.database, h.ids, h.leads⟩

end Working
end World

namespace Context
variable {α β : Type} {s : Surroundings} {c : Context} {d : Database} {x : Transaction} {n : Nat} {t : TxId}
  {w : World}

/-- The context holds a transaction open, and has no deadline. -/
structure Open (c : Context) (t : TxId) : Prop where
  scope : ∃ k, c.scope = some ⟨k, some t⟩
  deadline : c.deadline = none

theorem Open.held (h : c.Open t) : c.held? = some t := held?_eq_some.mpr h.scope

/-- A question is answered by the transaction that the context holds, or the deadline has come. -/
theorem ends_query_until (hs : s.Faultless) (hc : c.held? = some t) (q : Query α) (w : World) :
    (c.query q).result.Ends s w fun r w' => w'.ids = w.ids ∧
      ((r = (w.database.query t q).1 ∧ w'.database = (w.database.query t q).2) ∨
        (r = .error .deadlineExceeded ∧ w'.database = w.database ∧ Expired c.deadline w'.clock)) := by
  obtain ⟨r, w', hv, hids, -, h⟩ := World.visit_cases hs q.call c.deadline (World.orFail (·.query t q)) w
  rw [query_of_held hc]
  refine .perform (congrArg Except.ok hv) ⟨hids, ?_⟩
  rcases h with ⟨hr, hdb, -⟩ | h
  · exact .inl ⟨hr, hdb⟩
  · exact .inr h

/-- In the scope of the next transaction of `d`, a question is answered by that transaction. -/
theorem ends_query_timely (hs : s.Faultless) (hd : d.Named) (hc : c.held? = some d.nextTx) (hw : w.Working d x n)
    (q : Query α) :
    (c.query q).result.Ends s w (World.Timely d c.deadline fun r y m => r = (x.perform q).1 ∧ y = (x.perform q).2 ∧
      m = n) := by
  refine (ends_query_until hs hc q w).mono ?_
  rintro r w' ⟨hids, h⟩
  rw [hw.database, hd.query_working] at h
  rcases h with ⟨rfl, hdb⟩ | ⟨hr, hdb, hlate⟩
  · exact ⟨_, n, ⟨hdb, hids.trans hw.ids, hw.leads.perform q⟩, .inl ⟨rfl, rfl, rfl⟩⟩
  · exact ⟨x, n, ⟨hdb, hids.trans hw.ids, hw.leads⟩, .inr ⟨hr, hlate⟩⟩

/-- A question that its transaction answers with success, and what is done after it. -/
theorem ends_query_bind_timely (hs : s.Faultless) (hd : d.Named) (hc : c.held? = some d.nextTx)
    (hw : w.Working d x n) {q : Query α} {a : α} {y : Transaction} {f : α → Action β}
    {P : Outcome β → Transaction → Nat → Prop} (hq : x.perform q = (.ok a, y))
    (hf : ∀ {w'}, w'.Working d y n → (f a).result.Ends s w' (World.Timely d c.deadline P)) :
    (c.query q >>= f).result.Ends s w (World.Timely d c.deadline P) := by
  refine Action.ends_bind (ends_query_timely hs hd hc hw q) ?_ ?_
  · rintro b w' ⟨z, m, hw', ⟨hr, rfl, rfl⟩ | ⟨hr, -⟩⟩
    · rw [hq] at hr hw'
      cases hr
      exact hf hw'
    · cases hr
  · rintro e w' ⟨z, m, hw', ⟨hr, -, -⟩ | ⟨hr, hlate⟩⟩
    · rw [hq] at hr
      cases hr
    · cases hr
      exact ⟨z, m, hw', .inr ⟨rfl, hlate⟩⟩

theorem ends_query (hs : s.Faultless) (hd : d.Named) (hc : c.Open d.nextTx) (hw : w.Working d x n) (q : Query α) :
    (c.query q).result.Ends s w fun r w' => r = (x.perform q).1 ∧ w'.Working d (x.perform q).2 n := by
  refine (ends_query_timely hs hd hc.held hw q).mono fun {r w'} h => ?_
  obtain ⟨y, m, hw', hr, rfl, rfl⟩ := h.of_open hc.deadline
  exact ⟨hr, hw'⟩

theorem ends_query_ok (hs : s.Faultless) (hd : d.Named) (hc : c.Open d.nextTx) (hw : w.Working d x n) {q : Query α}
    {a : α} {y : Transaction} {f : α → Action β} {Q : Outcome β → World → Prop} (hq : x.perform q = (.ok a, y))
    (hf : ∀ {w'}, w'.Working d y n → (f a).result.Ends s w' Q) : (c.query q >>= f).result.Ends s w Q := by
  have hquery := ends_query hs hd hc hw q
  rw [hq] at hquery
  exact Action.ends_bind_ok hquery hf

end Context

namespace ScopeManager
variable {α : Type} {s : Surroundings} {m : ScopeManager} {c parent : Context} {d : Database} {x : Transaction}
  {n : Nat} {w : World}

/-- The deadline of a scope that is begun under `parent`. -/
def deadline? (m : ScopeManager) (parent : Context) (begun : Instant) : Option Instant :=
  match m.timeout with
  | none => parent.deadline
  | some limit => (parent.withDeadline (begun + (limit : Int))).deadline

/-- The clock can show the end of the time that a scope has. -/
def OnClock (m : ScopeManager) (begun : Instant) : Prop :=
  ∀ limit, m.timeout = some limit → begun + (limit : Int) ≤ Instant.last

/-- When a scope begins that is asked for now, if it is not too late for it. -/
def beginning (s : Surroundings) (w : World) : Instant := w.clock + (s.delay .begin (w.made .begin) : Int)

/-- The time of a scope does not outlast its parent. -/
theorem expired_of_parent {begun now : Instant} (h : Expired parent.deadline now) :
    Expired (m.deadline? parent begun) now := by
  obtain ⟨e, he, hnow⟩ := h
  rw [deadline?]
  cases m.timeout with
  | none => exact ⟨e, he, hnow⟩
  | some limit =>
    have hscope : (parent.withDeadline (begun + (limit : Int))).deadline = some (min e (begun + (limit : Int))) := by
      simp [Context.withDeadline, he]
    exact ⟨_, hscope, Int.le_trans (Int.min_le_left _ _) hnow⟩

/-- A scope begins when a connection is free, or the deadline has come. -/
theorem ends_begin_until (hs : s.Faultless) (hp : parent.scope = none) (ha : w.database.available ≠ 0)
    (hm : m.OnClock (beginning s w)) :
    (m.begin parent).result.Ends s w fun r w' =>
      (∃ c, r = .ok c ∧ c.held? = some w.database.nextTx ∧ c.deadline = m.deadline? parent (beginning s w) ∧
        w'.Working w.database ⟨w.database.tables, []⟩ w.ids) ∨
      (r = .error .deadlineExceeded ∧ w'.database = w.database ∧ w'.ids = w.ids ∧
        Expired parent.deadline w'.clock) := by
  obtain ⟨r, w', hv, hids, -, h⟩ :=
    World.visit_cases hs .begin parent.deadline (World.orFail Database.begin) w
  rw [begin_of_unbound m hp]
  rcases h with ⟨rfl, hdb, hclock⟩ | ⟨rfl, hdb, hlate⟩
  · simp only [World.orFail, Database.begin_eq ha] at hv hdb
    have hw' : w'.Working w.database ⟨w.database.tables, []⟩ w.ids := ⟨hdb, hids, .start _⟩
    refine .ask (congrArg Except.ok hv) (.ask rfl ?_)
    rw [OnClock] at hm
    rw [deadline?]
    cases ht : m.timeout with
    | none => exact .done (.inl ⟨_, rfl, rfl, rfl, ⟨hdb, hids, .start _⟩⟩)
    | some limit =>
      have hlast : w'.clock + (limit : Int) ≤ Instant.last := hclock ▸ hm limit ht
      have hchild (k : Token) : (parent.bind k w.database.nextTx).withTimeout? w'.clock limit =
          some ((parent.bind k w.database.nextTx).withDeadline (w'.clock + (limit : Int))) := by
        rw [Context.withTimeout?, Instant.after?, if_pos hlast]
        rfl
      refine .ask rfl ?_
      rw [hchild]
      exact .done (.inl ⟨_, rfl, rfl, by rw [hclock]; rfl, ⟨hdb, hids, .start _⟩⟩)
  · exact .ask (congrArg Except.ok hv) (.done (.inr ⟨rfl, hdb, hids, hlate⟩))

/-- The tables that a scope leaves behind, when its action ends with `r`. -/
def kept (d : Database) (x : Transaction) : Outcome α → Tables
  | .ok _ => x.snapshot
  | .error _ => d.tables

theorem ends_conclude (hs : s.Faultless) (hd : d.Named) (hc : c.held? = some d.nextTx) (hw : w.Working d x n)
    (r : Outcome α) :
    (conclude c r).Ends s w fun r' w' => r' = r ∧ w'.database = d.left (kept d x r) ∧ w'.ids = n ∧
      w.clock ≤ w'.clock := by
  obtain ⟨k, hk⟩ := Context.held?_eq_some.mp hc
  rcases r with f | a
  · obtain ⟨w', hv, hdb, hids, hclock⟩ :=
      World.visit_eq hs .rollback (World.orRelease d.nextTx (·.rollback d.nextTx)) w
    simp only [World.orRelease, hw.database, hd.rollback_working] at hv hdb
    rw [conclude, rollback_of_open hk]
    exact .ask (congrArg Except.ok hv) (.done ⟨rfl, hdb, hids.trans hw.ids, hclock⟩)
  · obtain ⟨w', hv, hdb, hids, hclock⟩ :=
      World.visit_eq hs .commit (World.orRelease d.nextTx (·.commit d.nextTx)) w
    simp only [World.orRelease, hw.database, hd.commit_working hw.leads] at hv hdb
    rw [conclude, commit_of_open hk]
    exact .ask (congrArg Except.ok hv) (.done ⟨rfl, hdb, hids.trans hw.ids, hclock⟩)

/-- An action in a scope that nothing disturbs but its deadline. -/
theorem ends_within_until (hs : s.Faultless) (hp : parent.scope = none) (hd : w.database.Named)
    (ha : w.database.available ≠ 0) (hm : m.OnClock (beginning s w)) {action : Context → Action α}
    {P : Outcome α → Transaction → Nat → Prop}
    (h : ∀ {c w'}, c.held? = some w.database.nextTx → c.deadline = m.deadline? parent (beginning s w) →
      w'.Working w.database ⟨w.database.tables, []⟩ w.ids →
        (action c).result.Ends s w' (World.Timely w.database c.deadline P)) :
    (m.within parent action).result.Ends s w fun r w' =>
      (∃ x, P r x w'.ids ∧ w'.database = w.database.left (kept w.database x r)) ∨
        (r = .error .deadlineExceeded ∧ Expired (m.deadline? parent (beginning s w)) w'.clock) := by
  rw [within, run_eq]
  refine (ends_begin_until hs hp ha hm).bind ?_
  rintro _ w₁ (⟨c, rfl, hc, hdeadline, hw₁⟩ | ⟨rfl, -, -, hlate⟩)
  · change (((action c).result.bind fun r => .done (r, c)).bind fun p => conclude p.2 p.1).Ends s w₁ _
    rw [Program.bind_assoc]
    refine (h hc hdeadline hw₁).bind ?_
    rintro r w₂ ⟨x, n, hw₂, hr⟩
    refine (ends_conclude hs hd hc hw₂ r).mono ?_
    rintro _ w₃ ⟨rfl, hdb, rfl, hclock⟩
    rcases hr with hr | ⟨hr, hlate⟩
    · exact .inl ⟨x, hr, hdb⟩
    · exact .inr ⟨hr, hdeadline ▸ hlate.mono hclock⟩
  · exact .done (.inr ⟨rfl, expired_of_parent hlate⟩)

theorem ends_within (hs : s.Faultless) (hm : m.timeout = none) (request : Token) (hd : w.database.Named)
    (ha : w.database.available ≠ 0) {action : Context → Action α} {P : Outcome α → Transaction → Nat → Prop}
    (h : ∀ {c w'}, c.Open w.database.nextTx → w'.Working w.database ⟨w.database.tables, []⟩ w.ids →
      (action c).result.Ends s w' fun r w' => ∃ x n, w'.Working w.database x n ∧ P r x n) :
    (m.within (.background request) action).result.Ends s w fun r w' => ∃ x, P r x w'.ids ∧
      w'.database = w.database.left (kept w.database x r) := by
  have hdeadline : m.deadline? (.background request) (beginning s w) = none := by
    rw [deadline?, hm]
    rfl
  have honClock : m.OnClock (beginning s w) := fun limit hlimit => nomatch hm.symm.trans hlimit
  refine (ends_within_until hs rfl hd ha honClock (P := P) fun {c w'} hc hcd hw' => ?_).mono ?_
  · refine (h ⟨Context.held?_eq_some.mp hc, hcd.trans hdeadline⟩ hw').mono ?_
    rintro r w'' ⟨x, n, hw'', hr⟩
    exact ⟨x, n, hw'', .inl hr⟩
  · rintro r w' (hr | ⟨-, e, he, -⟩)
    · exact hr
    · cases hdeadline.symm.trans he

end ScopeManager
end IdentityVault
