import IdentityVault.Scope.Manager

/-! Scopes on a database of which nothing is known, with a ledger of what was asked of it. A commit or a rollback asks
    it only for an open scope, which is finished then; a begin asks it only under a context without a scope. -/

namespace IdentityVault

/-! ### The database and its ledger -/

/-- A database of which nothing is known, with its surroundings: it answers every effect that has an answer, by a
    state of any kind. -/
def Backend (σ : Type) : Type 1 := ⦃β : Type⦄ → Nonempty β → Effect β → σ → β × σ

/-- What was asked of a database, and how it went. -/
inductive Contact where
  | begun (t : TxId)
  /-- No transaction was begun, or it did not come in time. -/
  | refused (f : Failure)
  | committed (t : TxId) (r : Outcome Unit)
  | rolledBack (t : TxId) (r : Outcome Unit)
  /-- A transaction was given up while it was open. -/
  | released (t : TxId)

namespace Contact

def begun? : Contact → Option TxId
  | begun t => some t
  | _ => none

def ended? : Contact → Option TxId
  | committed t _ | rolledBack t _ | released t => some t
  | _ => none

def isCommit : Contact → Bool
  | committed _ _ => true
  | _ => false

def isRollback : Contact → Bool
  | rolledBack _ _ => true
  | _ => false

def isRelease : Contact → Bool
  | released _ => true
  | _ => false

end Contact

structure Ledger (σ : Type) where
  inner : σ
  contacts : List Contact

namespace Ledger
variable {σ : Type}

def begun (l : Ledger σ) : List TxId := l.contacts.filterMap Contact.begun?

/-- The transactions that were committed, rolled back or given up. -/
def ended (l : Ledger σ) : List TxId := l.contacts.filterMap Contact.ended?

def add (l : Ledger σ) (inner : σ) (c : Contact) : Ledger σ := ⟨inner, l.contacts ++ [c]⟩

@[simp]
theorem begun_add (l : Ledger σ) (s : σ) (c : Contact) : (l.add s c).begun = l.begun ++ c.begun?.toList := by
  cases h : c.begun? <;> simp [begun, add, h]

@[simp]
theorem ended_add (l : Ledger σ) (s : σ) (c : Contact) : (l.add s c).ended = l.ended ++ c.ended?.toList := by
  cases h : c.ended? <;> simp [ended, add, h]

theorem length_ended (l : Ledger σ) : l.ended.length =
    l.contacts.countP (·.isCommit) + l.contacts.countP (·.isRollback) + l.contacts.countP (·.isRelease) := by
  rw [Ledger.ended]
  induction l.contacts with
  | nil => rfl
  | cons contact contacts ih =>
    rw [List.filterMap_cons, List.countP_cons, List.countP_cons, List.countP_cons]
    cases contact with
    | begun | refused => exact ih
    | committed =>
      change (contacts.filterMap Contact.ended?).length + 1 = (_ + 1) + (_ + 0) + (_ + 0)
      omega
    | rolledBack =>
      change (contacts.filterMap Contact.ended?).length + 1 = (_ + 0) + (_ + 1) + (_ + 0)
      omega
    | released =>
      change (contacts.filterMap Contact.ended?).length + 1 = (_ + 0) + (_ + 0) + (_ + 1)
      omega

end Ledger

/-- A computation on a database with a ledger, which survives a crash. -/
abbrev OnBackend (σ : Type) := ExceptT Crash (StateM (Ledger σ))

namespace Backend
variable {σ : Type} (b : Backend σ)

instance {α : Type} : Nonempty (Outcome α) := ⟨.error .notFound⟩

/-- What an effect does. Every transaction that is begun is another one: it gets the next name. -/
def handle {β : Type} : Effect β → OnBackend σ β
  | .now => fun l => let (a, s) := b ⟨0⟩ .now l.inner; (.ok a, { l with inner := s })
  | .freshToken => fun l => let (a, s) := b ⟨0⟩ .freshToken l.inner; (.ok a, { l with inner := s })
  | .timestamp => fun l => let (a, s) := b ⟨⟨0, 0⟩⟩ .timestamp l.inner; (.ok a, { l with inner := s })
  | .freshId => fun l => let (a, s) := b inferInstance .freshId l.inner; (.ok a, { l with inner := s })
  | .hash secret => fun l => let (a, s) := b ⟨.error ""⟩ (.hash secret) l.inner; (.ok a, { l with inner := s })
  | .compare stored secret => fun l =>
    let (a, s) := b ⟨.error ""⟩ (.compare stored secret) l.inner
    (.ok a, { l with inner := s })
  | .query deadline t q => fun l =>
    let (a, s) := b inferInstance (.query deadline t q) l.inner
    (.ok a, { l with inner := s })
  | .begin deadline => fun l =>
    match b inferInstance (.begin deadline) l.inner with
    | (.ok _, s) => (.ok (.ok l.begun.length), l.add s (.begun l.begun.length))
    | (.error f, s) => (.ok (.error f), l.add s (.refused f))
  | .commit t => fun l =>
    let (r, s) := b inferInstance (.commit t) l.inner
    (.ok r, l.add s (.committed t r))
  | .rollback t => fun l =>
    let (r, s) := b inferInstance (.rollback t) l.inner
    (.ok r, l.add s (.rolledBack t r))
  | .release t => fun l =>
    let (_, s) := b ⟨()⟩ (.release t) l.inner
    (.ok (), l.add s (.released t))
  | .crash cause => fun l => (.error cause, l)

def exec {α : Type} (p : Program Effect α) (l : Ledger σ) : Except Crash α × Ledger σ :=
  (p.run fun {_} e => b.handle e).run.run l

@[simp]
theorem exec_done {α : Type} (a : α) (l : Ledger σ) : b.exec (.done a) l = (.ok a, l) := rfl

theorem exec_ask {α β : Type} (e : Effect β) (next : β → Program Effect α) (l : Ledger σ) :
    b.exec (.ask e next) l =
      match b.handle e l with
      | (.ok a, l) => b.exec (next a) l
      | (.error c, l) => (.error c, l) := by
  change (match b.handle e l with
    | (r, l) => (ExceptT.bindCont (fun a => (next a).run fun {_} e => b.handle e) r : StateM (Ledger σ) _) l) = _
  rcases b.handle e l with ⟨c | a, l⟩ <;> rfl

end Backend

/-! ### The programs of a scope -/

namespace Context
variable {c : Context} {k : Token} {t : TxId}

theorem tx_of_unbound (h : c.scope = none) : c.tx = .error .noTransaction := by rw [tx, h]

theorem tx_of_finished (h : c.scope = some ⟨k, none⟩) : c.tx = .error .transactionFinalized := by rw [tx, h]

theorem tx_of_open (h : c.scope = some ⟨k, some t⟩) : c.tx = .ok t := by rw [tx, h]

theorem scope_finished (h : c.scope = some ⟨k, some t⟩) : c.finished.scope = some ⟨k, none⟩ := by rw [finished, h]; rfl

/-- The transaction that a context holds open. -/
def held? (c : Context) : Option TxId := c.scope.bind (·.tx)

theorem held?_eq_some : c.held? = some t ↔ ∃ k, c.scope = some ⟨k, some t⟩ := by
  rcases h : c.scope with _ | ⟨k, _ | u⟩ <;> simp [held?, h]

theorem held?_eq_none : c.held? = none ↔ c.scope = none ∨ ∃ k, c.scope = some ⟨k, none⟩ := by
  rcases h : c.scope with _ | ⟨k, _ | u⟩ <;> simp [held?, h]

theorem query_of_held {α : Type} (h : c.held? = some t) (q : Query α) :
    (c.query q).result = .perform (.query c.deadline t q) := by
  obtain ⟨k, hk⟩ := held?_eq_some.mp h
  rw [query, c.tx_of_open hk]
  rfl

/-- Either all questions fail at once, or they go to the transaction that the context holds. -/
theorem query_cases (c : Context) : (∃ f, ∀ {α : Type} (q : Query α), (c.query q).result = .done (.error f)) ∨
    ∃ t, c.held? = some t ∧ ∀ {α : Type} (q : Query α), (c.query q).result = .perform (.query c.deadline t q) := by
  rcases h : c.scope with _ | ⟨k, _ | t⟩
  · refine .inl ⟨.noTransaction, fun q => ?_⟩
    rw [query, tx_of_unbound h]
    rfl
  · refine .inl ⟨.transactionFinalized, fun q => ?_⟩
    rw [query, tx_of_finished h]
    rfl
  · have ht : c.held? = some t := held?_eq_some.mpr ⟨k, h⟩
    exact .inr ⟨t, ht, query_of_held ht⟩

theorem held?_finished (c : Context) : c.finished.held? = none := by
  cases h : c.scope <;> simp [held?, finished, h]

theorem scope_of_withTimeout? {child : Context} {now : Instant} {limit : Duration}
    (h : c.withTimeout? now limit = some child) : child.scope = c.scope := by
  obtain ⟨d, -, rfl⟩ := Option.map_eq_some_iff.mp h
  rfl

end Context

namespace ScopeManager
variable {m : ScopeManager} {c parent : Context} {k : Token} {t : TxId}

theorem commit_of_unbound (h : c.scope = none) : commit c = .done (.error .noTransaction, c) := by
  rw [commit, c.tx_of_unbound h]; rfl

theorem commit_of_finished (h : c.scope = some ⟨k, none⟩) : commit c = .done (.error .transactionFinalized, c) := by
  rw [commit, c.tx_of_finished h]; rfl

theorem commit_of_open (h : c.scope = some ⟨k, some t⟩) :
    commit c = .ask (.commit t) fun r => .done (r, c.finished) := by
  rw [commit, c.tx_of_open h]; rfl

theorem rollback_of_unbound (h : c.scope = none) : rollback c = .done (.error .noTransaction, c) := by
  rw [rollback, c.tx_of_unbound h]; rfl

theorem rollback_of_finished (h : c.scope = some ⟨k, none⟩) : rollback c = .done (.ok (), c) := by
  rw [rollback, c.tx_of_finished h]; rfl

theorem rollback_of_open (h : c.scope = some ⟨k, some t⟩) :
    rollback c = .ask (.rollback t) fun r => .done (r, c.finished) := by
  rw [rollback, c.tx_of_open h]; rfl

/-- Without an open transaction, nothing is asked of the database. -/
theorem commit_of_closed (h : c.held? = none) : ∃ f, commit c = .done (.error f, c) := by
  rcases Context.held?_eq_none.mp h with hc | ⟨k, hc⟩
  · exact ⟨_, commit_of_unbound hc⟩
  · exact ⟨_, commit_of_finished hc⟩

theorem rollback_of_closed (h : c.held? = none) : ∃ r, rollback c = .done (r, c) := by
  rcases Context.held?_eq_none.mp h with hc | ⟨k, hc⟩
  · exact ⟨_, rollback_of_unbound hc⟩
  · exact ⟨_, rollback_of_finished hc⟩

theorem begin_of_scope (m : ScopeManager) (h : parent.scope ≠ none) :
    (m.begin parent).result = .done (.error .transactionBound) := by
  rw [begin, if_pos (Option.isSome_iff_ne_none.mpr h)]; rfl

theorem begin_of_unbound (m : ScopeManager) (h : parent.scope = none) :
    (m.begin parent).result = .ask (.begin parent.deadline) fun
      | .error f => .done (.error f)
      | .ok t => .ask .freshToken fun k =>
        match m.timeout with
        | none => .done (.ok (parent.bind k t))
        | some limit => .ask .now fun now =>
          match (parent.bind k t).withTimeout? now limit with
          | some child => .done (.ok child)
          | none => .ask (.release t) fun _ => .crash .clockOverflow := by
  rw [begin, h]
  refine congrArg (Program.ask _) (funext fun r => ?_)
  rcases r with f | t
  · rfl
  refine congrArg (Program.ask _) (funext fun k => ?_)
  cases m.timeout with
  | none => rfl
  | some limit =>
    refine congrArg (Program.ask _) (funext fun now => ?_)
    simp only [Program.done_bind, Function.comp_apply, ExceptT.bindCont]
    cases (parent.bind k t).withTimeout? now limit with
    | some child => rfl
    | none =>
      -- A crash goes on in no way, so what stands behind it makes no difference.
      exact congrArg (Program.ask _) (funext fun _ => congrArg (Program.ask _) (funext fun e => e.elim))

/-- A scope is begun, given to the body, and concluded with what the body makes of it. -/
theorem run_eq {α : Type} (m : ScopeManager) (parent : Context)
    (body : Context → Program Effect (Outcome α × Context)) :
    (m.run parent body).result = (m.begin parent).result.bind fun
      | .ok child => (body child).bind fun (r, c) => conclude c r
      | .error f => .done (.error f) := by
  rw [run]
  refine congrArg ((m.begin parent).result.bind) (funext fun r => ?_)
  rcases r with f | child <;> rfl

end ScopeManager

/-! ### What a database is asked for a scope -/

namespace Backend
variable {σ : Type} (b : Backend σ) {m : ScopeManager} {c parent : Context} {k : Token} {t : TxId}

theorem handle_begin (deadline : Option Instant) (l : Ledger σ) :
    (∃ f s, b.handle (.begin deadline) l = (.ok (.error f), l.add s (.refused f))) ∨
      ∃ s, b.handle (.begin deadline) l = (.ok (.ok l.begun.length), l.add s (.begun l.begun.length)) := by
  dsimp only [handle]
  split
  · exact .inr ⟨_, rfl⟩
  · exact .inl ⟨_, _, rfl⟩

theorem handle_freshToken (l : Ledger σ) : ∃ k s, b.handle .freshToken l = (.ok k, { l with inner := s }) :=
  ⟨_, _, rfl⟩

theorem handle_now (l : Ledger σ) : ∃ now s, b.handle .now l = (.ok now, { l with inner := s }) := ⟨_, _, rfl⟩

theorem exec_bind {α β : Type} (p : Program Effect α) (f : α → Program Effect β) (l : Ledger σ) :
    b.exec (p.bind f) l =
      match b.exec p l with
      | (.ok a, l) => b.exec (f a) l
      | (.error c, l) => (.error c, l) := by
  induction p generalizing l with
  | done a => rfl
  | ask e next ih =>
    rw [Program.ask_bind, exec_ask, exec_ask]
    rcases b.handle e l with ⟨c | a, l⟩
    · rfl
    · exact ih a l

theorem exec_commit (l : Ledger σ) (h : c.held? = some t) :
    ∃ r s, b.exec (ScopeManager.commit c) l = (.ok (r, c.finished), l.add s (.committed t r)) := by
  obtain ⟨k, hs⟩ := Context.held?_eq_some.mp h
  rw [ScopeManager.commit_of_open hs, exec_ask]
  exact ⟨_, _, rfl⟩

theorem exec_commit_of_closed (l : Ledger σ) (h : c.held? = none) :
    ∃ r, b.exec (ScopeManager.commit c) l = (.ok (r, c), l) := by
  obtain ⟨f, hc⟩ := ScopeManager.commit_of_closed h
  exact ⟨_, by rw [hc, exec_done]⟩

theorem exec_rollback (l : Ledger σ) (h : c.held? = some t) :
    ∃ r s, b.exec (ScopeManager.rollback c) l = (.ok (r, c.finished), l.add s (.rolledBack t r)) := by
  obtain ⟨k, hs⟩ := Context.held?_eq_some.mp h
  rw [ScopeManager.rollback_of_open hs, exec_ask]
  exact ⟨_, _, rfl⟩

theorem exec_rollback_of_closed (l : Ledger σ) (h : c.held? = none) :
    ∃ r, b.exec (ScopeManager.rollback c) l = (.ok (r, c), l) := by
  obtain ⟨r, hc⟩ := ScopeManager.rollback_of_closed h
  exact ⟨_, by rw [hc, exec_done]⟩

theorem exec_drop (l : Ledger σ) (h : c.held? = some t) : ∃ s, b.exec c.drop l = (.ok (), l.add s (.released t)) := by
  rw [Context.drop, ← Context.held?, h]
  exact ⟨_, exec_ask b _ _ l⟩

theorem exec_drop_of_closed (l : Ledger σ) (h : c.held? = none) : b.exec c.drop l = (.ok (), l) := by
  rw [Context.drop, ← Context.held?, h]
  rfl

/-- The end of a body commits the scope or rolls it back, if the body left it open. -/
theorem exec_conclude {α : Type} (r : Outcome α) (l : Ledger σ) (h : c.held? = some t) :
    ∃ r' s contact, contact.begun? = none ∧ contact.ended? = some t ∧
      b.exec (ScopeManager.conclude c r) l = (.ok r', l.add s contact) := by
  rcases r with f | a
  · obtain ⟨r', s, hx⟩ := b.exec_rollback l h
    refine ⟨.error f, s, .rolledBack t r', rfl, rfl, ?_⟩
    rw [ScopeManager.conclude, Program.bind_eq, exec_bind, hx]
    rfl
  · obtain ⟨r', s, hx⟩ := b.exec_commit l h
    refine ⟨r'.map fun _ => a, s, .committed t r', rfl, rfl, ?_⟩
    rw [ScopeManager.conclude, Program.bind_eq, exec_bind, hx]
    rcases r' with f | ⟨⟩ <;> rfl

theorem exec_conclude_of_closed {α : Type} (r : Outcome α) (l : Ledger σ) (h : c.held? = none) :
    ∃ r', b.exec (ScopeManager.conclude c r) l = (.ok r', l) := by
  rcases r with f | a
  · obtain ⟨r', hx⟩ := b.exec_rollback_of_closed l h
    refine ⟨.error f, ?_⟩
    rw [ScopeManager.conclude, Program.bind_eq, exec_bind, hx]
    rfl
  · obtain ⟨r', hx⟩ := b.exec_commit_of_closed l h
    refine ⟨r'.map fun _ => a, ?_⟩
    rw [ScopeManager.conclude, Program.bind_eq, exec_bind, hx]
    rcases r' with f | ⟨⟩ <;> rfl

/-- A begin is refused, or yields a child with the next transaction, or gives that transaction up again. -/
theorem exec_begin (m : ScopeManager) (l : Ledger σ) (h : parent.scope = none) :
    (∃ f s, b.exec (m.begin parent).result l = (.ok (.error f), l.add s (.refused f))) ∨
      (∃ k child s, child.scope = some ⟨k, some l.begun.length⟩ ∧
        b.exec (m.begin parent).result l = (.ok (.ok child), l.add s (.begun l.begun.length))) ∨
      ∃ s s', b.exec (m.begin parent).result l =
        (.error .clockOverflow, (l.add s (.begun l.begun.length)).add s' (.released l.begun.length)) := by
  rw [ScopeManager.begin_of_unbound m h, exec_ask]
  rcases b.handle_begin parent.deadline l with ⟨f, s, hb⟩ | ⟨s, hb⟩
  · rw [hb]
    exact .inl ⟨f, s, rfl⟩
  obtain ⟨k, s', hk⟩ := b.handle_freshToken (l.add s (.begun l.begun.length))
  simp only [hb, exec_ask, hk]
  refine .inr ?_
  cases m.timeout with
  | none => exact .inl ⟨k, parent.bind k l.begun.length, s', rfl, rfl⟩
  | some limit =>
    obtain ⟨now, s'', hn⟩ := b.handle_now { l.add s (.begun l.begun.length) with inner := s' }
    simp only [exec_ask, hn]
    cases hc : (parent.bind k l.begun.length).withTimeout? now limit with
    | some child => exact .inl ⟨k, child, s'', Context.scope_of_withTimeout? hc, rfl⟩
    | none => exact .inr ⟨s'', _, by rw [exec_ask]; rfl⟩

end Backend
end IdentityVault
