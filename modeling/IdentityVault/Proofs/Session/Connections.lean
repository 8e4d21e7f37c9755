import IdentityVault.Proofs.Session.Moves

/-! The connections of a session. After every command, the transactions that are open are the ones that its contexts
    hold and the ones that have names, so that no command loses a connection. -/

namespace IdentityVault

namespace Session
variable {α : Type} {name : String} {l : List (String × α)} {a : α}

/-! ### Names -/

theorem perm_of_named? (hl : (l.map (·.1)).Nodup) (h : named? name l = some a) :
    l.Perm ((name, a) :: without name l) := by
  induction l with
  | nil => cases h
  | cons e l ih =>
    obtain ⟨hnew, hdistinct⟩ := List.nodup_cons.mp hl
    obtain ⟨k, b⟩ := e
    by_cases hk : k = name
    · subst hk
      have hb : b = a := by simpa [named?] using h
      have hothers : without k l = l := List.filter_eq_self.mpr fun e he => by
        have hne : e.1 ≠ k := fun heq => hnew (List.mem_map.mpr ⟨e, he, heq⟩)
        simpa using hne
      have hhead : without k ((k, b) :: l) = l := by
        rw [without, List.filter_cons_of_neg (by simp)]
        exact hothers
      rw [hhead, hb]
    · have hrest : named? name l = some a := by simpa [named?, hk] using h
      have hhead : without name ((k, b) :: l) = (k, b) :: without name l :=
        List.filter_cons_of_pos (by simpa using hk)
      rw [hhead]
      exact ((ih hdistinct hrest).cons (k, b)).trans (List.Perm.swap _ _ _)

theorem without_of_unnamed (h : named? name l = none) : without name l = l := by
  refine List.filter_eq_self.mpr fun e he => ?_
  simp only [named?, Option.map_eq_none_iff, List.find?_eq_none] at h
  simpa using h e he

theorem nodup_without (hl : (l.map (·.1)).Nodup) (name : String) : ((without name l).map (·.1)).Nodup :=
  hl.sublist (List.filter_sublist.map _)

theorem nodup_put (hl : (l.map (·.1)).Nodup) (name : String) (a : α) : ((put name a l).map (·.1)).Nodup := by
  refine List.nodup_cons.mpr ⟨fun hm => ?_, nodup_without hl name⟩
  obtain ⟨e, he, hname⟩ := List.mem_map.mp hm
  have hne := (List.mem_filter.mp he).2
  simp [hname] at hne

/-! ### What a session holds -/

/-- The transactions that contexts hold, and those that have names. -/
def held (u : Session) : List TxId := u.contexts.flatMap (·.2.owned) ++ u.transactions.map (·.2)

/-- What a session holds besides the context with the given name. -/
def heldBesides (u : Session) (name : String) : List TxId :=
  (without name u.contexts).flatMap (·.2.owned) ++ u.transactions.map (·.2)

/-- What is open is what the session holds. -/
structure Balanced (capacity : Nat) (u : Session) : Prop where
  holds : u.world.database.Holds capacity u.held
  contexts : (u.contexts.map (·.1)).Nodup
  transactions : (u.transactions.map (·.1)).Nodup

variable {capacity : Nat} {u u' : Session} {c : Context} {w : World}

theorem heldBesides_of_unnamed (h : named? name u.contexts = none) : u.heldBesides name = u.held := by
  rw [heldBesides, without_of_unnamed h, held]

theorem held_perm (hu : (u.contexts.map (·.1)).Nodup) (h : named? name u.contexts = some c) :
    u.held.Perm (c.owned ++ u.heldBesides name) := by
  have hcontexts := (perm_of_named? hu h).flatMap_right (·.2.owned)
  rw [List.flatMap_cons] at hcontexts
  rw [held, heldBesides, ← List.append_assoc]
  exact hcontexts.append_right _

theorem held_perm_transaction {t : TxId} (hu : (u.transactions.map (·.1)).Nodup)
    (h : named? name u.transactions = some t) :
    u.held.Perm (t :: ({ u with transactions := without name u.transactions } : Session).held) := by
  have htransactions := (perm_of_named? hu h).map (·.2)
  exact (htransactions.append_left _).trans List.perm_middle

namespace Balanced

theorem new (d : Directory) (capacity : Nat) : (Session.new (.new (.new capacity)) d).Balanced capacity :=
  ⟨.new capacity, .nil, .nil⟩

/-- The connections that are not free are those of the session. -/
theorem available_add (h : u.Balanced capacity) : u.world.database.available + u.held.length = capacity :=
  h.holds.available_add

theorem take (h : u.Balanced capacity) (hc : named? name u.contexts = some c) :
    u.world.database.Holds capacity (c.owned ++ u.heldBesides name) :=
  h.holds.perm (held_perm h.contexts hc)

theorem put (h : u.Balanced capacity) (hw : w.database.Holds capacity (c.owned ++ u.heldBesides name)) :
    ({ u with world := w, contexts := Session.put name c u.contexts } : Session).Balanced capacity where
  holds := by
    rw [held, Session.put, List.flatMap_cons, List.append_assoc]
    exact hw
  contexts := nodup_put h.contexts name c
  transactions := h.transactions

theorem putTransaction {t : TxId} (h : u.Balanced capacity)
    (hw : w.database.Holds capacity (t :: ({ u with transactions := without name u.transactions } : Session).held)) :
    ({ u with world := w, transactions := Session.put name t u.transactions } : Session).Balanced capacity where
  holds := hw.perm List.perm_middle.symm
  contexts := h.contexts
  transactions := nodup_put h.transactions name t

theorem withoutContext (h : u.Balanced capacity) (hw : w.database.Holds capacity (u.heldBesides name)) :
    ({ u with world := w, contexts := without name u.contexts } : Session).Balanced capacity :=
  ⟨hw, nodup_without h.contexts name, h.transactions⟩

theorem withoutTransaction (h : u.Balanced capacity)
    (hw : w.database.Holds capacity ({ u with transactions := without name u.transactions } : Session).held) :
    ({ u with world := w, transactions := without name u.transactions } : Session).Balanced capacity :=
  ⟨hw, h.contexts, nodup_without h.transactions name⟩

theorem congr_world (h : u.Balanced capacity) (hw : w.database.Holds capacity u.held) :
    ({ u with world := w } : Session).Balanced capacity :=
  ⟨hw, h.contexts, h.transactions⟩

end Balanced
end Session

namespace InSession
variable {α : Type} {capacity : Nat} {s : Surroundings} {u u' : Session} {name : String} {c : Context}
  {a : Session.Answer}

/-! ### Commands that leave names alone -/

/-- The computation changes the world only, and leaves open what was open. -/
def Tidy (capacity : Nat) (frame : List TxId) (m : InSession α) : Prop := m.Moves capacity frame (fun _ o => o = []) []

theorem Tidy.stays {m : InSession α} {a : α} (hm : m.Tidy capacity u.held) (h : u.Balanced capacity)
    (hrun : m u = .ok (a, u')) : u'.Balanced capacity ∧ u'.held = u.held := by
  obtain ⟨w, own, rfl, hw, rfl⟩ := hm _ _ _ h.holds hrun
  exact ⟨h.congr_world hw, rfl⟩

variable {frame : List TxId}

theorem tidy_program {p : Program Effect α} (h : p.Tidy) : (program s p).Tidy capacity frame := moves_program h

theorem moves_newContext :
    (newContext s).Moves capacity frame (fun c o => c.owned = [] ∧ o = []) [] := by
  have hfresh : (Program.perform .freshToken).Moves (fun _ o => o = []) [] := fun _ => rfl
  exact (moves_program hfresh).bind fun ho => moves_pure ⟨rfl, ho⟩

theorem tidy_contextOr? (name : Option String) : (contextOr? s name).Tidy capacity frame := by
  cases name with
  | none =>
    refine (moves_newContext (s := s)).bind (R := fun _ o => o = []) (f := fun c => pure (some c)) ?_
    rintro c o ⟨-, ho⟩
    exact moves_pure ho
  | some n => exact moves_get_bind fun _ => moves_pure rfl

theorem tidy_withContext {f : Context → InSession Session.Answer} (hf : ∀ c, (f c).Tidy capacity frame) :
    (withContext name f).Tidy capacity frame := by
  refine moves_get_bind fun u => ?_
  cases Session.named? name u.contexts with
  | some c => exact hf c
  | none => exact moves_pure rfl

theorem tidy_stateAnswer (c : Context) : (stateAnswer c).Tidy capacity frame :=
  moves_get_bind fun _ => moves_pure rfl

theorem tidy_use (parent : Option String) (useCase : Session.UseCase) :
    (perform s (.use parent useCase)).Tidy capacity frame := by
  refine (tidy_contextOr? (s := s) parent).bind fun {p o} ho => ?_
  subst ho
  cases p with
  | none => exact moves_pure rfl
  | some p =>
    refine moves_get_bind fun u => ?_
    exact (tidy_program (useCase.tidy_perform u.directory p)).bind fun ho => moves_pure ho

theorem tidy_run (parent : Option String) (steps : List Session.InnerStep) (failure : Option Failure) :
    (perform s (.run parent steps failure)).Tidy capacity frame := by
  refine (tidy_contextOr? (s := s) parent).bind fun {p o} ho => ?_
  subst ho
  cases p with
  | none => exact moves_pure rfl
  | some p => exact moves_run p steps failure

/-- Reading all rows takes a connection, and gives it back. -/
theorem tidy_dump : (onDatabase Session.dumpRows).Tidy capacity frame := by
  intro u u' r hu hrun
  cases hrun
  refine ⟨_, [], rfl, ?_, rfl⟩
  change (Session.dumpRows u.world.database).2.Holds capacity frame
  rw [Session.dumpRows]
  cases hb : u.world.database.begin with
  | mk answer d =>
    have hanswer : u.world.database.begin.1 = answer := congrArg Prod.fst hb
    have hd : u.world.database.act .begin = d := congrArg Prod.snd hb
    cases answer with
    | error f =>
      obtain rfl : d = u.world.database := hd.symm.trans (Database.begin_eq_error hanswer)
      exact hu
    | ok t =>
      have hx : d.tx? t = some ⟨u.world.database.tables, []⟩ := by
        rw [← hd, Database.act, Database.tx?_begin hanswer, if_pos rfl]
      have hbegun : d.Holds capacity (t :: frame) := hd ▸ Database.Holds.begin hu hanswer
      simp only [hx]
      have hdrop : (Database.Op.drop t).ended? = some t := rfl
      exact hbegun.end hdrop

/-! ### Commands that change names -/

theorem withContext_eq (name : String) (f : Context → InSession Session.Answer) (u : Session) :
    withContext name f u = (match Session.named? name u.contexts with
      | some c => f c
      | none => pure .unknownName) u := rfl

theorem of_withContext {f : Context → InSession Session.Answer} (h : withContext name f u = .ok (a, u')) :
    u' = u ∨ ∃ c, Session.named? name u.contexts = some c ∧ f c u = .ok (a, u') := by
  rw [withContext_eq] at h
  cases hc : Session.named? name u.contexts with
  | none =>
    rw [hc] at h
    cases h
    exact .inl rfl
  | some c =>
    rw [hc] at h
    exact .inr ⟨c, rfl, h⟩

theorem putContext_eq (name : String) (c : Context) (u : Session) :
    putContext s name c u = (match Session.named? name u.contexts with
      | some o => program s o.drop
      | none => pure ()) { u with contexts := Session.put name c u.contexts } := rfl

theorem balanced_putContext {r : Unit} (h : u.Balanced capacity) {w : World}
    (hw : w.database.Holds capacity (c.owned ++ u.held)) (hrun : putContext s name c { u with world := w } = .ok (r, u')) :
    u'.Balanced capacity := by
  rw [putContext_eq] at hrun
  cases hold : Session.named? name u.contexts with
  | none =>
    rw [hold] at hrun
    cases hrun
    exact h.put (Session.heldBesides_of_unnamed hold ▸ hw)
  | some o =>
    rw [hold] at hrun
    -- The new context has the name already when the transaction of the old one is given up.
    have hdrop : (program s o.drop).Moves capacity (c.owned ++ u.heldBesides name) (fun _ o => o = []) o.owned :=
      moves_program o.moves_drop_nil
    have hperm : (c.owned ++ u.held).Perm (o.owned ++ (c.owned ++ u.heldBesides name)) := by
      refine ((Session.held_perm h.contexts hold).append_left _).trans ?_
      exact List.perm_append_comm_assoc _ _ _
    obtain ⟨w', own, rfl, hw', rfl⟩ := hdrop _ _ _ (hw.perm hperm) hrun
    exact h.put hw'

theorem balanced_finish {p : Program Effect (Outcome Unit × Context)} (h : u.Balanced capacity)
    (hc : Session.named? name u.contexts = some c)
    (hp : p.Moves (fun r o => r.2.owned = [] ∧ o = []) c.owned)
    (hrun : (do
      let (r, c) ← program s p
      setContext name c
      pure (.plain (r.map fun _ => .done)) : InSession Session.Answer) u = .ok (a, u')) : u'.Balanced capacity := by
  obtain ⟨⟨r, c'⟩, u₁, hprogram, hrest⟩ := of_bind hrun
  obtain ⟨w, own, rfl, hw, hc', rfl⟩ := moves_program hp _ _ _ (h.take hc) hprogram
  cases hrest
  exact h.put (hc'.symm ▸ hw)

theorem modify_bind {β : Type} (g : Session → Session) (f : Unit → InSession β) (u : Session) :
    ((modify g : InSession Unit) >>= f) u = f () (g u) := rfl

theorem of_onDatabase {β : Type} {f : Database → β × Database} {r : β} (h : onDatabase f u = .ok (r, u')) :
    r = (f u.world.database).1 ∧ u' = { u with world := { u.world with database := (f u.world.database).2 } } :=
  Prod.mk.inj (Except.ok.inj h.symm)

theorem balanced_dropContext (h : u.Balanced capacity) (hc : Session.named? name u.contexts = some c)
    (hrun : (do
      modify fun u => { u with contexts := Session.without name u.contexts }
      program s c.drop
      pure (.plain (.ok .done)) : InSession Session.Answer) u = .ok (a, u')) : u'.Balanced capacity := by
  rw [modify_bind] at hrun
  obtain ⟨r, u₁, hdrop, hrest⟩ := of_bind hrun
  have hgivesUp : (program s c.drop).Moves capacity (u.heldBesides name) (fun _ o => o = []) c.owned :=
    moves_program c.moves_drop_nil
  obtain ⟨w, own, rfl, hw, rfl⟩ :=
    hgivesUp { u with contexts := Session.without name u.contexts } _ _ (h.take hc) hdrop
  cases hrest
  exact h.withoutContext hw

theorem finishTransaction_eq (name : String) (f : TxId → Database → Outcome Unit × Database) (u : Session) :
    finishTransaction name f u = (match Session.named? name u.transactions with
      | none => pure .unknownName
      | some t => do
        modify fun u => { u with transactions := Session.without name u.transactions }
        pure (.plain ((← onDatabase (f t)).map fun _ => .done)) : InSession Session.Answer) u := rfl

theorem balanced_finishTransaction {f : TxId → Database → Outcome Unit × Database} (h : u.Balanced capacity)
    (hf : ∀ t, ∃ op : Database.Op, op.ended? = some t ∧ ∀ d, (f t d).2 = d.act op)
    (hrun : finishTransaction name f u = .ok (a, u')) : u'.Balanced capacity := by
  rw [finishTransaction_eq] at hrun
  cases ht : Session.named? name u.transactions with
  | none =>
    rw [ht] at hrun
    cases hrun
    exact h
  | some t =>
    rw [ht] at hrun
    cases hrun
    obtain ⟨op, hop, hact⟩ := hf t
    refine h.withoutTransaction ?_
    rw [hact]
    exact (h.holds.perm (Session.held_perm_transaction h.transactions ht)).end hop

/-- A transaction is put under a name, and the one that was there is given up. -/
theorem putTransaction_eq (name : String) (t : TxId) (u : Session) :
    (do
      let old := Session.named? name (← get).transactions
      modify fun u => { u with transactions := Session.put name t u.transactions }
      match old with
      | some o => onDatabase fun d => ((), d.release o)
      | none => pure ()
      pure (.plain (.ok .done)) : InSession Session.Answer) u =
    (match Session.named? name u.transactions with
      | some o => do
        onDatabase fun d => ((), d.release o)
        pure (.plain (.ok .done))
      | none => pure (.plain (.ok .done)) : InSession Session.Answer)
      { u with transactions := Session.put name t u.transactions } := rfl

theorem balanced_openTransaction (h : u.Balanced capacity)
    (hrun : perform s (.openTransaction name) u = .ok (a, u')) : u'.Balanced capacity := by
  obtain ⟨r, u₁, hbegin, hrest⟩ := of_bind hrun
  obtain ⟨hr, rfl⟩ := of_onDatabase hbegin
  rcases r with f | t
  · cases hrest
    rw [Database.begin_eq_error hr.symm]
    exact h
  · have hbegun := h.holds.begin hr.symm
    replace hrest := (putTransaction_eq name t _).symm.trans hrest
    cases hold : Session.named? name u.transactions with
    | none =>
      rw [hold] at hrest
      cases hrest
      refine h.putTransaction ?_
      rwa [Session.without_of_unnamed hold]
    | some o =>
      rw [hold] at hrest
      cases hrest
      -- Both transactions are open for a moment, so that a new one needs a free connection.
      have hperm := (Session.held_perm_transaction h.transactions hold).cons t
      have hboth := hbegun.perm (hperm.trans (List.Perm.swap _ _ _))
      have hdrop : (Database.Op.drop o).ended? = some o := rfl
      exact h.putTransaction (hboth.end hdrop)

theorem owned_of_apply {limits : Session.Limits} {now : Instant} {c' : Context}
    (h : limits.apply now c = .ok c') : c'.owned = c.owned := by
  obtain ⟨timeout, deadline⟩ := limits
  cases timeout with
  | none => cases deadline <;> cases h <;> rfl
  | some t =>
    cases hlimited : c.withTimeout? now t with
    | none =>
      simp only [Session.Limits.apply, hlimited] at h
      cases h
    | some c₁ =>
      have hscope : c₁.owned = c.owned := by
        rw [Context.owned, Context.owned, Context.held?, Context.held?, Context.scope_of_withTimeout? hlimited]
      simp only [Session.Limits.apply, hlimited] at h
      cases deadline <;> cases h <;> exact hscope

theorem of_lift {β : Type} {x : Except Crash β} {r : β} (h : (liftM x : InSession β) u = .ok (r, u')) :
    x = .ok r ∧ u = u' := by
  change x.bind (fun r => .ok (r, u)) = _ at h
  cases x with
  | error cause => cases h
  | ok b =>
    cases h
    exact ⟨rfl, rfl⟩

theorem balanced_newContext {limits : Session.Limits} (h : u.Balanced capacity)
    (hrun : perform s (.newContext name limits) u = .ok (a, u')) : u'.Balanced capacity := by
  obtain ⟨t, u₁, hnow, hrun⟩ := of_bind hrun
  cases hnow
  obtain ⟨c, u₂, hfresh, hrun⟩ := of_bind hrun
  obtain ⟨w, own, rfl, hw, hc, rfl⟩ := moves_newContext _ _ _ h.holds hfresh
  obtain ⟨c', u₃, hlimited, hrun⟩ := of_bind hrun
  obtain ⟨hc', rfl⟩ := of_lift hlimited
  obtain ⟨r, u₄, hput, hrun⟩ := of_bind hrun
  have hopen : w.database.Holds capacity (c'.owned ++ u.held) := by
    rw [owned_of_apply hc', hc]
    exact hw
  exact ((tidy_stateAnswer c').stays (balanced_putContext h hopen hput) hrun).1

theorem balanced_limit {limits : Session.Limits} (h : u.Balanced capacity)
    (hrun : perform s (.limit name limits) u = .ok (a, u')) : u'.Balanced capacity := by
  rcases of_withContext hrun with rfl | ⟨c, hc, hrun⟩
  · exact h
  have hrun : (do
      let t ← now
      let c' ← limits.apply t c
      setContext name c'
      stateAnswer c' : InSession Session.Answer) u = .ok (a, u') := hrun
  obtain ⟨t, u₁, hnow, hrun⟩ := of_bind hrun
  cases hnow
  obtain ⟨c', u₂, hlimited, hrun⟩ := of_bind hrun
  obtain ⟨hc', rfl⟩ := of_lift hlimited
  obtain ⟨r, u₃, hset, hrun⟩ := of_bind hrun
  cases hset
  refine ((tidy_stateAnswer c').stays (h.put ?_) hrun).1
  rw [owned_of_apply hc']
  exact h.take hc

theorem balanced_begin {parent : Option String} (h : u.Balanced capacity)
    (hrun : perform s (.begin name parent) u = .ok (a, u')) : u'.Balanced capacity := by
  obtain ⟨p, u₁, hparent, hrun⟩ := of_bind hrun
  obtain ⟨w, own, rfl, hw, rfl⟩ := tidy_contextOr? parent _ _ _ h.holds hparent
  cases p with
  | none =>
    cases hrun
    exact h.congr_world hw
  | some p =>
    obtain ⟨_, _, hget, hrun⟩ := of_bind (m := (get : InSession Session)) hrun
    cases hget
    obtain ⟨r, u₂, hbegin, hrun⟩ := of_bind hrun
    obtain ⟨w', own, rfl, hw', ho⟩ :=
      moves_program (ScopeManager.moves_begin u.directory.scopes p []) _ _ _ hw hbegin
    rcases r with f | c
    · subst ho
      cases hrun
      exact h.congr_world hw'
    · obtain rfl : own = c.owned := ho.trans (List.append_nil _)
      obtain ⟨r, u₃, hput, hrun⟩ := of_bind hrun
      exact ((tidy_stateAnswer c).stays (balanced_putContext h hw' hput) hrun).1

/-- Every command keeps the balance of the session. -/
theorem balanced_perform (h : u.Balanced capacity) {command : Session.Command}
    (hrun : perform s command u = .ok (a, u')) : u'.Balanced capacity := by
  have hstays (ht : (perform s command).Tidy capacity u.held) : u'.Balanced capacity := (ht.stays h hrun).1
  have hsame (hu : u' = u) : u'.Balanced capacity := hu ▸ h
  cases command with
  | newContext name limits => exact balanced_newContext h hrun
  | limit name limits => exact balanced_limit h hrun
  | state name => exact hstays (tidy_withContext tidy_stateAnswer)
  | transaction name => exact hstays (tidy_withContext fun c => moves_pure rfl)
  | dropContext name =>
    rcases of_withContext hrun with hu | ⟨c, hc, hdrop⟩
    · exact hsame hu
    · exact balanced_dropContext h hc hdrop
  | compareContexts i j =>
    exact hstays (tidy_withContext fun c => tidy_withContext fun d => moves_pure rfl)
  | begin name parent => exact balanced_begin h hrun
  | commit name =>
    rcases of_withContext hrun with hu | ⟨c, hc, hcommit⟩
    · exact hsame hu
    · exact balanced_finish h hc (ScopeManager.moves_commit c) hcommit
  | rollback name =>
    rcases of_withContext hrun with hu | ⟨c, hc, hrollback⟩
    · exact hsame hu
    · exact balanced_finish h hc (ScopeManager.moves_rollback c) hrollback
  | pass d => exact hstays ((moves_pass d).bind fun ho => moves_pure ho)
  | request name r =>
    refine hstays (tidy_withContext fun c => ?_)
    exact (tidy_program (r.within_perform c).tidy).bind fun ho => moves_pure ho
  | row on r =>
    refine hstays (moves_get_bind fun u => ?_)
    cases Session.named? on u.transactions with
    | some t => exact (moves_row t r).bind fun ho => moves_pure ho
    | none => exact tidy_withContext fun c => (moves_rowIn c r).bind fun ho => moves_pure ho
  | openTransaction name => exact balanced_openTransaction h hrun
  | commitTransaction name =>
    exact balanced_finishTransaction h (fun t => ⟨.commit t, rfl, fun _ => rfl⟩) hrun
  | rollbackTransaction name =>
    exact balanced_finishTransaction h (fun t => ⟨.rollback t, rfl, fun _ => rfl⟩) hrun
  | dropTransaction name =>
    exact balanced_finishTransaction h (fun t => ⟨.drop t, rfl, fun _ => rfl⟩) hrun
  | compareTransactions i j =>
    refine hstays (moves_get_bind fun u => ?_)
    dsimp only
    split
    · exact moves_pure rfl
    · exact moves_pure rfl
  | use parent useCase => exact hstays (tidy_use parent useCase)
  | run parent steps failure => exact hstays (tidy_run parent steps failure)
  | hash password =>
    refine hstays ((tidy_program ?_).bind fun ho => moves_pure ho)
    exact ((Session.Secret.password password).within_resolve (.background 0)).tidy
  | compare hash password =>
    refine hstays ((tidy_program ?_).bind fun ho => moves_pure ho)
    refine Session.tidy_ofOutcome_bind fun stored => Session.tidy_ofOutcome_bind fun p => ?_
    exact Action.tidy_bind (Passwords.within_compare (.background 0) stored p).tidy fun _ => rfl
  | capacity => exact hstays (moves_get_bind fun u => moves_pure rfl)
  | dump => exact hstays (tidy_dump.bind fun ho => moves_pure ho)

/-! ### Runs -/

/-- After every command of a session, the transactions that are open are those it holds. -/
theorem balanced_mapM (h : u.Balanced capacity) {commands : List Session.Command} {answers : List Session.Answer}
    (hrun : commands.mapM (perform s) u = .ok (answers, u')) : u'.Balanced capacity := by
  induction commands generalizing u answers with
  | nil =>
    cases hrun
    exact h
  | cons command commands ih =>
    rw [List.mapM_cons] at hrun
    obtain ⟨answer, u₁, hfirst, hrun⟩ := of_bind hrun
    obtain ⟨others, u₂, hothers, hrun⟩ := of_bind hrun
    cases hrun
    exact ih (balanced_perform h hfirst) hothers

theorem Tidy.available {m : InSession Session.Answer} (hm : m.Tidy capacity u.held) (h : u.Balanced capacity)
    (hrun : m u = .ok (a, u')) : u'.world.database.available = u.world.database.available := by
  obtain ⟨hafter, hheld⟩ := hm.stays h hrun
  have hbefore := h.available_add
  have hthen := hafter.available_add
  rw [hheld] at hthen
  omega

end InSession

/-- Of the connections of a database, none is lost and none is given out twice, and a call gives back the one that it
    took. -/
structure ConnectionsKept (capacity : Nat) : Prop where
  /-- What has begun and has not ended yet holds the connections that are not free, after any run of transactions. -/
  balance : ∀ ops, ((Database.new capacity).after ops).available +
    ((Database.new capacity).heldAlong [] ops).length = capacity
  /-- That no connection is free is the only reason to refuse a transaction, and it is one. -/
  refused : ∀ ops f, ((Database.new capacity).after ops).begin.1 = .error f ↔
    f = .poolExhausted ∧ ((Database.new capacity).after ops).available = 0
  unchanged : ∀ ops f, ((Database.new capacity).after ops).begin.1 = .error f →
    ((Database.new capacity).after ops).begin.2 = (Database.new capacity).after ops
  /-- Amid others, a scope that begins takes one connection, and it takes none if it is refused. -/
  begins : ∀ (m : ScopeManager) (parent : Context), (m.begin parent).result.Leaves capacity [] fun
    | .ok child => child.owned
    | .error _ => []
  commits : ∀ c : Context, (ScopeManager.commit c).Leaves capacity c.owned fun _ => []
  rollbacks : ∀ c : Context, (ScopeManager.rollback c).Leaves capacity c.owned fun _ => []
  drops : ∀ c : Context, c.drop.Leaves capacity c.owned fun _ => []
  /-- Whatever a body does to its scope, and whatever fails, its run takes no connection in the end. -/
  runs : ∀ {α : Type} (m : ScopeManager) (parent : Context) (body : Context → Program Effect (Outcome α × Context)),
    ScopeManager.Closes body → (m.run parent body).result.GivesBack capacity
  calls : ∀ (d : Directory) (parent : Context) (useCase : Session.UseCase),
    (useCase.perform d parent).result.GivesBack capacity
  /-- In a session, contexts and transactions under names hold the connections that are not free. -/
  sessions : ∀ {s d} {commands : List Session.Command} {answers u},
    commands.mapM (InSession.perform s) (Session.new (.new (.new capacity)) d) = .ok (answers, u) →
      u.world.database.available + u.held.length = capacity
  /-- A call in a session gives back what it takes. -/
  returns : ∀ {s d} {commands : List Session.Command} {answers u command a u'},
    commands.mapM (InSession.perform s) (Session.new (.new (.new capacity)) d) = .ok (answers, u) →
    (∃ parent, (∃ useCase, command = .use parent useCase) ∨ ∃ steps failure, command = .run parent steps failure) →
    InSession.perform s command u = .ok (a, u') → u'.world.database.available = u.world.database.available

/-- Connections are neither lost nor given out twice, whatever is refused, fails or comes too late. -/
theorem connections_kept (capacity : Nat) : ConnectionsKept capacity where
  balance ops := (Database.holds_after capacity ops).available_add
  refused ops f := Database.begin_eq_error_iff
  unchanged ops f := Database.begin_eq_error
  begins m parent := by
    refine Program.Moves.leaves ((ScopeManager.moves_begin m parent []).mono fun {r o} ho => ?_)
    rcases r with f | child
    · exact ho
    · exact ho.trans (List.append_nil _)
  commits c := ((ScopeManager.moves_commit c).mono fun h => h.2).leaves
  rollbacks c := ((ScopeManager.moves_rollback c).mono fun h => h.2).leaves
  drops c := c.moves_drop_nil.leaves
  runs m parent body hbody := (ScopeManager.tidy_run hbody).givesBack
  calls d parent useCase := (useCase.tidy_perform d parent).givesBack
  sessions hrun := (InSession.balanced_mapM (.new _ capacity) hrun).available_add
  returns := by
    intro s d commands answers u command a u' hbefore hcommand hrun
    have hu := InSession.balanced_mapM (.new d capacity) hbefore
    obtain ⟨parent, ⟨useCase, rfl⟩ | ⟨steps, failure, rfl⟩⟩ := hcommand
    · exact (InSession.tidy_use parent useCase).available hu hrun
    · exact (InSession.tidy_run parent steps failure).available hu hrun

end IdentityVault
