import IdentityVault.Proofs.Scope.Stage

/-! Where the programs of a scope lead. A scope that is begun works on one transaction, and when it is concluded it has
    published the log of that transaction, or nothing. -/

namespace IdentityVault

/-! ### In a scope -/

/-- In the scope of `t`, a step that has succeeded with `a` has made the transaction one of which `P a` holds. -/
def Stage.Works {α : Type} (t : TxId) (start : Tables) (P : α → Transaction → Prop) (r : Outcome α)
    (g : Stage) : Prop :=
  ∃ x, g = .opened t start x ∧ ∀ {a}, r = .ok a → P a x

variable {fits : Verifier} {α β : Type} {t : TxId} {start : Tables} {x : Transaction} {g : Stage}

theorem Stage.Works.mono {P Q : α → Transaction → Prop} {r : Outcome α} (h : Stage.Works t start P r g)
    (hq : ∀ {a x}, P a x → Q a x) : Stage.Works t start Q r g := by
  obtain ⟨x, rfl, hx⟩ := h
  exact ⟨x, rfl, fun ha => hq (hx ha)⟩

namespace Action
variable {P : β → Transaction → Prop} {Q : α → Transaction → Prop}

theorem works_ok {a : α} (h : Q a x) :
    (pure a : Action α).result.Leads fits (Stage.Works t start Q) (.opened t start x) :=
  ⟨x, rfl, fun ha => Except.ok.inj ha ▸ h⟩

theorem works_error {f : Failure} :
    (throw f : Action α).result.Leads fits (Stage.Works t start Q) (.opened t start x) :=
  ⟨x, rfl, nofun⟩

theorem works_bind {a : Action β} {f : β → Action α} (ha : a.result.Leads fits (Stage.Works t start P) g)
    (hf : ∀ {b x}, P b x → (f b).result.Leads fits (Stage.Works t start Q) (.opened t start x)) :
    (a >>= f).result.Leads fits (Stage.Works t start Q) g := by
  refine leads_bind ha ?_ ?_
  · rintro b _ ⟨x, rfl, hx⟩
    exact hf (hx rfl)
  · rintro e _ ⟨x, rfl, -⟩
    exact ⟨x, rfl, nofun⟩

theorem works_attempt_freshId {f : Id → Action α}
    (hf : ∀ {id}, (f id).result.Leads fits (Stage.Works t start Q) (.opened t start x)) :
    (attempt .freshId >>= f).result.Leads fits (Stage.Works t start Q) (.opened t start x) := by
  refine ⟨rfl, fun r => ?_⟩
  rcases r with e | id
  · exact ⟨x, rfl, nofun⟩
  · exact hf

end Action

namespace Context
variable {c : Context}

/-- A question in a scope is answered by the transaction, or fails without touching it. -/
theorem works_query (h : c.held? = some t) (q : Query α) :
    (c.query q).result.Leads fits (Stage.Works t start fun a y => x.perform q = (.ok a, y)) (.opened t start x) := by
  rw [query_of_held h]
  exact ⟨rfl, start, x, rfl, fun f => ⟨x, rfl, nofun⟩, _, rfl, fun ha => Prod.ext ha rfl⟩

theorem works_query_bind (h : c.held? = some t) {q : Query β} {f : β → Action α} {Q : α → Transaction → Prop}
    (hf : ∀ {b y}, x.perform q = (.ok b, y) → (f b).result.Leads fits (Stage.Works t start Q) (.opened t start y)) :
    (c.query q >>= f).result.Leads fits (Stage.Works t start Q) (.opened t start x) :=
  Action.works_bind (works_query h q) hf

/-- The context holds the transaction of the stage, or none if that was discarded. -/
inductive At (c : Context) : Stage → Prop
  | opened {t : TxId} {start : Tables} {x : Transaction} (h : c.held? = some t) : At c (.opened t start x)
  | discarded {t : TxId} (h : c.held? = none) : At c (.discarded t)

end Context

/-! ### The life of a scope -/

namespace ScopeManager
variable {m : ScopeManager} {parent c : Context}

/-- A scope that begins holds a transaction on tables as they were shared. -/
def Begun : Outcome Context → Stage → Prop
  | .error _, g => g = .unopened
  | .ok c, g => ∃ t start, c.held? = some t ∧ start.Sound ∧ g = .opened t start ⟨start, []⟩

theorem leads_begin (m : ScopeManager) (parent : Context) :
    (m.begin parent).result.Leads fits Begun .unopened := by
  by_cases h : parent.scope = none
  · rw [begin_of_unbound m h]
    refine ⟨rfl, rfl, fun f => rfl, fun t start hs => ⟨rfl, fun k => ?_⟩⟩
    have hchild : ∀ {child : Context}, child.scope = some ⟨k, some t⟩ →
        Begun (.ok child) (.opened t start ⟨start, []⟩) := fun hk =>
      ⟨t, start, Context.held?_eq_some.mpr ⟨k, hk⟩, hs, rfl⟩
    cases m.timeout with
    | none => exact hchild rfl
    | some limit =>
      refine ⟨rfl, fun now => ?_⟩
      beta_reduce
      cases hc : (parent.bind k t).withTimeout? now limit with
      | some child => exact hchild (Context.scope_of_withTimeout? hc)
      | none => exact ⟨rfl, start, _, rfl, rfl, trivial⟩
  · rw [begin_of_scope m h]
    exact rfl

/-- What becomes of a scope whose body ends with `r`, when it is concluded with `r'`. -/
def Concluded (r : Outcome α) (g : Stage) : Outcome α → Stage → Prop
  | .ok a, g' => r = .ok a ∧ ∃ t start x, g = .opened t start x ∧ g' = .published t start x.log
  | .error f, g' => (∀ e, r = .error e → e = f) ∧ ∃ t, g' = .discarded t

theorem leads_conclude (h : c.At g) (r : Outcome α) : (conclude c r).Leads fits (Concluded r g) g := by
  cases h with
  | @opened t start x h =>
    obtain ⟨k, hk⟩ := Context.held?_eq_some.mp h
    rcases r with e | a
    · rw [conclude, rollback_of_open hk]
      exact ⟨rfl, start, x, rfl, fun r => ⟨fun e' he => (Except.error.inj he).symm, t, rfl⟩⟩
    · rw [conclude, commit_of_open hk]
      exact ⟨rfl, start, x, rfl, ⟨rfl, t, start, x, rfl, rfl⟩, fun f => ⟨by simp, t, rfl⟩⟩
  | @discarded t h =>
    obtain ⟨f, hcommit⟩ := commit_of_closed h
    obtain ⟨r', hrollback⟩ := rollback_of_closed h
    rcases r with e | a
    · rw [conclude, hrollback]
      exact ⟨fun e' he => (Except.error.inj he).symm, t, rfl⟩
    · rw [conclude, hcommit]
      exact ⟨by simp, t, rfl⟩

/-- A scope that ends with success has published its log, and one that fails has published nothing. -/
def Settled (P : α → Tables → List Write → Prop) : Outcome α → Stage → Prop
  | .ok a, g => ∃ t start log, g = .published t start log ∧ P a start log
  | .error _, g => g.logs = []

/-- A program that has published its log is at its end. -/
theorem settled_of_published {p : Program Effect (Outcome α)} {P : α → Tables → List Write → Prop} {log : List Write}
    (h : p.Leads fits (Settled P) (.published t start log)) : ∃ a, p = .done (.ok a) ∧ P a start log := by
  cases p with
  | ask e next => cases h.1
  | done r =>
    rcases r with f | a
    · cases h
    · obtain ⟨_, _, _, hg, ha⟩ := h
      cases hg
      exact ⟨a, rfl, ha⟩

theorem leads_within {m : ScopeManager} {parent : Context} {action : Context → Action α}
    {P : α → Tables → List Write → Prop}
    (h : ∀ {c t start}, c.held? = some t → start.Sound →
      (action c).result.Leads fits (Stage.Works t start fun a x => P a start x.log) (.opened t start ⟨start, []⟩)) :
    (m.within parent action).result.Leads fits (Settled P) .unopened := by
  rw [within, run_eq]
  refine Program.Leads.bind ((leads_begin m parent).mono fun {r g} hr => ?_)
  rcases r with e | c
  · cases hr
    exact rfl
  obtain ⟨t, start, hc, hs, rfl⟩ := hr
  refine Program.Leads.bind (Program.Leads.bind ((h hc hs).mono fun {r g} hr => ?_))
  obtain ⟨x, rfl, hx⟩ := hr
  refine (leads_conclude (.opened hc) r).mono fun {r' g'} hr' => ?_
  rcases r' with e | a
  · obtain ⟨-, t, rfl⟩ := hr'
    exact rfl
  · obtain ⟨rfl, t', start', x', hg, rfl⟩ := hr'
    cases hg
    exact ⟨t, start, x.log, rfl, hx rfl⟩

end ScopeManager
end IdentityVault
