import IdentityVault.Directory
import IdentityVault.Proofs.Gateway.Within
import IdentityVault.Proofs.Store.Connections

/-! Which transactions a program has open. A program that begins transactions ends them again, or passes them on with
    what it yields, whatever fails on the way; it ends no others. -/

namespace IdentityVault
variable {α β : Type} {own frame : List TxId}

/-- A program that has `own` open may ask for the effect, and whatever the effect yields, `Q` holds of it and of what
    the program has open then. -/
def Effect.Moves {β : Type} (own : List TxId) : Effect β → (β → List TxId → Prop) → Prop
  | .now, Q => ∀ b, Q b own
  | .freshToken, Q => ∀ b, Q b own
  | .timestamp, Q => ∀ b, Q b own
  | .freshId, Q => ∀ b, Q b own
  | .hash _, Q => ∀ b, Q b own
  | .compare _ _, Q => ∀ b, Q b own
  | .query _ _ _, Q => ∀ b, Q b own
  | .begin _, Q => (∀ f, Q (.error f) own) ∧ ∀ t, Q (.ok t) (t :: own)
  | .commit t, Q => t ∈ own ∧ ∀ b, Q b (own.erase t)
  | .rollback t, Q => t ∈ own ∧ ∀ b, Q b (own.erase t)
  | .release t, Q => t ∈ own ∧ Q () (own.erase t)
  | .crash _, _ => True

/-- From where it has `own` open, the program ends no other transactions, and where it ends, `Q` holds of its value and
    of what it has open then. -/
def Program.Moves (Q : α → List TxId → Prop) : Program Effect α → List TxId → Prop
  | .done a, own => Q a own
  | .ask e next, own => e.Moves own fun b own => (next b).Moves Q own

namespace Effect
variable {e : Effect β} {Q R : β → List TxId → Prop}

theorem Moves.mono (h : e.Moves own Q) (hq : ∀ {b own}, Q b own → R b own) : e.Moves own R := by
  cases e with
  | now | freshToken | timestamp | freshId | hash | compare | query => exact fun b => hq (h b)
  | begin => exact ⟨fun f => hq (h.1 f), fun t => hq (h.2 t)⟩
  | commit | rollback => exact ⟨h.1, fun b => hq (h.2 b)⟩
  | release => exact ⟨h.1, hq h.2⟩
  | crash => trivial

/-- What is done to the database for an effect makes of what is open what the effect says. -/
theorem Moves.answer {fits : Verifier} {m : Moment} {d : Database} {b : β} {ops : List Database.Op}
    (h : e.Moves own Q) (ha : e.answer fits m d = some (b, ops)) :
    Q b (d.heldAlong own ops) ∧ ∀ op ∈ ops, ∀ t, op.ended? = some t → t ∈ own := by
  have hsilent {b : β} (hb : Q b own) :
      Q b (d.heldAlong own []) ∧ ∀ op ∈ ([] : List Database.Op), ∀ t, op.ended? = some t → t ∈ own :=
    ⟨hb, nofun⟩
  have hends {b : β} {op : Database.Op} {t : TxId} (hop : op.ended? = some t) (ht : t ∈ own)
      (hb : Q b (own.erase t)) :
      Q b (d.heldAlong own [op]) ∧ ∀ op' ∈ [op], ∀ t, op'.ended? = some t → t ∈ own := by
    refine ⟨?_, fun op' hm u hu => ?_⟩
    · rwa [Database.heldAlong, Database.held, hop]
    · rw [List.mem_singleton.mp hm, hop] at hu
      exact Option.some.inj hu ▸ ht
  cases e with
  | now | freshToken | timestamp | freshId | hash | compare =>
    cases ha
    exact hsilent (h _)
  | query deadline t q =>
    rw [Effect.answer, Moment.orFail] at ha
    split at ha
    · cases ha
      exact ⟨h _, by simp [Database.Op.ended?]⟩
    · cases ha
      exact hsilent (h _)
  | begin deadline =>
    rw [Effect.answer, Moment.orFail] at ha
    split at ha
    · cases ha
      refine ⟨?_, by simp [Database.Op.ended?]⟩
      rw [Database.heldAlong, Database.heldAlong, Database.held, Database.Op.ended?, Database.begun]
      cases d.begin.1 with
      | error f => exact h.1 f
      | ok t => exact h.2 t
    · cases ha
      exact hsilent (h.1 _)
  | commit t =>
    rw [Effect.answer, Moment.orDrop] at ha
    split at ha <;> cases ha <;> exact hends rfl h.1 (h.2 _)
  | rollback t =>
    rw [Effect.answer, Moment.orDrop] at ha
    split at ha <;> cases ha <;> exact hends rfl h.1 (h.2 _)
  | release t =>
    cases ha
    exact hends rfl h.1 h.2
  | crash => cases ha

end Effect

namespace Program
variable {p : Program Effect α} {Q R : α → List TxId → Prop}

theorem Moves.mono (h : p.Moves Q own) (hq : ∀ {a own}, Q a own → R a own) : p.Moves R own := by
  induction p generalizing own with
  | done a => exact hq h
  | ask e next ih => exact Effect.Moves.mono h fun {b _} hb => ih b hb

theorem Moves.bind {f : α → Program Effect β} {Q : β → List TxId → Prop}
    (h : p.Moves (fun a own => (f a).Moves Q own) own) : (p.bind f).Moves Q own := by
  induction p generalizing own with
  | done a => exact h
  | ask e next ih => exact Effect.Moves.mono h fun {b _} hb => ih b hb

/-- A program amid others: what is open at its end is what it has open then, and what the others have open. -/
theorem Moves.of_amid {fits : Verifier} {capacity : Nat} {d : Database} {begun : List TxId}
    {trace : List (Party × Database.Op)} {a : α} (h : p.Moves Q own) (hd : d.Holds capacity (own ++ frame))
    (hown : ∀ t ∈ own, t ∈ begun) (ha : p.Amid fits begun d trace a) :
    Q a (d.heldBy .self own trace) ∧
      (d.along trace).Holds capacity (d.heldBy .self own trace ++ d.heldBy .others frame trace) := by
  induction ha generalizing own frame with
  | done a begun d => exact ⟨h, hd⟩
  | @step β e next begun d m b ops trace a he hrest ih =>
    obtain ⟨hnext, hends⟩ := Effect.Moves.answer h he
    have hdisjoint := (List.nodup_append.mp (hd.names.nodup hd.named.distinct)).2.2
    have hframe : ∀ op ∈ ops, ∀ t, op.ended? = some t → t ∉ frame := by
      intro op hop t ht hm
      exact hdisjoint t (hends op hop t ht) t hm rfl
    have hbegun : ∀ t ∈ d.heldAlong own ops, t ∈ begun ++ d.begunAlong ops := by
      intro t ht
      exact List.mem_append.mpr ((Database.mem_heldAlong ht).imp_left (hown t))
    obtain ⟨hq, hafter⟩ := ih hnext (hd.after hframe) hbegun
    rw [Database.heldBy_append, Database.heldBy_self, Database.heldBy_append,
      Database.heldBy_of_ne (nofun : Party.self ≠ .others), Database.along_append, Database.along_by]
    exact ⟨hq, hafter⟩
  | @meanwhile p begun d op trace a hop hrest ih =>
    -- The others end none of the transactions that the program has begun.
    have hkeeps : ∀ t, op.ended? = some t → t ∉ own := by
      intro t ht hm
      exact hop t (hown t hm) (Database.Op.tx?_of_ended? ht)
    have hothers := ((hd.perm List.perm_append_comm).act hkeeps).perm List.perm_append_comm
    exact ih h hothers hown

theorem Moves.of_inWorld {s : Surroundings} {w w' : World} {capacity : Nat} {a : α} (h : p.Moves Q own)
    (hw : w.database.Holds capacity (own ++ frame)) (hrun : p.inWorld s w = .ok (a, w')) :
    ∃ own', Q a own' ∧ w'.database.Holds capacity (own' ++ frame) := by
  obtain ⟨ops, hamid, hdb⟩ := Amid.of_inWorld hrun own
  obtain ⟨hq, hafter⟩ := h.of_amid hw (fun _ ht => ht) hamid
  rw [Database.along_by, ← hdb, Database.heldBy_of_ne (nofun : Party.self ≠ .others)] at hafter
  exact ⟨_, hq, hafter⟩

/-- A program that only asks leaves open what was open. -/
theorem Within.moves {c : Context} (h : p.Within c) : p.Moves (fun _ o => o = own) own := by
  induction p with
  | done a => rfl
  | ask e next ih =>
    obtain ⟨he, hn⟩ := h
    cases e with
    | now | freshToken | timestamp | freshId | hash | compare | query => exact fun b => ih b (hn b)
    | begin | commit | rollback | release | crash => exact he.elim

end Program

/-! ### Amid others -/

namespace Program
variable {p : Program Effect α} {left : α → List TxId} {capacity : Nat}

/-- Amid others, who have `frame` open at first, a program that has `own` open is left with what `left` says, and the
    connections that are not free then are its own and those of the others. -/
def Leaves (capacity : Nat) (p : Program Effect α) (own : List TxId) (left : α → List TxId) : Prop :=
  ∀ ⦃d : Database⦄ ⦃before : List Database.Op⦄ ⦃frame : List TxId⦄ ⦃fits : Verifier⦄
    ⦃trace : List (Party × Database.Op)⦄ ⦃a : α⦄, d = (Database.new capacity).after before →
    d.names.Perm (own ++ frame) → p.Amid fits own d trace a →
      d.heldBy .self own trace = left a ∧
        (d.along trace).available + ((left a).length + (d.heldBy .others frame trace).length) = capacity

/-- Amid others, a program that has nothing open at first is left with nothing, and as many connections are free as
    before if the others begin and end nothing. -/
structure GivesBack (capacity : Nat) (p : Program Effect α) : Prop where
  leaves : p.Leaves capacity [] fun _ => []
  available : ∀ {d : Database} {before : List Database.Op} {fits : Verifier} {trace : List (Party × Database.Op)}
    {a : α}, d = (Database.new capacity).after before → p.Amid fits [] d trace a →
    (∀ op, (.others, op) ∈ trace → op.Quiet) → (d.along trace).available = d.available

theorem Moves.leaves (h : p.Moves (fun a o => o = left a) own) : p.Leaves capacity own left := by
  intro d before frame fits trace a hd hnames ha
  have hholds : d.Holds capacity (own ++ frame) := by
    have hbefore := Database.holds_after capacity before
    rw [← hd] at hbefore
    exact hbefore.perm (hbefore.names.symm.trans hnames)
  obtain ⟨hleft, hafter⟩ := h.of_amid hholds (fun _ ht => ht) ha
  have havailable := hafter.available_add
  rw [List.length_append, hleft] at havailable
  exact ⟨hleft, havailable⟩

theorem Moves.givesBack (h : p.Moves (fun _ o => o = []) []) : p.GivesBack capacity where
  leaves := h.leaves
  available := by
    intro d before fits trace a hd ha hothers
    have hleaves : p.Leaves capacity [] fun _ => [] := h.leaves
    have hnames : d.names.Perm ([] ++ d.names) := .refl _
    have hafter := (hleaves hd hnames ha).2
    rw [Database.heldBy_of_quiet hothers] at hafter
    have hbefore := Database.holds_after capacity before
    rw [← hd] at hbefore
    have hnow := (hbefore.perm hbefore.names.symm).available_add
    simp only [List.length_nil] at hafter
    omega

end Program

/-! ### Scopes -/

/-- The transaction that goes with a context. -/
def Context.owned (c : Context) : List TxId := c.held?.toList

namespace ScopeManager
variable {m : ScopeManager} {parent c : Context}

/-- A scope that begins opens one transaction, and it opens none if it is refused. -/
theorem moves_begin (m : ScopeManager) (parent : Context) (own : List TxId) :
    (m.begin parent).result.Moves (fun
      | .ok child, o => o = child.owned ++ own
      | .error _, o => o = own) own := by
  by_cases h : parent.scope = none
  · rw [begin_of_unbound m h]
    refine ⟨fun f => rfl, fun t k => ?_⟩
    have hchild {child : Context} (hk : child.scope = some ⟨k, some t⟩) : t :: own = child.owned ++ own := by
      rw [Context.owned, Context.held?_eq_some.mpr ⟨k, hk⟩]
      rfl
    cases m.timeout with
    | none => exact hchild rfl
    | some limit =>
      intro now
      beta_reduce
      cases hc : (parent.bind k t).withTimeout? now limit with
      | some child => exact hchild (Context.scope_of_withTimeout? hc)
      | none =>
        -- The transaction is given up before the program crashes.
        exact ⟨List.mem_cons_self, trivial⟩
  · rw [begin_of_scope m h]
    exact rfl

/-- A commit or a rollback asks to end the transaction of an open context, and nothing of a closed one. -/
theorem moves_finish {p : Program Effect (Outcome Unit × Context)}
    (hopen : ∀ {t}, c.held? = some t → ∃ e : Effect (Outcome Unit), (e = .commit t ∨ e = .rollback t) ∧
      p = .ask e fun r => .done (r, c.finished))
    (hclosed : c.held? = none → ∃ r, p = .done (r, c)) :
    p.Moves (fun r o => r.2.owned = [] ∧ o = []) c.owned := by
  rw [Context.owned]
  cases h : c.held? with
  | some t =>
    have hfinished : c.finished.owned = [] := by rw [Context.owned, c.held?_finished]; rfl
    obtain ⟨e, rfl | rfl, rfl⟩ := hopen h <;>
      exact ⟨List.mem_cons_self, fun r => ⟨hfinished, List.erase_cons_head t []⟩⟩
  | none =>
    obtain ⟨r, rfl⟩ := hclosed h
    exact ⟨by rw [Context.owned, h]; rfl, rfl⟩

theorem moves_commit (c : Context) : (commit c).Moves (fun r o => r.2.owned = [] ∧ o = []) c.owned := by
  refine moves_finish (fun {t} h => ?_) fun h => ?_
  · obtain ⟨k, hk⟩ := Context.held?_eq_some.mp h
    exact ⟨.commit t, .inl rfl, commit_of_open hk⟩
  · obtain ⟨f, hf⟩ := commit_of_closed h
    exact ⟨_, hf⟩

theorem moves_rollback (c : Context) : (rollback c).Moves (fun r o => r.2.owned = [] ∧ o = []) c.owned := by
  refine moves_finish (fun {t} h => ?_) rollback_of_closed
  obtain ⟨k, hk⟩ := Context.held?_eq_some.mp h
  exact ⟨.rollback t, .inr rfl, rollback_of_open hk⟩

theorem moves_conclude (c : Context) (r : Outcome α) : (conclude c r).Moves (fun _ o => o = []) c.owned := by
  rcases r with f | a
  · exact ((moves_rollback c).mono fun h => h.2).bind
  · refine ((moves_commit c).mono ?_).bind
    rintro ⟨r, c'⟩ o ⟨-, rfl⟩
    rcases r with f | ⟨⟩ <;> rfl

/-- A body that leaves open what the context still holds that it returns. -/
def Closes (body : Context → Program Effect (Outcome α × Context)) : Prop :=
  ∀ child, (body child).Moves (fun r o => o = r.2.owned) child.owned

theorem closes_of_within {action : Context → Action α} (h : ∀ c, (action c).result.Within c) :
    Closes (fun c => (do pure (← (action c).result, c))) := by
  intro c
  have hasks : (action c).result.Moves (fun _ o => o = c.owned) c.owned := (h c).moves
  exact (hasks.mono fun ho => ho).bind

end ScopeManager

theorem Context.moves_drop (c : Context) (own : List TxId) : c.drop.Moves (fun _ o => o = own) (c.owned ++ own) := by
  rw [drop, ← held?, owned]
  cases c.held? with
  | some t => exact ⟨List.mem_cons_self, List.erase_cons_head t own⟩
  | none => exact rfl

theorem Context.moves_drop_nil (c : Context) : c.drop.Moves (fun _ o => o = []) c.owned := by
  have h := c.moves_drop []
  rwa [List.append_nil] at h

/-! ### Programs that leave nothing open -/

/-- A program that has ended whatever it has begun. -/
def Program.Tidy (p : Program Effect α) : Prop := p.Moves (fun _ o => o = []) []

theorem Program.Within.tidy {p : Program Effect α} {c : Context} (h : p.Within c) : p.Tidy := h.moves

theorem Action.tidy_bind {a : Action β} {f : β → Action α} (ha : a.result.Tidy) (hf : ∀ b, (f b).result.Tidy) :
    (a >>= f).result.Tidy := by
  refine (Program.Moves.mono ha fun {r o} ho => ?_).bind
  subst ho
  rcases r with e | b
  · exact rfl
  · exact hf b

theorem ScopeManager.tidy_run {m : ScopeManager} {parent : Context}
    {body : Context → Program Effect (Outcome α × Context)} (h : ScopeManager.Closes body) :
    (m.run parent body).result.Tidy := by
  rw [run_eq]
  refine ((moves_begin m parent []).mono fun {r o} hr => ?_).bind
  rcases r with f | child
  · exact hr
  · obtain rfl : o = child.owned := hr.trans (List.append_nil _)
    refine ((h child).mono ?_).bind
    rintro ⟨r, c⟩ o rfl
    exact moves_conclude c r

theorem ScopeManager.tidy_within {m : ScopeManager} {parent : Context} {action : Context → Action α}
    (h : ∀ c, (action c).result.Within c) : (m.within parent action).result.Tidy :=
  tidy_run (closes_of_within h)

namespace Directory
variable {d : Directory} {parent : Context}

theorem tidy_createUser (name : String) (email : Email) (password : Password) :
    (d.createUser parent name email password).result.Tidy := by
  refine Action.tidy_bind (Passwords.within_hash parent password).tidy fun hashed => ?_
  refine ScopeManager.tidy_within fun c => ?_
  refine Action.within_bind (Users.within_create c name email) fun user => ?_
  exact Action.within_bind (Credentials.within_create c _) fun _ => trivial

theorem tidy_getUser (id : Id) : (d.getUser parent id).result.Tidy :=
  ScopeManager.tidy_within fun c => Users.within_get c id

theorem tidy_findUsers (f : UserFilter) : (d.findUsers parent f).result.Tidy :=
  ScopeManager.tidy_within fun c => Users.within_list c f

theorem tidy_authenticate (email : Email) (password : Password) :
    (d.authenticate parent email password).result.Tidy := by
  refine ScopeManager.tidy_within fun c => ?_
  exact Action.within_bind (Credentials.within_check c email password) fun _ => Users.within_get c _

theorem tidy_changePassword (email : Email) (current new : Password) :
    (d.changePassword parent email current new).result.Tidy := by
  refine Action.tidy_bind (Passwords.within_hash parent new).tidy fun hashed => ?_
  refine ScopeManager.tidy_within fun c => ?_
  refine Action.within_bind (Credentials.within_check c email current) fun credential => ?_
  exact Action.within_bind (Credentials.within_update c _ hashed) fun _ => trivial

end Directory
end IdentityVault
