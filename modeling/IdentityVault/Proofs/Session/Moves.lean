import IdentityVault.Proofs.Scope.Ownership
import IdentityVault.Session.Perform

/-! What the computations in a session begin and end, as long as they leave the names of the session alone: requests,
    questions to rows, and bodies in scopes of their own. -/

namespace IdentityVault
variable {α β : Type} {capacity : Nat} {own frame : List TxId} {s : Surroundings}

/-! ### Requests -/

namespace Session
variable {c : Context}

theorem within_ofOutcome_bind {r : Outcome β} {f : β → Action α} (hf : ∀ b, (f b).result.Within c) :
    (Action.ofOutcome r >>= f).result.Within c :=
  Action.within_bind trivial hf

theorem Secret.within_resolve (c : Context) (secret : Secret) : secret.resolve.result.Within c := by
  cases secret with
  | password t => exact within_ofOutcome_bind fun p => Passwords.within_hash c p
  | hash t => trivial

theorem Request.within_perform (c : Context) (request : Request) : (request.perform c).result.Within c := by
  cases request with
  | user id =>
    exact within_ofOutcome_bind fun id => Action.within_bind (Users.within_get c id) fun _ => trivial
  | users email =>
    exact within_ofOutcome_bind fun f => Action.within_bind (Users.within_list c f) fun _ => trivial
  | createUser name email =>
    exact within_ofOutcome_bind fun e => Action.within_bind (Users.within_create c name e) fun _ => trivial
  | updateUser id name email =>
    refine within_ofOutcome_bind fun id => within_ofOutcome_bind fun email => ?_
    exact Action.within_bind (Users.within_update c _) fun _ => trivial
  | credential email =>
    exact within_ofOutcome_bind fun e => Action.within_bind (c.within_query _) fun _ => trivial
  | createCredential owner email secret =>
    refine within_ofOutcome_bind fun owner => within_ofOutcome_bind fun email => ?_
    refine Action.within_bind (secret.within_resolve c) fun hash => ?_
    exact Action.within_bind (Credentials.within_create c _) fun _ => trivial
  | updateCredential owner secret =>
    refine within_ofOutcome_bind fun owner => Action.within_bind (secret.within_resolve c) fun hash => ?_
    exact Action.within_bind (Credentials.within_update c owner hash) fun _ => trivial
  | check email password =>
    refine within_ofOutcome_bind fun email => within_ofOutcome_bind fun password => ?_
    exact Action.within_bind (Credentials.within_check c email password) fun _ => trivial

theorem tidy_ofOutcome_bind {r : Outcome β} {f : β → Action α} (hf : ∀ b, (f b).result.Tidy) :
    (Action.ofOutcome r >>= f).result.Tidy :=
  Action.tidy_bind rfl hf

theorem UseCase.tidy_perform (d : Directory) (parent : Context) (useCase : UseCase) :
    (useCase.perform d parent).result.Tidy := by
  cases useCase with
  | createUser name email password =>
    refine tidy_ofOutcome_bind fun email => tidy_ofOutcome_bind fun password => ?_
    exact Action.tidy_bind (Directory.tidy_createUser name email password) fun _ => rfl
  | getUser id =>
    exact tidy_ofOutcome_bind fun id => Action.tidy_bind (Directory.tidy_getUser id) fun _ => rfl
  | findUsers email =>
    exact tidy_ofOutcome_bind fun f => Action.tidy_bind (Directory.tidy_findUsers f) fun _ => rfl
  | authenticate email password =>
    refine tidy_ofOutcome_bind fun email => tidy_ofOutcome_bind fun password => ?_
    exact Action.tidy_bind (Directory.tidy_authenticate email password) fun _ => rfl
  | changePassword email current new =>
    refine tidy_ofOutcome_bind fun email => tidy_ofOutcome_bind fun current => tidy_ofOutcome_bind fun new => ?_
    exact Action.tidy_bind (Directory.tidy_changePassword email current new) fun _ => rfl

end Session

/-! ### Computations in a session -/

/-- From where `own` is open beside `frame`, the computation changes only the world, and where it ends, `Q` holds of
    its value and of what is open beside `frame` then. -/
def InSession.Moves (capacity : Nat) (frame : List TxId) (m : InSession α) (Q : α → List TxId → Prop)
    (own : List TxId) : Prop :=
  ∀ (u u' : Session) (a : α), u.world.database.Holds capacity (own ++ frame) → m u = .ok (a, u') →
    ∃ w own', u' = { u with world := w } ∧ w.database.Holds capacity (own' ++ frame) ∧ Q a own'

namespace InSession
variable {m : InSession α} {f : α → InSession β} {Q : α → List TxId → Prop} {R : β → List TxId → Prop}

theorem of_bind {u u' : Session} {b : β} (h : (m >>= f) u = .ok (b, u')) :
    ∃ a u₁, m u = .ok (a, u₁) ∧ f a u₁ = .ok (b, u') := by
  change (m u).bind (fun (a, u) => f a u) = _ at h
  cases hm : m u with
  | error cause =>
    rw [hm] at h
    cases h
  | ok r =>
    obtain ⟨a, u₁⟩ := r
    rw [hm] at h
    exact ⟨a, u₁, rfl, h⟩

theorem moves_pure {a : α} (h : Q a own) : (pure a : InSession α).Moves capacity frame Q own := by
  intro u u' a' hu hrun
  cases hrun
  exact ⟨_, own, rfl, hu, h⟩

theorem Moves.bind (hm : m.Moves capacity frame Q own)
    (hf : ∀ {a own'}, Q a own' → (f a).Moves capacity frame R own') : (m >>= f).Moves capacity frame R own := by
  intro u u' b hu hrun
  obtain ⟨a, u₁, hfirst, hrest⟩ := of_bind hrun
  obtain ⟨w, own₁, rfl, hw, ha⟩ := hm _ _ _ hu hfirst
  obtain ⟨w', own₂, rfl, hw', hb⟩ := hf ha _ _ _ hw hrest
  exact ⟨w', own₂, rfl, hw', hb⟩

theorem moves_get_bind {f : Session → InSession β} (h : ∀ u, (f u).Moves capacity frame R own) :
    ((get : InSession Session) >>= f).Moves capacity frame R own := by
  intro u u' b hu hrun
  exact h u u u' b hu hrun

theorem moves_program {p : Program Effect α} (h : p.Moves Q own) :
    (program s p).Moves capacity frame Q own := by
  intro u u' a hu hrun
  change ((p.inWorld s) u.world).bind (fun r => .ok (r.1, { u with world := r.2 })) = _ at hrun
  cases hp : p.inWorld s u.world with
  | error cause =>
    rw [hp] at hrun
    cases hrun
  | ok r =>
    obtain ⟨b, w⟩ := r
    rw [hp] at hrun
    cases hrun
    obtain ⟨own', hq, hw⟩ := h.of_inWorld hu hp
    exact ⟨w, own', rfl, hw, hq⟩

theorem moves_query (t : TxId) (q : Query α) :
    (onDatabase (·.query t q)).Moves capacity frame (fun _ o => o = own) own := by
  intro u u' a hu hrun
  cases hrun
  have hop : ∀ t', (Database.Op.query t q).ended? = some t' → t' ∉ frame := nofun
  exact ⟨_, own, rfl, hu.act hop, rfl⟩

theorem moves_pass (d : Duration) :
    (inWorld (modify (·.pass d))).Moves capacity frame (fun _ o => o = own) own := by
  intro u u' a hu hrun
  cases hrun
  exact ⟨_, own, rfl, hu, rfl⟩

/-! ### Rows -/

/-- A computation that can fail, and that leaves open what was open. -/
def Asks (capacity : Nat) (frame own : List TxId) (a : ExceptT Failure InSession α) : Prop :=
  a.run.Moves capacity frame (fun _ o => o = own) own

theorem asks_bind {a : ExceptT Failure InSession β} {f : β → ExceptT Failure InSession α}
    (ha : Asks capacity frame own a) (hf : ∀ b, Asks capacity frame own (f b)) :
    Asks capacity frame own (a >>= f) := by
  refine Moves.bind ha fun {r o} ho => ?_
  subst ho
  rcases r with e | b
  · exact moves_pure rfl
  · exact hf b

theorem asks_pure (a : α) : Asks capacity frame own (pure a) := moves_pure rfl

theorem asks_checked_bind {r : Outcome β} {f : β → ExceptT Failure InSession α}
    (hf : ∀ b, Asks capacity frame own (f b)) : Asks capacity frame own (Session.RowRequest.checked r >>= f) :=
  asks_bind (moves_pure rfl) hf

theorem moves_row (t : TxId) (request : Session.RowRequest) :
    (row t request).Moves capacity frame (fun _ o => o = own) own := by
  have hquery {α : Type} (q : Query α) {f : α → ExceptT Failure InSession Session.Reply}
      (hf : ∀ a, Asks capacity frame own (f a)) :
      Asks capacity frame own (ExceptT.mk (onDatabase (·.query t q)) >>= f) :=
    asks_bind (moves_query t q) hf
  cases request with
  | user | users | countUsers | credentialOf | credentialByEmail =>
    exact asks_checked_bind fun _ => hquery _ fun _ => asks_pure _
  | insertUser | updateUser =>
    exact asks_checked_bind fun _ => asks_checked_bind fun _ => hquery _ fun _ => asks_pure _
  | insertCredential | updateCredential =>
    exact asks_checked_bind fun _ => hquery _ fun _ => asks_pure _

theorem moves_rowIn (c : Context) (request : Session.RowRequest) :
    (rowIn c request).Moves capacity frame (fun _ o => o = own) own := by
  rw [rowIn]
  cases c.tx with
  | error f => exact moves_pure rfl
  | ok t => exact moves_row t request

/-! ### Bodies -/

theorem moves_inner (c : Context) (command : Session.InnerCommand) :
    (inner s c command).Moves capacity frame (fun r o => o = r.2.owned) c.owned := by
  cases command with
  | request r =>
    refine (moves_program (r.within_perform c).moves).bind fun {a o} ho => ?_
    exact moves_pure ho
  | row r => exact (moves_rowIn c r).bind fun ho => moves_pure ho
  | commit =>
    refine (moves_program (ScopeManager.moves_commit c)).bind ?_
    rintro ⟨r, c'⟩ o ⟨hc', rfl⟩
    exact moves_pure hc'.symm
  | rollback =>
    refine (moves_program (ScopeManager.moves_rollback c)).bind ?_
    rintro ⟨r, c'⟩ o ⟨hc', rfl⟩
    exact moves_pure hc'.symm
  | state => exact moves_get_bind fun u => moves_pure rfl
  | transaction => exact moves_pure rfl
  | pass d => exact (moves_pass d).bind fun ho => moves_pure ho
  | begin =>
    refine moves_get_bind fun u => ?_
    refine (moves_program (ScopeManager.moves_begin _ c c.owned)).bind fun {r o} ho => ?_
    rcases r with f | child
    · exact moves_pure ho
    · subst ho
      refine (moves_program (child.moves_drop c.owned)).bind fun {_ o} ho => ?_
      exact moves_get_bind fun u => moves_pure ho

theorem moves_body (failure : Option Failure) (steps : List Session.InnerStep) (c : Context) :
    (body s failure steps c).Moves capacity frame (fun r o => o = r.2.2.owned) c.owned := by
  induction steps generalizing c with
  | nil => exact moves_pure rfl
  | cons step steps ih =>
    refine (moves_inner c step.command).bind ?_
    rintro ⟨r, c'⟩ o rfl
    -- After a success, and after a failure that is ignored, the body goes on in the same way.
    have hgoesOn : (body s failure steps c' >>= fun rest => pure (rest.1, r :: rest.2.1, rest.2.2)).Moves
        capacity frame (fun r o => o = r.2.2.owned) c'.owned := by
      refine (ih c').bind ?_
      rintro ⟨result, results, c''⟩ o rfl
      exact moves_pure rfl
    rcases r with f | reply
    · dsimp only
      cases step.ignored with
      | false => exact moves_pure rfl
      | true => exact hgoesOn
    · exact hgoesOn

/-- A run of a body leaves nothing open, whatever the body does with its scope. -/
theorem moves_run (parent : Context) (steps : List Session.InnerStep) (failure : Option Failure) :
    (run s parent steps failure).Moves capacity frame (fun _ o => o = []) [] := by
  refine moves_get_bind fun u => ?_
  refine (moves_program (ScopeManager.moves_begin _ parent [])).bind fun {r o} ho => ?_
  rcases r with f | c
  · exact moves_pure ho
  · obtain rfl : o = c.owned := ho.trans (List.append_nil _)
    refine (moves_body failure steps c).bind ?_
    rintro ⟨result, results, c'⟩ o rfl
    exact (moves_program (ScopeManager.moves_conclude c' result)).bind fun ho => moves_pure ho

end InSession
end IdentityVault
