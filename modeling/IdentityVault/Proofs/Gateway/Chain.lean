import IdentityVault.Proofs.Gateway.Workplace
import IdentityVault.Proofs.Scope.Backend
import IdentityVault.Proofs.World.Ends

/-! A call of a gateway is a chain of questions to one transaction. Nothing is done after a question that can change
    the transaction: what becomes of that question becomes of the call. -/

namespace IdentityVault

/-- The effect asks nothing of the database, and takes no time. -/
def Effect.Aside {β : Type} : Effect β → Prop
  | .timestamp | .freshId | .hash _ | .compare _ _ => True
  | _ => False

/-- Questions to the transaction `t`, one after the other, none of which waits for longer than until the deadline. A
    question that has come too late is the end. -/
inductive Program.Chain (deadline : Option Instant) (t : TxId) {α : Type} : Program Effect (Outcome α) → Prop
  | done (r : Outcome α) : Chain deadline t (.done r)
  | aside {β : Type} {e : Effect β} {next : β → Program Effect (Outcome α)} (he : e.Aside)
    (hn : ∀ b, Chain deadline t (next b)) : Chain deadline t (.ask e next)
  | read {β : Type} {q : Query β} {next : Outcome β → Program Effect (Outcome α)} (hq : q.write? = none)
    (hlate : next (.error .deadlineExceeded) = .done (.error .deadlineExceeded))
    (hn : ∀ r, Chain deadline t (next r)) : Chain deadline t (.ask (.query deadline t q) next)
  | last {β : Type} {q : Query β} {next : Outcome β → Program Effect (Outcome α)} (f : β → α)
    (hn : ∀ r, next r = .done (r.map f)) : Chain deadline t (.ask (.query deadline t q) next)

variable {α β : Type} {c : Context} {t : TxId}

namespace Context

theorem tx_eq_error {f : Failure} (h : c.tx = .error f) : f = .noTransaction ∨ f = .transactionFinalized := by
  rcases hs : c.scope with _ | ⟨k, _ | t⟩
  · exact .inl (Except.error.inj (h.symm.trans (tx_of_unbound hs)))
  · exact .inr (Except.error.inj (h.symm.trans (tx_of_finished hs)))
  · cases h.symm.trans (tx_of_open hs)

theorem query_of_error {f : Failure} (h : c.tx = .error f) (q : Query α) : (c.query q).result = .done (.error f) := by
  rw [query, h]
  rfl

theorem result_bind_of_held (h : c.held? = some t) (q : Query β) (k : Outcome β → Program Effect α) :
    (c.query q).result.bind k = .ask (.query c.deadline t q) k := by
  rw [query_of_held h]
  rfl

theorem query_bind_of_error {f : Failure} (h : c.tx = .error f) (q : Query β) (k : β → Action α) :
    (c.query q >>= k).result = .done (.error f) := by
  change (c.query q).result.bind _ = _
  rw [query_of_error h]
  rfl

theorem query_bind_of_held (h : c.held? = some t) (q : Query β) (k : β → Action α) :
    (c.query q >>= k).result = .ask (.query c.deadline t q) (ExceptT.bindCont k) :=
  result_bind_of_held h q _

theorem chain_query (h : c.held? = some t) (q : Query α) : (c.query q).result.Chain c.deadline t := by
  rw [query_of_held h]
  exact .last id fun r => congrArg Program.done (by cases r <;> rfl)

theorem chain_read_bind (h : c.held? = some t) {q : Query β} (hq : q.write? = none) {k : β → Action α}
    (hk : ∀ b, (k b).result.Chain c.deadline t) : (c.query q >>= k).result.Chain c.deadline t := by
  rw [query_bind_of_held h]
  refine .read hq rfl fun r => ?_
  rcases r with f | b
  · exact .done _
  · exact hk b

theorem chain_query_pure (h : c.held? = some t) (q : Query β) (f : β → α) :
    (c.query q >>= fun b => pure (f b)).result.Chain c.deadline t := by
  rw [query_bind_of_held h]
  refine .last f fun r => ?_
  cases r <;> rfl

end Context

namespace Action

theorem chain_ask_bind {deadline : Option Instant} {e : Effect β} (he : e.Aside) {k : β → Action α}
    (hk : ∀ b, (k b).result.Chain deadline t) : (ask e >>= k).result.Chain deadline t :=
  .aside he hk

theorem chain_attempt_bind {deadline : Option Instant} {e : Effect (Outcome β)} (he : e.Aside) {k : β → Action α}
    (hk : ∀ b, (k b).result.Chain deadline t) : (attempt e >>= k).result.Chain deadline t := by
  refine .aside he fun r => ?_
  rcases r with f | b
  · exact .done _
  · exact hk b

end Action

/-! ### The operations -/

namespace Users

theorem chain_create (h : c.held? = some t) (name : String) (email : Email) :
    (create c name email).result.Chain c.deadline t := by
  refine Context.chain_read_bind h rfl fun n => ?_
  split
  · exact .done _
  · exact Action.chain_attempt_bind (e := .freshId) trivial fun id => Context.chain_query_pure h _ _

theorem chain_update (h : c.held? = some t) (user : User) : (update c user).result.Chain c.deadline t :=
  Context.chain_read_bind h rfl fun _ => Context.chain_query_pure h _ _

end Users

namespace Credentials

theorem chain_requireNone_bind (h : c.held? = some t) (user : Id) {k : Unit → Action α}
    (hk : (k ()).result.Chain c.deadline t) : (requireNone c user >>= k).result.Chain c.deadline t := by
  change Program.Chain c.deadline t (((c.query (.credentialOf user)).result.bind _).bind _)
  rw [Context.query_of_held h]
  refine .read rfl rfl fun r => ?_
  rcases r with f | old
  · -- The call goes on only where there is no credential.
    cases f with
    | notFound => exact hk
    | _ => exact .done _
  · exact .done _

theorem chain_create (h : c.held? = some t) (request : CredentialRequest) :
    (create c request).result.Chain c.deadline t := by
  refine Context.chain_read_bind h rfl fun owner => chain_requireNone_bind h owner.id ?_
  refine Action.chain_ask_bind (e := .timestamp) trivial fun now => ?_
  refine Action.chain_attempt_bind (e := .freshId) trivial fun id => ?_
  exact Context.chain_query_pure h _ _

theorem chain_update (h : c.held? = some t) (user : Id) (password : PasswordHash) :
    (update c user password).result.Chain c.deadline t := by
  refine Context.chain_read_bind h rfl fun owner => Context.chain_read_bind h rfl fun old => ?_
  exact Action.chain_ask_bind (e := .timestamp) trivial fun now => Context.chain_query_pure h _ _

theorem chain_check (h : c.held? = some t) (email : Email) (password : Password) :
    (check c email password).result.Chain c.deadline t := by
  change Program.Chain c.deadline t ((c.query (.credentialByEmail email)).result.bind _)
  rw [Context.query_of_held h]
  -- Of all failures only that of an unknown email is hidden, so a deadline that was exceeded ends the call as such.
  refine .read rfl rfl fun r => ?_
  rcases r with f | credential
  · cases f <;> exact .done _
  · refine .aside trivial fun answer => ?_
    rcases answer with _ | f | ⟨⟩ <;> exact .done _

end Credentials

namespace GatewayCall

theorem chain (call : GatewayCall α) (h : c.held? = some t) : (call.perform c).result.Chain c.deadline t := by
  cases call with
  | user | users | credential => exact Context.chain_query h _
  | createUser name email => exact Users.chain_create h name email
  | updateUser user => exact Users.chain_update h user
  | createCredential request => exact Credentials.chain_create h request
  | updateCredential owner password => exact Credentials.chain_update h owner password
  | check email password => exact Credentials.chain_check h email password

/-- A call begins with a question, and ends there if the question has come too late. -/
theorem exists_ask (call : GatewayCall α) (h : c.held? = some t) : ∃ (β : Type) (q : Query β)
    (next : Outcome β → Program Effect (Outcome α)), (call.perform c).result = .ask (.query c.deadline t q) next ∧
      next (.error .deadlineExceeded) = .done (.error .deadlineExceeded) := by
  cases call with
  | user | users | credential => exact ⟨_, _, _, Context.query_of_held h _, rfl⟩
  | createUser | updateUser | createCredential | updateCredential =>
    exact ⟨_, _, _, Context.query_bind_of_held h _ _, rfl⟩
  | check email password => exact ⟨_, _, _, Context.result_bind_of_held h (.credentialByEmail email) _, rfl⟩

theorem result_of_error (call : GatewayCall α) {f : Failure} (h : c.tx = .error f) :
    (call.perform c).result = .done (.error f) := by
  cases call with
  | user | users | credential => exact Context.query_of_error h _
  | createUser | updateUser | createCredential | updateCredential => exact Context.query_bind_of_error h _ _
  | check email password =>
    change (c.query (.credentialByEmail email)).result.bind _ = _
    rw [Context.query_of_error h]
    rcases Context.tx_eq_error h with rfl | rfl <;> rfl

end GatewayCall

/-! ### In a world -/

variable {env : Surroundings} {w : World}

/-- What stands beside the questions comes to an end, and leaves the clock, the database and the calls as they are. -/
theorem World.handle_aside {e : Effect β} (he : e.Aside) (env : Surroundings) (w : World) :
    ∃ b w', InWorld.handle env e w = .ok (b, w') ∧ w'.clock = w.clock ∧ w'.database = w.database ∧
      w'.visits = w.visits := by
  cases e with
  | timestamp | freshId | hash | compare => exact ⟨_, _, rfl, rfl, rfl, rfl⟩
  | now | freshToken | begin | commit | rollback | release | query | crash => cases he

theorem Program.Ends.ask_query {deadline : Option Instant} {q : Query β} {next : Outcome β → Program Effect α}
    {Q : α → World → Prop} (h : ∀ {r w'}, World.Visited env q.call deadline (World.orFail (·.query t q)) w r w' →
      (next r).Ends env w' Q) : (Program.ask (.query deadline t q) next).Ends env w Q :=
  .ask rfl (h (World.visited env q.call deadline _ w))

end IdentityVault
