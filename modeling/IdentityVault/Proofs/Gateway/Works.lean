import IdentityVault.Gateway.Credentials
import IdentityVault.Gateway.Users
import IdentityVault.Proofs.Scope.Settle
import IdentityVault.Proofs.Store.Conflict

/-! What a gateway call has done to the transaction of its scope if it succeeds, whatever may fail on the way. -/

namespace IdentityVault

namespace Transaction
variable {x y : Transaction}

theorem of_write_eq_ok {w : Write} {u : Unit} (h : x.write w = (.ok u, y)) :
    y = ⟨x.snapshot.put w, x.log ++ [w]⟩ := by
  rw [write] at h
  split at h
  · next tables ha =>
    cases h
    rw [Tables.eq_put_of_apply ha]
  · cases h

end Transaction

variable {fits : Verifier} {c : Context} {t : TxId} {start : Tables} {x : Transaction}

namespace Context
variable {α β : Type} {Q : α → Transaction → Prop}

/-- Looking for a row leaves the transaction as it is, also where it fails. -/
theorem leads_read (h : c.held? = some t) {q : Query β} {row : Option β}
    (hq : x.perform q = (Transaction.found row, x)) :
    (c.query q).result.Leads fits (fun r g => g = .opened t start x ∧ ∀ {b}, r = .ok b → row = some b)
      (.opened t start x) := by
  rw [query_of_held h]
  refine ⟨rfl, start, x, rfl, fun f => ⟨rfl, nofun⟩, ?_⟩
  rw [hq]
  exact ⟨rfl, Transaction.found_eq_ok.mp⟩

theorem works_read_bind (h : c.held? = some t) {q : Query β} {row : Option β} {f : β → Action α}
    (hq : x.perform q = (Transaction.found row, x))
    (hf : ∀ {b}, row = some b → (f b).result.Leads fits (Stage.Works t start Q) (.opened t start x)) :
    (c.query q >>= f).result.Leads fits (Stage.Works t start Q) (.opened t start x) := by
  refine Action.leads_bind (leads_read h hq) ?_ ?_
  · rintro b _ ⟨rfl, hb⟩
    exact hf (hb rfl)
  · rintro e _ ⟨rfl, -⟩
    exact ⟨x, rfl, nofun⟩

theorem works_of_read (h : c.held? = some t) {q : Query β} (hq : (x.perform q).2 = x) {log : List Write}
    (hl : x.log = log) :
    (c.query q).result.Leads fits (Stage.Works t start fun _ y => y.log = log) (.opened t start x) := by
  refine (works_query h q).mono fun hr => hr.mono fun {a y} hy => ?_
  obtain rfl : y = x := (congrArg Prod.snd hy).symm.trans hq
  exact hl

/-- A write that was allowed, and what is done after it. -/
theorem works_write_bind (h : c.held? = some t) {q : Query Unit} {w : Write} {f : Unit → Action α}
    (hq : x.perform q = x.write w)
    (hf : (f ()).result.Leads fits (Stage.Works t start Q) (.opened t start ⟨x.snapshot.put w, x.log ++ [w]⟩)) :
    (c.query q >>= f).result.Leads fits (Stage.Works t start Q) (.opened t start x) := by
  refine works_query_bind h fun {u y} hu => ?_
  obtain rfl := Transaction.of_write_eq_ok (hq.symm.trans hu)
  exact hf

end Context

variable (hc : c.held? = some t)
include hc

namespace Users

theorem works_create (name : String) (email : Email) :
    (create c name email).result.Leads fits (Stage.Works t start fun u y => u.name = name ∧ u.email = email ∧
      y = ⟨x.snapshot.putUser u, x.log ++ [.insertUser u]⟩) (.opened t start x) := by
  refine Context.works_query_bind hc fun {n y} hn => ?_
  obtain rfl : x = y := congrArg Prod.snd hn
  by_cases h : 0 < n
  · rw [if_pos h]
    exact Action.works_error
  · rw [if_neg h]
    refine Action.works_attempt_freshId fun {id} => ?_
    exact Context.works_write_bind hc rfl (Action.works_ok ⟨rfl, rfl, rfl⟩)

end Users

namespace Credentials

theorem works_requireNone (user : Id) :
    (requireNone c user).result.Leads fits (Stage.Works t start fun _ y => y = x) (.opened t start x) := by
  refine Program.Leads.bind ((Context.leads_read hc rfl).mono ?_)
  rintro r _ ⟨rfl, -⟩
  have stays {r : Outcome Unit} : Stage.Works t start (fun _ y => y = x) r (.opened t start x) := ⟨x, rfl, fun _ => rfl⟩
  rcases r with e | old
  · cases e <;> exact stays
  · exact stays

theorem works_create (request : CredentialRequest) :
    (create c request).result.Leads fits (Stage.Works t start fun credential y =>
      (∃ owner, x.snapshot.users.get? request.user = some owner ∧ credential.user = owner.id) ∧
        y = ⟨x.snapshot.putCredential credential, x.log ++ [.insertCredential credential]⟩) (.opened t start x) := by
  refine Context.works_read_bind hc rfl fun {owner} howner => ?_
  refine Action.works_bind (works_requireNone hc owner.id) fun {_ y} hy => ?_
  subst hy
  refine Action.leads_ask rfl fun now => Action.works_attempt_freshId fun {id} => ?_
  exact Context.works_write_bind hc rfl (Action.works_ok ⟨⟨owner, howner, rfl⟩, rfl⟩)

/-- An update replaces the credential that the copy has for the identity. -/
theorem works_update (user : Id) (password : PasswordHash) :
    (update c user password).result.Leads fits (Stage.Works t start fun credential y =>
      (∃ owner old, x.snapshot.users.get? user = some owner ∧ x.snapshot.credentialOf? owner.id = some old ∧
        credential.id = old.id ∧ credential.user = old.user) ∧
        y = ⟨x.snapshot.putCredential credential, x.log ++ [.updateCredential credential]⟩) (.opened t start x) := by
  refine Context.works_read_bind hc rfl fun {owner} howner => Context.works_read_bind hc rfl fun {old} hold => ?_
  refine Action.leads_ask rfl fun now => ?_
  exact Context.works_write_bind hc rfl (Action.works_ok ⟨⟨owner, old, howner, hold, rfl, rfl⟩, rfl⟩)

/-- A login attempt that succeeds was made with a password that fits the credential on the copy. -/
theorem works_check (email : Email) (password : Password) :
    (check c email password).result.Leads fits (Stage.Works t start fun credential y => y = x ∧
      (∃ owner, x.snapshot.userByEmail? email = some owner ∧ x.snapshot.credentialOf? owner.id = some credential) ∧
        fits (Text.utf8 credential.password.text) (Text.utf8 password.text)) (.opened t start x) := by
  refine Program.Leads.bind ((Context.leads_read hc rfl).mono ?_)
  rintro r _ ⟨rfl, hr⟩
  rcases r with e | credential
  · cases e <;> exact Action.works_error
  obtain ⟨owner, howner, hcredential⟩ := Option.bind_eq_some_iff.mp (hr rfl)
  refine ⟨rfl, fun answer hfits => ?_⟩
  rcases answer with _ | e | ⟨⟩
  · exact Action.works_error
  · exact Action.works_error
  · exact Action.works_ok ⟨rfl, ⟨owner, howner, hcredential⟩, hfits rfl⟩

end Credentials
end IdentityVault
