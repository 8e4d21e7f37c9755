import IdentityVault.Proofs.Directory.Refinement
import IdentityVault.Proofs.Gateway.Works

/-! Where the calls of a directory lead, whatever fails and whatever others do: a call that succeeds has published one
    log, of a form that the call determines, and a call that fails has published nothing. -/

namespace IdentityVault
variable {fits : Verifier} {α β : Type} {t : TxId} {start : Tables} {x : Transaction} {g : Stage}

/-- A result that is put in another form. -/
theorem Action.settled_map {action : Action β} {f : β → α} {P : β → Tables → List Write → Prop}
    {Q : α → Tables → List Write → Prop} (h : action.result.Leads fits (ScopeManager.Settled P) g)
    (hq : ∀ {b start log}, P b start log → Q (f b) start log) :
    (do pure (f (← action)) : Action α).result.Leads fits (ScopeManager.Settled Q) g := by
  refine Action.leads_bind h ?_ ?_
  · rintro b _ ⟨t, start, log, rfl, hb⟩
    exact ⟨t, start, log, rfl, hq hb⟩
  · intro e g he
    exact he

namespace Passwords

theorem leads_hash_bind {p : Password} {f : PasswordHash → Action α} {P : α → Tables → List Write → Prop}
    (hf : ∀ {h}, (f h).result.Leads fits (ScopeManager.Settled P) .unopened) :
    (hash p >>= f).result.Leads fits (ScopeManager.Settled P) .unopened := by
  refine Action.leads_bind (P := fun _ g => g = .unopened) ⟨rfl, fun answer => rfl⟩ ?_ ?_
  · rintro h _ rfl
    exact hf
  · rintro e _ rfl
    rfl

end Passwords

namespace Directory

/-- What a call publishes that answers with a reply, after it has seen the shared tables as they were at `start`. -/
def Call.Publishes (fits : Verifier) : Call → Session.Reply → Tables → List Write → Prop
  | .create name email _, reply, _, log => ∃ u c, reply = .user u ∧ u.name = name ∧ u.email = email ∧
    c.user = u.id ∧ log = [.insertUser u, .insertCredential c]
  | .change email current _, reply, start, log => ∃ owner old c, reply = .done ∧
    start.userByEmail? email = some owner ∧ start.credentials.get? owner.id = some old ∧
      fits (Text.utf8 old.password.text) (Text.utf8 current.text) ∧ c.user = owner.id ∧ c.id = old.id ∧
        log = [.updateCredential c]
  | .get _, _, _, log | .find _, _, _, log | .authenticate _ _, _, _, log => log = []

variable (d : Directory) (parent : Context)

theorem leads_createUser (name : String) (email : Email) (password : Password) :
    (d.createUser parent name email password).result.Leads fits
      (ScopeManager.Settled fun u => (Call.create name email password).Publishes fits (.user u)) .unopened := by
  refine Passwords.leads_hash_bind fun {h} => ScopeManager.leads_within fun {c t start} hc _ => ?_
  refine Action.works_bind (Users.works_create hc name email) ?_
  rintro u _ ⟨hname, hemail, rfl⟩
  refine Action.works_bind (Credentials.works_create hc _) ?_
  rintro credential _ ⟨⟨owner, howner, hcredential⟩, rfl⟩
  rw [Tables.get?_users_putUser, if_pos rfl] at howner
  cases howner
  exact Action.works_ok ⟨u, credential, rfl, hname, hemail, hcredential, rfl⟩

theorem leads_getUser (id : Id) :
    (d.getUser parent id).result.Leads fits (ScopeManager.Settled fun _ _ log => log = []) .unopened :=
  ScopeManager.leads_within fun hc _ => Context.works_of_read hc rfl rfl

theorem leads_findUsers (f : UserFilter) :
    (d.findUsers parent f).result.Leads fits (ScopeManager.Settled fun _ _ log => log = []) .unopened :=
  ScopeManager.leads_within fun hc _ => Context.works_of_read hc rfl rfl

theorem leads_authenticate (email : Email) (password : Password) :
    (d.authenticate parent email password).result.Leads fits (ScopeManager.Settled fun _ _ log => log = [])
      .unopened := by
  refine ScopeManager.leads_within fun hc _ => Action.works_bind (Credentials.works_check hc email password) ?_
  rintro credential _ ⟨rfl, -⟩
  exact Context.works_of_read hc rfl rfl

theorem leads_changePassword (email : Email) (current new : Password) :
    (d.changePassword parent email current new).result.Leads fits
      (ScopeManager.Settled fun _ => (Call.change email current new).Publishes fits .done) .unopened := by
  refine Passwords.leads_hash_bind fun {h} => ScopeManager.leads_within fun {c t start} hc hs => ?_
  refine Action.works_bind (Credentials.works_check hc email current) ?_
  rintro credential _ ⟨rfl, ⟨owner, howner, hcredential⟩, hfits⟩
  refine Action.works_bind (Credentials.works_update hc _ h) ?_
  rintro written _ ⟨⟨owner', old', howner', hold', hid, huser⟩, rfl⟩
  obtain ⟨old, hold, hkey, hsame, hpassword⟩ := hs.of_credentialOf? hcredential
  -- The owner that the update looks up again is the one that the check has found.
  rw [hkey] at howner'
  rw [hs.userKey howner', hcredential] at hold'
  cases hold'
  rw [hpassword] at hfits
  exact Action.works_ok ⟨owner, old, written, rfl, howner, hold, hfits, huser.trans hkey, hid.trans hsame, rfl⟩

/-- What a call has published when it ends, it answers for. -/
theorem leads_perform (call : Call) :
    (call.perform d parent).result.Leads fits (ScopeManager.Settled (call.Publishes fits)) .unopened := by
  cases call with
  | create name email password => exact Action.settled_map (leads_createUser d parent name email password) fun h => h
  | get id => exact Action.settled_map (leads_getUser d parent id) fun h => h
  | find f => exact Action.settled_map (leads_findUsers d parent f) fun h => h
  | authenticate email password => exact Action.settled_map (leads_authenticate d parent email password) fun h => h
  | change email current new => exact Action.settled_map (leads_changePassword d parent email current new) fun h => h

end Directory
end IdentityVault
