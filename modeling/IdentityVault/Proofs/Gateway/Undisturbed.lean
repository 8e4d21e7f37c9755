import IdentityVault.Gateway.Credentials
import IdentityVault.Gateway.Users
import IdentityVault.Proofs.Scope.Within
import IdentityVault.Proofs.World.Reliable

/-! What the gateways do in a scope where nothing fails: with which result they end, and what becomes of the
    transaction. Except where it is said otherwise, no deadline is set. -/

namespace IdentityVault
variable {s : Surroundings} {c : Context} {d : Database} {x : Transaction} {n : Nat} {w : World}

/-! ### Passwords -/

namespace Passwords

theorem ends_hash (hh : s.hasher.Faithful) (w : World) (p : Password) :
    (hash p).result.Ends s w fun r w' => ∃ stored, r = .ok stored ∧ s.hasher.Fits stored p ∧
      w'.database = w.database ∧ w'.ids = w.ids := by
  obtain ⟨hashed, hne, hx⟩ := hh.text w.hashes p.text
  have hstored : hashOf (.ok (.ok (Text.utf8 hashed))) = .ok ⟨hashed⟩ :=
    (hashOf_utf8 hashed).trans (if_neg (by simpa using hne))
  refine Action.ends_ask (congrArg (fun a => Except.ok (a, _)) hx) (.done ⟨⟨hashed⟩, hstored, fun q => ?_, rfl, rfl⟩)
  rw [hh.compare w.hashes p.text _ q.text hx]
  exact ⟨fun h => congrArg Password.mk h, congrArg Password.text⟩

/-- A comparison that breaks down, or that cannot use the hash, says no like any other one. -/
theorem ends_compare_any (w : World) (stored : PasswordHash) (q : Password) :
    (compare stored q).result.Ends s w fun r w' =>
      (r = .ok () ↔ s.hasher.compare (Text.utf8 stored.text) (Text.utf8 q.text) = .ok (.ok ())) ∧ w' = w := by
  refine Action.ends_ask rfl (.done ⟨?_, rfl⟩)
  rcases s.hasher.compare (Text.utf8 stored.text) (Text.utf8 q.text) with report | r
  · exact iff_of_false nofun nofun
  · exact ⟨congrArg Except.ok, Except.ok.inj⟩

theorem ends_compare (w : World) {stored : PasswordHash} {p : Password} (hfits : s.hasher.Fits stored p)
    (q : Password) : (compare stored q).result.Ends s w fun r w' => (r = .ok () ↔ p = q) ∧ w' = w := by
  refine (ends_compare_any w stored q).mono ?_
  rintro r w' ⟨hr, hw'⟩
  exact ⟨hr.trans (hfits q), hw'⟩

end Passwords

/-! ### Until a deadline -/

namespace Credentials

/-- Replacing the hash of an identity that has a credential, unless the deadline comes. -/
theorem ends_update_timely (hs : s.Faultless) (hd : d.Named) (hc : c.held? = some d.nextTx) (hw : w.Working d x n)
    {owner : User} (howner : x.snapshot.users.get? owner.id = some owner) {old : Credential}
    (hold : x.snapshot.credentials.get? owner.id = some old) (hkey : old.user = owner.id) (hash : PasswordHash) :
    (update c owner.id hash).result.Ends s w (World.Timely d c.deadline fun r y m => ∃ credential,
      r = .ok credential ∧
        (∃ now, credential = { old with email := owner.email, password := hash, updatedAt := now }) ∧
          y = ⟨x.snapshot.putCredential credential, x.log ++ [.updateCredential credential]⟩ ∧ m = n) := by
  have huser : x.perform (.user owner.id) = (.ok owner, x) := by rw [Transaction.perform, howner]; rfl
  have hcredential : x.perform (.credentialOf owner.id) = (.ok { old with email := owner.email }, x) := by
    simp [Transaction.perform, Tables.credentialOf?, howner, hold, Transaction.found]
  refine Context.ends_query_bind_timely hs hd hc hw huser fun hw₁ => ?_
  refine Context.ends_query_bind_timely hs hd hc hw₁ hcredential fun {w₂} hw₂ => ?_
  obtain ⟨now, w₃, hnow, hw₃⟩ := hw₂.timestamp s
  let credential : Credential := { old with email := owner.email, password := hash, updatedAt := now }
  have hallowed : x.snapshot.apply (.updateCredential credential) = .ok (x.snapshot.putCredential credential) :=
    Tables.apply_updateCredential.mpr ⟨⟨old, hkey.symm ▸ hold, rfl⟩, rfl⟩
  exact Action.ends_ask hnow <|
    Context.ends_query_bind_timely hs hd hc hw₃ (Transaction.write_eq_ok hallowed) fun hw₄ =>
      .done ⟨_, n, hw₄, .inl ⟨credential, rfl, ⟨now, rfl⟩, rfl, rfl⟩⟩

end Credentials

variable (hs : s.Faultless) (hd : d.Named) (hc : c.Open d.nextTx) (hw : w.Working d x n)
include hs hd hc hw

/-! ### Identities -/

namespace Users

theorem ends_get (id : Id) :
    (get c id).result.Ends s w fun r w' => r = Transaction.found (x.snapshot.users.get? id) ∧ w'.Working d x n :=
  Context.ends_query hs hd hc hw (.user id)

theorem ends_list (f : UserFilter) :
    (list c f).result.Ends s w fun r w' => r = .ok (x.snapshot.list f) ∧ w'.Working d x n :=
  Context.ends_query hs hd hc hw (.users f)

/-- A registration under an email that is taken is refused before an id is drawn. -/
theorem ends_create_of_taken {name : String} {email : Email} (h : x.snapshot.list (.byEmail email) ≠ []) :
    (create c name email).result.Ends s w fun r w' => r = .error .alreadyExists ∧ w'.Working d x n := by
  refine Context.ends_query_ok hs hd hc hw rfl fun {w'} hw' => ?_
  rw [if_pos (List.length_pos_iff.mpr h)]
  exact .done ⟨rfl, hw'⟩

theorem ends_create {name : String} {email : Email} (h : x.snapshot.list (.byEmail email) = []) {id : Id}
    (hid : s.id n = .ok id) {tables : Tables} (ht : x.snapshot.apply (.insertUser ⟨id, name, email⟩) = .ok tables) :
    (create c name email).result.Ends s w fun r w' => r = .ok ⟨id, name, email⟩ ∧
      w'.Working d ⟨tables, x.log ++ [.insertUser ⟨id, name, email⟩]⟩ (n + 1) := by
  refine Context.ends_query_ok hs hd hc hw rfl fun {w'} hw' => ?_
  rw [if_neg (by simp [h])]
  obtain ⟨w₁, hfresh, hw₁⟩ := hw'.freshId hid
  refine Action.ends_attempt hfresh (Context.ends_query_ok hs hd hc hw₁ (Transaction.write_eq_ok ht) fun hw₂ => ?_)
  exact .done ⟨rfl, hw₂⟩

end Users

/-! ### Credentials -/

namespace Credentials

theorem ends_requireNone {user : Id} (h : x.snapshot.credentialOf? user = none) :
    (requireNone c user).result.Ends s w fun r w' => r = .ok () ∧ w'.Working d x n := by
  refine (Context.ends_query hs hd hc hw (.credentialOf user)).bind ?_
  rintro _ w' ⟨rfl, hw'⟩
  rw [Transaction.perform, h]
  exact .done ⟨rfl, hw'⟩

theorem ends_create {owner : User} (howner : x.snapshot.users.get? owner.id = some owner)
    (hnone : x.snapshot.credentials.get? owner.id = none) (email : Email) (hash : PasswordHash) {id : Id}
    (hid : s.id n = .ok id) :
    (create c ⟨owner.id, email, hash⟩).result.Ends s w fun r w' => ∃ credential, r = .ok credential ∧
      (∃ now, credential = ⟨id, owner.id, owner.email, hash, now, now⟩) ∧
        w'.Working d ⟨x.snapshot.putCredential credential, x.log ++ [.insertCredential credential]⟩ (n + 1) := by
  have huser : x.perform (.user owner.id) = (.ok owner, x) := by rw [Transaction.perform, howner]; rfl
  have hfree : x.snapshot.credentialOf? owner.id = none := by simp [Tables.credentialOf?, howner, hnone]
  refine Context.ends_query_ok hs hd hc hw huser fun hw₁ => ?_
  refine Action.ends_bind_ok (ends_requireNone hs hd hc hw₁ hfree) fun {w₂} hw₂ => ?_
  obtain ⟨now, w₃, hnow, hw₃⟩ := hw₂.timestamp s
  obtain ⟨w₄, hfresh, hw₄⟩ := hw₃.freshId hid
  refine Action.ends_ask hnow (Action.ends_attempt hfresh ?_)
  refine Context.ends_query_ok hs hd hc hw₄ (Transaction.write_eq_ok ?_) fun hw₅ => .done ⟨_, rfl, ⟨now, rfl⟩, hw₅⟩
  exact Tables.apply_insertCredential.mpr ⟨⟨owner, howner⟩, hnone, rfl⟩

/-- Replacing the hash of an identity that has a credential. -/
theorem ends_update {owner : User} (howner : x.snapshot.users.get? owner.id = some owner) {old : Credential}
    (hold : x.snapshot.credentials.get? owner.id = some old) (hkey : old.user = owner.id) (hash : PasswordHash) :
    (update c owner.id hash).result.Ends s w fun r w' => ∃ credential, r = .ok credential ∧
      (∃ now, credential = { old with email := owner.email, password := hash, updatedAt := now }) ∧
        w'.Working d ⟨x.snapshot.putCredential credential, x.log ++ [.updateCredential credential]⟩ n := by
  refine (ends_update_timely hs hd hc.held hw howner hold hkey hash).mono fun {r w'} h => ?_
  obtain ⟨y, m, hw', credential, hr, hnow, rfl, rfl⟩ := h.of_open hc.deadline
  exact ⟨credential, hr, hnow, hw'⟩

theorem ends_check_of_unknown {email : Email} (h : x.snapshot.userByEmail? email = none) (p : Password) :
    (check c email p).result.Ends s w fun r w' => r = .error .invalidCredential ∧ w'.Working d x n := by
  refine (Context.ends_query hs hd hc hw (.credentialByEmail email)).bind ?_
  rintro _ w' ⟨rfl, hw'⟩
  rw [Transaction.perform, h]
  exact .done ⟨rfl, hw'⟩

/-- A login attempt to an identity with a credential succeeds with the right password and no other one. -/
theorem ends_check {email : Email} {u : User} (hu : x.snapshot.userByEmail? email = some u)
    {credential : Credential} (hcredential : x.snapshot.credentialOf? u.id = some credential) {p : Password}
    (hfits : s.hasher.Fits credential.password p) (q : Password) :
    (check c email q).result.Ends s w fun r w' =>
      r = (if p = q then .ok credential else .error .invalidCredential) ∧ w'.Working d x n := by
  refine (Context.ends_query hs hd hc hw (.credentialByEmail email)).bind ?_
  rintro _ w' ⟨rfl, hw'⟩
  rw [Transaction.perform, hu, Option.bind_some, hcredential]
  refine (Passwords.ends_compare w' hfits q).bind ?_
  rintro r _ ⟨hr, rfl⟩
  rcases r with e | ⟨⟩
  · have hwrong : p ≠ q := fun h => by cases hr.mpr h
    rw [if_neg hwrong]
    exact .done ⟨rfl, hw'⟩
  · rw [if_pos (hr.mp rfl)]
    exact .done ⟨rfl, hw'⟩

end Credentials
end IdentityVault
