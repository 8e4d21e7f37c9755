import IdentityVault.Gateway.Credentials
import IdentityVault.Gateway.Users
import IdentityVault.Proofs.Scope.Body

/-! The gateways stay within the scope of their context: they neither begin nor end one, so that what is made of them can
    be the body of a scope. -/

namespace IdentityVault
variable {α β : Type} {c : Context}

namespace Action

theorem within_bind {a : Action β} {f : β → Action α} (ha : a.result.Within c) (hf : ∀ b, (f b).result.Within c) :
    (a >>= f).result.Within c := by
  refine Program.Within.bind ha fun r => ?_
  rcases r with e | b
  · trivial
  · exact hf b

theorem within_ask {e : Effect β} {f : β → Action α} (he : e.Within c) (hf : ∀ b, (f b).result.Within c) :
    (ask e >>= f).result.Within c :=
  ⟨he, hf⟩

end Action

namespace Passwords

theorem within_hash (c : Context) (p : Password) : (hash p).result.Within c := ⟨trivial, fun _ => trivial⟩

theorem within_compare (c : Context) (h : PasswordHash) (p : Password) : (compare h p).result.Within c :=
  ⟨trivial, fun _ => trivial⟩

end Passwords

namespace Users

theorem within_get (c : Context) (id : Id) : (get c id).result.Within c := c.within_query _

theorem within_list (c : Context) (f : UserFilter) : (list c f).result.Within c := c.within_query _

theorem within_create (c : Context) (name : String) (email : Email) : (create c name email).result.Within c := by
  refine Action.within_bind (c.within_query _) fun n => ?_
  split
  · trivial
  · refine Action.within_bind ⟨trivial, fun _ => trivial⟩ fun id => ?_
    exact Action.within_bind (c.within_query _) fun _ => trivial

theorem within_update (c : Context) (user : User) : (update c user).result.Within c :=
  Action.within_bind (c.within_query _) fun _ => Action.within_bind (c.within_query _) fun _ => trivial

end Users

namespace Credentials

theorem within_requireNone (c : Context) (user : Id) : (requireNone c user).result.Within c := by
  refine Program.Within.bind (c.within_query _) fun r => ?_
  rcases r with e | old
  · cases e <;> trivial
  · trivial

theorem within_create (c : Context) (request : CredentialRequest) : (create c request).result.Within c := by
  refine Action.within_bind (c.within_query _) fun owner => ?_
  refine Action.within_bind (within_requireNone c owner.id) fun _ => ?_
  refine Action.within_ask trivial fun now => Action.within_bind ⟨trivial, fun _ => trivial⟩ fun id => ?_
  exact Action.within_bind (c.within_query _) fun _ => trivial

theorem within_update (c : Context) (user : Id) (password : PasswordHash) :
    (update c user password).result.Within c := by
  refine Action.within_bind (c.within_query _) fun owner => Action.within_bind (c.within_query _) fun old => ?_
  exact Action.within_ask trivial fun now => Action.within_bind (c.within_query _) fun _ => trivial

theorem within_check (c : Context) (email : Email) (password : Password) :
    (check c email password).result.Within c := by
  refine Program.Within.bind (c.within_query _) fun r => ?_
  rcases r with e | credential
  · cases e <;> trivial
  · refine Program.Within.bind (Passwords.within_compare c credential.password password) fun r => ?_
    rcases r with e | ⟨⟩ <;> trivial

end Credentials
end IdentityVault
