import IdentityVault.Proofs.Gateway.Atomicity
import IdentityVault.Proofs.Scope.Within
import IdentityVault.Proofs.Store.Lookup
import IdentityVault.World.Sources

/-! The rules of the gateways and those of the tables. A call that writes looks first for the rows that would be in its
    way, and the tables look for them once more. On the copies of a database that can be reached both agree, so that a
    call is refused for the reasons that its own questions give, and else changes the row that it names. -/

namespace IdentityVault

/-! ### One transaction among others -/

namespace Database
variable {α : Type} {d d' : Database} {t : TxId} {x y : Transaction}

/-- The transaction `t` has come to be `y`, and all else is the same. -/
structure Became (t : TxId) (y : Transaction) (d d' : Database) : Prop where
  tables : d'.tables = d.tables
  tx? : ∀ u, d'.tx? u = if u = t then some y else d.tx? u
  available : d'.available = d.available

namespace Became

theorem refl (hx : d.tx? t = some x) : d.Became t x d where
  tables := rfl
  tx? u := by
    split
    · next hu => rw [hu, hx]
    · rfl
  available := rfl

theorem same (h : d.Became t x d') (hx : d.tx? t = some x) : d.Same d' where
  tables := h.tables
  tx? u := by
    rw [h.tx?]
    split
    · next hu => rw [hu, hx]
    · rfl
  available := h.available

theorem tx (h : d.Became t x d') : d'.tx? t = some x := (h.tx? t).trans (if_pos rfl)

theorem query (h : d.Became t x d') (q : Query α) : d.Became t (x.perform q).2 (d'.query t q).2 where
  tables := (d'.tables_query t q).trans h.tables
  tx? u := by
    rw [tx?_query h.tx, h.tx?]
    split <;> rfl
  available := (d'.available_query t q).trans h.available

end Became
end Database

namespace World
variable {α : Type}

/-- An action in the transaction `t` of `d` has ended with `r` as `P` says, or its deadline has come before anything was
    changed. -/
def InTime (d : Database) (t : TxId) (deadline : Option Instant) (P : Outcome α → Transaction → Prop) (r : Outcome α)
    (w : World) : Prop :=
  (∃ y, d.Became t y w.database ∧ P r y) ∨
    r = .error .deadlineExceeded ∧ Expired deadline w.clock ∧ d.Same w.database

/-- What an action in a transaction is answered in time, without an id being given out. -/
def Answered (d : Database) (t : TxId) (deadline : Option Instant) (ids : Nat) (answer : Outcome α) (y : Transaction)
    (r : Outcome α) (w : World) : Prop :=
  w.ids = ids ∧ InTime d t deadline (fun r z => r = answer ∧ z = y) r w

end World

variable {α β : Type} {env : Surroundings} {c : Context} {d : Database} {t : TxId} {x y : Transaction} {w : World}

namespace Database.Became

theorem freshId (h : d.Became t x w.database) {id : Id} (hid : env.id w.ids = .ok id) :
    ∃ w', InWorld.handle env .freshId w = .ok (.ok id, w') ∧ d.Became t x w'.database :=
  ⟨{ w with ids := w.ids + 1 }, by rw [← hid]; rfl, h⟩

theorem timestamp (h : d.Became t x w.database) (env : Surroundings) :
    ∃ now w', InWorld.handle env .timestamp w = .ok (now, w') ∧ w'.ids = w.ids ∧ d.Became t x w'.database :=
  ⟨_, _, rfl, rfl, h⟩

end Database.Became

theorem Action.ends_bind_answered {a : Action β} {f : β → Action α} {answer : Outcome β} {deadline : Option Instant}
    {P : Outcome α → Transaction → Prop} (ha : a.result.Ends env w (World.Answered d t deadline w.ids answer y))
    (hok : ∀ {b w'}, answer = .ok b → w'.ids = w.ids → d.Became t y w'.database →
      (f b).result.Ends env w' (World.InTime d t deadline P))
    (herror : ∀ {e}, answer = .error e → P (.error e) y) :
    (a >>= f).result.Ends env w (World.InTime d t deadline P) := by
  refine Action.ends_bind ha ?_ ?_
  · rintro b w' ⟨hids, ⟨_, hw', hanswer, rfl⟩ | ⟨hr, -⟩⟩
    · exact hok hanswer.symm hids hw'
    · cases hr
  · rintro e w' ⟨-, ⟨_, hw', hanswer, rfl⟩ | ⟨hr, hlate⟩⟩
    · exact .inl ⟨_, hw', herror hanswer.symm⟩
    · cases hr
      exact .inr ⟨rfl, hlate⟩

theorem Action.ends_bind_granted {a : Action β} {f : β → Action α} {b : β} {deadline : Option Instant}
    {P : Outcome α → Transaction → Prop} (ha : a.result.Ends env w (World.Answered d t deadline w.ids (.ok b) y))
    (hf : ∀ {w'}, w'.ids = w.ids → d.Became t y w'.database →
      (f b).result.Ends env w' (World.InTime d t deadline P)) :
    (a >>= f).result.Ends env w (World.InTime d t deadline P) := by
  refine ends_bind_answered ha ?_ (fun he => by cases he)
  rintro _ w' ⟨⟩ hids hw'
  exact hf hids hw'

theorem Action.ends_bind_refused {a : Action β} {f : β → Action α} {e : Failure} {deadline : Option Instant}
    {P : Outcome α → Transaction → Prop} (ha : a.result.Ends env w (World.Answered d t deadline w.ids (.error e) y))
    (hP : P (.error e) y) : (a >>= f).result.Ends env w (World.InTime d t deadline P) := by
  refine ends_bind_answered ha (fun he => by cases he) ?_
  rintro _ ⟨⟩
  exact hP

/-- A question to a transaction that is as it was at first is answered by it. -/
theorem Context.ends_query_answered (hs : env.Faultless) (hc : c.held? = some t) (hx : d.tx? t = some x)
    (hw : d.Became t x w.database) (q : Query α) :
    (c.query q).result.Ends env w (World.Answered d t c.deadline w.ids (x.perform q).1 (x.perform q).2) := by
  refine (ends_query_until hs hc q w).mono ?_
  rintro r w' ⟨hids, ⟨rfl, hdb⟩ | ⟨rfl, hdb, hlate⟩⟩
  · rw [Database.query_of_some hw.tx]
    exact ⟨hids, .inl ⟨_, hdb ▸ hw.query q, rfl, rfl⟩⟩
  · exact ⟨hids, .inr ⟨rfl, hlate, hdb ▸ hw.same hx⟩⟩

/-- A write, and the row that is yielded if it was allowed. -/
theorem Context.ends_write {q : Query Unit} {answer : Outcome Unit} {a : α} {P : Outcome α → Transaction → Prop}
    (hs : env.Faultless) (hc : c.held? = some t) (hx : d.tx? t = some x) (hw : d.Became t x w.database)
    (hq : x.perform q = (answer, y)) (hP : P (answer.map fun _ => a) y) :
    (c.query q >>= fun _ => pure a).result.Ends env w (World.InTime d t c.deadline P) := by
  have hquery := ends_query_answered hs hc hx hw q
  rw [hq] at hquery
  refine Action.ends_bind_answered hquery ?_ ?_
  · rintro ⟨⟩ w' rfl - hw'
    exact .done (.inl ⟨y, hw', hP⟩)
  · rintro e rfl
    exact hP

/-! ### What a call may be answered -/

namespace Transaction

theorem write_eq_error {write : Write} {f : Failure} (h : x.snapshot.apply write = .error f) :
    x.write write = (.error f, x) := by
  rw [Transaction.write, h]

theorem perform_insertCredential {c : Credential} (howner : ∃ u, x.snapshot.users.get? c.user = some u)
    (hnone : x.snapshot.credentials.get? c.user = none) :
    x.perform (.insertCredential c) = (.ok (), ⟨x.snapshot.putCredential c, x.log ++ [.insertCredential c]⟩) :=
  write_eq_ok (Tables.apply_insertCredential.mpr ⟨howner, hnone, rfl⟩)

theorem perform_updateCredential {c old : Credential} (hold : x.snapshot.credentialOf? c.user = some old)
    (hid : c.id = old.id) :
    x.perform (.updateCredential c) = (.ok (), ⟨x.snapshot.putCredential c, x.log ++ [.updateCredential c]⟩) := by
  obtain ⟨u, row, -, hrow, rfl⟩ := Tables.credentialOf?_eq_some.mp hold
  exact write_eq_ok (Tables.apply_updateCredential.mpr ⟨⟨row, hrow, hid.symm⟩, rfl⟩)

/-- A call is refused where a row is `missing` or a place is `taken`, and does nothing then. Else it succeeds with what
    `change` says. -/
structure Ruled (x : Transaction) (missing taken : Prop) (change : α → Transaction → Prop) (r : Outcome α)
    (y : Transaction) : Prop where
  notFound : r = .error .notFound ↔ missing
  alreadyExists : r = .error .alreadyExists ↔ taken
  refused : ∀ f, r = .error f → (missing ∨ taken) ∧ y = x
  granted : ∀ a, r = .ok a → change a y

namespace Ruled
variable {missing taken : Prop} {change : α → Transaction → Prop}

theorem of_missing (hm : missing) (ht : ¬taken) : x.Ruled missing taken change (.error .notFound) x :=
  ⟨iff_of_true rfl hm, iff_of_false nofun ht, fun _ _ => ⟨.inl hm, rfl⟩, nofun⟩

theorem of_taken (hm : ¬missing) (ht : taken) : x.Ruled missing taken change (.error .alreadyExists) x :=
  ⟨iff_of_false nofun hm, iff_of_true rfl ht, fun _ _ => ⟨.inr ht, rfl⟩, nofun⟩

theorem of_granted {a : α} (hm : ¬missing) (ht : ¬taken) (ha : change a y) :
    x.Ruled missing taken change (.ok a) y := by
  refine ⟨iff_of_false nofun hm, iff_of_false nofun ht, nofun, fun b hb => ?_⟩
  cases hb
  exact ha

end Ruled

/-- `y` has done one write after `x`, which put an identity under its id. -/
structure PutsUser (x : Transaction) (write : User → Write) (u : User) (y : Transaction) : Prop where
  users : ∀ k, y.snapshot.users.get? k = if u.id = k then some u else x.snapshot.users.get? k
  credentials : y.snapshot.credentials = x.snapshot.credentials
  log : y.log = x.log ++ [write u]

/-- `y` has done one write after `x`, which put a credential under its owner. It is seen as it is, by the id of the
    owner and by the email that the owner has. -/
structure PutsCredential (x : Transaction) (write : Credential → Write) (c : Credential) (y : Transaction) : Prop where
  users : y.snapshot.users = x.snapshot.users
  credentials : ∀ k, y.snapshot.credentials.get? k = if c.user = k then some c else x.snapshot.credentials.get? k
  byOwner : ∀ k, y.snapshot.credentialOf? k = if c.user = k then some c else x.snapshot.credentialOf? k
  byEmail : ∀ e, y.snapshot.credentialByEmail? e = if c.email = e then some c else x.snapshot.credentialByEmail? e
  log : y.log = x.log ++ [write c]

theorem putsUser (x : Transaction) (write : User → Write) (u : User) :
    x.PutsUser write u ⟨x.snapshot.putUser u, x.log ++ [write u]⟩ :=
  ⟨x.snapshot.get?_users_putUser u, rfl, rfl⟩

theorem putsCredential (hs : x.snapshot.Sound) (write : Credential → Write) {owner : User} {c : Credential}
    (howner : x.snapshot.users.get? c.user = some owner) (he : c.email = owner.email) :
    x.PutsCredential write c ⟨x.snapshot.putCredential c, x.log ++ [write c]⟩ where
  users := rfl
  credentials := x.snapshot.get?_credentials_putCredential c
  byOwner := Tables.credentialOf?_putCredential_self howner he
  byEmail := hs.credentialByEmail?_putCredential howner he
  log := rfl

end Transaction

/-! ### The calls -/

section Calls
variable (hs : env.Faultless) (hc : c.held? = some t) (hx : d.tx? t = some x) (hw : d.Became t x w.database)
include hs hc hx hw

namespace Users

theorem ruled_create (name : String) (email : Email) {id : Id} (hid : env.id w.ids = .ok id) :
    (create c name email).result.Ends env w (World.InTime d t c.deadline (x.Ruled False
      ((∃ k u, x.snapshot.users.get? k = some u ∧ u.email = email) ∨ ∃ u, x.snapshot.users.get? id = some u)
      fun u y => u = ⟨id, name, email⟩ ∧ x.PutsUser .insertUser u y)) := by
  have hnobody : x.snapshot.userByEmail? email = none ↔ ¬∃ k u, x.snapshot.users.get? k = some u ∧ u.email = email := by
    rw [Tables.userByEmail?_eq_none]
    simp only [not_exists, not_and, ne_eq]
  refine Action.ends_bind_granted (Context.ends_query_answered hs hc hx hw (.countUsers (.byEmail email))) ?_
  intro w₁ hids hw₁
  by_cases hlist : x.snapshot.list (.byEmail email) = []
  case neg =>
    have htaken := not_not.mp ((Tables.list_byEmail_eq_nil.trans hnobody).not.mp hlist)
    rw [if_pos (List.length_pos_iff.mpr hlist)]
    exact .done (.inl ⟨x, hw₁, .of_taken not_false (.inl htaken)⟩)
  have hemail := Tables.list_byEmail_eq_nil.mp hlist
  rw [if_neg (by simp [hlist])]
  obtain ⟨w₂, hfresh, hw₂⟩ := hw₁.freshId (hids.symm ▸ hid)
  refine Action.ends_attempt hfresh ?_
  cases hfree : x.snapshot.users.get? id with
  | some u =>
    have happly : x.snapshot.apply (.insertUser ⟨id, name, email⟩) = .error .alreadyExists :=
      Tables.apply_insertUser_of_taken (.inl (by simp [hfree]))
    refine Context.ends_write hs hc hx hw₂ (Transaction.write_eq_error happly) ?_
    exact .of_taken not_false (.inr ⟨u, rfl⟩)
  | none =>
    have happly := Tables.apply_insertUser (u := ⟨id, name, email⟩).mpr ⟨hfree, hemail, rfl⟩
    refine Context.ends_write hs hc hx hw₂ (Transaction.write_eq_ok happly) ?_
    refine .of_granted not_false ?_ ?_
    · rintro (h | ⟨u, hu⟩)
      · exact hnobody.mp hemail h
      · cases hu
    · exact ⟨rfl, x.putsUser .insertUser _⟩

theorem ruled_update (hsound : x.snapshot.Sound) (user : User) :
    (update c user).result.Ends env w (World.InTime d t c.deadline (x.Ruled (x.snapshot.users.get? user.id = none)
      ((∃ old, x.snapshot.users.get? user.id = some old) ∧
        ∃ k other, x.snapshot.users.get? k = some other ∧ k ≠ user.id ∧ other.email = user.email)
      fun u y => u = user ∧ x.PutsUser .updateUser u y)) := by
  have hquery := Context.ends_query_answered hs hc hx hw (.user user.id)
  cases hold : x.snapshot.users.get? user.id with
  | none =>
    rw [Transaction.perform, hold] at hquery
    exact Action.ends_bind_refused hquery (.of_missing rfl (by simp))
  | some old =>
    rw [Transaction.perform, hold] at hquery
    refine Action.ends_bind_granted hquery ?_
    intro w₁ hids hw₁
    by_cases hother : ∃ k other, x.snapshot.users.get? k = some other ∧ k ≠ user.id ∧ other.email = user.email
    · obtain ⟨k, other, hk, hne, hemail⟩ := hother
      have hkey : other.id = k := hsound.userKey hk
      have hfound : x.snapshot.userByEmail? user.email = some other :=
        hsound.userByEmail?_eq_some.mpr ⟨hkey.symm ▸ hk, hemail⟩
      have happly : x.snapshot.apply (.updateUser user) = .error .alreadyExists :=
        Tables.apply_updateUser_of_taken (by simp [hold]) hfound (hkey ▸ hne)
      refine Context.ends_write hs hc hx hw₁ (Transaction.write_eq_error happly) ?_
      exact .of_taken (Option.some_ne_none old) ⟨⟨old, rfl⟩, k, other, hk, hne, hemail⟩
    · have hown (v : User) (hv : x.snapshot.userByEmail? user.email = some v) : v.id = user.id := by
        obtain ⟨hv, hemail⟩ := hsound.userByEmail?_eq_some.mp hv
        exact by_contra fun hne => hother ⟨v.id, v, hv, hne, hemail⟩
      have happly := Tables.apply_updateUser.mpr ⟨⟨old, hold⟩, hown, rfl⟩
      refine Context.ends_write hs hc hx hw₁ (Transaction.write_eq_ok happly) ?_
      exact .of_granted (Option.some_ne_none old) (fun h => hother h.2) ⟨rfl, x.putsUser .updateUser user⟩

end Users

namespace Credentials

theorem answered_requireNone (user : Id) :
    (requireNone c user).result.Ends env w (World.Answered d t c.deadline w.ids
      (if (x.snapshot.credentialOf? user).isSome then .error .alreadyExists else .ok ()) x) := by
  refine (Context.ends_query_answered hs hc hx hw (.credentialOf user)).bind ?_
  rintro r w' ⟨hids, ⟨y, hw', rfl, hy⟩ | ⟨rfl, hlate⟩⟩
  · obtain rfl : y = x := hy
    rw [Transaction.perform]
    cases y.snapshot.credentialOf? user <;> exact .done ⟨hids, .inl ⟨_, hw', rfl, rfl⟩⟩
  · exact .done ⟨hids, .inr ⟨rfl, hlate⟩⟩

theorem ruled_create (hsound : x.snapshot.Sound) (request : CredentialRequest) {id : Id} (hid : env.id w.ids = .ok id) :
    (create c request).result.Ends env w (World.InTime d t c.deadline (x.Ruled
      (x.snapshot.users.get? request.user = none) (∃ row, x.snapshot.credentials.get? request.user = some row)
      fun credential y => (∃ owner now, x.snapshot.users.get? request.user = some owner ∧
        credential = ⟨id, request.user, owner.email, request.password, now, now⟩) ∧
          x.PutsCredential .insertCredential credential y)) := by
  have hquery := Context.ends_query_answered hs hc hx hw (.user request.user)
  cases howner : x.snapshot.users.get? request.user with
  | none =>
    rw [Transaction.perform, howner] at hquery
    refine Action.ends_bind_refused hquery (.of_missing rfl ?_)
    rintro ⟨row, hrow⟩
    obtain ⟨owner, hu⟩ := hsound.owner hrow
    rw [hsound.credentialKey hrow, howner] at hu
    cases hu
  | some owner =>
    rw [Transaction.perform, howner] at hquery
    refine Action.ends_bind_granted hquery ?_
    intro w₁ hids₁ hw₁
    have hkey : owner.id = request.user := hsound.userKey howner
    rw [← hkey] at howner ⊢
    have hnone := answered_requireNone hs hc hx hw₁ owner.id
    rw [Tables.credentialOf?_eq_map howner, Option.isSome_map] at hnone
    cases hrow : x.snapshot.credentials.get? owner.id with
    | some row =>
      rw [hrow] at hnone
      exact Action.ends_bind_refused hnone (.of_taken (Option.some_ne_none owner) ⟨row, rfl⟩)
    | none =>
      rw [hrow] at hnone
      refine Action.ends_bind_granted hnone ?_
      intro w₂ hids₂ hw₂
      obtain ⟨now, w₃, hnow, hids₃, hw₃⟩ := hw₂.timestamp env
      obtain ⟨w₄, hfresh, hw₄⟩ := hw₃.freshId (hids₃.trans (hids₂.trans hids₁) ▸ hid)
      refine Action.ends_ask hnow (Action.ends_attempt hfresh ?_)
      refine Context.ends_write hs hc hx hw₄ (Transaction.perform_insertCredential ⟨owner, howner⟩ hrow) ?_
      refine .of_granted (Option.some_ne_none owner) (by simp) ⟨⟨owner, now, rfl, rfl⟩, ?_⟩
      exact Transaction.putsCredential hsound .insertCredential howner rfl

theorem ruled_update (hsound : x.snapshot.Sound) (user : Id) (password : PasswordHash) :
    (update c user password).result.Ends env w (World.InTime d t c.deadline (x.Ruled
      (x.snapshot.users.get? user = none ∨ x.snapshot.credentials.get? user = none) False
      fun credential y => (∃ old now, x.snapshot.credentialOf? user = some old ∧
        credential = { old with password, updatedAt := now }) ∧
          x.PutsCredential .updateCredential credential y)) := by
  have hquery := Context.ends_query_answered hs hc hx hw (.user user)
  cases howner : x.snapshot.users.get? user with
  | none =>
    rw [Transaction.perform, howner] at hquery
    exact Action.ends_bind_refused hquery (.of_missing (.inl rfl) not_false)
  | some owner =>
    rw [Transaction.perform, howner] at hquery
    refine Action.ends_bind_granted hquery ?_
    intro w₁ _ hw₁
    obtain rfl : owner.id = user := hsound.userKey howner
    have hquery := Context.ends_query_answered hs hc hx hw₁ (.credentialOf owner.id)
    cases hold : x.snapshot.credentialOf? owner.id with
    | none =>
      rw [Transaction.perform, hold] at hquery
      refine Action.ends_bind_refused hquery (.of_missing (.inr ?_) not_false)
      rwa [Tables.credentialOf?_eq_map howner, Option.map_eq_none_iff] at hold
    | some old =>
      rw [Transaction.perform, hold] at hquery
      refine Action.ends_bind_granted hquery ?_
      intro w₂ _ hw₂
      obtain ⟨now, w₃, hnow, -, hw₃⟩ := hw₂.timestamp env
      refine Action.ends_ask hnow ?_
      obtain ⟨hkey, u, hu, hemail⟩ := hsound.owner_of_credentialOf? hold
      cases howner.symm.trans hu
      rw [← hkey] at howner hold ⊢
      refine Context.ends_write hs hc hx hw₃ (Transaction.perform_updateCredential hold rfl) ?_
      refine .of_granted ?_ not_false ⟨⟨old, now, rfl, ?_⟩, Transaction.putsCredential hsound .updateCredential howner rfl⟩
      · rintro (h | h)
        · cases h
        · rw [Tables.credentialOf?_eq_map howner, h] at hold
          cases hold
      · rw [hemail]

end Credentials
end Calls

namespace GatewayCall

/-- What the calls that write come to in the scope of `c`, whose transaction is `x`, and that the tables have nothing
    against a credential that has passed the questions of its call. -/
structure Agreement (env : Surroundings) (c : Context) (t : TxId) (x : Transaction) (w : World) : Prop where
  createUser : ∀ name email id, env.id w.ids = .ok id →
    ((createUser name email).perform c).result.Ends env w (World.InTime w.database t c.deadline (x.Ruled False
      ((∃ k u, x.snapshot.users.get? k = some u ∧ u.email = email) ∨ ∃ u, x.snapshot.users.get? id = some u)
      fun u y => u = ⟨id, name, email⟩ ∧ x.PutsUser .insertUser u y))
  updateUser : ∀ user, ((updateUser user).perform c).result.Ends env w (World.InTime w.database t c.deadline
    (x.Ruled (x.snapshot.users.get? user.id = none)
      ((∃ old, x.snapshot.users.get? user.id = some old) ∧
        ∃ k other, x.snapshot.users.get? k = some other ∧ k ≠ user.id ∧ other.email = user.email)
      fun u y => u = user ∧ x.PutsUser .updateUser u y))
  createCredential : ∀ request id, env.id w.ids = .ok id →
    ((createCredential request).perform c).result.Ends env w (World.InTime w.database t c.deadline (x.Ruled
      (x.snapshot.users.get? request.user = none) (∃ row, x.snapshot.credentials.get? request.user = some row)
      fun credential y => (∃ owner now, x.snapshot.users.get? request.user = some owner ∧
        credential = ⟨id, request.user, owner.email, request.password, now, now⟩) ∧
          x.PutsCredential .insertCredential credential y))
  updateCredential : ∀ user password,
    ((updateCredential user password).perform c).result.Ends env w (World.InTime w.database t c.deadline (x.Ruled
      (x.snapshot.users.get? user = none ∨ x.snapshot.credentials.get? user = none) False
      fun credential y => (∃ old now, x.snapshot.credentialOf? user = some old ∧
        credential = { old with password, updatedAt := now }) ∧
          x.PutsCredential .updateCredential credential y))
  insertAllowed : ∀ k owner credential, (x.perform (.user k)).1 = .ok owner →
    (x.perform (.credentialOf owner.id)).1 = .error .notFound → credential.user = owner.id →
      (x.perform (.insertCredential credential)).1 = .ok ()
  updateAllowed : ∀ k owner old credential, (x.perform (.user k)).1 = .ok owner →
    (x.perform (.credentialOf owner.id)).1 = .ok old → credential.user = old.user → credential.id = old.id →
      (x.perform (.updateCredential credential)).1 = .ok ()

/-- Where nothing fails, the rules of the gateways and those of the tables agree on every copy that can be reached, and
    a call that is refused changes nothing. -/
theorem rules_agree (capacity : Nat) (ops : List Database.Op) (hs : env.Faultless) (hc : c.held? = some t)
    (hw : w.database = (Database.new capacity).after ops) (hx : w.database.tx? t = some x) :
    Agreement env c t x w := by
  have hn : w.database.Named := hw ▸ (Database.Named.new capacity).after ops
  have hd : w.database.Sound := hw ▸ (Database.Sound.new capacity).after (.new capacity) ops
  have hsound := hd.snapshot (hn.mem_opened.mpr hx)
  have hstart := Database.Became.refl hx
  refine ⟨fun name email id => Users.ruled_create hs hc hx hstart name email,
    Users.ruled_update hs hc hx hstart hsound,
    fun request id => Credentials.ruled_create hs hc hx hstart hsound request,
    Credentials.ruled_update hs hc hx hstart hsound, ?_, ?_⟩
  · intro k owner credential howner hnone huser
    have hget := Transaction.found_eq_ok.mp howner
    obtain rfl : owner.id = k := hsound.userKey hget
    rw [← huser] at hget hnone
    cases hrow : x.snapshot.credentials.get? credential.user with
    | none => rw [Transaction.perform_insertCredential ⟨owner, hget⟩ hrow]
    | some row =>
      rw [Transaction.perform, Tables.credentialOf?_eq_map hget, hrow] at hnone
      cases hnone
  · intro k owner old credential _ hold huser hid
    have hseen := Transaction.found_eq_ok.mp hold
    obtain ⟨hkey, -⟩ := hsound.owner_of_credentialOf? hseen
    rw [← hkey, ← huser] at hseen
    rw [Transaction.perform_updateCredential hseen hid]

/-- Where Ann owns a credential, her email is not given to anybody else. -/
theorem rules_agree_of_owning :
    let env := Surroundings.calm Id.numbered ⟨0, 0⟩ .plain
    let c : Context := ⟨0, none, some ⟨0, some 1⟩⟩
    let w : World := .new ((Database.new 2).after Database.owning)
    ∃ x, w.database.tx? 1 = some x ∧ Agreement env c 1 x w ∧
      ((createUser "Bob" ⟨"ann@example.com"⟩).perform c).result.Ends env w fun r _ => r = .error .alreadyExists := by
  intro env c w
  have h : Agreement env c 1 _ w := rules_agree 2 Database.owning (fun _ _ => rfl) rfl rfl rfl
  refine ⟨_, rfl, h, (h.createUser "Bob" ⟨"ann@example.com"⟩ _ rfl).mono ?_⟩
  rintro r w' (⟨y, -, hr⟩ | ⟨-, ⟨_, hdeadline, -⟩, -⟩)
  · exact hr.alreadyExists.mpr (.inl ⟨⟨"u1"⟩, _, rfl, rfl⟩)
  · cases hdeadline

end GatewayCall
end IdentityVault
