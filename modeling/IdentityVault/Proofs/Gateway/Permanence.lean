import IdentityVault.Proofs.Gateway.Workplace
import IdentityVault.Proofs.Scope.Backend
import IdentityVault.Proofs.Store.Retention
import Mathlib.Data.Set.Insert

/-! Identities and credentials are permanent where all work is done by the gateways. An update of a credential writes a
    row back that it has read in the same transaction. What was read stays true as long as the transaction is open, so
    the update is modest, whoever had turns in between. -/

namespace IdentityVault

variable {α β : Type} {known more : Set (TxId × Credential)} {c : Context}

/-! ### Plans that only use the gateways -/

def Deed.ByGateway {α : Type} : Deed α → Prop
  | .row _ => False
  | .begin _ | .call _ | .commit | .rollback | .drop => True

/-- No deed of the plan goes past the gateways, whatever the answers are. -/
def Plan.ByGateways : Plan → Prop
  | .done () => True
  | .ask deed next => deed.ByGateway ∧ ∀ a, ByGateways (next a)

def Workplace.Turn.ByGateways : Turn → Prop
  | .join _ plan => plan.ByGateways
  | .go _ _ => True

/-! ### Careful programs -/

/-- An effect updates a credential only as one that the same transaction is known to have, but for what an update may
    change. -/
def Effect.Careful (known : Set (TxId × Credential)) {β : Type} : Effect β → Prop
  | .query _ t q => ∀ c, q.write? = some (.updateCredential c) →
    ∃ old, (t, old) ∈ known ∧ c.user = old.user ∧ c.createdAt = old.createdAt
  | _ => True

/-- The credential that a transaction is known to have when an effect has yielded it. -/
def Effect.learnt {β : Type} : Effect β → β → Set (TxId × Credential)
  | .query _ t (.credentialOf _), .ok c => {(t, c)}
  | _, _ => ∅

def Program.Careful : Program Effect α → Set (TxId × Credential) → Prop
  | .done _, _ => True
  | .ask e next, known => e.Careful known ∧ ∀ b, (next b).Careful (known ∪ e.learnt b)

theorem Effect.Careful.mono {e : Effect β} (h : e.Careful known) (hk : known ⊆ more) : e.Careful more := by
  cases e with
  | query deadline t q =>
    intro c hc
    obtain ⟨old, hold, hsame⟩ := h c hc
    exact ⟨old, hk hold, hsame⟩
  | now | freshToken | timestamp | freshId | hash | compare | begin | commit | rollback | release | crash => trivial

namespace Program

theorem Careful.mono {p : Program Effect α} (h : p.Careful known) (hk : known ⊆ more) : p.Careful more := by
  induction p generalizing known more with
  | done a => trivial
  | ask e next ih => exact ⟨h.1.mono hk, fun b => ih b (h.2 b) (Set.union_subset_union_left _ hk)⟩

theorem Careful.bind {p : Program Effect β} {f : β → Program Effect α} (h : p.Careful known)
    (hf : ∀ b, (f b).Careful known) : (p.bind f).Careful known := by
  induction p generalizing known with
  | done b => exact hf b
  | ask e next ih =>
    exact ⟨h.1, fun b => ih b (h.2 b) fun a => (hf a).mono Set.subset_union_left⟩

end Program

namespace Action

theorem careful_bind {a : Action β} {f : β → Action α} (h : a.result.Careful known)
    (hf : ∀ b, (f b).result.Careful known) : (a >>= f).result.Careful known := by
  refine Program.Careful.bind h fun r => ?_
  rcases r with e | b
  · trivial
  · exact hf b

end Action

/-- A question that updates no credential needs no care. -/
theorem Context.careful_query (c : Context) {q : Query α} (hq : ∀ w, q.write? ≠ some (.updateCredential w)) :
    (c.query q).result.Careful known := by
  obtain ⟨f, hfails⟩ | ⟨t, -, hasks⟩ := c.query_cases
  · rw [hfails]
    trivial
  · rw [hasks]
    exact ⟨fun w hw => absurd hw (hq w), fun _ => trivial⟩

/-- Whoever has read a credential knows it. -/
theorem Context.careful_read_bind {user : Id} {f : Credential → Action α}
    (hf : ∀ {t old}, c.held? = some t → (f old).result.Careful (known ∪ {(t, old)})) :
    (c.query (.credentialOf user) >>= f).result.Careful known := by
  change Program.Careful ((c.query (.credentialOf user)).result.bind _) known
  obtain ⟨e, hfails⟩ | ⟨t, ht, hasks⟩ := c.query_cases
  · rw [hfails]
    trivial
  · rw [hasks]
    refine ⟨fun _ hw => absurd hw (by simp [Query.write?]), fun r => ?_⟩
    rcases r with e | old
    · trivial
    · exact hf ht

/-! ### Gateways are careful -/

namespace Credentials

theorem careful_requireNone (c : Context) (user : Id) : (requireNone c user).result.Careful known := by
  refine Program.Careful.bind (c.careful_query nofun) fun r => ?_
  rcases r with e | old
  · cases e <;> trivial
  · trivial

theorem careful_create (c : Context) (request : CredentialRequest) : (create c request).result.Careful known := by
  refine Action.careful_bind (c.careful_query nofun) fun owner => ?_
  refine Action.careful_bind (careful_requireNone c owner.id) fun _ => ?_
  refine Action.careful_bind ⟨trivial, fun _ => trivial⟩ fun now => ?_
  refine Action.careful_bind ⟨trivial, fun _ => trivial⟩ fun id => ?_
  exact Action.careful_bind (c.careful_query nofun) fun _ => trivial

/-- An update has just read the credential that it replaces. -/
theorem careful_update (c : Context) (user : Id) (password : PasswordHash) :
    (update c user password).result.Careful known := by
  refine Action.careful_bind (c.careful_query nofun) fun owner => ?_
  refine Context.careful_read_bind fun {t old} ht => ?_
  refine Action.careful_bind ⟨trivial, fun _ => trivial⟩ fun now => Action.careful_bind ?_ fun _ => trivial
  rw [Context.query_of_held ht]
  refine ⟨fun w hw => ⟨old, .inr rfl, ?_⟩, fun _ => trivial⟩
  cases hw
  exact ⟨rfl, rfl⟩

theorem careful_check (c : Context) (email : Email) (password : Password) :
    (check c email password).result.Careful known := by
  refine Program.Careful.bind (c.careful_query nofun) fun r => ?_
  rcases r with e | credential
  · cases e <;> trivial
  · refine Program.Careful.bind ⟨trivial, fun _ => trivial⟩ fun r => ?_
    rcases r with e | ⟨⟩ <;> trivial

end Credentials

namespace Users

theorem careful_create (c : Context) (name : String) (email : Email) :
    (create c name email).result.Careful known := by
  refine Action.careful_bind (c.careful_query nofun) fun n => ?_
  split
  · trivial
  · refine Action.careful_bind ⟨trivial, fun _ => trivial⟩ fun id => ?_
    exact Action.careful_bind (c.careful_query nofun) fun _ => trivial

theorem careful_update (c : Context) (user : User) : (update c user).result.Careful known :=
  Action.careful_bind (c.careful_query nofun) fun _ => Action.careful_bind (c.careful_query nofun) fun _ => trivial

end Users

theorem GatewayCall.careful (c : Context) (call : GatewayCall α) : (call.perform c).result.Careful known := by
  cases call with
  | user | users | credential => exact c.careful_query nofun
  | createUser name email => exact Users.careful_create c name email
  | updateUser user => exact Users.careful_update c user
  | createCredential request => exact Credentials.careful_create c request
  | updateCredential owner password => exact Credentials.careful_update c owner password
  | check email password => exact Credentials.careful_check c email password

namespace ScopeManager

theorem careful_begin (m : ScopeManager) (parent : Context) : (m.begin parent).result.Careful known := by
  by_cases h : parent.scope = none
  · rw [begin_of_unbound m h]
    refine ⟨trivial, fun r => ?_⟩
    rcases r with f | t
    · trivial
    refine ⟨trivial, fun k => ?_⟩
    cases m.timeout with
    | none => trivial
    | some limit =>
      refine ⟨trivial, fun now => ?_⟩
      beta_reduce
      cases (parent.bind k t).withTimeout? now limit with
      | some child => trivial
      | none => exact ⟨trivial, fun _ => ⟨trivial, nofun⟩⟩
  · rw [begin_of_scope m h]
    trivial

end ScopeManager

theorem Deed.careful {deed : Deed α} (h : deed.ByGateway) (c : Context) : (deed.perform c).Careful known := by
  cases deed with
  | begin m =>
    refine Program.Careful.bind (m.careful_begin c) fun r => ?_
    rcases r with f | child <;> trivial
  | call g => exact Program.Careful.bind (g.careful c) fun _ => trivial
  | row => exact h.elim
  | commit =>
    rw [perform, ScopeManager.commit]
    split
    · exact ⟨trivial, fun _ => trivial⟩
    · trivial
  | rollback =>
    rw [perform, ScopeManager.rollback]
    split
    · exact ⟨trivial, fun _ => trivial⟩
    · trivial
    · trivial
  | drop =>
    refine Program.Careful.bind ?_ fun _ => trivial
    rw [Context.drop]
    split
    · exact ⟨trivial, fun _ => trivial⟩
    · trivial

/-! ### What is known stays true -/

namespace Database
variable {d d' d'' : Database} {t : TxId} {x : Transaction} {op : Op}

/-- The credentials of a transaction as it once had them. As long as it is open, it has them under the same owner, and
    with the same date of creation. -/
def facts (d : Database) : Set (TxId × Credential) :=
  { e | e.1 < d.nextTx ∧ ∀ x, d.tx? e.1 = some x →
    ∃ old, x.snapshot.credentials.get? e.2.user = some old ∧ old.createdAt = e.2.createdAt }

structure Retentive (d : Database) : Prop where
  named : d.Named
  sound : d.Sound
  modest : d.Modest

theorem Retentive.new (capacity : Nat) : (Database.new capacity).Retentive :=
  ⟨.new capacity, .new capacity, .new capacity⟩

/-- `d'` may be the state some time after `d`. -/
structure Follows (d d' : Database) : Prop where
  tables : d.tables.Retains d'.tables
  facts : d.facts ⊆ d'.facts

theorem Follows.refl (d : Database) : d.Follows d := ⟨.refl _, Set.Subset.rfl⟩

theorem Follows.trans (h : d.Follows d') (h' : d'.Follows d'') : d.Follows d'' :=
  ⟨h.tables.trans h'.tables, h.facts.trans h'.facts⟩

namespace Retentive

theorem act (h : d.Retentive) (hop : op.Modest d) : (d.act op).Retentive ∧ d.Follows (d.act op) := by
  refine ⟨⟨h.named.act op, h.sound.act h.named op, h.modest.act h.sound hop⟩, h.modest.retains op, ?_⟩
  rintro ⟨t, c⟩ ⟨ht, hopen⟩
  refine ⟨Nat.lt_of_lt_of_le ht (d.nextTx_act op), fun y hy => ?_⟩
  cases hx : d.tx? t with
  | none =>
    rcases tx?_act hy with ⟨-, hb, -⟩ | ⟨x, hx', -⟩
    · exact absurd (begin_eq_ok.mp hb).2 (Nat.ne_of_lt ht)
    · cases hx.symm.trans hx'
  | some x =>
    obtain ⟨old, hold, hcreated⟩ := hopen x hx
    have hretains := Modest.retains_snapshot hop hx h.named hy
    obtain ⟨new, hnew, -⟩ := hretains.credential hold
    exact ⟨new, hnew, (hretains.createdAt hold hnew).trans hcreated⟩

theorem modest_query {deadline : Option Instant} {q : Query α}
    (he : (Effect.query deadline t q).Careful d.facts) : (Op.query t q).Modest d := by
  intro x hx w hw
  cases w with
  | insertUser | updateUser | insertCredential => trivial
  | updateCredential c =>
    obtain ⟨old, ⟨-, hopen⟩, huser, hcreated⟩ := he c hw
    obtain ⟨now, hnow, hsame⟩ := hopen x hx
    exact ⟨now, huser ▸ hnow, hcreated.trans hsame.symm⟩

/-- A credential that was read is known. -/
theorem learnt_query (h : d.Retentive) {deadline : Option Instant} {q : Query α} {r : Outcome α}
    (hr : (d.query t q).1 = r) : (Effect.query deadline t q).learnt r ⊆ (d.query t q).2.facts := by
  cases q with
  | credentialOf user =>
    rcases r with e | c
    · exact Set.empty_subset _
    rintro _ rfl
    cases hx : d.tx? t with
    | none =>
      rw [query_of_none hx] at hr
      cases hr
    | some x =>
      have hquery : d.query t (.credentialOf user) = ((x.perform (.credentialOf user)).1, d) :=
        h.named.query_read hx rfl
      rw [hquery] at hr ⊢
      refine ⟨h.named.lt hx, fun y hy => ?_⟩
      obtain rfl : x = y := Option.some.inj (hx.symm.trans hy)
      obtain ⟨u, old, -, hold, rfl⟩ := Tables.credentialOf?_eq_some.mp (Transaction.found_eq_ok.mp hr)
      have hkey := (h.sound.snapshot (h.named.mem_opened.mpr hx)).credentialKey hold
      exact ⟨old, hkey.symm ▸ hold, rfl⟩
  | user | users | countUsers | insertUser | updateUser | credentialByEmail | insertCredential | updateCredential =>
    exact Set.empty_subset _

/-- What a careful effect does to the database is modest, and what it yields is true. -/
theorem answer {fits : Verifier} {m : Moment} {e : Effect β} {b : β} {ops : List Op} (h : d.Retentive)
    (he : e.Careful d.facts) (ha : e.answer fits m d = some (b, ops)) :
    (d.after ops).Retentive ∧ d.Follows (d.after ops) ∧ e.learnt b ⊆ (d.after ops).facts := by
  have silent (hl : e.learnt b = ∅) (hops : ops = []) :
      (d.after ops).Retentive ∧ d.Follows (d.after ops) ∧ e.learnt b ⊆ (d.after ops).facts := by
    rw [hops, hl]
    exact ⟨h, .refl d, Set.empty_subset _⟩
  have acts {op : Op} (hops : ops = [op]) (hop : op.Modest d) (hl : e.learnt b ⊆ (d.act op).facts) :
      (d.after ops).Retentive ∧ d.Follows (d.after ops) ∧ e.learnt b ⊆ (d.after ops).facts := by
    rw [hops]
    exact ⟨(h.act hop).1, (h.act hop).2, hl⟩
  cases e with
  | now | freshToken | timestamp | freshId | hash | compare =>
    cases ha
    exact silent rfl rfl
  | query deadline t q =>
    rw [Effect.answer, Moment.orFail] at ha
    split at ha <;> cases ha
    · exact acts rfl (modest_query he) (h.learnt_query rfl)
    · refine silent ?_ rfl
      cases q <;> rfl
  | begin deadline =>
    rw [Effect.answer, Moment.orFail] at ha
    split at ha <;> cases ha
    · exact acts rfl trivial (Set.empty_subset _)
    · exact silent rfl rfl
  | commit t | rollback t =>
    rw [Effect.answer, Moment.orDrop] at ha
    split at ha <;> cases ha <;> exact acts rfl trivial (Set.empty_subset _)
  | release t =>
    cases ha
    exact acts rfl trivial (Set.empty_subset _)
  | crash => cases ha

end Retentive
end Database

/-! ### Workplaces -/

def Worker.Careful (known : Set (TxId × Credential)) : Worker → Prop
  | .free _ plan => plan.ByGateways
  | .busy rest next => rest.Careful known ∧ ∀ a, (next a).ByGateways

theorem Worker.Careful.mono {worker : Worker} (h : worker.Careful known) (hk : known ⊆ more) :
    worker.Careful more := by
  cases worker with
  | free c plan => exact h
  | busy rest next => exact ⟨h.1.mono hk, h.2⟩

/-- A careful worker remains careful with what is known after its turn. -/
theorem Worker.Careful.go {fits : Verifier} {m : Moment} {d : Database} {worker worker' : Worker} {ops : List Database.Op}
    {answers : List Answer} (h : worker.Careful d.facts) (hd : d.Retentive)
    (hgo : worker.go fits m d = (worker', ops, answers)) :
    (d.after ops).Retentive ∧ d.Follows (d.after ops) ∧ worker'.Careful (d.after ops).facts := by
  cases worker with
  | free c plan =>
    cases plan with
    | done a =>
      cases hgo
      exact ⟨hd, .refl d, trivial⟩
    | ask deed next =>
      cases hgo
      exact ⟨hd, .refl d, Deed.careful h.1 c, h.2⟩
  | busy rest next =>
    cases rest with
    | done r =>
      cases hgo
      exact ⟨hd, .refl d, h.2 r.1⟩
    | ask e rest =>
      rw [Worker.go] at hgo
      split at hgo
      · next b ops' ha =>
        cases hgo
        obtain ⟨hafter, hfollows, hlearnt⟩ := hd.answer h.1.1 ha
        have hfacts : d.facts ∪ e.learnt b ⊆ (d.after ops).facts := Set.union_subset hfollows.facts hlearnt
        exact ⟨hafter, hfollows, (h.1.2 b).mono hfacts, h.2⟩
      · cases hgo
        exact ⟨hd, .refl d, h⟩

namespace Workplace
variable {w : Workplace}

structure Careful (w : Workplace) : Prop where
  database : w.database.Retentive
  workers : ∀ worker ∈ w.workers, worker.Careful w.database.facts

theorem Careful.new (capacity : Nat) : (new (.new capacity)).Careful := ⟨.new capacity, nofun⟩

theorem Careful.turn (fits : Verifier) (h : w.Careful) {turn : Turn} (ht : turn.ByGateways) :
    (w.turn fits turn).Careful ∧ w.database.Follows (w.turn fits turn).database := by
  cases turn with
  | join c plan =>
    refine ⟨⟨h.database, fun worker hm => ?_⟩, .refl _⟩
    rcases List.mem_append.mp hm with hm | hm
    · exact h.workers worker hm
    · rw [List.mem_singleton.mp hm]
      exact ht
  | go i m =>
    rw [Workplace.turn]
    split
    · next worker hi =>
      obtain ⟨hd, hfollows, hworker⟩ := (h.workers worker (List.mem_of_getElem? hi)).go h.database rfl
      refine ⟨⟨hd, fun other hm => ?_⟩, hfollows⟩
      rcases List.mem_or_eq_of_mem_set hm with hm | rfl
      · exact (h.workers other hm).mono hfollows.facts
      · exact hworker
    · exact ⟨h, .refl _⟩

theorem Careful.after (fits : Verifier) (h : w.Careful) {turns : List Turn} (ht : ∀ turn ∈ turns, turn.ByGateways) :
    (w.after fits turns).Careful ∧ w.database.Follows (w.after fits turns).database := by
  induction turns generalizing w with
  | nil => exact ⟨h, .refl _⟩
  | cons turn turns ih =>
    obtain ⟨hnow, hfollows⟩ := h.turn fits (ht turn List.mem_cons_self)
    obtain ⟨hlater, hfollows'⟩ := ih hnow fun turn hm => ht turn (List.mem_cons_of_mem _ hm)
    exact ⟨hlater, hfollows.trans hfollows'⟩

end Workplace

/-! ### Permanence -/

/-- What `later` has of what `now` has, and what the transactions that are open in `now` have done to credentials. -/
structure Database.Permanent (now later : Database) : Prop where
  user : ∀ {k : Id} {u : User}, now.tables.users.get? k = some u →
    ∃ v, later.tables.users.get? k = some v ∧ v.id = u.id
  credential : ∀ {k : Id} {c : Credential}, now.tables.credentials.get? k = some c →
    ∃ c', later.tables.credentials.get? k = some c' ∧ c'.id = c.id ∧ c'.user = c.user ∧ c'.createdAt = c.createdAt
  /-- The copy of a transaction was made of earlier tables, by writes that spared what credentials there were. -/
  written : ∀ {t : TxId} {x : Transaction}, now.tx? t = some x → ∃ start : Tables, start.Retains now.tables ∧
    start.replay x.log = .ok x.snapshot ∧ start.EachWrite Tables.Spares x.log
  /-- A commit that succeeds does the same writes to the shared tables, and spares what credentials there are now. -/
  committed : ∀ {t : TxId} {x : Transaction}, now.tx? t = some x → (now.commit t).1 = .ok () →
    now.tables.replay x.log = .ok (now.commit t).2.tables ∧ now.tables.EachWrite Tables.Spares x.log

namespace Database.Retentive
variable {d later : Database} {t : TxId} {x : Transaction}

theorem spares_written (h : d.Retentive) (hx : d.tx? t = some x) : ∃ start : Tables, start.Retains d.tables ∧
    start.replay x.log = .ok x.snapshot ∧ start.EachWrite Tables.Spares x.log := by
  obtain ⟨start, hsound, hreplay, hmodest, hretains⟩ := h.modest.opened hx
  exact ⟨start, hretains, hreplay, hmodest.of_replay Tables.spares_of_apply hsound hreplay⟩

theorem spares_committed (h : d.Retentive) (hx : d.tx? t = some x) (hok : (d.commit t).1 = .ok ()) :
    d.tables.replay x.log = .ok (d.commit t).2.tables ∧ d.tables.EachWrite Tables.Spares x.log := by
  cases hr : d.tables.replay x.log with
  | error f =>
    rw [commit_eq_error hx hr] at hok
    cases hok
  | ok tables =>
    rw [commit_eq_ok hx hr]
    exact ⟨rfl, (h.modest.shared hx).of_replay Tables.spares_of_apply h.sound.tables hr⟩

theorem permanent (h : d.Retentive) (hlater : later.Retentive) (hfollows : d.Follows later) : d.Permanent later where
  user {k u} hu := by
    obtain ⟨v, hv⟩ := hfollows.tables.user hu
    exact ⟨v, hv, (hlater.sound.tables.userKey hv).trans (h.sound.tables.userKey hu).symm⟩
  credential {k c} hc := by
    obtain ⟨c', hc', hid⟩ := hfollows.tables.credential hc
    have howner := (hlater.sound.tables.credentialKey hc').trans (h.sound.tables.credentialKey hc).symm
    exact ⟨c', hc', hid, howner, hfollows.tables.createdAt hc hc'⟩
  written hx := h.spares_written hx
  committed hx hok := h.spares_committed hx hok

end Database.Retentive

namespace Workplace

/-- In every run of workers that only use the gateways, identities and credentials are there for good once they are
    shared: a new credential replaces none, and an update changes its password and the date of its last change only. -/
theorem permanent_after (fits : Verifier) (capacity : Nat) (turns more : List Turn)
    (h : ∀ turn ∈ turns ++ more, turn.ByGateways) :
    ((new (.new capacity)).after fits turns).database.Permanent
      ((new (.new capacity)).after fits (turns ++ more)).database := by
  have hturns : ∀ turn ∈ turns, turn.ByGateways := fun turn hm => h turn (List.mem_append_left _ hm)
  have hmore : ∀ turn ∈ more, turn.ByGateways := fun turn hm => h turn (List.mem_append_right _ hm)
  obtain ⟨hnow, -⟩ := (Careful.new capacity).after fits hturns
  obtain ⟨hlater, hfollows⟩ := hnow.after fits hmore
  rw [after_append]
  exact hnow.database.permanent hlater.database hfollows

/-- Ann is registered with a credential. -/
def registering : List Turn :=
  .join (.background 0) (.ask (.begin ⟨none⟩) fun _ => .ask (.call (.createUser "Ann" ⟨"ann@example.com"⟩)) fun _ =>
    .ask (.call (.createCredential ⟨⟨"u1"⟩, ⟨"ann@example.com"⟩, ⟨"old"⟩⟩)) fun _ => .ask .commit fun _ => .done ()) ::
      List.replicate 19 (.go 0 { Moment.calm with id := .ok ⟨"u1"⟩ })

/-- Ann's password is changed. -/
def changing : List Turn :=
  .join (.background 1) (.ask (.begin ⟨none⟩) fun _ => .ask (.call (.updateCredential ⟨"u1"⟩ ⟨"new"⟩)) fun _ =>
    .ask .commit fun _ => .done ()) :: List.replicate 13 (.go 1 .calm)

theorem permanent_after_of_changing :
    (∀ turn ∈ registering ++ changing, turn.ByGateways) ∧
      ((new (.new 2)).after (fun _ _ => true) registering).database.Permanent
        ((new (.new 2)).after (fun _ _ => true) (registering ++ changing)).database := by
  have h : ∀ turn ∈ registering ++ changing, turn.ByGateways := by
    simp [registering, changing, Turn.ByGateways, Plan.ByGateways, Deed.ByGateway]
  exact ⟨h, permanent_after _ 2 registering changing h⟩

example : ((((new (.new 2)).after (fun _ _ => true) registering).database.tables.credentials.get? ⟨"u1"⟩).map (·.password),
    (((new (.new 2)).after (fun _ _ => true) (registering ++ changing)).database.tables.credentials.get? ⟨"u1"⟩).map
      (·.password)) = (some ⟨"old"⟩, some ⟨"new"⟩) := by
  decide +kernel

end Workplace
end IdentityVault
