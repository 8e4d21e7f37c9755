import IdentityVault.Directory
import IdentityVault.Proofs.Gateway.Undisturbed
import IdentityVault.Proofs.Store.Integrity
import IdentityVault.Proofs.World.Moment
import IdentityVault.World.Sources

/-! Login attempts that fail, on tables and with a hasher of any kind. Where no call fails and no deadline comes, there
    is one failure for all of them, and they leave nothing behind, so that nobody can tell why an attempt has failed. -/

namespace IdentityVault

/-! ### Who is let in -/

/-- The credential that a login attempt is about, if the hasher takes its hash to fit the password. -/
def Tables.login? (t : Tables) (fits : Verifier) (e : Email) (p : Password) : Option Credential :=
  ((t.userByEmail? e).bind fun u => t.credentialOf? u.id).filter fun c =>
    fits (Text.utf8 c.password.text) (Text.utf8 p.text)

/-- A login attempt succeeds if it is let in, and else it fails, always in the same way. -/
def Answers {α : Type} (login : Option Credential) (r : Outcome α) : Prop :=
  match login with
  | some _ => ∃ a, r = .ok a
  | none => r = .error .invalidCredential

theorem Answers.eq_invalidCredential {α : Type} {login : Option Credential} {r : Outcome α} {f : Failure}
    (h : Answers login r) (hr : r = .error f) : f = .invalidCredential := by
  cases login with
  | none => exact Except.error.inj (hr.symm.trans h)
  | some c =>
    obtain ⟨a, ha⟩ := h
    cases ha.symm.trans hr

theorem Answers.elim (login : Option Credential) :
    Answers login (login.elim (.error .invalidCredential) Except.ok) := by
  cases login with
  | none => rfl
  | some c => exact ⟨c, rfl⟩

theorem Answers.map {α β : Type} {login : Option Credential} {r : Outcome α} (h : Answers login r) (f : α → β) :
    Answers login (r.map f) := by
  cases login with
  | none =>
    have hr : r = .error .invalidCredential := h
    rw [hr]
    rfl
  | some c =>
    obtain ⟨a, rfl⟩ := h
    exact ⟨f a, rfl⟩

/-- The owner of the credential is found again by the id that stands in the credential. -/
theorem Tables.Sound.of_login? {t : Tables} {fits : Verifier} {e : Email} {p : Password} {c : Credential}
    (h : t.Sound) (hc : t.login? fits e p = some c) :
    ∃ owner old, c.user = owner.id ∧ t.users.get? owner.id = some owner ∧ t.credentials.get? owner.id = some old ∧
      old.user = owner.id := by
  obtain ⟨hfound, -⟩ := Option.filter_eq_some_iff.mp hc
  obtain ⟨owner, howner, hcredential⟩ := Option.bind_eq_some_iff.mp hfound
  obtain ⟨old, hold, hkey, -⟩ := h.of_credentialOf? hcredential
  exact ⟨owner, old, hkey, (h.userByEmail?_eq_some.mp howner).1, hold, h.credentialKey hold⟩

/-! ### The check -/

section
variable {s : Surroundings} {c : Context} {t : TxId} {x : Transaction} {w : World}

/-- A check only reads, and its answer depends on nothing but the credential, unless its deadline comes. -/
theorem Credentials.ends_check_until (hs : s.Faultless) (hn : w.database.Named) (hc : c.held? = some t)
    (hx : w.database.tx? t = some x) (e : Email) (p : Password) :
    (check c e p).result.Ends s w fun r w' => w'.database = w.database ∧ w'.ids = w.ids ∧
      (r = (x.snapshot.login? s.hasher.fits e p).elim (.error .invalidCredential) .ok ∨
        r = .error .deadlineExceeded ∧ Expired c.deadline w'.clock) := by
  refine (Context.ends_query_until hs hc (.credentialByEmail e) w).bind ?_
  rintro r w' ⟨hids, hr⟩
  rw [hn.query_read hx rfl, Transaction.perform] at hr
  rcases hr with ⟨rfl, hdb⟩ | ⟨rfl, hdb, hlate⟩
  · rw [Tables.login?]
    cases (x.snapshot.userByEmail? e).bind fun u => x.snapshot.credentialOf? u.id with
    | none => exact .done ⟨hdb, hids, .inl rfl⟩
    | some credential =>
      refine (Passwords.ends_compare_any w' credential.password p).bind ?_
      rintro r _ ⟨hr, rfl⟩
      have hfits : s.hasher.fits (Text.utf8 credential.password.text) (Text.utf8 p.text) = true ↔ r = .ok () := by
        rw [Hasher.fits, decide_eq_true_eq, hr]
      rcases r with f | ⟨⟩
      · have hwrong : s.hasher.fits (Text.utf8 credential.password.text) (Text.utf8 p.text) = false := by
          simpa using hfits.not.mpr (by simp)
        exact .done ⟨hdb, hids, .inl (by simp [Option.filter, hwrong])⟩
      · have hright := hfits.mpr rfl
        exact .done ⟨hdb, hids, .inl (by simp [Option.filter, hright])⟩
  · exact .done ⟨hdb, hids, .inr ⟨rfl, hlate⟩⟩

end

/-! ### In a scope of its own -/

namespace Directory
variable {s : Surroundings} {d : Directory} {c parent : Context} {w w' : World}

/-- A scope can be begun under `parent`, and the clock can show the end of its time. -/
structure Accepts (d : Directory) (parent : Context) (s : Surroundings) (w : World) : Prop where
  unbound : parent.scope = none
  free : w.database.available ≠ 0
  onClock : d.scopes.OnClock (ScopeManager.beginning s w)

/-- A login attempt has been answered in a scope, which was concluded then, or the deadline of the scope has come. -/
def Responds {α : Type} (d : Directory) (parent : Context) (s : Surroundings) (w : World) (login : Option Credential)
    (r : Outcome α) (v : World) : Prop :=
  (Answers login r ∧ ∃ x, v.database = w.database.left (ScopeManager.kept w.database x r)) ∨
    (r = .error .deadlineExceeded ∧ Expired (d.scopes.deadline? parent (ScopeManager.beginning s w)) v.clock)

variable (hs : s.Faultless) (hn : w.database.Named)
include hs hn

section
variable (ha : w.database.available ≠ 0) (hc : c.held? = some w.database.nextTx)
  (hw : w'.Working w.database ⟨w.database.tables, []⟩ w.ids)
include ha hc hw

/-- A check in a new scope, and what is done after it if it has let the attempt in. -/
theorem ends_check_bind {α : Type} {email : Email} {password : Password} {f : Credential → Action α}
    (hf : ∀ {credential w''}, w.database.tables.login? s.hasher.fits email password = some credential →
      w''.Working w.database ⟨w.database.tables, []⟩ w.ids →
        (f credential).result.Ends s w'' (World.Timely w.database c.deadline fun r _ _ => ∃ a, r = .ok a)) :
    (Credentials.check c email password >>= f).result.Ends s w' (World.Timely w.database c.deadline fun r _ _ =>
      Answers (w.database.tables.login? s.hasher.fits email password) r) := by
  have hn' : w'.database.Named := by
    rw [hw.database]
    have hbegun := hn.begin
    rwa [Database.begin_eq ha] at hbegun
  have hx : w'.database.tx? w.database.nextTx = some ⟨w.database.tables, []⟩ := by
    rw [hw.database, Database.tx?_working]
  have hcheck := Credentials.ends_check_until hs hn' hc hx email password
  have hstays {w'' : World} (hdb : w''.database = w'.database) (hids : w''.ids = w'.ids) :
      w''.Working w.database ⟨w.database.tables, []⟩ w.ids :=
    ⟨hdb.trans hw.database, hids.trans hw.ids, hw.leads⟩
  cases hlogin : w.database.tables.login? s.hasher.fits email password with
  | none =>
    rw [hlogin] at hcheck
    refine Action.ends_bind hcheck ?_ ?_
    · rintro b w'' ⟨-, -, hr | ⟨hr, -⟩⟩ <;> cases hr
    · rintro e w'' ⟨hdb, hids, hr | ⟨hr, hlate⟩⟩
      · cases hr
        exact ⟨_, _, hstays hdb hids, .inl rfl⟩
      · cases hr
        exact ⟨_, _, hstays hdb hids, .inr ⟨rfl, hlate⟩⟩
  | some credential =>
    rw [hlogin] at hcheck
    refine Action.ends_bind hcheck ?_ ?_
    · rintro b w'' ⟨hdb, hids, hr | ⟨hr, -⟩⟩
      · cases hr
        exact hf hlogin (hstays hdb hids)
      · cases hr
    · rintro e w'' ⟨hdb, hids, hr | ⟨hr, hlate⟩⟩
      · cases hr
      · cases hr
        exact ⟨_, _, hstays hdb hids, .inr ⟨rfl, hlate⟩⟩

end

/-- A scope that begins with a check, and in which nothing can fail after it. -/
theorem ends_login (hd : d.Accepts parent s w) {α : Type} {email : Email} {password : Password}
    {f : Context → Credential → Action α}
    (hf : ∀ {c credential w'}, c.held? = some w.database.nextTx →
      w.database.tables.login? s.hasher.fits email password = some credential →
        w'.Working w.database ⟨w.database.tables, []⟩ w.ids →
          (f c credential).result.Ends s w' (World.Timely w.database c.deadline fun r _ _ => ∃ a, r = .ok a)) :
    (d.scopes.within parent fun c => Credentials.check c email password >>= f c).result.Ends s w
      (d.Responds parent s w (w.database.tables.login? s.hasher.fits email password)) := by
  refine (ScopeManager.ends_within_until hs hd.unbound hn hd.free hd.onClock fun {c w'} hc _ hw =>
    ends_check_bind hs hn hd.free hc hw (hf hc)).mono ?_
  rintro r w' (⟨x, hr, hdb⟩ | hlate)
  · exact .inl ⟨hr, x, hdb⟩
  · exact .inr hlate

theorem ends_authenticate_until (ht : w.database.tables.Sound) (hd : d.Accepts parent s w) (email : Email)
    (password : Password) :
    (d.authenticate parent email password).result.Ends s w
      (d.Responds parent s w (w.database.tables.login? s.hasher.fits email password)) := by
  refine ends_login hs hn hd fun {c credential w'} hc hlogin hw => ?_
  -- The identity of a credential is in the tables, so that it cannot be missing after the check.
  obtain ⟨owner, old, hkey, howner, -, -⟩ := ht.of_login? hlogin
  refine (Context.ends_query_timely hs hn hc hw (.user credential.user)).mono ?_
  rintro r w'' ⟨y, m, hw'', ⟨hr, -, -⟩ | hlate⟩
  · rw [hkey, Transaction.perform, howner] at hr
    exact ⟨y, m, hw'', .inl ⟨owner, hr⟩⟩
  · exact ⟨y, m, hw'', .inr hlate⟩

/-- After the check, the update of the credential is allowed, and so it is in the shared tables when the scope ends. -/
theorem ends_changePassword_until (ht : w.database.tables.Sound) (hd : d.Accepts parent s w) (email : Email)
    (current : Password) {new : Password} {hashed : PasswordHash}
    (hnew : Passwords.hashOf (s.hasher.hash w.hashes (Text.utf8 new.text)) = .ok hashed) :
    (d.changePassword parent email current new).result.Ends s w
      (d.Responds parent s w (w.database.tables.login? s.hasher.fits email current)) := by
  have hhash : (Passwords.hash new).result.Ends s w fun r w' => r = .ok hashed ∧
      w' = { w with hashes := w.hashes + 1 } :=
    Action.ends_ask rfl (.done ⟨hnew, rfl⟩)
  refine Action.ends_bind_ok hhash ?_
  rintro _ rfl
  refine ends_login (w := { w with hashes := w.hashes + 1 }) hs hn ⟨hd.unbound, hd.free, hd.onClock⟩ ?_
  intro c credential w' hc hlogin hw
  obtain ⟨owner, old, hkey, howner, hold, holdKey⟩ := ht.of_login? hlogin
  rw [hkey]
  refine Action.ends_bind (Credentials.ends_update_timely hs hn hc hw howner hold holdKey hashed) ?_ ?_
  · rintro b w'' ⟨y, m, hw'', ⟨_, _, -, -, -⟩ | ⟨hr, -⟩⟩
    · exact .done ⟨y, m, hw'', .inl ⟨(), rfl⟩⟩
    · cases hr
  · rintro e w'' ⟨y, m, hw'', ⟨credential, hr, -⟩ | ⟨hr, hlate⟩⟩
    · cases hr
    · cases hr
      exact ⟨y, m, hw'', .inr ⟨rfl, hlate⟩⟩

end Directory

/-! ### Attempts -/

/-- What a caller does to be let in: a check in a scope that is open already, a login, or a change of password. -/
inductive Door where
  | check (c : Context)
  | authenticate (d : Directory) (parent : Context)
  | change (d : Directory) (parent : Context) (new : Password)

structure Attempt where
  door : Door
  email : Email
  password : Password

namespace Door

def knock (email : Email) (password : Password) : Door → Action Unit
  | check c => do let _ ← Credentials.check c email password
  | authenticate d parent => do let _ ← d.authenticate parent email password
  | change d parent new => d.changePassword parent email password new

/-- The tables that decide who is let in. -/
def tables (d : Database) : Door → Tables
  | check c => ((c.held?.bind d.tx?).map (·.snapshot)).getD d.tables
  | authenticate _ _ | change _ _ _ => d.tables

/-- The deadline of the scope that the check is made in. -/
def deadline? (s : Surroundings) (w : World) : Door → Option Instant
  | check c => c.deadline
  | authenticate d parent | change d parent _ => d.scopes.deadline? parent (ScopeManager.beginning s w)

/-- There is a scope for the check, or one can be begun. A new password can be hashed. -/
def Opens (s : Surroundings) (w : World) : Door → Prop
  | check c => ∃ t x, c.held? = some t ∧ w.database.tx? t = some x
  | authenticate d parent => d.Accepts parent s w
  | change d parent new => d.Accepts parent s w ∧
    ∃ hashed, Passwords.hashOf (s.hasher.hash w.hashes (Text.utf8 new.text)) = .ok hashed

end Door

namespace Attempt
variable {s s' : Surroundings} {w w' v : World} {a b : Attempt}

def perform (a : Attempt) : Action Unit := a.door.knock a.email a.password

def login? (a : Attempt) (s : Surroundings) (w : World) : Option Credential :=
  (a.door.tables w.database).login? s.hasher.fits a.email a.password

/-- An attempt that is made where nothing is broken, on a database that runs of transactions lead to. -/
structure Healthy (a : Attempt) (s : Surroundings) (w : World) : Prop where
  faultless : s.Faultless
  reachable : ∃ capacity ops, w.database = (Database.new capacity).after ops
  opens : a.door.Opens s w

/-- What has become of an attempt that was made in time. -/
structure Settled (a : Attempt) (s : Surroundings) (w : World) (r : Outcome Unit) (v : World) : Prop where
  answers : Answers (a.login? s w) r
  tables : r ≠ .ok () → v.database.tables = w.database.tables
  available : v.database.available = w.database.available

theorem settled_of_left {r : Outcome Unit} {x : Transaction} (ha : Answers (a.login? s w) r)
    (hv : v.database = w.database.left (ScopeManager.kept w.database x r)) : a.Settled s w r v where
  answers := ha
  tables hr := by
    rw [hv]
    rcases r with f | ⟨⟩
    · rfl
    · exact absurd rfl hr
  available := by rw [hv]; rfl

/-- An attempt ends, and it is settled unless its deadline has come by then. -/
theorem ends_perform (h : a.Healthy s w) :
    a.perform.result.Ends s w fun r v => ¬Expired (a.door.deadline? s w) v.clock → a.Settled s w r v := by
  obtain ⟨capacity, ops, hdb⟩ := h.reachable
  have hn : w.database.Named := hdb ▸ (Database.Named.new capacity).after ops
  have ht : w.database.tables.Sound := hdb ▸ ((Database.Sound.new capacity).after (.new capacity) ops).tables
  obtain ⟨door, email, password⟩ := a
  cases door with
  | check c =>
    obtain ⟨t, x, hc, hx⟩ := h.opens
    have hlogin : login? ⟨.check c, email, password⟩ s w = x.snapshot.login? s.hasher.fits email password := by
      simp [login?, Door.tables, hc, hx]
    have hsettled {r : Outcome Credential} {v : World} (hv : v.database = w.database)
        (hr : r = (x.snapshot.login? s.hasher.fits email password).elim (.error .invalidCredential) .ok) :
        Settled ⟨.check c, email, password⟩ s w (r.map fun _ => ()) v := by
      refine ⟨?_, fun _ => congrArg (·.tables) hv, congrArg (·.available) hv⟩
      rw [hlogin, hr]
      exact (Answers.elim _).map _
    refine Action.ends_bind (Credentials.ends_check_until h.faultless hn hc hx email password) ?_ ?_
    · rintro credential v ⟨hv, -, hr | ⟨hr, -⟩⟩
      · exact .done fun _ => hsettled hv hr
      · cases hr
    · rintro f v ⟨hv, -, hr | ⟨-, hlate⟩⟩
      · exact fun _ => hsettled hv hr
      · exact fun hin => absurd hlate hin
  | authenticate d parent =>
    refine Action.ends_bind (Directory.ends_authenticate_until h.faultless hn ht h.opens email password) ?_ ?_
    · rintro u v (⟨hr, x, hv⟩ | ⟨hr, -⟩)
      · exact .done fun _ => settled_of_left (hr.map fun _ => ()) hv
      · cases hr
    · rintro f v (⟨hr, x, hv⟩ | ⟨-, hlate⟩)
      · exact fun _ => settled_of_left (x := x) (hr.map fun _ => ()) hv
      · exact fun hin => absurd hlate hin
  | change d parent new =>
    obtain ⟨hd, hashed, hnew⟩ := h.opens
    refine (Directory.ends_changePassword_until h.faultless hn ht hd email password hnew).mono ?_
    rintro r v (⟨hr, x, hv⟩ | ⟨-, hlate⟩)
    · exact fun _ => settled_of_left hr hv
    · exact fun hin => absurd hlate hin

/-- Two attempts that fail in time look alike, whatever the databases hold, whatever the hashers make of it, and by
    whichever door they are made: both fail with `invalidCredential`, which they do exactly if they are not let in. The
    shared tables are as before then, and as many connections are free. -/
theorem failures_alike (ha : a.Healthy s w) (hb : b.Healthy s' w') :
    ∃ r v r' v', a.perform.result.inWorld s w = .ok (r, v) ∧ b.perform.result.inWorld s' w' = .ok (r', v') ∧
      (¬Expired (a.door.deadline? s w) v.clock → ¬Expired (b.door.deadline? s' w') v'.clock →
        a.Settled s w r v ∧ b.Settled s' w' r' v' ∧
          ∀ f f', r = .error f → r' = .error f' → f = .invalidCredential ∧ f' = f) := by
  obtain ⟨r, v, hrun, hv⟩ := ends_perform ha
  obtain ⟨r', v', hrun', hv'⟩ := ends_perform hb
  refine ⟨r, v, r', v', hrun, hrun', fun hin hin' => ⟨hv hin, hv' hin', fun f f' hf hf' => ?_⟩⟩
  have hfirst : f = .invalidCredential := (hv hin).answers.eq_invalidCredential hf
  have hsecond : f' = .invalidCredential := (hv' hin').answers.eq_invalidCredential hf'
  exact ⟨hfirst, hsecond.trans hfirst.symm⟩

/-- Ann is registered with a hash that no hasher has made. -/
def registration : List Database.Op :=
  [.begin, .query 0 (.insertUser ⟨⟨"u1"⟩, "Ann", ⟨"ann@example.com"⟩⟩),
    .query 0 (.insertCredential ⟨⟨"c1"⟩, ⟨"u1"⟩, ⟨"ann@example.com"⟩, ⟨"not a hash"⟩, ⟨0, 0⟩, ⟨0, 0⟩⟩), .commit 0]

/-- A login of Ann. -/
def strange : Attempt := ⟨.authenticate ⟨⟨none⟩⟩ (.background 0), ⟨"ann@example.com"⟩, ⟨"secret"⟩⟩

/-- In the first world nobody is registered. In the second one Ann is, but the task that compares breaks down. -/
theorem failures_alike_of_strange : ∃ v v',
    strange.perform.result.inWorld (.calm Id.numbered ⟨0, 0⟩ .plain) (.new (.new 1)) =
        .ok (.error .invalidCredential, v) ∧
      strange.perform.result.inWorld (.calm Id.numbered ⟨0, 0⟩ .breaking)
          (.new ((Database.new 1).after registration)) = .ok (.error .invalidCredential, v') ∧
        v.database.available = 1 ∧ v'.database.available = 1 := by
  have hunknown : strange.Healthy (.calm Id.numbered ⟨0, 0⟩ .plain) (.new (.new 1)) :=
    ⟨fun _ _ => rfl, ⟨1, [], rfl⟩, rfl, nofun, nofun⟩
  have hbroken : strange.Healthy (.calm Id.numbered ⟨0, 0⟩ .breaking)
      (.new ((Database.new 1).after registration)) :=
    ⟨fun _ _ => rfl, ⟨1, registration, rfl⟩, rfl, by decide, nofun⟩
  obtain ⟨r, v, r', v', hrun, hrun', h⟩ := failures_alike hunknown hbroken
  obtain ⟨hv, hv', -⟩ := h (fun ⟨_, hd, _⟩ => nomatch hd) (fun ⟨_, hd, _⟩ => nomatch hd)
  have hr : r = .error .invalidCredential := hv.answers
  have hr' : r' = .error .invalidCredential := hv'.answers
  rw [hr] at hrun
  rw [hr'] at hrun'
  exact ⟨v, v', hrun, hrun', hv.available, hv'.available⟩

end Attempt
end IdentityVault
