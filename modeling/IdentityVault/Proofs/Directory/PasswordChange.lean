import IdentityVault.Proofs.Directory.Traffic
import IdentityVault.Proofs.Store.Lookup
import IdentityVault.World.Sources

/-! Changes of passwords in flight. The check of a change reads the tables as they were when its scope began. A commit
    looks for rows that are in the way, and for nothing else, so that it does not notice whether the credential was
    replaced in the meantime. -/

namespace IdentityVault

theorem Database.credential_along {ι : Type} {d : Database} {trace : List (ι × Op)} {k : Id} {old : Credential}
    (hold : d.tables.credentials.get? k = some old) : (d.along trace).tables.credentials.get? k = some old ∨
      ∃ e ∈ d.publications trace, Tables.Replaces k e.2 := by
  have h := foldlM_keeps_or (P := fun t => t.credentials.get? k = some old)
    (fun hold hr => Tables.credential_of_replay hr hold) hold (d.tables_along trace)
  refine h.imp_right ?_
  rintro ⟨log, hm, hreplaces⟩
  obtain ⟨e, he, rfl⟩ := List.mem_map.mp hm
  exact ⟨e, he, hreplaces⟩

namespace Traffic
variable {fits : Verifier} {start : Database} {traffic : Traffic} {stage : Nat → Stage} {i : Nat} {t : TxId}
  {email : Email} {current fresh : Password} {next : Outcome Unit → Program Effect (Outcome Session.Reply)}

/-- A change that is about to be accepted goes by the password that it replaces. -/
def Current (fits : Verifier) (traffic : Traffic) : Prop :=
  ∀ (i : Nat) (email : Email) (current fresh : Password) (t : TxId)
    (next : Outcome Unit → Program Effect (Outcome Session.Reply)) (x : Transaction) (c old : Credential),
    traffic.calls[i]? = some ⟨.change email current fresh, .ask (.commit t) next⟩ →
      traffic.database.tx? t = some x → .updateCredential c ∈ x.log → (traffic.database.commit t).1 = .ok () →
        traffic.database.tables.credentials.get? c.user = some old →
          fits (Text.utf8 old.password.text) (Text.utf8 current.text)

/-- A change that is about to end: its scope began after `earlier`, and wrote `c`. -/
structure Changes (fits : Verifier) (start : Database) (traffic : Traffic) (i : Nat) (t : TxId) (email : Email)
    (current : Password) (earlier later : List (Nat × Database.Op)) (owner : User) (old c : Credential) : Prop where
  begun : traffic.trace = earlier ++ (i, .begin) :: later
  found : (start.along earlier).tables.userByEmail? email = some owner
  checked : (start.along earlier).tables.credentials.get? owner.id = some old ∧
    fits (Text.utf8 old.password.text) (Text.utf8 current.text)
  written : (traffic.database.tx? t).map (·.log) = some [.updateCredential c] ∧ c.user = owner.id
  accepted : (traffic.database.commit t).1 = .ok ()
  /-- The credential is the one that was checked, or another call has replaced it by then. -/
  stands : traffic.database.tables.credentials.get? owner.id = some old ∨
    ∃ between j u rest x, later = between ++ (j, .commit u) :: rest ∧ j ≠ i ∧
      (start.along (earlier ++ (i, .begin) :: between)).tx? u = some x ∧ Tables.Replaces owner.id x.log ∧
        ((start.along (earlier ++ (i, .begin) :: between)).commit u).1 = .ok ()

theorem Steered.changes (h : Steered fits start traffic stage)
    (hu : traffic.calls[i]? = some ⟨.change email current fresh, .ask (.commit t) next⟩) :
    ∃ earlier later owner old c, Changes fits start traffic i t email current earlier later owner old c := by
  obtain ⟨hlogs, tables, x, hstage, hok, -⟩ := (h.course i).leads hu
  obtain ⟨reply, -, owner, old, c, -, hfound, hold, hfits, hkey, hid, hlog⟩ := ScopeManager.settled_of_published hok
  obtain ⟨earlier, later, htrace, rfl⟩ := (h.course i).since hstage
  have hx : traffic.database.tx? t = some x := by
    have hin := h.within i
    rwa [hstage] at hin
  have hlater : traffic.database = (start.along earlier).along ((i, .begin) :: later) := by
    rw [h.database, htrace, Database.along_append]
  refine ⟨earlier, later, owner, old, c, htrace, hfound, ⟨hold, hfits⟩, ⟨?_, hkey⟩, ?_, ?_⟩
  · rw [hx, ← hlog]
    rfl
  · have hkeeps : (start.along earlier).tables.Keeps traffic.database.tables := by
      rw [hlater]
      exact Database.keeps_after _ _
    obtain ⟨kept, hkept, hsame⟩ := hkeeps.credential hold
    have hallowed := Tables.apply_updateCredential.mpr ⟨⟨kept, hkey ▸ hkept, hsame.trans hid.symm⟩, rfl⟩
    rw [← Tables.replay_singleton, ← hlog] at hallowed
    rw [Database.commit_eq_ok hx hallowed]
  · rw [hlater]
    refine (Database.credential_along hold).imp_right ?_
    rintro ⟨⟨j, log⟩, he, hreplaces⟩
    have hpublished : (j, log) ∈ start.publications traffic.trace := by
      rw [htrace, Database.publications_append]
      exact List.mem_append_right _ he
    have hlater : (j, log) ∈ ((start.along earlier).act .begin).publications later := he
    obtain ⟨between, u, rest, y, rfl, hy, rfl, hcommit⟩ := Database.mem_publications hlater
    refine ⟨between, j, u, rest, y, rfl, ?_, ?_, hreplaces, ?_⟩
    · rintro rfl
      have hown := Database.mem_publishedBy.mpr hpublished
      rw [(h.course j).publishedBy_eq, hlogs] at hown
      cases hown
    · rwa [Database.along_append, Database.along_cons]
    · rwa [Database.along_append, Database.along_cons]

/-- A change whose password fitted when its scope began is accepted, on every database and with any calls in flight.
    If another call has replaced the credential since then, it is accepted all the same. -/
theorem changes_after (fits : Verifier) (capacity : Nat) (before : List Database.Op) (turns : List Turn)
    (hu : ((new ((Database.new capacity).after before)).after fits turns).calls[i]? =
      some ⟨.change email current fresh, .ask (.commit t) next⟩) :
    ∃ earlier later owner old c, Changes fits ((Database.new capacity).after before)
      ((new ((Database.new capacity).after before)).after fits turns) i t email current earlier later owner old c := by
  have hn := (Database.Named.new capacity).after before
  have hs := (Database.Sound.new capacity).after (.new capacity) before
  obtain ⟨stage, h⟩ := steered_after fits hn hs turns
  exact h.changes hu

/-! ### A change that is overtaken -/

/-- Ann registers with the password `old`. -/
def registration : List Database.Op :=
  [.begin, .query 0 (.insertUser ⟨⟨"u1"⟩, "Ann", ⟨"ann@example.com"⟩⟩),
    .query 0 (.insertCredential ⟨⟨"c1"⟩, ⟨"u1"⟩, ⟨"ann@example.com"⟩, ⟨"plain:old"⟩, ⟨0, 0⟩, ⟨0, 0⟩⟩), .commit 0]

/-- The call that replaces the password `old`. -/
def replacing (fresh : String) : Directory.Call := .change ⟨"ann@example.com"⟩ ⟨"old"⟩ ⟨fresh⟩

/-- The effects of a change, up to its commit. -/
def upToCommit (i : Nat) (fresh : String) : List Turn :=
  List.replicate 9 (.go i { Moment.calm with hash := .ok (.ok (Text.utf8 ("plain:" ++ fresh))) })

/-- Two changes check the same password; then the first one is committed. -/
def overtaken : Traffic :=
  (new ((Database.new 2).after registration)).after Hasher.plain.fits
    ([.start ⟨⟨none⟩⟩ (.background 0) (replacing "new"), .start ⟨⟨none⟩⟩ (.background 1) (replacing "other")] ++
      upToCommit 0 "new" ++ upToCommit 1 "other" ++ [.go 0 .calm])

theorem changes_after_of_overtaken : ∃ earlier later owner old c,
    Changes Hasher.plain.fits ((Database.new 2).after registration) overtaken 1 2 ⟨"ann@example.com"⟩ ⟨"old"⟩
      earlier later owner old c :=
  changes_after Hasher.plain.fits 2 registration _ rfl

/-- The second change is accepted on the strength of a password that the first one has replaced. -/
theorem not_current_overtaken :
    overtaken.calls.map (·.call) = [replacing "new", replacing "other"] ∧ ¬overtaken.Current Hasher.plain.fits := by
  refine ⟨rfl, fun h => ?_⟩
  have hfits := h 1 ⟨"ann@example.com"⟩ ⟨"old"⟩ ⟨"other"⟩ 2 _ _ _ _ rfl rfl (List.mem_singleton.mpr rfl) rfl rfl
  revert hfits
  decide

end Traffic
end IdentityVault
