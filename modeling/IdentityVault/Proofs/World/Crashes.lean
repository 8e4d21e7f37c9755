import IdentityVault.Proofs.File.Trace
import IdentityVault.Proofs.Scope.Backend
import IdentityVault.Proofs.World.Ends
import IdentityVault.Settings.File
import IdentityVault.World.InMemory

/-! Which settings make a program crash. The numbers in settings are taken as they are: a directory cannot be made for
    more connections than can be counted, and a scope cannot begin whose time ends behind the last point of the clock. -/

namespace IdentityVault

namespace ScopeManager
variable {m : ScopeManager} {env : Surroundings} {w w' : World} {parent : Context} {f : Failure} {t : TxId}

theorem inWorld_begin_of_refused (hp : parent.scope = none)
    (hv : World.visit env .begin parent.deadline (World.orFail Database.begin) w = (.error f, w')) :
    (m.begin parent).result.inWorld env w = .ok (.error f, w') := by
  have hbegin : InWorld.handle env (.begin parent.deadline) w = .ok (.error f, w') := congrArg Except.ok hv
  rw [begin_of_unbound m hp, Program.inWorld_of_handle hbegin]
  rfl

/-- A scope whose transaction was opened begins, unless its time does not end on the clock. -/
theorem inWorld_begin_of_opened (hp : parent.scope = none)
    (hv : World.visit env .begin parent.deadline (World.orFail Database.begin) w = (.ok t, w')) :
    (m.begin parent).result.inWorld env w =
      match m.timeout with
      | none => .ok (.ok (parent.bind w'.tokens t), { w' with tokens := w'.tokens + 1 })
      | some limit =>
        if w'.clock + (limit : Int) ≤ Instant.last then
          .ok (.ok ((parent.bind w'.tokens t).withDeadline (w'.clock + (limit : Int))),
            { w' with tokens := w'.tokens + 1 })
        else .error .clockOverflow := by
  have htoken : InWorld.handle env .freshToken w' = .ok (w'.tokens, { w' with tokens := w'.tokens + 1 }) := rfl
  have hbegin : InWorld.handle env (.begin parent.deadline) w = .ok (.ok t, w') := congrArg Except.ok hv
  rw [begin_of_unbound m hp, Program.inWorld_of_handle hbegin, Program.inWorld_of_handle htoken]
  cases m.timeout with
  | none => rfl
  | some limit =>
    have hnow : InWorld.handle env .now { w' with tokens := w'.tokens + 1 } =
        .ok (w'.clock, { w' with tokens := w'.tokens + 1 }) := rfl
    simp only
    rw [Program.inWorld_of_handle hnow, Context.withTimeout?, Instant.after?]
    by_cases hlast : w'.clock + (limit : Int) ≤ Instant.last
    · rw [if_pos hlast, if_pos hlast]
      rfl
    · rw [if_neg hlast, if_neg hlast]
      rfl

end ScopeManager

namespace DatabaseSettings

/-- Where a scope begins in no way, neither with success nor with a failure, it has got its transaction and its time
    would end behind the last point of the clock. -/
theorem begin_crashes_iff {env : Surroundings} {w : World} {parent : Context} (s : DatabaseSettings)
    (hp : parent.scope = none) {cause : Crash} :
    (s.scopes.begin parent).result.inWorld env w = .error cause ↔
      cause = .clockOverflow ∧ s.scopeTimeoutSecs ≠ 0 ∧ ∃ t w',
        World.visit env .begin parent.deadline (World.orFail Database.begin) w = (.ok t, w') ∧
          Instant.last < w'.clock + (s.scopeTimeoutSecs.toNat * 1000 : Nat) := by
  rcases hv : World.visit env .begin parent.deadline (World.orFail Database.begin) w with ⟨f | t, w'⟩
  · rw [ScopeManager.inWorld_begin_of_refused hp hv]
    simp
  rw [ScopeManager.inWorld_begin_of_opened hp hv, scopes, scopeTimeout?, scopeTimeoutSeconds?]
  by_cases hsecs : s.scopeTimeoutSecs = 0
  · rw [if_pos hsecs]
    simp [hsecs]
  rw [if_neg hsecs]
  simp only [Option.map_some]
  split
  · next hlast =>
    refine ⟨nofun, ?_⟩
    rintro ⟨-, -, _, _, hopened, hlate⟩
    cases hopened
    exact absurd hlast (Int.not_le.mpr hlate)
  · next hlate =>
    refine ⟨?_, ?_⟩
    · rintro ⟨⟩
      exact ⟨rfl, hsecs, t, w', rfl, Int.not_le.mp hlate⟩
    · rintro ⟨rfl, -⟩
      rfl

end DatabaseSettings

namespace Settings

theorem inMemory_eq (s : Settings) : Directory.inMemory s =
    if s.database.maxConns < 0x2000000000000000 then
      .ok (.new (.new s.database.maxConns.toNat), ⟨s.database.scopes⟩)
    else .error .poolTooLarge := by
  have hmost : s.database.maxConns < 0x2000000000000000 ↔ s.database.maxConns.toNat ≤ Database.mostCapacity := by
    rw [UInt64.lt_iff_toNat_lt]
    exact Nat.lt_succ_iff
  simp only [hmost]
  rw [Directory.inMemory, DatabaseSettings.open?]
  split <;> rfl

/-- What settings can crash: the making of a directory whose connections cannot be counted, and the begin of a scope
    that has its transaction and whose time would end behind the last point of the clock. -/
theorem crashes_iff (s : Settings) (env : Surroundings) (w : World) (parent : Context) (hp : parent.scope = none) :
    (Directory.inMemory s =
      if s.database.maxConns < 0x2000000000000000 then
        .ok (.new (.new s.database.maxConns.toNat), ⟨s.database.scopes⟩)
      else .error .poolTooLarge) ∧
    ∀ cause, (s.database.scopes.begin parent).result.inWorld env w = .error cause ↔
      cause = .clockOverflow ∧ s.database.scopeTimeoutSecs ≠ 0 ∧ ∃ t w',
        World.visit env .begin parent.deadline (World.orFail Database.begin) w = (.ok t, w') ∧
          Instant.last < w'.clock + (s.database.scopeTimeoutSecs.toNat * 1000 : Nat) :=
  ⟨s.inMemory_eq, fun _ => s.database.begin_crashes_iff hp⟩

/-- The longest limit that settings can set is too long for the clock. -/
theorem crashes_iff_of_endless :
    ((DatabaseSettings.scopes ⟨10, 0xffffffffffffffff⟩).begin (.background 0)).result.inWorld
      (.inMemory standard [] [] ⟨0, 0⟩) (.new (.new 10)) = .error .clockOverflow :=
  ((crashes_iff { standard with database := ⟨10, 0xffffffffffffffff⟩ } (.inMemory standard [] [] ⟨0, 0⟩)
    (.new (.new 10)) (.background 0) rfl).2 .clockOverflow).mpr ⟨rfl, by decide, 0, _, rfl, by decide⟩

/-- The settings are what is loaded from a file with the given text. -/
def InFile (text : String) (s : Settings) : Prop :=
  ∃ path w w', (FileEffect.write path (Text.utf8 text)).outcome w = (.ok (), w') ∧
    ((load path).run.outcome w').1 = .ok s

/-- Both crashes come from files with numbers of the right kind, in a world where all is fresh. -/
theorem crashing_in_files :
    (∃ s, InFile "\x7b\"database\": \x7b\"maxConns\": 2305843009213693952\x7d\x7d" s ∧
      Directory.inMemory s = .error .poolTooLarge) ∧
    ∃ s w d, InFile "\x7b\"database\": \x7b\"scopeTimeoutSecs\": 18446744073709551615\x7d\x7d" s ∧
      Directory.inMemory s = .ok (w, d) ∧
      (d.scopes.begin (.background 0)).result.inWorld (.inMemory s [] [] ⟨0, 0⟩) w = .error .clockOverflow := by
  refine ⟨⟨{ standard with database := ⟨0x2000000000000000, 30⟩ }, ?_, rfl⟩,
    { standard with database := ⟨10, 0xffffffffffffffff⟩ }, _, _, ?_, rfl, rfl⟩
  · exact ⟨"settings.json".toList, .new [] (.ofSeed []) ⟨0, 0⟩, _, rfl, by decide +kernel⟩
  · exact ⟨"settings.json".toList, .new [] (.ofSeed []) ⟨0, 0⟩, _, rfl, by decide +kernel⟩

end Settings
end IdentityVault
