import IdentityVault.CommandLine.Run
import IdentityVault.Proofs.Argon2.Hasher
import IdentityVault.Proofs.File.Trace

/-! What the two commands for passwords do, and how they agree: a hash that was printed is accepted again, unless the
    command line had asked for far more passes than are configured. -/

namespace IdentityVault.CommandLine

variable {α β : Type} {d : Defaults} {s : Settings} {password hash : String} {cost : Option UInt32} {v w w' : FileWorld}

/-! ### Parts of a command -/

namespace Task
variable {a : α} {e : Failure} {r : Outcome α} {f : α → Task β}

theorem outcome_of_ok (h : r = .ok a) : (ofOutcome r >>= f).run.outcome w = (f a).run.outcome w := by
  subst h
  rfl

theorem outcome_of_error (h : r = .error e) : (ofOutcome r >>= f).run.outcome w = (.error (.core e), w) := by
  subst h
  rfl

theorem outcome_perform_bind (e : FileEffect α) (f : α → Task β) (w : FileWorld) :
    (ExceptT.lift (Program.perform e) >>= f).run.outcome w = (f (e.outcome w).1).run.outcome (e.outcome w).2 := rfl

theorem outcome_readPassword_bind (password : String) (f : Password → Task β) (w : FileWorld) :
    (readPassword (some password) >>= f).run.outcome w =
      if password = "" then (.error (.core (.malformed (.empty .password))), w)
      else (f ⟨password⟩).run.outcome w := by
  have hread : (readPassword (some password) >>= f) = ofOutcome (Password.parse password) >>= f := rfl
  rw [hread]
  split
  · next h => exact outcome_of_error (if_pos (String.isEmpty_iff.mpr h))
  · next h => exact outcome_of_ok (if_neg (mt String.isEmpty_iff.mp h))

end Task

/-! ### New hashes -/

/-- How passwords are hashed where the command line can ask for another number of passes. -/
def hasherFor (s : Settings) (cost : Option UInt32) : HashSettings := { s.hasher with cost := cost.getD s.hasher.cost }

/-- The hash that a password gets, with a salt from the random bytes that are next. -/
def newHash (s : HashSettings) (w : FileWorld) (password : String) : String :=
  String.ofList (s.encode (w.entropy.take HashSettings.saltWidth).1 (Text.utf8 password)).render

theorem newHash_ne_empty (s : HashSettings) (w : FileWorld) (password : String) : newHash s w password ≠ "" := by
  intro h
  have hlist := congrArg String.toList h
  rw [newHash, String.toList_ofList] at hlist
  cases hlist

theorem hashOf_generate (s : HashSettings) (w : FileWorld) (password : String) :
    Passwords.hashOf (.ok (s.generate (w.entropy.take HashSettings.saltWidth).1 (Text.utf8 password))) =
      match s.costs.broken? with
      | none => .ok ⟨newHash s w password⟩
      | some bound => .error (.crypto bound.message) := by
  rw [HashSettings.generate]
  cases s.costs.broken? with
  | none =>
    have hparse : PasswordHash.parse (newHash s w password) = .ok ⟨newHash s w password⟩ :=
      if_neg (mt String.isEmpty_iff.mp (newHash_ne_empty s w password))
    exact (Passwords.hashOf_utf8 _).trans hparse
  | some bound => rfl

namespace Command

theorem outcome_hashPassword (d : Defaults) (s : Settings) (password : String) (cost : Option UInt32) (w : FileWorld) :
    (Command.run d s (.hashPassword (some password) cost)).run.outcome w =
      if password = "" then (.error (.core (.malformed (.empty .password))), w)
      else match (hasherFor s cost).costs.broken? with
      | none => (.ok (), { w with
          printed := w.printed ++ Text.utf8 (newHash (hasherFor s cost) w password ++ "\n"),
          entropy := (w.entropy.take HashSettings.saltWidth).2 })
      | some bound => (.error (.core (.crypto bound.message)),
          { w with entropy := (w.entropy.take HashSettings.saltWidth).2 }) := by
  have hrun : Command.run d s (.hashPassword (some password) cost) = readPassword (some password) >>= fun password =>
      CommandLine.hashPassword (hasherFor s cost) password >>= fun h => writeOutput none (Text.utf8 (h.text ++ "\n")) := rfl
  rw [hrun, Task.outcome_readPassword_bind]
  by_cases hempty : password = ""
  · rw [if_pos hempty, if_pos hempty]
  rw [if_neg hempty, if_neg hempty, CommandLine.hashPassword, bind_assoc, Task.outcome_perform_bind]
  have hhash := hashOf_generate (hasherFor s cost) w password
  cases hbroken : (hasherFor s cost).costs.broken? with
  | none =>
    rw [hbroken] at hhash
    exact Task.outcome_of_ok hhash
  | some bound =>
    rw [hbroken] at hhash
    exact Task.outcome_of_error hhash

theorem outcome_verifyPassword (d : Defaults) (s : Settings) (w : FileWorld) (hhash : hash ≠ "")
    (hpassword : password ≠ "") :
    (Command.run d s (.verifyPassword hash (some password))).run.outcome w =
      if s.hasher.accepts (Text.utf8 hash) (Text.utf8 password) then
        (.ok (), { w with printed := w.printed ++ Text.utf8 "ok\n" })
      else (.error .passwordMismatch, w) := by
  have hparse : PasswordHash.parse hash = .ok ⟨hash⟩ := if_neg (mt String.isEmpty_iff.mp hhash)
  rw [Command.run, Task.outcome_of_ok hparse, Task.outcome_readPassword_bind, if_neg hpassword, HashSettings.compare]
  by_cases haccepts : s.hasher.accepts (Text.utf8 hash) (Text.utf8 password)
  · rw [if_pos haccepts, if_pos haccepts]
    rfl
  · rw [if_neg haccepts, if_neg haccepts]
    rfl

/-! ### Hashes that are printed, and checked -/

/-- A new hash is accepted if it was made with at most four times the configured number of passes. -/
theorem outcome_verifyPassword_newHash (d : Defaults) (v : FileWorld) (hpassword : password ≠ "")
    (hvalid : (hasherFor s cost).costs.Valid) :
    (Command.run d s (.verifyPassword (newHash (hasherFor s cost) w password) (some password))).run.outcome v =
      if max (cost.getD s.hasher.cost).toNat 1 ≤ HashSettings.fourfold (max s.hasher.cost.toNat 1) then
        (.ok (), { v with printed := v.printed ++ Text.utf8 "ok\n" })
      else (.error .passwordMismatch, v) := by
  have haccepts : s.hasher.accepts (Text.utf8 (newHash (hasherFor s cost) w password)) (Text.utf8 password) = true ↔
      max (cost.getD s.hasher.cost).toNat 1 ≤ HashSettings.fourfold (max s.hasher.cost.toNat 1) :=
    (HashSettings.accepts_of_generate (Entropy.length_take _ _) (HashSettings.generate_eq_ok.mpr ⟨hvalid, rfl⟩)).trans
      ((and_iff_left rfl).trans (s.hasher.admits_with_cost _))
  rw [outcome_verifyPassword d s v (newHash_ne_empty _ w password) hpassword]
  simp only [haccepts]

/-- What is printed of a password as its hash is accepted for it, if and only if the hash was made with at most four
    times the configured number of passes. -/
theorem verifyPassword_of_hashPassword
    (h : (Command.run d s (.hashPassword (some password) cost)).run.outcome w = (.ok (), w')) :
    ∃ hash, w'.printed = w.printed ++ Text.utf8 (hash ++ "\n") ∧
      ∀ v, (Command.run d s (.verifyPassword hash (some password))).run.outcome v =
        if max (cost.getD s.hasher.cost).toNat 1 ≤ HashSettings.fourfold (max s.hasher.cost.toNat 1) then
          (.ok (), { v with printed := v.printed ++ Text.utf8 "ok\n" })
        else (.error .passwordMismatch, v) := by
  rw [outcome_hashPassword] at h
  split at h
  · cases h
  · next hpassword =>
    split at h
    · next hbroken =>
      cases h
      exact ⟨_, rfl, fun v => outcome_verifyPassword_newHash d v hpassword (Argon2.Costs.broken?_eq_none.mp hbroken)⟩
    · cases h

/-- Four passes where one is configured. -/
theorem verifyPassword_of_hashPassword_four :
    ∃ hash, (Command.run ⟨[], []⟩ { Settings.standard with hasher := ⟨1, 8, 1⟩ }
        (.verifyPassword hash (some "secret"))).run.outcome (.new [] (.ofSeed []) ⟨0, 0⟩) =
      (.ok (), { FileWorld.new [] (.ofSeed []) ⟨0, 0⟩ with printed := Text.utf8 "ok\n" }) := by
  have hhash := outcome_hashPassword ⟨[], []⟩ { Settings.standard with hasher := ⟨1, 8, 1⟩ } "secret" (some 4)
    (.new [] (.ofSeed []) ⟨0, 0⟩)
  have hvalid : (hasherFor { Settings.standard with hasher := ⟨1, 8, 1⟩ } (some 4)).costs.broken? = none := by decide
  rw [if_neg (by decide), hvalid] at hhash
  obtain ⟨hash, -, hverify⟩ := verifyPassword_of_hashPassword hhash
  exact ⟨hash, (hverify _).trans (if_pos (by decide))⟩

/-- Five passes where one is configured: the hash is printed, and then refused. -/
theorem hashPassword_refused :
    ∃ hash w, (Command.run ⟨[], []⟩ { Settings.standard with hasher := ⟨1, 8, 1⟩ }
        (.hashPassword (some "secret") (some 5))).run.outcome (.new [] (.ofSeed []) ⟨0, 0⟩) = (.ok (), w) ∧
      w.printed = Text.utf8 (hash ++ "\n") ∧
      (Command.run ⟨[], []⟩ { Settings.standard with hasher := ⟨1, 8, 1⟩ }
        (.verifyPassword hash (some "secret"))).run.outcome w = (.error .passwordMismatch, w) := by
  have hvalid : (hasherFor { Settings.standard with hasher := ⟨1, 8, 1⟩ } (some 5)).costs.Valid := by decide
  have hhash := outcome_hashPassword ⟨[], []⟩ { Settings.standard with hasher := ⟨1, 8, 1⟩ } "secret" (some 5)
    (.new [] (.ofSeed []) ⟨0, 0⟩)
  rw [if_neg (by decide), Argon2.Costs.broken?_eq_none.mpr hvalid] at hhash
  exact ⟨_, _, hhash, List.nil_append _,
    (outcome_verifyPassword_newHash _ _ (by decide) hvalid).trans (if_neg (by decide))⟩

end Command
end IdentityVault.CommandLine
