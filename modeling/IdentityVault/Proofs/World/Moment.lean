import IdentityVault.Proofs.Store.Run
import IdentityVault.World.Basic

/-! What an effect yields on a database that others use as well. Nothing is assumed of the surroundings: everything
    that the database does not decide may come out in any way, and any call may fail or come too late. -/

namespace IdentityVault

/-- Which secrets a stored hash fits. -/
abbrev Verifier := Bytes → Bytes → Bool

/-- What the surroundings contribute to one effect. -/
structure Moment where
  clock : Instant
  token : Token
  timestamp : Timestamp
  id : Outcome Id
  hash : TaskResult Bytes
  /-- The answer of the hasher to a comparison. That a hash fits, it only says of one that does. -/
  compare : TaskResult Unit
  /-- The failure of a call, or that it comes too late. -/
  fault : Option Failure

namespace Moment

/-- A moment at which nothing fails. -/
def calm : Moment := ⟨0, 0, ⟨0, 0⟩, .error .notFound, .error "", .ok (.ok ()), none⟩

/-- What comes out of comparing a stored hash with a secret. -/
def compared (m : Moment) (fits : Bool) : TaskResult Unit :=
  if fits ∨ m.compare ≠ .ok (.ok ()) then m.compare else .ok (.error .verificationFailed)

/-- What a call yields that leaves the database alone where it fails. -/
def orFail {α : Type} (m : Moment) (r : Outcome α) (op : Database.Op) : Outcome α × List Database.Op :=
  match m.fault with
  | none => (r, [op])
  | some f => (.error f, [])

/-- What a call yields that ends a transaction also where it fails. -/
def orDrop (m : Moment) (r : Outcome Unit) (op : Database.Op) (t : TxId) : Outcome Unit × List Database.Op :=
  match m.fault with
  | none => (r, [op])
  | some f => (.error f, [.drop t])

end Moment

/-- What an effect yields at a moment, and what is done to the database for it. A crash yields nothing. -/
def Effect.answer {β : Type} (fits : Verifier) (m : Moment) (d : Database) :
    Effect β → Option (β × List Database.Op)
  | .now => some (m.clock, [])
  | .freshToken => some (m.token, [])
  | .timestamp => some (m.timestamp, [])
  | .freshId => some (m.id, [])
  | .hash _ => some (m.hash, [])
  | .compare stored secret => some (m.compared (fits stored secret), [])
  | .begin _ => some (m.orFail d.begin.1 .begin)
  | .commit t => some (m.orDrop (d.commit t).1 (.commit t) t)
  | .rollback t => some (m.orDrop (d.rollback t).1 (.rollback t) t)
  | .release t => some ((), [.drop t])
  | .query _ t q => some (m.orFail (d.query t q).1 (.query t q))
  | .crash _ => none

/-! ### Worlds -/

/-- The hashes that a hasher takes to fit. -/
def Hasher.fits (h : Hasher) : Verifier := fun stored secret => h.compare stored secret = .ok (.ok ())

namespace World
variable {s : Surroundings} {w : World} {α : Type}

theorem visit_orFail (s : Surroundings) (call : Call) (deadline : Option Instant)
    (act : Database → Outcome α × Database) (op : Database.Op) (hact : ∀ d, (act d).2 = d.act op) (w : World) :
    ∃ fault, (visit s call deadline (orFail act) w).1 =
        ({ Moment.calm with fault : Moment }.orFail (act w.database).1 op).1 ∧
      (visit s call deadline (orFail act) w).2.database =
        w.database.after ({ Moment.calm with fault : Moment }.orFail (act w.database).1 op).2 := by
  rw [visit]
  split
  · exact ⟨some .deadlineExceeded, rfl, rfl⟩
  · exact ⟨some .deadlineExceeded, rfl, rfl⟩
  · refine ⟨s.fault call (w.acted call), ?_⟩
    cases s.fault call (w.acted call) with
    | none => exact ⟨rfl, hact _⟩
    | some f => exact ⟨rfl, rfl⟩

theorem visit_orRelease (s : Surroundings) (call : Call) (t : TxId) (act : Database → Outcome Unit × Database)
    (op : Database.Op) (hact : ∀ d, (act d).2 = d.act op) (w : World) :
    ∃ fault, (visit s call none (orRelease t act) w).1 =
        ({ Moment.calm with fault : Moment }.orDrop (act w.database).1 op t).1 ∧
      (visit s call none (orRelease t act) w).2.database =
        w.database.after ({ Moment.calm with fault : Moment }.orDrop (act w.database).1 op t).2 := by
  rw [visit]
  refine ⟨s.fault call (w.acted call), ?_⟩
  cases s.fault call (w.acted call) with
  | none => exact ⟨rfl, hact _⟩
  | some f => exact ⟨rfl, rfl⟩

/-- What an effect does in a world, it does on the database at some moment. -/
theorem answer_of_handle {β : Type} {e : Effect β} {b : β} {w' : World} (h : InWorld.handle s e w = .ok (b, w')) :
    ∃ m ops, e.answer s.hasher.fits m w.database = some (b, ops) ∧ w'.database = w.database.after ops := by
  cases e with
  | now =>
    cases h
    exact ⟨{ Moment.calm with clock := w.clock }, [], rfl, rfl⟩
  | freshToken =>
    cases h
    exact ⟨{ Moment.calm with token := w.tokens }, [], rfl, rfl⟩
  | timestamp =>
    cases h
    exact ⟨{ Moment.calm with timestamp := s.timestamp w.timestamps }, [], rfl, rfl⟩
  | freshId =>
    cases h
    exact ⟨{ Moment.calm with id := s.id w.ids }, [], rfl, rfl⟩
  | hash secret =>
    cases h
    exact ⟨{ Moment.calm with hash := s.hasher.hash w.hashes secret }, [], rfl, rfl⟩
  | compare stored secret =>
    cases h
    refine ⟨{ Moment.calm with compare := s.hasher.compare stored secret }, [], ?_, rfl⟩
    have hfits : s.hasher.fits stored secret ∨ s.hasher.compare stored secret ≠ .ok (.ok ()) := by
      rw [Hasher.fits, decide_eq_true_eq]
      exact Decidable.em _
    exact congrArg (fun r => some (r, [])) (if_pos hfits)
  | begin deadline =>
    obtain ⟨fault, hr, hd⟩ := visit_orFail s .begin deadline Database.begin .begin (fun _ => rfl) w
    have hv : visit s .begin deadline (orFail Database.begin) w = (b, w') := Except.ok.inj h
    rw [hv] at hr hd
    exact ⟨_, _, congrArg some (Prod.ext hr.symm rfl), hd⟩
  | query deadline t q =>
    obtain ⟨fault, hr, hd⟩ := visit_orFail s q.call deadline (·.query t q) (.query t q) (fun _ => rfl) w
    have hv : visit s q.call deadline (orFail (·.query t q)) w = (b, w') := Except.ok.inj h
    rw [hv] at hr hd
    exact ⟨_, _, congrArg some (Prod.ext hr.symm rfl), hd⟩
  | commit t =>
    obtain ⟨fault, hr, hd⟩ := visit_orRelease s .commit t (·.commit t) (.commit t) (fun _ => rfl) w
    have hv : visit s .commit none (orRelease t (·.commit t)) w = (b, w') := Except.ok.inj h
    rw [hv] at hr hd
    exact ⟨_, _, congrArg some (Prod.ext hr.symm rfl), hd⟩
  | rollback t =>
    obtain ⟨fault, hr, hd⟩ := visit_orRelease s .rollback t (·.rollback t) (.rollback t) (fun _ => rfl) w
    have hv : visit s .rollback none (orRelease t (·.rollback t)) w = (b, w') := Except.ok.inj h
    rw [hv] at hr hd
    exact ⟨_, _, congrArg some (Prod.ext hr.symm rfl), hd⟩
  | release t =>
    cases h
    exact ⟨.calm, _, rfl, rfl⟩
  | crash cause => cases h

end World
end IdentityVault
