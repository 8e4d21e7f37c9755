import IdentityVault.Proofs.Scope.Backend
import Mathlib.Logic.Relation

/-! Moves on any number of contexts, over a database of which nothing is known. Whatever a move does comes down to six
    steps: a begin that fails, a new context without or with an open scope, a transaction that is lost at once, a scope
    that is finished, and a context that is given up when its scope is not open. -/

namespace IdentityVault

/-! ### Contexts and what is done to them -/

/-- What is done to contexts, which are named by the order in which they came into being. A run gives its scope to a
    body, which ends with a result or breaks down. -/
inductive Move where
  | create (request : Token) (deadline : Option Instant)
  | begin (m : ScopeManager) (i : Nat)
  | tx (i : Nat)
  | commit (i : Nat)
  | rollback (i : Nat)
  | drop (i : Nat)
  | run (m : ScopeManager) (i : Nat) (body : List Move) (ending : Except Crash (Outcome Unit))

/-- The answer to a move: there is no such context, or the program broke down, or it came to an end. -/
inductive Reply where
  | unknown
  | crashed (cause : Crash)
  | answered (r : Outcome Unit)

/-- A database with its ledger, and the contexts that came into being so far. One that was given up is gone. -/
structure Life (σ : Type) where
  ledger : Ledger σ
  contexts : List (Option Context)

namespace Life
variable {σ : Type} {l l' : Life σ} {i : Nat} {c : Context}

def new (inner : σ) : Life σ := ⟨⟨inner, []⟩, []⟩

def context? (l : Life σ) (i : Nat) : Option Context := l.contexts[i]?.join

theorem contexts_getElem? (h : l.context? i = some c) : l.contexts[i]? = some (some c) := Option.join_eq_some_iff.mp h

theorem context?_set (h : l.context? i = some c) (ledger : Ledger σ) (slot : Option Context) :
    (⟨ledger, l.contexts.set i slot⟩ : Life σ).context? i = slot := by
  rw [context?, List.getElem?_set_self (List.getElem?_eq_some_iff.mp (contexts_getElem? h)).1]
  rfl

theorem set_context? (h : l.context? i = some c) : l.contexts.set i (some c) = l.contexts := by
  obtain ⟨hlt, he⟩ := List.getElem?_eq_some_iff.mp (contexts_getElem? h)
  rw [← he, List.set_getElem_self]

end Life

namespace Backend
variable {σ : Type} (b : Backend σ)

/-- Begins a scope in a new child of a context. -/
def beginIn (m : ScopeManager) (i : Nat) (l : Life σ) : Reply × Life σ :=
  match l.context? i with
  | none => (.unknown, l)
  | some parent =>
    match b.exec (m.begin parent).result l.ledger with
    | (.ok (.ok child), ledger) => (.answered (.ok ()), ⟨ledger, l.contexts ++ [some child]⟩)
    | (.ok (.error f), ledger) => (.answered (.error f), { l with ledger })
    | (.error cause, ledger) => (.crashed cause, { l with ledger })

/-- Uses a context in a program that says what is left of it. -/
def use (p : Context → Program Effect (Outcome Unit × Option Context)) (i : Nat) (l : Life σ) : Reply × Life σ :=
  match l.context? i with
  | none => (.unknown, l)
  | some c =>
    match b.exec (p c) l.ledger with
    | (.ok (r, c), ledger) => (.answered r, ⟨ledger, l.contexts.set i c⟩)
    | (.error cause, ledger) => (.crashed cause, { l with ledger })

def commitIn (i : Nat) (l : Life σ) : Reply × Life σ :=
  b.use (fun c => (ScopeManager.commit c).bind fun (r, c) => .done (r, some c)) i l

def rollbackIn (i : Nat) (l : Life σ) : Reply × Life σ :=
  b.use (fun c => (ScopeManager.rollback c).bind fun (r, c) => .done (r, some c)) i l

def dropIn (i : Nat) (l : Life σ) : Reply × Life σ := b.use (fun c => c.drop.bind fun () => .done (.ok (), none)) i l

def concludeIn (r : Outcome Unit) (i : Nat) (l : Life σ) : Reply × Life σ :=
  b.use (fun c => (ScopeManager.conclude c r).bind fun r => .done (r, none)) i l

mutual

/-- Makes a move. A run is a begin, the body and the conclusion; its context is gone when it is over. -/
def perform : Move → Life σ → Reply × Life σ
  | .create request deadline, l =>
    (.answered (.ok ()), { l with contexts := l.contexts ++ [some ⟨request, deadline, none⟩] })
  | .begin m i, l => b.beginIn m i l
  | .tx i, l =>
    match l.context? i with
    | none => (.unknown, l)
    | some c => (.answered (c.tx.map fun _ => ()), l)
  | .commit i, l => b.commitIn i l
  | .rollback i, l => b.rollbackIn i l
  | .drop i, l => b.dropIn i l
  | .run m i body ending, l =>
    match b.beginIn m i l with
    | (.answered (.ok ()), inside) =>
      match ending with
      | .ok r => b.concludeIn r l.contexts.length (after body inside)
      | .error cause => (.crashed cause, (b.dropIn l.contexts.length (after body inside)).2)
    | refused => refused

/-- Makes one move after the other. -/
def after : List Move → Life σ → Life σ
  | [], l => l
  | move :: moves, l => after moves (perform move l).2

end

end Backend

/-! ### What a move can do -/

namespace Life
variable {σ : Type}

/-- One thing that happens in a life. -/
inductive Step : Life σ → Life σ → Prop
  | refused (l : Life σ) (f : Failure) (s : σ) : Step l { l with ledger := l.ledger.add s (.refused f) }
  | created (l : Life σ) {c : Context} (h : c.held? = none) : Step l { l with contexts := l.contexts ++ [some c] }
  | begun (l : Life σ) (s : σ) {c : Context} (h : c.held? = some l.ledger.begun.length) :
    Step l ⟨l.ledger.add s (.begun l.ledger.begun.length), l.contexts ++ [some c]⟩
  | lost (l : Life σ) (s s' : σ) :
    Step l { l with ledger :=
      (l.ledger.add s (.begun l.ledger.begun.length)).add s' (.released l.ledger.begun.length) }
  | finished (l : Life σ) (s : σ) {contact : Contact} {i : Nat} {c : Context} {t : TxId} (hi : l.context? i = some c)
    (h : c.held? = some t) (hb : contact.begun? = none) (he : contact.ended? = some t) :
    Step l ⟨l.ledger.add s contact, l.contexts.set i (some c.finished)⟩
  | forgotten (l : Life σ) {i : Nat} {c : Context} (hi : l.context? i = some c) (h : c.held? = none) :
    Step l { l with contexts := l.contexts.set i none }

/-- What happens in a life, one thing after the other. -/
abbrev Steps : Life σ → Life σ → Prop := Relation.ReflTransGen Step

end Life

namespace Backend
open Life
variable {σ : Type} (b : Backend σ) {l : Life σ} {i : Nat} {c : Context} {k : Token} {t : TxId}

theorem use_of_missing (p : Context → Program Effect (Outcome Unit × Option Context)) (h : l.context? i = none) :
    b.use p i l = (.unknown, l) := by
  rw [use, h]

theorem commitIn_of_open (hi : l.context? i = some c) (h : c.held? = some t) :
    ∃ r s, b.commitIn i l =
      (.answered r, ⟨l.ledger.add s (.committed t r), l.contexts.set i (some c.finished)⟩) := by
  obtain ⟨r, s, hx⟩ := b.exec_commit l.ledger h
  refine ⟨r, s, ?_⟩
  simp only [commitIn, use, hi, exec_bind, hx, exec_done]

theorem rollbackIn_of_open (hi : l.context? i = some c) (h : c.held? = some t) :
    ∃ r s, b.rollbackIn i l =
      (.answered r, ⟨l.ledger.add s (.rolledBack t r), l.contexts.set i (some c.finished)⟩) := by
  obtain ⟨r, s, hx⟩ := b.exec_rollback l.ledger h
  refine ⟨r, s, ?_⟩
  simp only [rollbackIn, use, hi, exec_bind, hx, exec_done]

theorem commitIn_of_unbound (hi : l.context? i = some c) (h : c.scope = none) :
    b.commitIn i l = (.answered (.error .noTransaction), l) := by
  simp only [commitIn, use, hi, ScopeManager.commit_of_unbound h, Program.done_bind, exec_done, set_context? hi]

theorem commitIn_of_finished (hi : l.context? i = some c) (h : c.scope = some ⟨k, none⟩) :
    b.commitIn i l = (.answered (.error .transactionFinalized), l) := by
  simp only [commitIn, use, hi, ScopeManager.commit_of_finished h, Program.done_bind, exec_done, set_context? hi]

theorem rollbackIn_of_unbound (hi : l.context? i = some c) (h : c.scope = none) :
    b.rollbackIn i l = (.answered (.error .noTransaction), l) := by
  simp only [rollbackIn, use, hi, ScopeManager.rollback_of_unbound h, Program.done_bind, exec_done, set_context? hi]

theorem rollbackIn_of_finished (hi : l.context? i = some c) (h : c.scope = some ⟨k, none⟩) :
    b.rollbackIn i l = (.answered (.ok ()), l) := by
  simp only [rollbackIn, use, hi, ScopeManager.rollback_of_finished h, Program.done_bind, exec_done, set_context? hi]

theorem beginIn_of_scope (m : ScopeManager) (hi : l.context? i = some c) (h : c.scope ≠ none) :
    b.beginIn m i l = (.answered (.error .transactionBound), l) := by
  simp only [beginIn, hi, ScopeManager.begin_of_scope m h, exec_done]

/-- A program does what the moves do, in the context that they find under `i`: it ends with the same ledger, and with the
    context as they leave it. -/
def DoesMoves (p : Context → Program Effect (Outcome Unit × Context)) (r : Outcome Unit) (moves : List Move)
    (i : Nat) (l : Life σ) : Prop :=
  ∃ c c', l.context? i = some c ∧ (b.after moves l).context? i = some c' ∧
    b.exec (p c) l.ledger = (.ok (r, c'), (b.after moves l).ledger)

/-- A run is a run of the scope manager, with any program that does what the moves of its body do. -/
theorem perform_run (m : ScopeManager) (hi : l.context? i = some c) {body : List Move} {r : Outcome Unit}
    {p : Context → Program Effect (Outcome Unit × Context)}
    (hp : ∀ child s, b.exec (m.begin c).result l.ledger = (.ok (.ok child), s) →
      b.DoesMoves p r body l.contexts.length ⟨s, l.contexts ++ [some child]⟩) :
    (b.perform (.run m i body (.ok r)) l).1 =
        (match (b.exec (m.run c p).result l.ledger).1 with
        | .ok r => .answered r
        | .error cause => .crashed cause) ∧
      (b.perform (.run m i body (.ok r)) l).2.ledger = (b.exec (m.run c p).result l.ledger).2 := by
  simp only [ScopeManager.run_eq, exec_bind, perform, beginIn, hi]
  rcases hbegin : b.exec (m.begin c).result l.ledger with ⟨cause | f | child, s⟩
  · exact ⟨rfl, rfl⟩
  · exact ⟨rfl, rfl⟩
  · obtain ⟨child', c', hchild, hc', hexec⟩ := hp child s hbegin
    have hsame : (⟨s, l.contexts ++ [some child]⟩ : Life σ).context? l.contexts.length = some child := by
      simp [context?]
    obtain rfl : child = child' := Option.some.inj (hsame.symm.trans hchild)
    simp only [concludeIn, use, hc', exec_bind, hexec]
    rcases b.exec (ScopeManager.conclude c' r) (b.after body ⟨s, l.contexts ++ [some child]⟩).ledger with
      ⟨cause | r', s'⟩ <;> exact ⟨rfl, rfl⟩

theorem steps_beginIn (m : ScopeManager) (i : Nat) (l : Life σ) : Steps l (b.beginIn m i l).2 := by
  cases hi : l.context? i with
  | none => rw [beginIn, hi]
  | some parent =>
    by_cases h : parent.scope = none
    · rcases b.exec_begin m l.ledger h with ⟨f, s, hx⟩ | ⟨k, child, s, hc, hx⟩ | ⟨s, s', hx⟩
      · simp only [beginIn, hi, hx]
        exact .single (.refused l f s)
      · simp only [beginIn, hi, hx]
        exact .single (.begun l s (Context.held?_eq_some.mpr ⟨k, hc⟩))
      · simp only [beginIn, hi, hx]
        exact .single (.lost l s s')
    · rw [beginIn_of_scope b m hi h]

/-- A use asks the database nothing if the context is closed, and finishes its scope if it is open. The context stays
    or is gone. -/
theorem steps_use {p : Context → Program Effect (Outcome Unit × Option Context)} (i : Nat) (l : Life σ)
    (hclosed : ∀ {c}, c.held? = none → ∃ r slot, (slot = some c ∨ slot = none) ∧
      b.exec (p c) l.ledger = (.ok (r, slot), l.ledger))
    (hopen : ∀ {c t}, c.held? = some t → ∃ r slot s contact, (slot = some c.finished ∨ slot = none) ∧
      contact.begun? = none ∧ contact.ended? = some t ∧
        b.exec (p c) l.ledger = (.ok (r, slot), l.ledger.add s contact)) : Steps l (b.use p i l).2 := by
  cases hi : l.context? i with
  | none => rw [use_of_missing b _ hi]
  | some c =>
    cases ht : c.held? with
    | none =>
      obtain ⟨r, slot, hslot, hx⟩ := hclosed ht
      simp only [use, hi, hx]
      rcases hslot with rfl | rfl
      · rw [set_context? hi]
      · exact .single (.forgotten l hi ht)
    | some t =>
      obtain ⟨r, slot, s, contact, hslot, hb, he, hx⟩ := hopen ht
      simp only [use, hi, hx]
      have hfin := Step.finished l s hi ht hb he
      rcases hslot with rfl | rfl
      · exact .single hfin
      · have hgone := Step.forgotten _ (context?_set hi (l.ledger.add s contact) (some c.finished))
          (Context.held?_finished c)
        rw [List.set_set] at hgone
        exact (Relation.ReflTransGen.single hfin).tail hgone

theorem steps_commitIn (i : Nat) (l : Life σ) : Steps l (b.commitIn i l).2 := by
  refine b.steps_use i l (fun h => ?_) (fun h => ?_)
  · obtain ⟨r, hx⟩ := b.exec_commit_of_closed l.ledger h
    exact ⟨r, _, .inl rfl, by rw [exec_bind, hx]; rfl⟩
  · obtain ⟨r, s, hx⟩ := b.exec_commit l.ledger h
    exact ⟨r, _, s, _, .inl rfl, rfl, rfl, by rw [exec_bind, hx]; rfl⟩

theorem steps_rollbackIn (i : Nat) (l : Life σ) : Steps l (b.rollbackIn i l).2 := by
  refine b.steps_use i l (fun h => ?_) (fun h => ?_)
  · obtain ⟨r, hx⟩ := b.exec_rollback_of_closed l.ledger h
    exact ⟨r, _, .inl rfl, by rw [exec_bind, hx]; rfl⟩
  · obtain ⟨r, s, hx⟩ := b.exec_rollback l.ledger h
    exact ⟨r, _, s, _, .inl rfl, rfl, rfl, by rw [exec_bind, hx]; rfl⟩

theorem steps_dropIn (i : Nat) (l : Life σ) : Steps l (b.dropIn i l).2 := by
  refine b.steps_use i l (fun h => ?_) (fun h => ?_)
  · exact ⟨.ok (), _, .inr rfl, by rw [exec_bind, exec_drop_of_closed b l.ledger h]; rfl⟩
  · obtain ⟨s, hx⟩ := b.exec_drop l.ledger h
    exact ⟨.ok (), _, s, _, .inr rfl, rfl, rfl, by rw [exec_bind, hx]; rfl⟩

theorem steps_concludeIn (r : Outcome Unit) (i : Nat) (l : Life σ) : Steps l (b.concludeIn r i l).2 := by
  refine b.steps_use i l (fun h => ?_) (fun h => ?_)
  · obtain ⟨r', hx⟩ := b.exec_conclude_of_closed r l.ledger h
    exact ⟨r', _, .inr rfl, by rw [exec_bind, hx]; rfl⟩
  · obtain ⟨r', s, contact, hb, he, hx⟩ := b.exec_conclude r l.ledger h
    exact ⟨r', _, s, contact, .inr rfl, hb, he, by rw [exec_bind, hx]; rfl⟩

mutual

theorem steps_perform : (move : Move) → (l : Life σ) → Steps l (b.perform move l).2
  | .create request deadline, l => .single (.created l rfl)
  | .begin m i, l => b.steps_beginIn m i l
  | .tx i, l => by
    rw [perform]
    cases l.context? i <;> rfl
  | .commit i, l => b.steps_commitIn i l
  | .rollback i, l => b.steps_rollbackIn i l
  | .drop i, l => b.steps_dropIn i l
  | .run m i body ending, l => by
    have hbegin := b.steps_beginIn m i l
    rw [perform]
    split
    · next inside hb =>
      rw [hb] at hbegin
      have hbody := hbegin.trans (steps_after body inside)
      cases ending with
      | ok r => exact hbody.trans (b.steps_concludeIn r _ _)
      | error cause => exact hbody.trans (b.steps_dropIn _ _)
    · exact hbegin

theorem steps_after : (moves : List Move) → (l : Life σ) → Steps l (b.after moves l)
  | [], _ => .refl
  | move :: moves, l => (steps_perform move l).trans (steps_after moves _)

end

end Backend
end IdentityVault
