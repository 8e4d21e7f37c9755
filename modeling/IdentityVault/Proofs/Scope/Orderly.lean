import IdentityVault.Proofs.Scope.Life
import Mathlib.Data.List.Perm.Basic

/-! Whatever is done to contexts, in any order, every transaction that was begun is committed, rolled back or given up
    once, or one context still holds it open. A scope that was finished stays so for ever. -/

namespace IdentityVault

/-! ### The account of transactions -/

namespace Life
variable {σ : Type} {l l' : Life σ} {i : Nat} {c : Context} {t : TxId}

/-- The transactions that contexts hold open. -/
def openIn (contexts : List (Option Context)) : List TxId := contexts.filterMap (·.bind Context.held?)

theorem openIn_cons (slot : Option Context) (contexts : List (Option Context)) :
    openIn (slot :: contexts) = (slot.bind Context.held?).toList ++ openIn contexts := by
  cases h : slot.bind Context.held? <;> simp [openIn, h]

theorem openIn_append (contexts : List (Option Context)) (c : Context) :
    openIn (contexts ++ [some c]) = openIn contexts ++ c.held?.toList := by
  cases h : c.held? <;> simp [openIn, h]

theorem openIn_perm {slots slots' : List (Option Context)} (h : slots.Perm slots') :
    (openIn slots).Perm (openIn slots') :=
  h.filterMap _

/-- Where a context gives way to one that is not open, the others hold what they held. -/
theorem openIn_set (hi : l.context? i = some c) (slot : Option Context) (hs : slot.bind Context.held? = none) :
    (openIn l.contexts).Perm (c.held?.toList ++ openIn (l.contexts.set i slot)) := by
  obtain ⟨hlt, he⟩ := List.getElem?_eq_some_iff.mp (contexts_getElem? hi)
  have hbefore := openIn_perm (List.getElem_cons_eraseIdx_perm hlt).symm
  have hafter := openIn_perm (List.set_perm_cons_eraseIdx hlt slot)
  rw [he, openIn_cons] at hbefore
  rw [openIn_cons, hs] at hafter
  exact hbefore.trans (hafter.symm.append_left _)

/-- The transactions that were begun have distinct names, and each has ended or is held by one context. -/
structure Accounted (l : Life σ) : Prop where
  names : l.ledger.begun = List.range l.ledger.begun.length
  split : l.ledger.begun.Perm (l.ledger.ended ++ openIn l.contexts)

namespace Accounted

theorem new (inner : σ) : Accounted (Life.new inner) := ⟨rfl, .nil⟩

theorem step (h : Accounted l) (hs : Step l l') : Accounted l' := by
  have hnext : l.ledger.begun ++ [l.ledger.begun.length] = List.range (l.ledger.begun.length + 1) := by
    rw [List.range_succ, ← h.names]
  cases hs with
  | refused f s =>
    refine ⟨by simpa [Contact.begun?] using h.names, ?_⟩
    simpa [Contact.begun?, Contact.ended?] using h.split
  | created hc =>
    refine ⟨h.names, ?_⟩
    rw [openIn_append, hc]
    simpa using h.split
  | begun s hc =>
    refine ⟨by simpa [Contact.begun?] using hnext, ?_⟩
    rw [openIn_append, hc]
    simpa [Contact.begun?, Contact.ended?] using h.split.append_right [l.ledger.begun.length]
  | lost s s' =>
    refine ⟨by simpa [Contact.begun?] using hnext, ?_⟩
    have hmoved : (l.ledger.begun ++ [l.ledger.begun.length]).Perm
        (l.ledger.ended ++ ([l.ledger.begun.length] ++ openIn l.contexts)) := by
      refine (h.split.append_right _).trans ?_
      rw [List.append_assoc]
      exact List.perm_append_comm.append_left l.ledger.ended
    simpa [Contact.begun?, Contact.ended?] using hmoved
  | @finished s contact i c t hi hc hb he =>
    refine ⟨by simpa [hb] using h.names, ?_⟩
    have hset := openIn_set hi (some c.finished) (Context.held?_finished c)
    have hmoved := h.split.trans (hset.append_left l.ledger.ended)
    simpa [hb, he, hc] using hmoved
  | forgotten hi hc =>
    refine ⟨h.names, ?_⟩
    have hmoved := h.split.trans ((openIn_set hi none rfl).append_left l.ledger.ended)
    simpa [hc] using hmoved

theorem steps (h : Accounted l) (hs : Steps l l') : Accounted l' := by
  induction hs with
  | refl => exact h
  | tail _ hs ih => exact ih.step hs

end Accounted

/-- A context without an open scope stays as it is until it is given up, and does not come back. -/
theorem Step.closed (hs : Step l l') (hc : c.held? = none)
    (hi : l.contexts[i]? = some none ∨ l.context? i = some c) :
    l'.contexts[i]? = some none ∨ l'.context? i = some c := by
  have hlt : i < l.contexts.length := by
    rcases hi with h | h
    · exact (List.getElem?_eq_some_iff.mp h).1
    · exact (List.getElem?_eq_some_iff.mp (contexts_getElem? h)).1
  cases hs with
  | refused f s => exact hi
  | lost s s' => exact hi
  | created h => rwa [context?, List.getElem?_append_left hlt]
  | begun s h => rwa [context?, List.getElem?_append_left hlt]
  | @finished s contact j c' t hj h hb he =>
    have hne : j ≠ i := by
      rintro rfl
      rcases hi with hi | hi
      · cases hi.symm.trans (contexts_getElem? hj)
      · obtain rfl : c = c' := Option.some.inj (hi.symm.trans hj)
        cases hc.symm.trans h
    rwa [context?, List.getElem?_set_ne hne]
  | @forgotten j c' hj h =>
    by_cases hij : j = i
    · subst hij
      exact .inl (List.getElem?_set_self hlt)
    · rwa [context?, List.getElem?_set_ne hij]

theorem Steps.closed (hs : Steps l l') (hc : c.held? = none)
    (hi : l.contexts[i]? = some none ∨ l.context? i = some c) :
    l'.contexts[i]? = some none ∨ l'.context? i = some c := by
  induction hs with
  | refl => exact hi
  | tail _ hs ih => exact hs.closed hc ih

end Life

/-! ### Orderly lives -/

namespace Backend
open Life
variable {σ : Type} (b : Backend σ) {l : Life σ} {i : Nat} {c : Context} {k : Token} {t : TxId}

/-- The context is given up, or its scope is finished: it yields no transaction, and nothing is asked of the database
    for it any more. -/
def Settled (i : Nat) (l : Life σ) : Prop :=
  l.contexts[i]? = some none ∨
    b.perform (.tx i) l = (.answered (.error .transactionFinalized), l) ∧
      b.perform (.commit i) l = (.answered (.error .transactionFinalized), l) ∧
        b.perform (.rollback i) l = (.answered (.ok ()), l)

/-- What is sure in a life, and of the moves that come next. -/
structure Orderly (l : Life σ) : Prop where
  distinct : l.ledger.begun.Nodup
  known : l.ledger.ended ⊆ l.ledger.begun
  once : l.ledger.ended.Nodup
  /-- Every transaction that was begun is accounted for. -/
  account : l.ledger.begun.length = l.ledger.contacts.countP (·.isCommit) + l.ledger.contacts.countP (·.isRollback) +
    l.ledger.contacts.countP (·.isRelease) + (openIn l.contexts).length
  unbound : ∀ {i : Nat} {c : Context}, l.context? i = some c → c.scope = none →
    b.perform (.tx i) l = (.answered (.error .noTransaction), l) ∧
      b.perform (.commit i) l = (.answered (.error .noTransaction), l) ∧
        b.perform (.rollback i) l = (.answered (.error .noTransaction), l)
  /-- A scope that is open is finished by one call, whatever comes of it, and stays finished. -/
  bound : ∀ {i : Nat} {c : Context} {k : Token} {t : TxId}, l.context? i = some c → c.scope = some ⟨k, some t⟩ →
    b.perform (.tx i) l = (.answered (.ok ()), l) ∧
      (∃ r s l', b.perform (.commit i) l = (.answered r, l') ∧ l'.ledger = l.ledger.add s (.committed t r) ∧
        l'.contexts = l.contexts.set i (some c.finished) ∧ ∀ moves, b.Settled i (b.after moves l')) ∧
        ∃ r s l', b.perform (.rollback i) l = (.answered r, l') ∧ l'.ledger = l.ledger.add s (.rolledBack t r) ∧
          l'.contexts = l.contexts.set i (some c.finished) ∧ ∀ moves, b.Settled i (b.after moves l')
  finished : ∀ {i : Nat} {c : Context} {k : Token}, l.context? i = some c → c.scope = some ⟨k, none⟩ →
    ∀ moves, b.Settled i (b.after moves l)
  /-- Under a scope, open or not, none is begun. -/
  refused : ∀ {i : Nat} {c : Context}, l.context? i = some c → c.scope ≠ none → ∀ m,
    b.perform (.begin m i) l = (.answered (.error .transactionBound), l) ∧
      ∀ body ending, b.perform (.run m i body ending) l = (.answered (.error .transactionBound), l)
  /-- A begin leaves the contexts that are there alone. -/
  parent : ∀ m i, ∀ j < l.contexts.length, (b.perform (.begin m i) l).2.contexts[j]? = l.contexts[j]?

theorem perform_tx (hi : l.context? i = some c) : b.perform (.tx i) l = (.answered (c.tx.map fun _ => ()), l) := by
  rw [perform, hi]

/-- What a context without an open transaction answers, it answers for ever. -/
theorem settled_after (hi : l.context? i = some c) (h : c.scope = some ⟨k, none⟩) (moves : List Move) :
    b.Settled i (b.after moves l) := by
  have hc : c.held? = none := by rw [Context.held?, h]; rfl
  refine ((b.steps_after moves l).closed hc (.inr hi)).imp_right fun hi => ⟨?_, ?_, ?_⟩
  · rw [perform_tx b hi, Context.tx_of_finished h]
    rfl
  · exact b.commitIn_of_finished hi h
  · exact b.rollbackIn_of_finished hi h

theorem contexts_beginIn {j : Nat} (m : ScopeManager) (i : Nat) (hj : j < l.contexts.length) :
    (b.beginIn m i l).2.contexts[j]? = l.contexts[j]? := by
  rw [beginIn]
  split
  · rfl
  · split
    · exact List.getElem?_append_left hj
    · rfl
    · rfl

/-- Every life is orderly, whatever the database does. -/
theorem orderly_after (inner : σ) (moves : List Move) : b.Orderly (b.after moves (.new inner)) := by
  have h := (Accounted.new inner).steps (b.steps_after moves (.new inner))
  have hdistinct : (b.after moves (.new inner)).ledger.begun.Nodup := h.names ▸ List.nodup_range
  have hnodup := h.split.nodup_iff.mp hdistinct
  exact {
    distinct := hdistinct
    known := fun t ht => h.split.mem_iff.mpr (List.mem_append_left _ ht)
    once := (List.nodup_append.mp hnodup).1
    account := by rw [h.split.length_eq, List.length_append, Ledger.length_ended]
    unbound := fun hi hs =>
      ⟨by rw [perform_tx b hi, Context.tx_of_unbound hs]; rfl, b.commitIn_of_unbound hi hs,
        b.rollbackIn_of_unbound hi hs⟩
    bound := fun {i c k t} hi hs => by
      have ht : c.held? = some t := Context.held?_eq_some.mpr ⟨k, hs⟩
      refine ⟨by rw [perform_tx b hi, Context.tx_of_open hs]; rfl, ?_, ?_⟩
      · obtain ⟨r, s, hx⟩ := b.commitIn_of_open hi ht
        exact ⟨r, s, _, hx, rfl, rfl, b.settled_after (context?_set hi _ _) (Context.scope_finished hs)⟩
      · obtain ⟨r, s, hx⟩ := b.rollbackIn_of_open hi ht
        exact ⟨r, s, _, hx, rfl, rfl, b.settled_after (context?_set hi _ _) (Context.scope_finished hs)⟩
    finished := fun hi hs => b.settled_after hi hs
    refused := fun hi hs m => by
      have hb := b.beginIn_of_scope m hi hs
      exact ⟨hb, fun body ending => by rw [perform, hb]⟩
    parent := fun m i j hj => b.contexts_beginIn m i hj }

end Backend
end IdentityVault
