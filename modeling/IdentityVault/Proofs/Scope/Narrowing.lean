import IdentityVault.Proofs.Scope.Within
import IdentityVault.Proofs.World.Crashes
import Mathlib.Logic.Relation

/-! Deadlines only move to earlier points. Whatever becomes of a family of contexts, the deadline of each one is the
    earliest of the limits that were given to it and to the context that it comes from. -/

namespace IdentityVault

variable {c d e : Context} {now : Instant}

/-! ### Adjustments -/

/-- What the holder of a context does to its deadline. -/
inductive Adjustment where
  | timeout (t : Duration)
  | deadline (d : Instant)
  deriving DecidableEq, Repr

namespace Adjustment

/-- The limit that an adjustment sets at `now`. -/
def limit (now : Instant) : Adjustment → Instant
  | timeout t => now + (t : Int)
  | deadline d => d

/-- The clock can show the end of the timeout. -/
def OnClock (now : Instant) : Adjustment → Prop
  | timeout t => now + (t : Int) ≤ Instant.last
  | deadline _ => True

end Adjustment

namespace Context

def adjust? (c : Context) (now : Instant) : Adjustment → Option Context
  | .timeout t => c.withTimeout? now t
  | .deadline d => some (c.withDeadline d)

/-- Adjustments that are all made at one instant. -/
def adjustAll? (c : Context) (now : Instant) (as : List Adjustment) : Option Context := as.foldlM (·.adjust? now) c

theorem adjust?_eq_some {a : Adjustment} :
    c.adjust? now a = some d ↔ a.OnClock now ∧ c.withDeadline (a.limit now) = d := by
  cases a with
  | deadline e => simp [adjust?, Adjustment.OnClock, Adjustment.limit]
  | timeout t => simp [adjust?, withTimeout?, Instant.after?, Adjustment.OnClock, Adjustment.limit]

/-- A limit comes to the earliest of those that were given before, or is the first one. -/
theorem deadline_withDeadline {limits : List Instant} (h : c.deadline = limits.min?) (limit : Instant) :
    (c.withDeadline limit).deadline = (limit :: limits).min? := by
  rw [withDeadline, List.min?_cons, h]
  cases limits.min? with
  | none => rfl
  | some e => exact congrArg some (Int.min_comm e limit)

theorem withDeadline_comm (c : Context) (limit other : Instant) :
    (c.withDeadline limit).withDeadline other = (c.withDeadline other).withDeadline limit := by
  cases hc : c.deadline with
  | none => simp only [withDeadline, hc, Int.min_comm]
  | some e => simp only [withDeadline, hc, Int.min_assoc, Int.min_comm limit other]

theorem adjust?_comm (c : Context) (now : Instant) (a b : Adjustment) :
    (c.adjust? now a).bind (·.adjust? now b) = (c.adjust? now b).bind (·.adjust? now a) := by
  refine Option.ext fun d => ?_
  simp only [Option.bind_eq_some_iff, adjust?_eq_some]
  constructor
  · rintro ⟨_, ⟨ha, rfl⟩, hb, rfl⟩
    exact ⟨_, ⟨hb, rfl⟩, ha, withDeadline_comm c _ _⟩
  · rintro ⟨_, ⟨hb, rfl⟩, ha, rfl⟩
    exact ⟨_, ⟨ha, rfl⟩, hb, withDeadline_comm c _ _⟩

/-- Adjustments that are made at one instant can be made in any order. -/
theorem adjustAll?_perm {as bs : List Adjustment} (h : as.Perm bs) (c : Context) (now : Instant) :
    c.adjustAll? now as = c.adjustAll? now bs := by
  have cons (a : Adjustment) (as : List Adjustment) (c : Context) :
      c.adjustAll? now (a :: as) = (c.adjust? now a).bind (·.adjustAll? now as) := rfl
  induction h generalizing c with
  | nil => rfl
  | cons a _ ih => rw [cons, cons, funext ih]
  | swap a b as =>
    have pair (a b : Adjustment) : c.adjustAll? now (a :: b :: as) =
        ((c.adjust? now a).bind (·.adjust? now b)).bind (·.adjustAll? now as) := by
      rw [cons, Option.bind_assoc, funext (cons b as)]
    rw [pair, pair, adjust?_comm]
  | trans _ _ ih₁ ih₂ => exact (ih₁ c).trans (ih₂ c)

/-! ### Contexts that come from others -/

/-- A context with the request of another, and no more time than that one. -/
structure Narrows (d c : Context) : Prop where
  request : d.request = c.request
  deadline : ∀ e, c.deadline = some e → ∃ e', d.deadline = some e' ∧ e' ≤ e

theorem Narrows.refl (c : Context) : c.Narrows c := ⟨rfl, fun e he => ⟨e, he, Int.le_refl e⟩⟩

theorem Narrows.trans (h : e.Narrows d) (h' : d.Narrows c) : e.Narrows c := by
  refine ⟨h.request.trans h'.request, fun a ha => ?_⟩
  obtain ⟨b, hb, hba⟩ := h'.deadline a ha
  obtain ⟨b', hb', hle⟩ := h.deadline b hb
  exact ⟨b', hb', Int.le_trans hle hba⟩

theorem narrows_withDeadline (c : Context) (limit : Instant) : (c.withDeadline limit).Narrows c := by
  refine ⟨rfl, fun e he => ⟨min e limit, ?_, Int.min_le_left e limit⟩⟩
  rw [withDeadline, he]

end Context

namespace ScopeManager
variable {m : ScopeManager} {env : Surroundings} {w w' : World} {parent child : Context}

/-- The limits of a scope that has begun. -/
def limits (m : ScopeManager) (begun : Instant) : List Instant := (m.timeout.map fun t => begun + (t : Int)).toList

theorem deadline?_eq_min? {limits : List Instant} (h : parent.deadline = limits.min?) (m : ScopeManager)
    (begun : Instant) : m.deadline? parent begun = (m.limits begun ++ limits).min? := by
  rw [deadline?, ScopeManager.limits]
  cases m.timeout with
  | none => exact h
  | some t => exact Context.deadline_withDeadline h _

/-- A child of an unbound context: its limit counts from when its scope has begun. -/
structure Child (m : ScopeManager) (parent child : Context) (begun : Instant) : Prop where
  unbound : parent.scope = none
  bound : child.isBound
  request : child.request = parent.request
  deadline : child.deadline = m.deadline? parent begun

theorem Child.narrows {begun : Instant} (h : m.Child parent child begun) : child.Narrows parent := by
  refine ⟨h.request, fun e he => ?_⟩
  rw [h.deadline, deadline?]
  cases m.timeout with
  | none => exact ⟨e, he, Int.le_refl e⟩
  | some t => exact (parent.narrows_withDeadline _).deadline e he

/-- A scope that is begun in a context. It has begun once the wait for its transaction is over. -/
theorem child_of_inWorld (h : (m.begin parent).result.inWorld env w = .ok (.ok child, w')) :
    w'.clock = beginning env w ∧ m.Child parent child w'.clock := by
  by_cases hp : parent.scope = none
  swap
  · rw [begin_of_scope m hp] at h
    cases h
  have hvisited := World.visited env .begin parent.deadline (World.orFail Database.begin) w
  rcases hv : World.visit env .begin parent.deadline (World.orFail Database.begin) w with ⟨f | t, w₁⟩
  · rw [inWorld_begin_of_refused hp hv] at h
    cases h
  have hclock : w₁.clock = beginning env w := by
    rw [hv] at hvisited
    generalize hr : (Except.ok t : Outcome TxId) = r at hvisited
    cases hvisited with
    | late => cases hr
    | cutOff => cases hr
    | completed hfinish => exact hfinish
  rw [inWorld_begin_of_opened hp hv] at h
  cases hm : m.timeout with
  | none =>
    rw [hm] at h
    cases h
    exact ⟨hclock, hp, rfl, rfl, by rw [deadline?, hm]; rfl⟩
  | some limit =>
    simp only [hm] at h
    split at h
    · cases h
      exact ⟨hclock, hp, rfl, rfl, by rw [deadline?, hm]; rfl⟩
    · cases h

end ScopeManager

/-! ### Families -/

/-- A context of a family, with the limits that were given to it and to those that it comes from. -/
structure Member where
  context : Context
  limits : List Instant

/-- Contexts in a world. A child comes after its parent. -/
structure Family where
  world : World
  members : List Member

namespace Family
variable {f g : Family} {i : Nat} {m : Member} {c : Context}

/-- What happens to a family: time passes, and contexts are created, adjusted and begun. -/
inductive Step (f : Family) : Family → Prop
  | passed {w' : World} (h : f.world.clock ≤ w'.clock) : Step f ⟨w', f.members⟩
  | created (request : Token) : Step f ⟨f.world, f.members ++ [⟨.background request, []⟩]⟩
  | adjusted {i : Nat} {m : Member} {a : Adjustment} {c : Context} (hi : f.members[i]? = some m)
    (h : m.context.adjust? f.world.clock a = some c) :
    Step f ⟨f.world, f.members.set i ⟨c, a.limit f.world.clock :: m.limits⟩⟩
  | begun {i : Nat} {m : Member} {scopes : ScopeManager} {env : Surroundings} {c : Context} {w' : World}
    (hi : f.members[i]? = some m) (h : (scopes.begin m.context).result.inWorld env f.world = .ok (.ok c, w')) :
    Step f ⟨w', f.members ++ [⟨c, scopes.limits w'.clock ++ m.limits⟩]⟩

/-- The deadline of each context is the earliest of its limits. -/
def Earliest (f : Family) : Prop := ∀ m ∈ f.members, m.context.deadline = m.limits.min?

theorem Step.earliest (h : f.Step g) (hf : f.Earliest) : g.Earliest := by
  cases h with
  | passed => exact hf
  | created request => exact List.forall_mem_append.mpr ⟨hf, List.forall_mem_singleton.mpr rfl⟩
  | @adjusted i m a c hi h =>
    intro m' hm'
    rcases List.mem_or_eq_of_mem_set hm' with hm' | rfl
    · exact hf m' hm'
    · rw [← (Context.adjust?_eq_some.mp h).2]
      exact Context.deadline_withDeadline (hf m (List.mem_of_getElem? hi)) _
  | @begun i m scopes env c w' hi h =>
    refine List.forall_mem_append.mpr ⟨hf, List.forall_mem_singleton.mpr ?_⟩
    rw [(ScopeManager.child_of_inWorld h).2.deadline]
    exact ScopeManager.deadline?_eq_min? (hf m (List.mem_of_getElem? hi)) _ _

/-- Each context of `f` is still there in `g`, perhaps with less time. -/
def Keeps (f g : Family) : Prop :=
  ∀ (i : Nat) (m : Member), f.members[i]? = some m → ∃ m' : Member, g.members[i]? = some m' ∧
    m'.context.Narrows m.context

theorem Keeps.refl (f : Family) : f.Keeps f := fun _ m hi => ⟨m, hi, .refl m.context⟩

theorem Keeps.trans {f g k : Family} (h : f.Keeps g) (h' : g.Keeps k) : f.Keeps k := by
  intro i m hi
  obtain ⟨m₁, hi₁, hm₁⟩ := h i m hi
  obtain ⟨m₂, hi₂, hm₂⟩ := h' i m₁ hi₁
  exact ⟨m₂, hi₂, hm₂.trans hm₁⟩

theorem keeps_append (f : Family) (w : World) (m : Member) : f.Keeps ⟨w, f.members ++ [m]⟩ := fun i m' hi =>
  ⟨m', by rw [List.getElem?_append_left (List.getElem?_eq_some_iff.mp hi).1, hi], .refl m'.context⟩

theorem Step.keeps (h : f.Step g) : f.Keeps g := by
  cases h with
  | passed => exact Keeps.refl f
  | created => exact f.keeps_append _ _
  | begun => exact f.keeps_append _ _
  | @adjusted i m a c hi h =>
    intro j m' hj
    by_cases hij : i = j
    · subst hij
      cases hi.symm.trans hj
      refine ⟨_, List.getElem?_set_self (List.getElem?_eq_some_iff.mp hi).1, ?_⟩
      rw [← (Context.adjust?_eq_some.mp h).2]
      exact m.context.narrows_withDeadline _
    · exact ⟨m', by rw [List.getElem?_set_ne hij, hj], .refl m'.context⟩

/-- How the deadlines of a family move. -/
structure Narrowing (f : Family) : Prop where
  earliest : f.Earliest
  unlimited : ∀ m ∈ f.members, m.context.deadline = none ↔ m.limits = []
  adjusts : ∀ m ∈ f.members, ∀ a : Adjustment, a.OnClock f.world.clock →
    ∃ c, m.context.adjust? f.world.clock a = some c ∧ c.Narrows m.context
  anyOrder : ∀ m ∈ f.members, ∀ as bs : List Adjustment, as.Perm bs →
    m.context.adjustAll? f.world.clock as = m.context.adjustAll? f.world.clock bs
  keeps : ∀ {g : Family}, Relation.ReflTransGen Step f g → f.Keeps g
  /-- A context of the family remains as it was when a scope is begun in it. -/
  begins : ∀ {i : Nat} {m : Member} {scopes : ScopeManager} {env : Surroundings} {c : Context} {w' : World},
    f.members[i]? = some m → (scopes.begin m.context).result.inWorld env f.world = .ok (.ok c, w') →
      w'.clock = ScopeManager.beginning env f.world ∧ scopes.Child m.context c w'.clock ∧ c.Narrows m.context ∧
        ∃ g : Family, f.Step g ∧ g.world = w' ∧ g.members[i]? = some m ∧
          g.members[f.members.length]? = some ⟨c, scopes.limits w'.clock ++ m.limits⟩

theorem narrowing_after {w₀ : World} (h : Relation.ReflTransGen Step ⟨w₀, []⟩ f) : f.Narrowing := by
  have hearliest : f.Earliest := by
    induction h with
    | refl => exact fun m hm => nomatch hm
    | tail _ hstep ih => exact hstep.earliest ih
  refine ⟨hearliest, fun m hm => ?_, fun m hm a ha => ?_, fun m hm as bs hperm => ?_, fun hg => ?_, ?_⟩
  · rw [hearliest m hm, List.min?_eq_none_iff]
  · exact ⟨_, Context.adjust?_eq_some.mpr ⟨ha, rfl⟩, m.context.narrows_withDeadline _⟩
  · exact Context.adjustAll?_perm hperm m.context _
  · induction hg with
    | refl => exact Keeps.refl f
    | tail _ hstep ih => exact ih.trans hstep.keeps
  · intro i m scopes env c w' hi hbegin
    obtain ⟨hclock, hchild⟩ := ScopeManager.child_of_inWorld hbegin
    refine ⟨hclock, hchild, hchild.narrows, _, .begun hi hbegin, rfl, ?_, List.getElem?_concat_length⟩
    rw [List.getElem?_append_left (List.getElem?_eq_some_iff.mp hi).1, hi]

/-- A parent with 60 milliseconds, and a child that begins after ten of them and has 30 from then on. -/
theorem narrowing_after_of_child :
    let parent : Member := ⟨⟨0, some 60, none⟩, [60]⟩
    ∃ f : Family, Relation.ReflTransGen Step ⟨.new (.new 1), []⟩ f ∧
      f.members = [parent, ⟨⟨0, some 40, some ⟨0, some 0⟩⟩, [40, 60]⟩] ∧ f.Narrowing := by
  intro parent
  let env := (Surroundings.calm Id.numbered ⟨0, 0⟩ .plain).withDelays fun _ => 10
  obtain ⟨w', hbegin⟩ : ∃ w', ((⟨some 30⟩ : ScopeManager).begin parent.context).result.inWorld env (.new (.new 1)) =
      .ok (.ok ⟨0, some 40, some ⟨0, some 0⟩⟩, w') :=
    ⟨_, (ScopeManager.inWorld_begin_of_opened rfl rfl).trans (if_pos (by decide +kernel))⟩
  have hclock : w'.clock = 10 := (ScopeManager.child_of_inWorld hbegin).1
  have hadjust : (Context.background 0).adjust? 0 (.timeout 60) = some parent.context := rfl
  have hlimits : (⟨some 30⟩ : ScopeManager).limits w'.clock = [40] := by rw [hclock]; rfl
  have hcreated : Step ⟨.new (.new 1), []⟩ ⟨.new (.new 1), [⟨.background 0, []⟩]⟩ := .created 0
  have hadjusted : Step ⟨.new (.new 1), [⟨.background 0, []⟩]⟩ ⟨.new (.new 1), [parent]⟩ :=
    Step.adjusted (f := ⟨.new (.new 1), [⟨.background 0, []⟩]⟩) (i := 0) rfl hadjust
  have hbegun : Step ⟨.new (.new 1), [parent]⟩ ⟨w', [parent, ⟨⟨0, some 40, some ⟨0, some 0⟩⟩, [40, 60]⟩]⟩ := by
    have h := Step.begun (f := ⟨.new (.new 1), [parent]⟩) (i := 0) rfl hbegin
    rw [hlimits] at h
    exact h
  have hf : Relation.ReflTransGen Step ⟨.new (.new 1), []⟩ _ := .tail (.tail (.single hcreated) hadjusted) hbegun
  exact ⟨_, hf, rfl, narrowing_after hf⟩

end Family
end IdentityVault
