import IdentityVault.Proofs.Directory.Course
import IdentityVault.Proofs.World.Moment
import Mathlib.Logic.Function.Basic

/-! Calls of a directory in flight. Any number of them work on one database, and take turns effect by effect, in any
    order; each effect comes out as its moment has it. Every call stays on the course of its own stages. -/

namespace IdentityVault

/-- A call that is under way, with what is left of it. -/
structure Underway where
  call : Directory.Call
  rest : Program Effect (Outcome Session.Reply)

structure Traffic where
  database : Database
  calls : List Underway
  /-- What was done to the database, with the place of the call that did it. -/
  trace : List (Nat × Database.Op)

namespace Traffic

inductive Turn where
  | start (directory : Directory) (parent : Context) (call : Directory.Call)
  /-- The call at a place does its next effect. -/
  | go (i : Nat) (m : Moment)

/-- No call is under way yet. -/
def new (d : Database) : Traffic := ⟨d, [], []⟩

/-- A call joins the others. -/
def joined (traffic : Traffic) (u : Underway) : Traffic := { traffic with calls := traffic.calls ++ [u] }

/-- The call at a place has become `u`, for which `ops` were done. -/
def moved (traffic : Traffic) (i : Nat) (u : Underway) (ops : List Database.Op) : Traffic :=
  ⟨traffic.database.after ops, traffic.calls.set i u, traffic.trace ++ ops.map (i, ·)⟩

def turn (fits : Verifier) (traffic : Traffic) : Turn → Traffic
  | .start directory parent call => traffic.joined ⟨call, (call.perform directory parent).result⟩
  | .go i m =>
    match traffic.calls[i]? with
    | some ⟨call, .ask e next⟩ =>
      match e.answer fits m traffic.database with
      | some (b, ops) => traffic.moved i ⟨call, next b⟩ ops
      | none => traffic
    | _ => traffic

def after (fits : Verifier) (traffic : Traffic) (turns : List Turn) : Traffic := turns.foldl (turn fits) traffic

variable {fits : Verifier} {start : Database} {traffic : Traffic} {stage : Nat → Stage} {i j : Nat} {u : Underway}
  {g g' : Stage} {ops : List Database.Op}

@[simp]
theorem after_nil (traffic : Traffic) : traffic.after fits [] = traffic := rfl

@[simp]
theorem after_cons (traffic : Traffic) (turn : Turn) (turns : List Turn) :
    traffic.after fits (turn :: turns) = (traffic.turn fits turn).after fits turns := rfl

theorem after_append (traffic : Traffic) (turns more : List Turn) :
    traffic.after fits (turns ++ more) = (traffic.after fits turns).after fits more :=
  List.foldl_append

/-- All that a turn can do. -/
theorem turn_cases (fits : Verifier) (traffic : Traffic) (turn : Turn) :
    traffic.turn fits turn = traffic ∨
      (∃ directory parent call,
        traffic.turn fits turn = traffic.joined ⟨call, (call.perform directory parent).result⟩) ∨
      ∃ i m call, ∃ (β : Type) (e : Effect β) (next : β → Program Effect (Outcome Session.Reply)), ∃ b ops,
        traffic.calls[i]? = some ⟨call, .ask e next⟩ ∧ e.answer fits m traffic.database = some (b, ops) ∧
          traffic.turn fits turn = traffic.moved i ⟨call, next b⟩ ops := by
  cases turn with
  | start directory parent call => exact .inr (.inl ⟨directory, parent, call, rfl⟩)
  | go i m =>
    rw [turn]
    split
    · next call β e next hu =>
      split
      · next b ops ha => exact .inr (.inr ⟨i, m, call, β, e, next, b, ops, hu, ha, rfl⟩)
      · exact .inl rfl
    · exact .inl rfl

/-- A call that has returned stays as it is. -/
theorem done_after {call : Directory.Call} {r : Outcome Session.Reply} (turns : List Turn)
    (h : traffic.calls[i]? = some ⟨call, .done r⟩) : (traffic.after fits turns).calls[i]? = some ⟨call, .done r⟩ := by
  induction turns generalizing traffic with
  | nil => exact h
  | cons turn turns ih =>
    refine ih ?_
    rcases turn_cases fits traffic turn with hsame | ⟨_, _, _, hjoin⟩ | ⟨j, _, _, _, _, _, _, _, hj, -, hmove⟩
    · rw [hsame, h]
    · rw [hjoin, joined, List.getElem?_append_left (List.getElem?_eq_some_iff.mp h).1, h]
    · have hne : j ≠ i := by
        rintro rfl
        cases hj.symm.trans h
      rw [hmove, moved, List.getElem?_set_ne hne, h]

/-- A call that comes to an end in a world can do so among others, if they let it have its turns. -/
theorem turns_of_inWorld {s : Surroundings} {w w' : World} {call : Directory.Call}
    {p : Program Effect (Outcome Session.Reply)} {r : Outcome Session.Reply} (h : p.inWorld s w = .ok (r, w'))
    (hu : traffic.calls[i]? = some ⟨call, p⟩) (hd : traffic.database = w.database) :
    ∃ turns, (traffic.after s.hasher.fits turns).calls[i]? = some ⟨call, .done r⟩ ∧
      (traffic.after s.hasher.fits turns).database = w'.database := by
  induction p generalizing traffic w with
  | done a =>
    cases h
    exact ⟨[], hu, hd⟩
  | ask e next ih =>
    obtain ⟨b, w₁, hb, hrest⟩ := Program.of_inWorld_ask h
    obtain ⟨m, ops, ha, hdb⟩ := World.answer_of_handle hb
    have hturn : traffic.turn s.hasher.fits (.go i m) = traffic.moved i ⟨call, next b⟩ ops := by
      simp only [turn, hu, hd, ha]
    have hmoved : (traffic.moved i ⟨call, next b⟩ ops).calls[i]? = some ⟨call, next b⟩ :=
      List.getElem?_set_self (List.getElem?_eq_some_iff.mp hu).1
    obtain ⟨turns, hcalls, hdatabase⟩ := ih b hrest hmoved (by rw [hdb, ← hd]; rfl)
    refine ⟨.go i m :: turns, ?_⟩
    rw [after_cons, hturn]
    exact ⟨hcalls, hdatabase⟩

/-! ### The course of one call -/

/-- The call at a place is at a stage. -/
structure OnCourse (fits : Verifier) (start : Database) (traffic : Traffic) (i : Nat) (g : Stage) : Prop where
  reaches : Stage.unopened.Reaches start i traffic.trace g
  leads : ∀ {u : Underway}, traffic.calls[i]? = some u →
    u.rest.Leads fits (ScopeManager.Settled (u.call.Publishes fits)) g
  idle : traffic.calls[i]? = none → g = .unopened
  /-- An open transaction began when the shared tables were as the stage says. -/
  since : ∀ {t tables x}, g = .opened t tables x → ∃ earlier later,
    traffic.trace = earlier ++ (i, .begin) :: later ∧ tables = (start.along earlier).tables

namespace OnCourse

theorem new (fits : Verifier) (start : Database) (i : Nat) : OnCourse fits start (.new start) i .unopened where
  reaches := .refl trivial
  leads h := nomatch h
  idle _ := rfl
  since h := nomatch h

variable (h : OnCourse fits start traffic i g)
include h

theorem joined (directory : Directory) (parent : Context) (call : Directory.Call) :
    OnCourse fits start (traffic.joined ⟨call, (call.perform directory parent).result⟩) i g where
  reaches := h.reaches
  leads {u} hu := by
    rw [Traffic.joined] at hu
    rcases Nat.lt_trichotomy i traffic.calls.length with hi | rfl | hi
    · rw [List.getElem?_append_left hi] at hu
      exact h.leads hu
    · rw [List.getElem?_concat_length] at hu
      cases hu
      rw [h.idle (List.getElem?_eq_none (Nat.le_refl _))]
      exact Directory.leads_perform directory parent call
    · rw [List.getElem?_eq_none (by simp; omega)] at hu
      cases hu
  idle hnone := by
    refine h.idle (List.getElem?_eq_none ?_)
    have hlength := List.getElem?_eq_none_iff.mp hnone
    rw [Traffic.joined, List.length_append] at hlength
    omega
  since := h.since

theorem since_append (ops : List Database.Op) {t : TxId} {tables : Tables} {x : Transaction}
    (hg : g = .opened t tables x) : ∃ earlier later,
      traffic.trace ++ ops.map (j, ·) = earlier ++ (i, .begin) :: later ∧ tables = (start.along earlier).tables := by
  obtain ⟨earlier, later, htrace, htables⟩ := h.since hg
  exact ⟨earlier, later ++ ops.map (j, ·), by rw [htrace, List.append_assoc, List.cons_append], htables⟩

/-- The call has done its next effect. -/
theorem move (hd : traffic.database = start.along traffic.trace) (hn : traffic.database.Named)
    (hi : i < traffic.calls.length) (hgoes : g.Goes traffic.database ops g')
    (hleads : u.rest.Leads fits (ScopeManager.Settled (u.call.Publishes fits)) g') :
    OnCourse fits start (traffic.moved i u ops) i g' where
  reaches := h.reaches.trans (hd ▸ hgoes.reaches i hn (hd ▸ h.reaches.inside))
  leads {v} hv := by
    rw [moved, List.getElem?_set_self hi] at hv
    cases hv
    exact hleads
  idle hnone := by
    rw [moved, List.getElem?_set_self hi] at hnone
    cases hnone
  since {t tables x} hg := by
    subst hg
    rcases hgoes.start with ⟨y, hy⟩ | ⟨rfl, rfl⟩
    · exact h.since_append ops hy
    · exact ⟨traffic.trace, [], rfl, by rw [hd]⟩

/-- Another call has done its next effect, and has left the transaction of this one alone. -/
theorem stay (hd : traffic.database = start.along traffic.trace) (hn : traffic.database.Named) (hne : j ≠ i)
    (hops : ∀ op ∈ ops, ∀ t, g.open? = some t → op.tx? ≠ some t) :
    OnCourse fits start (traffic.moved j u ops) i g where
  reaches := h.reaches.trans (hd ▸ .of_others hne hn (hd ▸ h.reaches.inside) hops)
  leads {v} hv := by
    rw [moved, List.getElem?_set_ne hne] at hv
    exact h.leads hv
  idle hnone := by
    rw [moved, List.getElem?_set_ne hne] at hnone
    exact h.idle hnone
  since hg := h.since_append ops hg

/-! ### What the call has published -/

theorem publishedBy_eq : start.publishedBy i traffic.trace = g.logs := h.reaches.logs

theorem published_of_ok {call : Directory.Call} {reply : Session.Reply}
    (hu : traffic.calls[i]? = some ⟨call, .done (.ok reply)⟩) :
    ∃ tables log, start.publishedBy i traffic.trace = [log] ∧ call.Publishes fits reply tables log := by
  obtain ⟨t, tables, log, rfl, hp⟩ := h.leads hu
  exact ⟨tables, log, h.publishedBy_eq, hp⟩

theorem published_of_error {call : Directory.Call} {f : Failure}
    (hu : traffic.calls[i]? = some ⟨call, .done (.error f)⟩) : start.publishedBy i traffic.trace = [] :=
  h.publishedBy_eq.trans (h.leads hu)

/-- Only a call that has returned with success has published anything. -/
theorem ok_of_published {log : List Write} (hlog : log ∈ start.publishedBy i traffic.trace) :
    ∃ call reply tables, traffic.calls[i]? = some ⟨call, .done (.ok reply)⟩ ∧
      call.Publishes fits reply tables log := by
  have hne : g.logs ≠ [] := h.publishedBy_eq ▸ List.ne_nil_of_mem hlog
  cases hu : traffic.calls[i]? with
  | none => exact absurd (congrArg Stage.logs (h.idle hu)) hne
  | some u =>
    obtain ⟨call, rest⟩ := u
    cases rest with
    | ask e next => exact absurd (h.leads hu).1 hne
    | done r =>
      rcases r with f | reply
      · exact absurd (h.leads hu) hne
      · obtain ⟨tables, log', hall, hp⟩ := h.published_of_ok hu
        rw [hall, List.mem_singleton] at hlog
        exact ⟨call, reply, tables, rfl, hlog ▸ hp⟩

end OnCourse

/-! ### All calls -/

structure Steered (fits : Verifier) (start : Database) (traffic : Traffic) (stage : Nat → Stage) : Prop where
  database : traffic.database = start.along traffic.trace
  course : ∀ i, OnCourse fits start traffic i (stage i)
  /-- Open transactions belong to different calls. -/
  apart : ∀ {i j t}, (stage i).open? = some t → (stage j).open? = some t → i = j

namespace Steered

theorem new (fits : Verifier) (start : Database) : Steered fits start (.new start) fun _ => .unopened :=
  ⟨rfl, .new fits start, nofun⟩

variable (h : Steered fits start traffic stage)
include h

theorem within (i : Nat) : (stage i).In traffic.database := h.database ▸ (h.course i).reaches.inside

theorem joined (directory : Directory) (parent : Context) (call : Directory.Call) :
    Steered fits start (traffic.joined ⟨call, (call.perform directory parent).result⟩) stage :=
  ⟨h.database, fun i => (h.course i).joined directory parent call, h.apart⟩

/-- The transaction of a call after its effect is still nobody else's: it is the one that it had, or a new one. -/
theorem fresh (hn : traffic.database.Named) (hgoes : (stage i).Goes traffic.database ops g) (hne : j ≠ i) {t : TxId}
    (ht : g.open? = some t) : (stage j).open? ≠ some t := by
  intro hj
  rcases hgoes.open? ht with hi | hb
  · exact hne (h.apart hj hi)
  · exact absurd (Database.begin_eq_ok.mp hb).2 (Nat.ne_of_lt ((h.within j).lt hn hj))

/-- An effect of one call takes that call to its next stage, and leaves the others where they are. -/
theorem move (hn : start.Named) (hs : start.Sound) {m : Moment} {call : Directory.Call} {β : Type} {e : Effect β}
    {next : β → Program Effect (Outcome Session.Reply)} {b : β} (hu : traffic.calls[i]? = some ⟨call, .ask e next⟩)
    (ha : e.answer fits m traffic.database = some (b, ops)) :
    ∃ g, Steered fits start (traffic.moved i ⟨call, next b⟩ ops) (Function.update stage i g) := by
  have hnamed : traffic.database.Named := h.database ▸ hn.along traffic.trace
  have hsound : traffic.database.tables.Sound := h.database ▸ (hs.along hn traffic.trace).tables
  have hlt : i < traffic.calls.length := (List.getElem?_eq_some_iff.mp hu).1
  obtain ⟨g, hgoes, hleads⟩ := ((h.course i).leads hu).2.goes (h.within i) hsound ha
  refine ⟨g, ?_, ?_, fun {j k t} hj hk => ?_⟩
  · rw [moved, Database.along_append, Database.along_by, ← h.database]
  · refine (Function.forall_update_iff stage _).mpr ⟨(h.course i).move h.database hnamed hlt hgoes hleads, ?_⟩
    intro j hne
    refine (h.course j).stay h.database hnamed (Ne.symm hne) fun op hop t ht hop' => ?_
    exact hne (h.apart ht (hgoes.names hop hop'))
  · by_cases hji : j = i <;> by_cases hki : k = i
    · exact hji.trans hki.symm
    · rw [hji, Function.update_self] at hj
      rw [Function.update_of_ne hki] at hk
      exact absurd hk (h.fresh hnamed hgoes hki hj)
    · rw [Function.update_of_ne hji] at hj
      rw [hki, Function.update_self] at hk
      exact absurd hj (h.fresh hnamed hgoes hji hk)
    · rw [Function.update_of_ne hji] at hj
      rw [Function.update_of_ne hki] at hk
      exact h.apart hj hk

end Steered

/-- Whatever turns are taken, every call stays on its course. -/
theorem steered_after (fits : Verifier) (hn : start.Named) (hs : start.Sound) (turns : List Turn) :
    ∃ stage, Steered fits start ((new start).after fits turns) stage := by
  suffices h : ∀ {traffic stage}, Steered fits start traffic stage →
      ∃ stage, Steered fits start (traffic.after fits turns) stage from h (.new fits start)
  induction turns with
  | nil => exact fun h => ⟨_, h⟩
  | cons turn turns ih =>
    intro traffic stage h
    rcases turn_cases fits traffic turn with
      hsame | ⟨directory, parent, call, hjoin⟩ | ⟨i, m, call, β, e, next, b, ops, hu, ha, hmove⟩
    · rw [after_cons, hsame]
      exact ih h
    · rw [after_cons, hjoin]
      exact ih (h.joined directory parent call)
    · obtain ⟨g, hstep⟩ := h.move hn hs hu ha
      rw [after_cons, hmove]
      exact ih hstep

end Traffic
end IdentityVault
