import IdentityVault.World.Basic

/-! What programs end with in a world. A program ends in what its steps end in, and where no call fails and no deadline
    is set, a call does what the database does. -/

namespace IdentityVault

namespace Program
variable {α β : Type} {s : Surroundings} {w : World} {Q R : α → World → Prop}

theorem inWorld_bind (s : Surroundings) (p : Program Effect α) (f : α → Program Effect β) (w : World) :
    (p.bind f).inWorld s w = (p.inWorld s w).bind fun (a, w) => (f a).inWorld s w := by
  rw [inWorld, run_bind]
  rfl

theorem inWorld_ask (s : Surroundings) (e : Effect β) (next : β → Program Effect α) (w : World) :
    (ask e next).inWorld s w = (InWorld.handle s e w).bind fun (b, w) => (next b).inWorld s w := rfl

/-- A program goes on after its effect. -/
theorem inWorld_of_handle {e : Effect β} {next : β → Program Effect α} {b : β} {w' : World}
    (h : InWorld.handle s e w = .ok (b, w')) : (ask e next).inWorld s w = (next b).inWorld s w' := by
  rw [inWorld_ask, h]
  rfl

theorem of_inWorld_ask {e : Effect β} {next : β → Program Effect α} {a : α} {w' : World}
    (h : (ask e next).inWorld s w = .ok (a, w')) :
    ∃ b w₁, InWorld.handle s e w = .ok (b, w₁) ∧ (next b).inWorld s w₁ = .ok (a, w') := by
  rw [inWorld_ask] at h
  rcases hb : InWorld.handle s e w with cause | ⟨b, w₁⟩
  · rw [hb] at h
    cases h
  · rw [hb] at h
    exact ⟨b, w₁, rfl, h⟩

/-- The program comes to an end, with a value and in a world of which `Q` holds. -/
def Ends (s : Surroundings) (p : Program Effect α) (w : World) (Q : α → World → Prop) : Prop :=
  ∃ a w', p.inWorld s w = .ok (a, w') ∧ Q a w'

namespace Ends

theorem done {a : α} (h : Q a w) : Ends s (.done a) w Q := ⟨a, w, rfl, h⟩

theorem mono {p : Program Effect α} (h : Ends s p w Q) (hq : ∀ {a w'}, Q a w' → R a w') : Ends s p w R := by
  obtain ⟨a, w', hp, ha⟩ := h
  exact ⟨a, w', hp, hq ha⟩

theorem bind {p : Program Effect β} {f : β → Program Effect α} {P : β → World → Prop} (hp : Ends s p w P)
    (hf : ∀ {b w'}, P b w' → Ends s (f b) w' Q) : Ends s (p.bind f) w Q := by
  obtain ⟨b, w', hp, hb⟩ := hp
  obtain ⟨a, w'', ha, hq⟩ := hf hb
  exact ⟨a, w'', by rw [inWorld_bind, hp]; exact ha, hq⟩

theorem ask {e : Effect β} {next : β → Program Effect α} {b : β} {w' : World}
    (he : InWorld.handle s e w = .ok (b, w')) (hn : Ends s (next b) w' Q) : Ends s (.ask e next) w Q := by
  obtain ⟨a, w'', ha, hq⟩ := hn
  exact ⟨a, w'', (inWorld_of_handle he).trans ha, hq⟩

theorem perform {e : Effect α} {a : α} {w' : World} (he : InWorld.handle s e w = .ok (a, w')) (hq : Q a w') :
    Ends s (.perform e) w Q :=
  ask he (done hq)

end Ends
end Program

namespace Action
variable {α β : Type} {s : Surroundings} {w : World}

/-- An action ends with the failure of its first step, or as the rest does. -/
theorem ends_bind {a : Action β} {f : β → Action α} {P : Outcome β → World → Prop} {Q : Outcome α → World → Prop}
    (ha : a.result.Ends s w P) (hok : ∀ {b w'}, P (.ok b) w' → (f b).result.Ends s w' Q)
    (herror : ∀ {e w'}, P (.error e) w' → Q (.error e) w') : (a >>= f).result.Ends s w Q := by
  refine Program.Ends.bind ha fun {r w'} hr => ?_
  rcases r with e | b
  · exact .done (herror hr)
  · exact hok hr

theorem ends_bind_some {a : Action β} {f : β → Action α} {P : β → World → Prop} {Q : Outcome α → World → Prop}
    (ha : a.result.Ends s w fun r w' => ∃ b, r = .ok b ∧ P b w')
    (hf : ∀ {b w'}, P b w' → (f b).result.Ends s w' Q) : (a >>= f).result.Ends s w Q := by
  refine ends_bind ha ?_ ?_
  · rintro _ w' ⟨b, hr, hb⟩
    cases hr
    exact hf hb
  · rintro e w' ⟨b, hr, -⟩
    cases hr

theorem ends_bind_ok {a : Action β} {b : β} {f : β → Action α} {P : World → Prop} {Q : Outcome α → World → Prop}
    (ha : a.result.Ends s w fun r w' => r = .ok b ∧ P w') (hf : ∀ {w'}, P w' → (f b).result.Ends s w' Q) :
    (a >>= f).result.Ends s w Q := by
  refine ends_bind_some (P := fun b' w' => b' = b ∧ P w') (ha.mono ?_) ?_
  · rintro _ w' ⟨rfl, hw'⟩
    exact ⟨b, rfl, rfl, hw'⟩
  · rintro _ w' ⟨rfl, hw'⟩
    exact hf hw'

theorem ends_bind_error {a : Action β} {e : Failure} {f : β → Action α} {P : World → Prop}
    {Q : Outcome α → World → Prop} (ha : a.result.Ends s w fun r w' => r = .error e ∧ P w')
    (hq : ∀ {w'}, P w' → Q (.error e) w') : (a >>= f).result.Ends s w Q := by
  refine ends_bind ha ?_ ?_
  · rintro b w' ⟨hr, -⟩
    cases hr
  · rintro _ w' ⟨hr, hw'⟩
    cases hr
    exact hq hw'

theorem ends_ask {e : Effect β} {b : β} {w' : World} {f : β → Action α} {Q : Outcome α → World → Prop}
    (h : InWorld.handle s e w = .ok (b, w')) (hq : (f b).result.Ends s w' Q) :
    (ask e >>= f).result.Ends s w Q := by
  change (Program.ask e fun b => (f b).result).Ends s w Q
  exact .ask h hq

theorem ends_attempt {e : Effect (Outcome β)} {b : β} {w' : World} {f : β → Action α} {Q : Outcome α → World → Prop}
    (h : InWorld.handle s e w = .ok (.ok b, w')) (hq : (f b).result.Ends s w' Q) :
    (attempt e >>= f).result.Ends s w Q := by
  change (Program.ask e (ExceptT.bindCont f)).Ends s w Q
  exact .ask h hq

end Action

/-! ### Calls where nothing fails -/

def Surroundings.Faultless (s : Surroundings) : Prop := ∀ call n, s.fault call n = none

/-- There is a deadline, and it is not later than `now`. -/
def Expired (deadline : Option Instant) (now : Instant) : Prop := ∃ d, deadline = some d ∧ d ≤ now

theorem Expired.mono {deadline : Option Instant} {now later : Instant} (h : Expired deadline now)
    (hle : now ≤ later) : Expired deadline later := by
  obtain ⟨d, hd, hnow⟩ := h
  exact ⟨d, hd, Int.le_trans hnow hle⟩

namespace World
variable {α : Type} {s : Surroundings}

/-- What a call comes to, by its deadline. -/
inductive Visited (s : Surroundings) (call : Call) (deadline : Option Instant)
    (act : Option Failure → Database → Outcome α × Database) (w : World) : Outcome α → World → Prop
  | late {d : Instant} (hd : deadline = some d) (hlate : d ≤ w.clock) :
    Visited s call deadline act w (.error .deadlineExceeded) w
  | cutOff {d : Instant} (hd : deadline = some d) (hstart : w.clock < d)
    (hdelay : d < w.clock + (s.delay call (w.made call) : Int)) :
    Visited s call deadline act w (.error .deadlineExceeded)
      { w with clock := d, visits := ⟨call, w.clock, d, .cutOff⟩ :: w.visits }
  | completed {finish : Instant} {ending : Ending} (hfinish : finish = w.clock + (s.delay call (w.made call) : Int))
    (hd : ∀ d, deadline = some d → w.clock < d ∧ finish ≤ d) (hending : ending ≠ .cutOff) :
    Visited s call deadline act w (act (s.fault call (w.acted call)) w.database).1
      { w with
        clock := finish
        database := (act (s.fault call (w.acted call)) w.database).2
        visits := ⟨call, w.clock, finish, ending⟩ :: w.visits }

theorem visited (s : Surroundings) (call : Call) (deadline : Option Instant)
    (act : Option Failure → Database → Outcome α × Database) (w : World) :
    Visited s call deadline act w (visit s call deadline act w).1 (visit s call deadline act w).2 := by
  have ending (r : Outcome α) : (if r.isOk then Ending.succeeded else .failed) ≠ .cutOff := by
    split <;> exact nofun
  rcases deadline with _ | d
  · rw [visit, Wait.within]
    exact .completed rfl nofun (ending _)
  by_cases hlate : d ≤ w.clock
  · rw [visit, Wait.within, if_pos hlate]
    exact .late rfl hlate
  have hstart : w.clock < d := Int.not_le.mp hlate
  by_cases hwaits : w.clock + (s.delay call (w.made call) : Int) ≤ d
  · rw [visit, Wait.within, if_neg hlate, if_pos hwaits]
    refine .completed rfl (fun d' hd => ?_) (ending _)
    cases hd
    exact ⟨hstart, hwaits⟩
  · rw [visit, Wait.within, if_neg hlate, if_neg hwaits]
    exact .cutOff rfl hstart (Int.not_le.mp hwaits)

theorem Visited.clock_le {call : Call} {deadline : Option Instant}
    {act : Option Failure → Database → Outcome α × Database} {w w' : World} {r : Outcome α}
    (h : Visited s call deadline act w r w') : w.clock ≤ w'.clock := by
  cases h with
  | late => exact Int.le_refl _
  | cutOff _ hstart _ => exact Int.le_of_lt hstart
  | completed hfinish _ _ => exact hfinish ▸ Int.le_add_of_nonneg_right (Int.natCast_nonneg _)

/-- A call that does not fail acts on the database after its delay, or its deadline has come. -/
theorem visit_cases (hs : s.Faultless) (call : Call) (deadline : Option Instant)
    (act : Option Failure → Database → Outcome α × Database) (w : World) :
    ∃ r w', visit s call deadline act w = (r, w') ∧ w'.ids = w.ids ∧ w.clock ≤ w'.clock ∧
      ((r = (act none w.database).1 ∧ w'.database = (act none w.database).2 ∧
          w'.clock = w.clock + s.delay call (w.made call)) ∨
        (r = .error .deadlineExceeded ∧ w'.database = w.database ∧ Expired deadline w'.clock)) := by
  have hv := visited s call deadline act w
  rcases hvisit : visit s call deadline act w with ⟨r, w'⟩
  rw [hvisit] at hv
  refine ⟨r, w', rfl, ?_⟩
  have hclock := hv.clock_le
  cases hv with
  | late hd hlate => exact ⟨rfl, hclock, .inr ⟨rfl, rfl, _, hd, hlate⟩⟩
  | cutOff hd hstart hdelay => exact ⟨rfl, hclock, .inr ⟨rfl, rfl, _, hd, Int.le_refl _⟩⟩
  | completed hfinish hd hending => exact ⟨rfl, hclock, .inl ⟨by rw [hs], by rw [hs], hfinish⟩⟩

/-- A call that does not fail, and for which nobody stops waiting, acts on the database. -/
theorem visit_eq (hs : s.Faultless) (call : Call) (act : Option Failure → Database → Outcome α × Database)
    (w : World) :
    ∃ w', visit s call none act w = ((act none w.database).1, w') ∧ w'.database = (act none w.database).2 ∧
      w'.ids = w.ids ∧ w.clock ≤ w'.clock := by
  obtain ⟨r, w', hv, hids, hclock, ⟨rfl, hdb, -⟩ | ⟨-, -, d, hd, -⟩⟩ := visit_cases hs call none act w
  · exact ⟨w', hv, hdb, hids, hclock⟩
  · cases hd

end World

end IdentityVault
