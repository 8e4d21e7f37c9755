import IdentityVault.Proofs.Gateway.Chain
import IdentityVault.Proofs.Store.Serial
import IdentityVault.Proofs.World.Moment
import IdentityVault.World.Sources
import Mathlib.Logic.Relation

/-! Calls of a gateway and the deadline of their context. A call whose deadline has come does nothing, and one that is
    under way is back when it comes. So nothing is written to a transaction when the deadline of its scope has come. -/

namespace IdentityVault

variable {α β : Type} {env : Surroundings} {w w' w'' : World} {d : Instant} {t : TxId} {r : Outcome α}

namespace World

/-- What is done from one world to another one, and ends with `r`, is done by the deadline. -/
structure Bounded (d : Instant) (w : World) (r : Outcome α) (w' : World) : Prop where
  clock : w.clock ≤ d → w'.clock ≤ d
  /-- All calls began before the deadline and were over when it came. One that was cut off was the last thing done. -/
  calls : ∃ made, w'.visits = made ++ w.visits ∧ ∀ v ∈ made, v.start < d ∧ v.finish ≤ d ∧
    (v.ending = .cutOff → r = .error .deadlineExceeded ∧ w'.clock = d)

namespace Bounded

theorem refl (w : World) (r : Outcome α) : w.Bounded d r w := ⟨id, [], rfl, nofun⟩

theorem of_eq (h : w'.Bounded d r w'') (hclock : w'.clock = w.clock) (hvisits : w'.visits = w.visits) :
    w.Bounded d r w'' := by
  obtain ⟨htime, made, hmade, hcalls⟩ := h
  exact ⟨hclock ▸ htime, made, hvisits ▸ hmade, hcalls⟩

/-- What is made of a result does not matter, as long as a deadline that was exceeded is not hidden. -/
theorem map {r' : Outcome β} (h : w.Bounded d r w')
    (hr : r = .error .deadlineExceeded → r' = .error .deadlineExceeded) : w.Bounded d r' w' := by
  obtain ⟨htime, made, hmade, hcalls⟩ := h
  refine ⟨htime, made, hmade, fun v hv => ?_⟩
  obtain ⟨hstart, hfinish, hcut⟩ := hcalls v hv
  exact ⟨hstart, hfinish, fun hv => (hcut hv).imp_left hr⟩

/-- What goes on has not been cut off yet. -/
theorem trans {r' : Outcome β} (h : w.Bounded d r w') (hr : r ≠ .error .deadlineExceeded)
    (h' : w'.Bounded d r' w'') : w.Bounded d r' w'' := by
  obtain ⟨htime, made, hmade, hcalls⟩ := h
  obtain ⟨htime', more, hmore, hcalls'⟩ := h'
  refine ⟨fun hw => htime' (htime hw), more ++ made, by rw [hmore, hmade, List.append_assoc], fun v hv => ?_⟩
  rcases List.mem_append.mp hv with hv | hv
  · exact hcalls' v hv
  · obtain ⟨hstart, hfinish, hcut⟩ := hcalls v hv
    exact ⟨hstart, hfinish, fun hv => absurd (hcut hv).1 hr⟩

end Bounded

theorem Visited.bounded {call : Call} {act : Option Failure → Database → Outcome α × Database}
    (h : Visited env call (some d) act w r w') : w.Bounded d r w' := by
  cases h with
  | late => exact .refl w _
  | cutOff hd hstart _ =>
    cases hd
    refine ⟨fun _ => Int.le_refl d, [⟨call, w.clock, d, .cutOff⟩], rfl, fun v hv => ?_⟩
    cases List.mem_singleton.mp hv
    exact ⟨hstart, Int.le_refl d, fun _ => ⟨rfl, rfl⟩⟩
  | @completed finish ending _ hd hending =>
    obtain ⟨hstart, hfinish⟩ := hd d rfl
    refine ⟨fun _ => hfinish, [⟨call, w.clock, finish, ending⟩], rfl, fun v hv => ?_⟩
    cases List.mem_singleton.mp hv
    exact ⟨hstart, hfinish, fun hcut => absurd hcut hending⟩

theorem Visited.eq_of_late {call : Call} {act : Option Failure → Database → Outcome α × Database}
    (h : Visited env call (some d) act w r w') (hd : d ≤ w.clock) : r = .error .deadlineExceeded ∧ w' = w := by
  cases h with
  | late => exact ⟨rfl, rfl⟩
  | cutOff he hstart _ =>
    cases he
    exact absurd hstart (Int.not_lt.mpr hd)
  | completed _ he _ => exact absurd (he d rfl).1 (Int.not_lt.mpr hd)

end World

/-- A chain is done by its deadline, with each of its questions. -/
theorem Program.Chain.bounded {p : Program Effect (Outcome α)} (h : p.Chain (some d) t) (env : Surroundings)
    (w : World) : p.Ends env w fun r w' => w.Bounded d r w' := by
  induction h generalizing w with
  | done r => exact .done (.refl w r)
  | aside he hn ih =>
    obtain ⟨b, w₁, hb, hclock, -, hvisits⟩ := World.handle_aside he env w
    exact .ask hb ((ih b w₁).mono fun hends => hends.of_eq hclock hvisits)
  | read hq hlate hn ih =>
    refine .ask_query fun {r w₁} hv => ?_
    -- Either this question was the last one, or it was not cut off.
    by_cases hr : r = .error .deadlineExceeded
    · subst hr
      rw [hlate]
      exact .done (hv.bounded.map fun _ => rfl)
    · exact (ih r w₁).mono (hv.bounded.trans hr)
  | last f hn =>
    refine .ask_query fun {r w₁} hv => ?_
    rw [hn]
    exact .done (hv.bounded.map fun hr => by rw [hr]; rfl)

theorem GatewayCall.ends_of_late (call : GatewayCall α) {c : Context} (hc : c.held? = some t)
    (hd : c.deadline = some d) (hlate : d ≤ w.clock) (env : Surroundings) :
    (call.perform c).result.Ends env w fun r w' => r = .error .deadlineExceeded ∧ w' = w := by
  obtain ⟨β, q, next, hcall, hnext⟩ := call.exists_ask hc
  rw [hcall, hd]
  refine .ask_query fun hv => ?_
  obtain ⟨rfl, rfl⟩ := hv.eq_of_late hlate
  rw [hnext]
  exact .done ⟨rfl, rfl⟩

/-! ### After the deadline -/

/-- The effect puts no question to the transaction `t`. -/
def Effect.Avoids (t : TxId) : Effect β → Prop
  | .query _ u _ => u ≠ t
  | _ => True

theorem Effect.Avoids.ops {e : Effect β} (h : e.Avoids t) {fits : Verifier} {m : Moment} {database : Database} {b : β}
    {ops : List Database.Op} (ha : e.answer fits m database = some (b, ops)) : ∀ op ∈ ops, op.Avoids t := by
  have single {op : Database.Op} (hop : op.Avoids t) : ∀ op' ∈ [op], op'.Avoids t :=
    fun op' hop' => List.mem_singleton.mp hop' ▸ hop
  cases e with
  | now | freshToken | timestamp | freshId | hash | compare =>
    cases ha
    exact nofun
  | query deadline u q =>
    rw [Effect.answer, Moment.orFail] at ha
    split at ha <;> cases ha
    · exact single h
    · exact nofun
  | begin deadline =>
    rw [Effect.answer, Moment.orFail] at ha
    split at ha <;> cases ha
    · exact single trivial
    · exact nofun
  | commit u | rollback u =>
    rw [Effect.answer, Moment.orDrop] at ha
    split at ha <;> cases ha <;> exact single trivial
  | release u =>
    cases ha
    exact single trivial
  | crash => cases ha

namespace World

theorem clock_le_of_handle {e : Effect β} {b : β} (h : InWorld.handle env e w = .ok (b, w')) : w.clock ≤ w'.clock := by
  have visit_le {γ : Type} (call : Call) (deadline : Option Instant)
      (act : Option Failure → Database → Outcome γ × Database) {v : Outcome γ × World}
      (hv : (.ok (visit env call deadline act w) : Except Crash _) = .ok v) : w.clock ≤ v.2.clock :=
    Except.ok.inj hv ▸ (visited env call deadline act w).clock_le
  cases e with
  | now | freshToken | timestamp | freshId | hash | compare | release =>
    cases h
    exact Int.le_refl _
  | begin | commit | rollback | query => exact visit_le _ _ _ h
  | crash => cases h

/-- What `w` has of the transaction `t`, `w'` has as well, unless the transaction has ended. -/
structure Keeps (t : TxId) (w w' : World) : Prop where
  clock : w.clock ≤ w'.clock
  nextTx : w.database.nextTx ≤ w'.database.nextTx
  tx? : ∀ {x}, w'.database.tx? t = some x → w.database.tx? t = some x

namespace Keeps

theorem refl (t : TxId) (w : World) : w.Keeps t w := ⟨Int.le_refl _, Nat.le_refl _, id⟩

theorem trans (h : w.Keeps t w') (h' : w'.Keeps t w'') : w.Keeps t w'' :=
  ⟨Int.le_trans h.clock h'.clock, Nat.le_trans h.nextTx h'.nextTx, fun hx => h.tx? (h'.tx? hx)⟩

theorem of_handle {e : Effect β} (he : e.Avoids t) (ht : t < w.database.nextTx) {b : β}
    (h : InWorld.handle env e w = .ok (b, w')) : w.Keeps t w' := by
  obtain ⟨m, ops, ha, hdatabase⟩ := answer_of_handle h
  refine ⟨clock_le_of_handle h, hdatabase ▸ w.database.nextTx_after ops, fun hx => ?_⟩
  rw [hdatabase] at hx
  exact Database.tx?_of_avoids ht (he.ops ha) hx

end Keeps

/-- What can happen around a transaction `t` whose scope has the deadline `d`: calls of gateways in the scope, whose
    contexts may have earlier deadlines, any other effect that puts no question to `t`, and time that passes. -/
inductive Passes (t : TxId) (d : Instant) : World → World → Prop
  | call {w w' : World} {α : Type} (call : GatewayCall α) (env : Surroundings) {c : Context} (hc : c.held? = some t)
    (hd : Expired c.deadline d) {r : Outcome α} (h : (call.perform c).result.inWorld env w = .ok (r, w')) :
    Passes t d w w'
  | effect {w w' : World} {β : Type} {e : Effect β} (he : e.Avoids t) (env : Surroundings) {b : β}
    (h : InWorld.handle env e w = .ok (b, w')) : Passes t d w w'
  | time (w : World) (n : Duration) : Passes t d w (w.pass n)

theorem Passes.keeps (h : w.Passes t d w') (ht : t < w.database.nextTx) (hd : d ≤ w.clock) : w.Keeps t w' := by
  cases h with
  | call call env hc he h =>
    obtain ⟨d', hdeadline, hle⟩ := he
    -- The deadline of the call has come as well, so the world is still the same.
    obtain ⟨_, _, hends, -, rfl⟩ := call.ends_of_late hc hdeadline (Int.le_trans hle hd) env
    cases hends.symm.trans h
    exact .refl t w'
  | effect he env h => exact .of_handle he ht h
  | time n => exact ⟨Int.le_add_of_nonneg_right (Int.natCast_nonneg n), Nat.le_refl _, id⟩

/-- Once the deadline has come, nothing is added to a transaction any more. -/
theorem keeps_of_passes (h : Relation.ReflTransGen (Passes t d) w w') (ht : t < w.database.nextTx)
    (hd : d ≤ w.clock) : w.Keeps t w' := by
  induction h with
  | refl => exact .refl t w
  | tail _ hstep ih =>
    exact ih.trans (hstep.keeps (Nat.lt_of_lt_of_le ht ih.nextTx) (Int.le_trans hd ih.clock))

end World

namespace GatewayCall

/-- A call returns by the deadline, or at once where the deadline has come before. Every question that it has put to
    the database began before the deadline and was answered when it came, or was cut off by it, which ends the call.
    So nothing is written to a transaction any more when the deadline of its scope has come. -/
theorem back_by_deadline (call : GatewayCall α) (env : Surroundings) (w : World) {c : Context} (hc : c.held? = some t)
    (hd : c.deadline = some d) :
    ((call.perform c).result.Ends env w fun r w' =>
      (d ≤ w.clock → r = .error .deadlineExceeded ∧ w' = w) ∧
      (w.clock < d → w'.clock ≤ d) ∧
      ∃ made, w'.visits = made ++ w.visits ∧ ∀ v ∈ made, v.start < d ∧ v.finish ≤ d ∧
        (v.ending = .cutOff → r = .error .deadlineExceeded ∧ w'.clock = d)) ∧
    (t < w.database.nextTx → d ≤ w.clock → ∀ later, Relation.ReflTransGen (World.Passes t d) w later →
      ∀ x, later.database.tx? t = some x → w.database.tx? t = some x) := by
  refine ⟨?_, fun ht hlate later h x hx => (World.keeps_of_passes h ht hlate).tx? hx⟩
  by_cases hlate : d ≤ w.clock
  · refine (call.ends_of_late hc hd hlate env).mono ?_
    rintro _ _ ⟨rfl, rfl⟩
    exact ⟨fun _ => ⟨rfl, rfl⟩, fun h => absurd hlate (Int.not_le.mpr h), (World.Bounded.refl _ _).calls⟩
  · refine ((hd ▸ call.chain hc).bounded env w).mono fun {r w'} hends => ?_
    exact ⟨fun h => absurd h hlate, fun h => hends.clock (Int.le_of_lt h), hends.calls⟩

/-- An update whose second question is answered just at the deadline succeeds. The next one comes too late, and what
    stands in the transaction then is all that it will have. -/
theorem back_by_deadline_of_exact :
    let ann : User := ⟨⟨"id-1"⟩, "Ann", ⟨"ann@example.com"⟩⟩
    let c : Context := ⟨0, some 20, some ⟨0, some 0⟩⟩
    let env := (Surroundings.calm Id.numbered ⟨0, 0⟩ .plain).withDelays fun _ => 10
    let w : World := .new ((Database.new 1).after [.begin, .query 0 (.insertUser ann)])
    ((updateUser ann).perform c).result.Ends env w fun r w' => r = .ok ann ∧ w'.clock = 20 ∧
      ((updateUser ann).perform c).result.Ends env w' (fun r' w'' => r' = .error .deadlineExceeded ∧ w'' = w') ∧
      ∀ later, Relation.ReflTransGen (World.Passes 0 20) w' later →
        ∀ x, later.database.tx? 0 = some x → w'.database.tx? 0 = some x := by
  intro ann c env w
  refine ⟨_, _, rfl, rfl, rfl, ?_⟩
  obtain ⟨hends, hkeeps⟩ := back_by_deadline (.updateUser ann) env _ (c := c) rfl rfl
  exact ⟨hends.mono fun h => h.1 (Int.le_refl _), hkeeps Nat.zero_lt_one (Int.le_refl _)⟩

end GatewayCall
end IdentityVault
