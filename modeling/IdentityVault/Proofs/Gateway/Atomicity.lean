import IdentityVault.Proofs.Gateway.Chain
import IdentityVault.Proofs.Store.Conflict
import IdentityVault.Proofs.Store.Connections

/-! A call of a gateway is atomic: it has added one write to the transaction of its scope, or no write at all, and a
    call that fails has added none. -/

namespace IdentityVault

namespace Database
variable {α : Type} {d d' d'' : Database} {t : TxId} {q : Query α}

/-- The shared tables, the open transactions and the number of free connections are the same. -/
structure Same (d d' : Database) : Prop where
  tables : d'.tables = d.tables
  tx? : ∀ t, d'.tx? t = d.tx? t
  available : d'.available = d.available

/-- The transaction `t` has taken up one more write, which its copy allowed, and all else is the same. -/
structure Wrote (t : TxId) (d d' : Database) : Prop where
  tables : d'.tables = d.tables
  tx? : ∃ x y write, d.tx? t = some x ∧ x.snapshot.apply write = .ok y.snapshot ∧ y.log = x.log ++ [write] ∧
    ∀ u, d'.tx? u = if u = t then some y else d.tx? u
  available : d'.available = d.available

namespace Same

theorem refl (d : Database) : d.Same d := ⟨rfl, fun _ => rfl, rfl⟩

theorem trans (h : d.Same d') (h' : d'.Same d'') : d.Same d'' where
  tables := h'.tables.trans h.tables
  tx? t := (h'.tx? t).trans (h.tx? t)
  available := h'.available.trans h.available

theorem wrote (h : d.Same d') (h' : d'.Wrote t d'') : d.Wrote t d'' where
  tables := h'.tables.trans h.tables
  tx? := by
    obtain ⟨x, y, write, hx, happly, hlog, htx⟩ := h'.tx?
    exact ⟨x, y, write, (h.tx? t).symm.trans hx, happly, hlog, fun u => by rw [htx, h.tx?]⟩
  available := h'.available.trans h.available

end Same

theorem tables_query (d : Database) (t : TxId) (q : Query α) : (d.query t q).2.tables = d.tables :=
  (Except.ok.inj (d.tables_act (.query t q))).symm

theorem available_query (d : Database) (t : TxId) (q : Query α) : (d.query t q).2.available = d.available := by
  have hlength := congrArg List.length (d.names_query t q)
  rw [names, names, List.length_map, List.length_map] at hlength
  exact congrArg₂ (· - ·) (d.capacity_act (.query t q)) hlength

/-- A question that is not answered with the success of a write changes nothing. -/
theorem same_query (h : d.accepted t (.query t q) = []) : d.Same (d.query t q).2 := by
  cases hx : d.tx? t with
  | none =>
    rw [query_of_none hx]
    exact .refl d
  | some x =>
    rw [accepted_query hx] at h
    obtain ⟨hsnapshot, hlog⟩ := x.perform_eq q
    rw [h] at hsnapshot hlog
    refine ⟨d.tables_query t q, fun u => ?_, d.available_query t q⟩
    rw [tx?_query hx, Transaction.eq_of_nil hsnapshot hlog]
    split
    · next hu => rw [hu, hx]
    · rfl

theorem wrote_query {write : Write} (h : d.accepted t (.query t q) = [write]) : d.Wrote t (d.query t q).2 := by
  cases hx : d.tx? t with
  | none => simp [accepted, query_of_none hx, Except.isOk, Except.toBool] at h
  | some x =>
    rw [accepted_query hx] at h
    obtain ⟨hsnapshot, hlog⟩ := x.perform_eq q
    rw [h] at hsnapshot hlog
    rw [Tables.replay_singleton] at hsnapshot
    exact ⟨tables_query d t q, ⟨x, _, write, hx, hsnapshot, hlog, fun u => tx?_query hx⟩, d.available_query t q⟩

theorem query_cases (d : Database) (t : TxId) (q : Query α) :
    d.Same (d.query t q).2 ∨ (d.query t q).1.isOk ∧ q.write? ≠ none ∧ d.Wrote t (d.query t q).2 := by
  cases hw : q.write? with
  | none => exact .inl (same_query (by simp [accepted, hw]))
  | some write =>
    by_cases hok : (d.query t q).1.isOk
    · have haccepted : d.accepted t (.query t q) = [write] := by simp [accepted, hok, hw]
      exact .inr ⟨hok, Option.some_ne_none write, wrote_query haccepted⟩
    · exact .inl (same_query (by simp [accepted, hok]))

end Database

variable {α β : Type} {env : Surroundings} {w w' : World} {deadline : Option Instant} {t : TxId}

/-- A call that asks a transaction does nothing where it is late, is cut off or fails. -/
theorem World.Visited.atomic {q : Query β} {r : Outcome β}
    (h : World.Visited env q.call deadline (World.orFail (·.query t q)) w r w') :
    w.database.Same w'.database ∨ r.isOk ∧ q.write? ≠ none ∧ w.database.Wrote t w'.database := by
  cases h with
  | late | cutOff => exact .inl (.refl _)
  | completed =>
    cases env.fault q.call (w.acted q.call) with
    | none => exact w.database.query_cases t q
    | some f => exact .inl (.refl _)

/-- What is asked before the last question changes nothing, and the last question is answered as the chain ends. -/
theorem Program.Chain.atomic {p : Program Effect (Outcome α)} (h : p.Chain deadline t) (env : Surroundings)
    (w : World) : p.Ends env w fun r w' =>
      w.database.Same w'.database ∨ r.isOk ∧ w.database.Wrote t w'.database := by
  induction h generalizing w with
  | done r => exact .done (.inl (.refl _))
  | aside he hn ih =>
    obtain ⟨b, w₁, hb, -, hdatabase, -⟩ := World.handle_aside he env w
    exact .ask hb (hdatabase ▸ ih b w₁)
  | read hq hlate hn ih =>
    refine .ask_query fun {r w₁} hv => (ih r w₁).mono fun {r' w₂} hends => ?_
    -- A read is answered without a write, so what was written since is all that was written.
    have hsame : w.database.Same w₁.database := hv.atomic.resolve_right fun hwrote => hwrote.2.1 hq
    exact hends.imp hsame.trans (.imp_right hsame.wrote)
  | last f hn =>
    refine .ask_query fun {r w₁} hv => ?_
    rw [hn]
    refine .done (hv.atomic.imp_right ?_)
    rintro ⟨hok, -, hwrote⟩
    cases r with
    | error => cases hok
    | ok b => exact ⟨rfl, hwrote⟩

namespace GatewayCall

theorem ends_of_error (call : GatewayCall α) {c : Context} {f : Failure} (h : c.tx = .error f) (env : Surroundings)
    (w : World) : (call.perform c).result.Ends env w fun r w' => r = .error f ∧ w' = w := by
  rw [call.result_of_error h]
  exact .done ⟨rfl, rfl⟩

/-- A call that fails leaves all transactions as they are, whatever made it fail, and one that succeeds has added at
    most one write to its own. The scope stays as it is. Without an open scope nothing at all is done. -/
theorem one_write_or_none (call : GatewayCall α) (env : Surroundings) (c : Context) (w : World) :
    ((Deed.call call).perform c).Ends env w fun (r, c') w' =>
      c' = c ∧
      (c.scope = none → r = .error .noTransaction ∧ w' = w) ∧
      (∀ k, c.scope = some ⟨k, none⟩ → r = .error .transactionFinalized ∧ w' = w) ∧
      (∀ f, r = .error f → w.database.Same w'.database) ∧
      (w.database.Same w'.database ∨ ∃ t, c.held? = some t ∧ w.database.Wrote t w'.database) := by
  change ((call.perform c).result.bind fun r => .done (r, c)).Ends env w _
  rcases hs : c.scope with _ | ⟨k, _ | t⟩
  · refine .bind (call.ends_of_error (Context.tx_of_unbound hs) env w) ?_
    rintro _ _ ⟨rfl, rfl⟩
    exact .done ⟨rfl, fun _ => ⟨rfl, rfl⟩, nofun, fun _ _ => .refl _, .inl (.refl _)⟩
  · refine .bind (call.ends_of_error (Context.tx_of_finished hs) env w) ?_
    rintro _ _ ⟨rfl, rfl⟩
    exact .done ⟨rfl, nofun, fun _ _ => ⟨rfl, rfl⟩, fun _ _ => .refl _, .inl (.refl _)⟩
  · have hc : c.held? = some t := Context.held?_eq_some.mpr ⟨k, hs⟩
    refine .bind ((call.chain hc).atomic env w) fun {r w'} hends => ?_
    refine .done ⟨rfl, nofun, nofun, fun f hf => ?_, hends.imp_right fun hwrote => ⟨t, hc, hwrote.2⟩⟩
    refine hends.resolve_right fun hwrote => ?_
    cases hf
    cases hwrote.1

end GatewayCall
end IdentityVault
