import IdentityVault.Proofs.Scope.Backend
import IdentityVault.Proofs.Store.Trace
import IdentityVault.Proofs.World.Moment

/-! Programs that use one transaction, among others on the same database. A stage says how far such a program is with
    its transaction. Which stages a program can get into is read off the program; that the database agrees with the
    stage is kept by every effect, and by whatever others do. -/

namespace IdentityVault

inductive Stage where
  | unopened
  /-- The transaction is open; it began when the shared tables were `start`. -/
  | opened (t : TxId) (start : Tables) (x : Transaction)
  /-- The transaction has ended, and nothing was published. -/
  | discarded (t : TxId)
  | published (t : TxId) (start : Tables) (log : List Write)

namespace Stage

def open? : Stage → Option TxId
  | opened t _ _ => some t
  | _ => none

def logs : Stage → List (List Write)
  | published _ _ log => [log]
  | _ => []

/-- The transaction that the program has begun. -/
def txs : Stage → List TxId
  | unopened => []
  | opened t _ _ | discarded t | published t _ _ => [t]

/-- The database agrees with the stage. -/
def In (d : Database) : Stage → Prop
  | unopened => True
  | opened t _ x => d.tx? t = some x
  | discarded t | published t _ _ => d.tx? t = none ∧ t < d.nextTx

/-- All that an effect can do with the transaction of its program. -/
inductive Goes (d : Database) : Stage → List Database.Op → Stage → Prop
  | stays (g : Stage) : Goes d g [] g
  | refused {f : Failure} (h : d.begin.1 = .error f) : Goes d .unopened [.begin] .unopened
  | begun {t : TxId} (h : d.begin.1 = .ok t) : Goes d .unopened [.begin] (.opened t d.tables ⟨d.tables, []⟩)
  | asked {t : TxId} {start : Tables} {x : Transaction} {α : Type} (q : Query α) :
    Goes d (.opened t start x) [.query t q] (.opened t start (x.perform q).2)
  | discarded {t : TxId} {start : Tables} {x : Transaction} {op : Database.Op} (hop : op.tx? = some t)
    (hp : d.published op = []) (h : (d.act op).tx? t = none) : Goes d (.opened t start x) [op] (.discarded t)
  | published {t : TxId} {start : Tables} {x : Transaction} (h : (d.commit t).1 = .ok ()) :
    Goes d (.opened t start x) [.commit t] (.published t start x.log)

variable {d : Database} {g g' : Stage} {op : Database.Op} {ops : List Database.Op}

theorem In.lt (h : g.In d) (hn : d.Named) {t : TxId} (ht : g.open? = some t) : t < d.nextTx := by
  cases g with
  | opened u start x =>
    cases ht
    exact hn.lt h
  | unopened | discarded | published => cases ht

/-- What is done with other transactions does not matter. -/
theorem In.act_of_ne (h : g.In d) (hn : d.Named) (hop : ∀ t, g.open? = some t → op.tx? ≠ some t) :
    g.In (d.act op) := by
  have closed {t : TxId} (h : d.tx? t = none ∧ t < d.nextTx) : (d.act op).tx? t = none ∧ t < (d.act op).nextTx := by
    have hnone : (d.after [op]).tx? t = none := Database.tx?_after_of_none h.2 h.1
    exact ⟨hnone, Nat.lt_of_lt_of_le h.2 (d.nextTx_act op)⟩
  cases g with
  | unopened => trivial
  | opened t start x => exact (Database.tx?_act_of_ne (hop t rfl) (hn.lt h)).trans h
  | discarded t => exact closed h
  | published t start log => exact closed h

namespace Goes

theorem inside (h : Goes d g ops g') (hn : d.Named) (hg : g.In d) : g'.In (d.after ops) := by
  have below {t : TxId} {x : Transaction} (hx : d.tx? t = some x) (op : Database.Op) : t < (d.act op).nextTx :=
    Nat.lt_of_lt_of_le (hn.lt hx) (d.nextTx_act op)
  cases h with
  | stays => exact hg
  | refused h => trivial
  | begun h => exact (Database.tx?_begin h).trans (if_pos rfl)
  | asked q => exact (Database.tx?_query hg).trans (if_pos rfl)
  | discarded _ _ h => exact ⟨h, below hg _⟩
  | published h => exact ⟨d.tx?_commit _, below hg (.commit _)⟩

theorem logs (h : Goes d g ops g') (hg : g.In d) : g.logs ++ d.publishedAlong ops = g'.logs := by
  cases h with
  | stays => exact List.append_nil _
  | refused | begun | asked => rfl
  | discarded _ hp _ => rw [Database.publishedAlong, hp]; rfl
  | @published t start x h =>
    have hx : d.tx? t = some x := hg
    rw [Database.publishedAlong, Database.published, h, hx]
    rfl

/-- Only the own transaction is named. -/
theorem names (h : Goes d g ops g') (hop : op ∈ ops) {t : TxId} (ht : op.tx? = some t) : g.open? = some t := by
  cases h with
  | stays => cases hop
  | refused | begun =>
    cases List.mem_singleton.mp hop
    cases ht
  | asked | published =>
    cases List.mem_singleton.mp hop
    exact ht
  | discarded hop' _ _ =>
    cases List.mem_singleton.mp hop
    exact hop'.symm.trans ht

theorem open? (h : Goes d g ops g') {t : TxId} (ht : g'.open? = some t) : g.open? = some t ∨ d.begin.1 = .ok t := by
  cases h with
  | stays | asked => exact .inl ht
  | refused | discarded | published => cases ht
  | begun h =>
    cases ht
    exact .inr h

/-- A transaction was open before, or it is begun from the tables as they are. -/
theorem start {t : TxId} {tables : Tables} {x : Transaction} (h : Goes d g ops (.opened t tables x)) :
    (∃ y, g = .opened t tables y) ∨ ops = [.begin] ∧ tables = d.tables := by
  cases h with
  | stays => exact .inl ⟨x, rfl⟩
  | begun => exact .inr ⟨rfl, rfl⟩
  | asked => exact .inl ⟨_, rfl⟩

theorem txs (h : Goes d g ops g') : g.txs ++ d.begunAlong ops = g'.txs := by
  cases h with
  | stays => exact List.append_nil _
  | refused h | begun h => rw [Database.begunAlong, Database.begun, h]; rfl
  | asked | published => rfl
  | @discarded t start x op hop _ _ =>
    cases op with
    | begin => cases hop
    | query | commit | rollback | drop => rfl

end Goes

theorem mem_txs_of_open? {t : TxId} (h : g.open? = some t) : t ∈ g.txs := by
  cases g with
  | opened u start x => exact List.mem_singleton.mpr (Option.some.inj h).symm
  | unopened | discarded | published => cases h

/-- A transaction that has ended is not open. -/
theorem In.closed (h : g.In d) (hg : g.open? = none) {t : TxId} (ht : t ∈ g.txs) : d.tx? t = none := by
  cases g with
  | unopened => cases ht
  | opened => cases hg
  | discarded | published => exact List.mem_singleton.mp ht ▸ h.1

/-! ### Traces -/

/-- Along a trace, the program of the party `i` gets from one stage to another one. What the party has published and
    begun in it is what the stages say. -/
structure Reaches {ι : Type} [DecidableEq ι] (d : Database) (i : ι) (g : Stage) (trace : List (ι × Database.Op))
    (g' : Stage) : Prop where
  inside : g'.In (d.along trace)
  logs : g.logs ++ d.publishedBy i trace = g'.logs
  txs : g.txs ++ d.begunBy i trace = g'.txs

section
variable {ι : Type} [DecidableEq ι] {i j : ι} {trace more : List (ι × Database.Op)} {g'' : Stage}

theorem Reaches.refl (h : g.In d) : g.Reaches d i [] g := ⟨h, List.append_nil _, List.append_nil _⟩

theorem Reaches.trans (h : g.Reaches d i trace g') (h' : g'.Reaches (d.along trace) i more g'') :
    g.Reaches d i (trace ++ more) g'' where
  inside := by
    rw [Database.along_append]
    exact h'.inside
  logs := by rw [Database.publishedBy_append, ← List.append_assoc, h.logs, h'.logs]
  txs := by rw [Database.begunBy_append, ← List.append_assoc, h.txs, h'.txs]

theorem Goes.reaches (h : Goes d g ops g') (i : ι) (hn : d.Named) (hg : g.In d) :
    g.Reaches d i (ops.map (i, ·)) g' where
  inside := by
    rw [Database.along_by]
    exact h.inside hn hg
  logs := by rw [Database.publishedBy_self, h.logs hg]
  txs := by rw [Database.begunBy_self, h.txs]

theorem Reaches.of_others (hne : j ≠ i) (hn : d.Named) (hg : g.In d)
    (hops : ∀ op ∈ ops, ∀ t, g.open? = some t → op.tx? ≠ some t) : g.Reaches d i (ops.map (j, ·)) g where
  inside := by
    rw [Database.along_by]
    induction ops generalizing d with
    | nil => exact hg
    | cons op ops ih =>
      exact ih (hn.act op) (hg.act_of_ne hn (hops op List.mem_cons_self)) fun op' h => hops op' (.tail op h)
  logs := by rw [Database.publishedBy_of_ne hne, List.append_nil]
  txs := by rw [Database.begunBy_of_ne hne, List.append_nil]

end
end Stage

/-! ### Where a program leads -/

/-- Whatever an effect yields at a stage, `Q` holds of it and of the stage after it. -/
def Effect.Leads (fits : Verifier) {β : Type} : Effect β → (β → Stage → Prop) → Stage → Prop
  | .now, Q, g => ∀ b, Q b g
  | .freshToken, Q, g => ∀ b, Q b g
  | .timestamp, Q, g => ∀ b, Q b g
  | .freshId, Q, g => ∀ b, Q b g
  | .hash _, Q, g => ∀ b, Q b g
  | .compare stored secret, Q, g => ∀ b, (b = .ok (.ok ()) → fits stored secret) → Q b g
  | .begin _, Q, g => g = .unopened ∧ (∀ f, Q (.error f) .unopened) ∧
    ∀ t start, start.Sound → Q (.ok t) (.opened t start ⟨start, []⟩)
  | .commit t, Q, g => ∃ start x, g = .opened t start x ∧ Q (.ok ()) (.published t start x.log) ∧
    ∀ f, Q (.error f) (.discarded t)
  | .rollback t, Q, g => ∃ start x, g = .opened t start x ∧ ∀ r, Q r (.discarded t)
  | .release t, Q, g => ∃ start x, g = .opened t start x ∧ Q () (.discarded t)
  | .query _ t q, Q, g => ∃ start x, g = .opened t start x ∧ (∀ f, Q (.error f) (.opened t start x)) ∧
    Q (x.perform q).1 (.opened t start (x.perform q).2)
  | .crash _, _, _ => True

namespace Effect
variable {fits : Verifier} {β : Type} {e : Effect β} {Q R : β → Stage → Prop} {g : Stage}

theorem Leads.mono (h : e.Leads fits Q g) (hq : ∀ {b g}, Q b g → R b g) : e.Leads fits R g := by
  cases e with
  | now | freshToken | timestamp | freshId | hash => exact fun b => hq (h b)
  | compare => exact fun b hb => hq (h b hb)
  | begin => exact ⟨h.1, fun f => hq (h.2.1 f), fun t start hs => hq (h.2.2 t start hs)⟩
  | commit =>
    obtain ⟨start, x, hg, hok, herror⟩ := h
    exact ⟨start, x, hg, hq hok, fun f => hq (herror f)⟩
  | rollback =>
    obtain ⟨start, x, hg, h⟩ := h
    exact ⟨start, x, hg, fun r => hq (h r)⟩
  | release =>
    obtain ⟨start, x, hg, h⟩ := h
    exact ⟨start, x, hg, hq h⟩
  | query =>
    obtain ⟨start, x, hg, herror, h⟩ := h
    exact ⟨start, x, hg, fun f => hq (herror f), hq h⟩
  | crash => trivial

/-- What an effect yields on a database that agrees with the stage, it can yield at the stage. -/
theorem Leads.goes {d : Database} {m : Moment} {b : β} {ops : List Database.Op} (h : e.Leads fits Q g) (hg : g.In d)
    (hs : d.tables.Sound) (ha : e.answer fits m d = some (b, ops)) : ∃ g', g.Goes d ops g' ∧ Q b g' := by
  cases e with
  | now | freshToken | timestamp | freshId | hash =>
    cases ha
    exact ⟨g, .stays g, h _⟩
  | compare stored secret =>
    cases ha
    refine ⟨g, .stays g, h _ fun hm => ?_⟩
    by_contra hfits
    rw [Moment.compared] at hm
    split at hm
    · next hor => exact hor.elim hfits fun hne => hne hm
    · cases hm
  | begin deadline =>
    obtain ⟨rfl, herror, hok⟩ := h
    rw [Effect.answer, Moment.orFail] at ha
    split at ha
    · cases ha
      cases hb : d.begin.1 with
      | error f => exact ⟨_, .refused hb, herror f⟩
      | ok t => exact ⟨_, .begun hb, hok t _ hs⟩
    · cases ha
      exact ⟨_, .stays _, herror _⟩
  | commit t =>
    obtain ⟨start, x, rfl, hok, herror⟩ := h
    rw [Effect.answer, Moment.orDrop] at ha
    split at ha
    · cases ha
      rcases hr : (d.commit t).1 with f | ⟨⟩
      · refine ⟨_, .discarded rfl ?_ (d.tx?_commit t), herror f⟩
        rw [Database.published, hr]
        rfl
      · exact ⟨_, .published hr, hok⟩
    · cases ha
      exact ⟨_, .discarded rfl rfl (Database.tx?_release.trans (if_pos rfl)), herror _⟩
  | rollback t =>
    obtain ⟨start, x, rfl, h⟩ := h
    rw [Effect.answer, Moment.orDrop] at ha
    split at ha
    · cases ha
      exact ⟨_, .discarded rfl rfl (d.tx?_rollback t), h _⟩
    · cases ha
      exact ⟨_, .discarded rfl rfl (Database.tx?_release.trans (if_pos rfl)), h _⟩
  | release t =>
    obtain ⟨start, x, rfl, h⟩ := h
    cases ha
    exact ⟨_, .discarded rfl rfl (Database.tx?_release.trans (if_pos rfl)), h⟩
  | query deadline t q =>
    obtain ⟨start, x, rfl, herror, h⟩ := h
    have hx : d.tx? t = some x := hg
    rw [Effect.answer, Moment.orFail] at ha
    split at ha
    · cases ha
      rw [Database.query_of_some hx]
      exact ⟨_, .asked q, h⟩
    · cases ha
      exact ⟨_, .stays _, herror _⟩
  | crash cause => cases ha

end Effect

/-- From the stage on, whatever its effects yield, the program asks for nothing that it may not ask for and nothing
    after it has published, and where it ends, `Q` holds of its value and of the stage. -/
def Program.Leads (fits : Verifier) {α : Type} (Q : α → Stage → Prop) : Program Effect α → Stage → Prop
  | .done a, g => Q a g
  | .ask e next, g => g.logs = [] ∧ e.Leads fits (fun b g => (next b).Leads fits Q g) g

namespace Program.Leads
variable {fits : Verifier} {α β : Type} {p : Program Effect α} {Q R : α → Stage → Prop} {g : Stage}

theorem mono (h : p.Leads fits Q g) (hq : ∀ {a g}, Q a g → R a g) : p.Leads fits R g := by
  induction p generalizing g with
  | done a => exact hq h
  | ask e next ih => exact ⟨h.1, h.2.mono fun {b _} hb => ih b hb⟩

theorem bind {f : α → Program Effect β} {Q : β → Stage → Prop}
    (h : p.Leads fits (fun a g => (f a).Leads fits Q g) g) : (p.bind f).Leads fits Q g := by
  induction p generalizing g with
  | done a => exact h
  | ask e next ih => exact ⟨h.1, h.2.mono fun {b _} hb => ih b hb⟩

end Program.Leads

namespace Action
variable {fits : Verifier} {α β : Type} {g : Stage}

/-- An action leads to the failure of its first step, or to where the rest does. -/
theorem leads_bind {a : Action β} {f : β → Action α} {P : Outcome β → Stage → Prop} {Q : Outcome α → Stage → Prop}
    (ha : a.result.Leads fits P g) (hok : ∀ {b g}, P (.ok b) g → (f b).result.Leads fits Q g)
    (herror : ∀ {e g}, P (.error e) g → Q (.error e) g) : (a >>= f).result.Leads fits Q g := by
  refine Program.Leads.bind (ha.mono fun {r g} hr => ?_)
  rcases r with e | b
  · exact herror hr
  · exact hok hr

theorem leads_ask {e : Effect β} {f : β → Action α} {Q : Outcome α → Stage → Prop} (hg : g.logs = [])
    (h : e.Leads fits (fun b g => (f b).result.Leads fits Q g) g) : (ask e >>= f).result.Leads fits Q g :=
  ⟨hg, h⟩

end Action
end IdentityVault
