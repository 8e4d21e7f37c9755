import IdentityVault.Proofs.Scope.Settle
import IdentityVault.Proofs.World.Ends

/-! A program amid others: between its effects, anything can happen to the database, but nobody else gets hold of a
    transaction that the program has begun. -/

namespace IdentityVault

/-- Who does something to a database: the program that is looked at, or others. -/
inductive Party where
  | self
  | others
  deriving DecidableEq, Repr

/-- From `d` on, where it has begun the transactions `own` already, the program can end with a value, and what is done
    to the database until then is the trace. -/
inductive Program.Amid (fits : Verifier) {α : Type} :
    Program Effect α → List TxId → Database → List (Party × Database.Op) → α → Prop
  | done (a : α) (own : List TxId) (d : Database) : Amid fits (.done a) own d [] a
  | step {β : Type} {e : Effect β} {next : β → Program Effect α} {own : List TxId} {d : Database} {m : Moment} {b : β}
    {ops : List Database.Op} {trace : List (Party × Database.Op)} {a : α} (he : e.answer fits m d = some (b, ops))
    (hn : Amid fits (next b) (own ++ d.begunAlong ops) (d.after ops) trace a) :
    Amid fits (.ask e next) own d (ops.map (.self, ·) ++ trace) a
  | meanwhile {p : Program Effect α} {own : List TxId} {d : Database} {op : Database.Op}
    {trace : List (Party × Database.Op)} {a : α} (hop : ∀ t ∈ own, op.tx? ≠ some t)
    (hn : Amid fits p own (d.act op) trace a) : Amid fits p own d ((.others, op) :: trace) a

namespace Program
variable {fits : Verifier} {α β : Type} {p : Program Effect α} {own : List TxId} {d : Database}
  {trace : List (Party × Database.Op)} {a : α}

theorem Amid.silent {e : Effect β} {next : β → Program Effect α} (m : Moment) {b : β}
    (he : e.answer fits m d = some (b, [])) (hn : (next b).Amid fits own d trace a) :
    (ask e next).Amid fits own d trace a :=
  .step he (own.append_nil.symm ▸ hn)

theorem Amid.acts {e : Effect β} {next : β → Program Effect α} (m : Moment) {b : β} {op : Database.Op}
    (he : e.answer fits m d = some (b, [op])) (hn : (next b).Amid fits (own ++ d.begun op) (d.act op) trace a) :
    (ask e next).Amid fits own d ((.self, op) :: trace) a := by
  refine .step he ?_
  rwa [Database.begunAlong, Database.begunAlong, List.append_nil]

/-- A run of a program and then another one falls into a run of each. -/
theorem Amid.of_bind {f : α → Program Effect β} {b : β} (h : (p.bind f).Amid fits own d trace b) :
    ∃ a first rest, trace = first ++ rest ∧ p.Amid fits own d first a ∧
      (f a).Amid fits (own ++ d.begunBy .self first) (d.along first) rest b := by
  generalize hq : p.bind f = q at h
  induction h generalizing p with
  | done b own d =>
    cases p with
    | done a => exact ⟨a, [], [], rfl, .done a own d, (congrArg (Amid fits · _ _ _ _) hq).mpr (.done b _ d)⟩
    | ask e next => cases hq
  | @step β' e next own d m b ops trace b he hn ih =>
    cases p with
    | done a =>
      have h := Amid.step he hn
      rw [← hq] at h
      exact ⟨a, [], _, rfl, .done a own d, (List.append_nil own).symm ▸ h⟩
    | ask e' next' =>
      cases hq
      obtain ⟨a, first, rest, rfl, hp, hf⟩ := ih rfl
      refine ⟨a, ops.map (.self, ·) ++ first, rest, (List.append_assoc _ _ _).symm, .step he hp, ?_⟩
      rwa [Database.begunBy_append, Database.begunBy_self, Database.along_append, Database.along_by,
        ← List.append_assoc]
  | @meanwhile p' own d op trace b hop hn ih =>
    obtain ⟨a, first, rest, rfl, hp, hf⟩ := ih hq
    exact ⟨a, (.others, op) :: first, rest, rfl, .meanwhile hop hp, hf⟩

/-- A program that is run amid others gets where it leads to. -/
theorem Leads.of_amid {Q : α → Stage → Prop} {g : Stage} (h : p.Leads fits Q g) (hg : g.In d) (hown : own = g.txs)
    (hn : d.Named) (hs : d.Sound) (ha : p.Amid fits own d trace a) : ∃ g', Q a g' ∧ g.Reaches d .self trace g' := by
  induction ha generalizing g with
  | done a own d => exact ⟨g, h, .refl hg⟩
  | @step β e next own d m b ops trace a he ha ih =>
    obtain ⟨g₁, hgoes, h₁⟩ := h.2.goes hg hs.tables he
    have hreach := hgoes.reaches Party.self hn hg
    obtain ⟨g', hq, hrest⟩ := ih h₁ (hgoes.inside hn hg) (hown ▸ hgoes.txs) (hn.after ops) (hs.after hn ops)
    refine ⟨g', hq, hreach.trans ?_⟩
    rwa [Database.along_by]
  | @meanwhile p own d op trace a hop ha ih =>
    have hother (op' : Database.Op) (hop' : op' ∈ [op]) (t : TxId) (ht : g.open? = some t) : op'.tx? ≠ some t := by
      rw [List.mem_singleton.mp hop']
      exact hop t (hown ▸ Stage.mem_txs_of_open? ht)
    have hreach := Stage.Reaches.of_others (i := Party.self) (j := .others) nofun hn hg hother
    obtain ⟨g', hq, hrest⟩ := ih h hreach.inside hown (hn.act op) (hs.act hn op)
    exact ⟨g', hq, hreach.trans hrest⟩

/-- A run in a world is a run in which nobody else does anything. -/
theorem Amid.of_inWorld {s : Surroundings} {w w' : World} (h : p.inWorld s w = .ok (a, w')) (own : List TxId) :
    ∃ ops, p.Amid s.hasher.fits own w.database (ops.map (.self, ·)) a ∧ w'.database = w.database.after ops := by
  induction p generalizing w own with
  | done a =>
    cases h
    exact ⟨[], .done a own _, rfl⟩
  | ask e next ih =>
    obtain ⟨b, w₁, hb, hrest⟩ := of_inWorld_ask h
    obtain ⟨m, ops, he, hdb⟩ := World.answer_of_handle hb
    obtain ⟨more, hn, hdb'⟩ := ih b hrest (own ++ w.database.begunAlong ops)
    refine ⟨ops ++ more, ?_, ?_⟩
    · rw [List.map_append]
      exact .step he (hdb ▸ hn)
    · rw [hdb', hdb, Database.after_append]

end Program
end IdentityVault
