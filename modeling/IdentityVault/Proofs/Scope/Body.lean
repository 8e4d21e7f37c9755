import IdentityVault.Proofs.Scope.Amid

/-! A body in a scope of its own is all or nothing: either it succeeds and one commit publishes what it has written, or
    nothing of it is published. This holds whatever fails, and whatever others do to the database in the meantime. -/

namespace IdentityVault

variable {α β : Type} {c : Context}

/-! ### What a body may ask for -/

/-- The effect asks the surroundings, or the transaction that the context holds. -/
def Effect.Within (c : Context) {β : Type} : Effect β → Prop
  | .now | .freshToken | .timestamp | .freshId | .hash _ | .compare _ _ => True
  | .query _ t _ => c.held? = some t
  | .begin _ | .commit _ | .rollback _ | .release _ | .crash _ => False

/-- The program leaves the scope of the context open. -/
def Program.Within (c : Context) : Program Effect α → Prop
  | .done _ => True
  | .ask e next => e.Within c ∧ ∀ b, (next b).Within c

/-- A body that gets the context, and does anything with it but commit: it asks, moves the deadline, rolls the scope
    back or gives it up, in any order. -/
inductive Body : Context → Program Effect (Outcome α × Context) → Prop
  | ends (r : Outcome α) (c : Context) : Body c (.done (r, c))
  | asks {c : Context} {β : Type} {e : Effect β} {next : β → Program Effect (Outcome α × Context)} (he : e.Within c)
    (hn : ∀ b, Body c (next b)) : Body c (.ask e next)
  | rollsBack {c : Context} {t : TxId} {next : Outcome Unit → Program Effect (Outcome α × Context)}
    (ht : c.held? = some t) (hn : ∀ r, Body c.finished (next r)) : Body c (.ask (.rollback t) next)
  | givesUp {c c' : Context} {t : TxId} {next : Unit → Program Effect (Outcome α × Context)} (ht : c.held? = some t)
    (hc : c'.held? = none) (hn : Body c' (next ())) : Body c (.ask (.release t) next)
  | adjusts {c c' : Context} {p : Program Effect (Outcome α × Context)} (hc : c'.held? = c.held?) (hn : Body c' p) :
    Body c p

namespace Program

theorem Within.bind {p : Program Effect β} {f : β → Program Effect α} (hp : p.Within c) (hf : ∀ b, (f b).Within c) :
    (p.bind f).Within c := by
  induction p with
  | done b => exact hf b
  | ask e next ih => exact ⟨hp.1, fun b => ih b (hp.2 b)⟩

end Program

theorem Context.within_query (c : Context) (q : Query α) : (c.query q).result.Within c := by
  obtain ⟨f, hfails⟩ | ⟨t, ht, hasks⟩ := c.query_cases
  · rw [hfails]
    trivial
  · rw [hasks]
    exact ⟨ht, fun _ => trivial⟩

namespace Body
variable {p : Program Effect (Outcome α × Context)} {fits : Verifier} {g : Stage}

theorem bind {p : Program Effect β} {f : β → Program Effect (Outcome α × Context)} (hp : p.Within c)
    (hf : ∀ b, Body c (f b)) : Body c (p.bind f) := by
  induction p with
  | done b => exact hf b
  | ask e next ih => exact .asks hp.1 fun b => ih b (hp.2 b)

/-- A rollback may stand anywhere in a body. The context that goes on from there holds no transaction. -/
theorem rollback {f : Outcome Unit × Context → Program Effect (Outcome α × Context)}
    (hf : ∀ {r c'}, c'.held? = none → Body c' (f (r, c'))) : Body c ((ScopeManager.rollback c).bind f) := by
  rcases h : c.scope with _ | ⟨k, _ | t⟩
  · rw [ScopeManager.rollback_of_unbound h]
    exact hf (Context.held?_eq_none.mpr (.inl h))
  · rw [ScopeManager.rollback_of_finished h]
    exact hf (Context.held?_eq_none.mpr (.inr ⟨k, h⟩))
  · rw [ScopeManager.rollback_of_open h]
    exact .rollsBack (Context.held?_eq_some.mpr ⟨k, h⟩) fun r => hf c.held?_finished

theorem logs_of_at (hc : c.At g) : g.logs = [] := by
  cases hc <;> rfl

/-- A body leaves its transaction open, or has discarded it, just as its context says. -/
theorem leads (h : Body c p) (hc : c.At g) : p.Leads fits (fun r g => r.2.At g) g := by
  induction h generalizing g with
  | ends r c => exact hc
  | @asks c β e next he _ ih =>
    refine ⟨logs_of_at hc, ?_⟩
    cases e with
    | now | freshToken | timestamp | freshId | hash => exact fun b => ih b hc
    | compare => exact fun b _ => ih b hc
    | query deadline t q =>
      cases hc with
      | @opened u start x hu =>
        obtain rfl : u = t := Option.some.inj (hu.symm.trans he)
        exact ⟨start, x, rfl, fun f => ih _ (.opened hu), ih _ (.opened hu)⟩
      | discarded hnone => exact nomatch hnone.symm.trans he
    | begin | commit | rollback | release | crash => exact he.elim
  | @rollsBack c t next ht _ ih =>
    refine ⟨logs_of_at hc, ?_⟩
    cases hc with
    | @opened u start x hu =>
      obtain rfl : u = t := Option.some.inj (hu.symm.trans ht)
      exact ⟨start, x, rfl, fun r => ih r (.discarded c.held?_finished)⟩
    | discarded hnone => exact nomatch hnone.symm.trans ht
  | @givesUp c c' t next ht hc' _ ih =>
    refine ⟨logs_of_at hc, ?_⟩
    cases hc with
    | @opened u start x hu =>
      obtain rfl : u = t := Option.some.inj (hu.symm.trans ht)
      exact ⟨start, x, rfl, ih (.discarded hc')⟩
    | discarded hnone => exact nomatch hnone.symm.trans ht
  | @adjusts c c' p hheld _ ih =>
    refine ih ?_
    cases hc with
    | opened hu => exact .opened (hheld.trans hu)
    | discarded hnone => exact .discarded (hheld.trans hnone)

end Body

/-! ### Runs of a scope -/

namespace ScopeManager

/-- A scope that was refused: all that was done for it was done to begin it, and its body did not run. -/
structure Refused (m : ScopeManager) (parent : Context) (fits : Verifier) (d : Database)
    (trace : List (Party × Database.Op)) (f : Failure) : Prop where
  begins : ∃ opening rest, trace = opening ++ rest ∧ (m.begin parent).result.Amid fits [] d opening (.error f) ∧
    ∀ e ∈ rest, e.1 = .others
  begun : d.begunBy .self trace = []
  unpublished : ∀ e ∈ d.publications trace, e.1 = .others

/-- A scope that was begun as `t`, with a body that ended with `a`, and that was concluded with `r`. -/
structure Ran (m : ScopeManager) (parent : Context) (body : Context → Program Effect (Outcome α × Context))
    (fits : Verifier) (d : Database) (opening during closing : List (Party × Database.Op)) (t : TxId)
    (a r : Outcome α) : Prop where
  runs : ∃ child c, (m.begin parent).result.Amid fits [] d opening (.ok child) ∧ child.held? = some t ∧
    (body child).Amid fits [t] (d.along opening) during (a, c)
  begun : d.begunBy .self (opening ++ (during ++ closing)) = [t]
  /-- One commit has published all writes that the body was allowed to do. -/
  success : ∀ v, r = .ok v → a = .ok v ∧ d.publishedBy .self (opening ++ (during ++ closing)) =
    [(d.along opening).acceptedAlong t (during.map (·.2))]
  unpublished : ∀ f, r = .error f → ∀ e ∈ d.publications (opening ++ (during ++ closing)), e.1 = .others
  failure : ∀ f, a = .error f → r = .error f
  /-- The connection is free again. -/
  closed : ∀ e ∈ (d.along (opening ++ (during ++ closing))).opened, e.1 ≠ t

variable {m : ScopeManager} {parent : Context} {body : Context → Program Effect (Outcome α × Context)}
  {fits : Verifier} {d : Database} {trace : List (Party × Database.Op)} {r : Outcome α} {g g' : Stage}

/-- A program that has ended leaves the rest to others. -/
theorem others_of_done {a b : α} {own : List TxId} (h : (Program.done a).Amid fits own d trace b) :
    b = a ∧ ∀ e ∈ trace, e.1 = .others := by
  generalize hp : Program.done a = p at h
  induction h with
  | done b own d =>
    cases hp
    exact ⟨rfl, nofun⟩
  | step => cases hp
  | meanwhile _ _ ih =>
    obtain ⟨rfl, hrest⟩ := ih hp
    exact ⟨rfl, List.forall_mem_cons.mpr ⟨rfl, hrest⟩⟩

theorem publications_of_logs (h : Stage.unopened.Reaches d .self trace g) (hg : g.logs = []) :
    ∀ e ∈ d.publications trace, e.1 = .others := by
  rintro ⟨i, log⟩ he
  cases i with
  | others => rfl
  | self =>
    have hlog : log ∈ g.logs := h.logs ▸ List.mem_append_right _ (Database.mem_publishedBy.mpr he)
    rw [hg] at hlog
    cases hlog

theorem refused_of_begin (hn : d.Named) (hs : d.Sound) {opening rest : List (Party × Database.Op)} {f : Failure}
    (hbegin : (m.begin parent).result.Amid fits [] d opening (.error f))
    (h : (Program.done (.error f)).Amid fits (d.begunBy .self opening) (d.along opening) rest r) :
    r = .error f ∧ m.Refused parent fits d (opening ++ rest) f := by
  obtain ⟨rfl, hrest⟩ := others_of_done h
  obtain ⟨_, rfl, hopening⟩ := (leads_begin m parent).of_amid trivial rfl hn hs hbegin
  have hdone : (Program.done (.error f)).Leads fits (fun (_ : Outcome α) g => g = .unopened) .unopened := rfl
  obtain ⟨_, rfl, hclosing⟩ := hdone.of_amid trivial hopening.txs (hn.along opening) (hs.along hn opening) h
  have hreach := hopening.trans hclosing
  exact ⟨rfl, ⟨opening, rest, rfl, hbegin, hrest⟩, hreach.txs, publications_of_logs hreach rfl⟩

theorem ended_of_concluded {a : Outcome α} (h : Concluded a g r g') : g'.open? = none ∧ ∃ t, g'.txs = [t] := by
  rcases r with f | v
  · obtain ⟨-, t, rfl⟩ := h
    exact ⟨rfl, t, rfl⟩
  · obtain ⟨-, t, start, x, -, rfl⟩ := h
    exact ⟨rfl, t, rfl⟩

/-- The log of a scope that is published is what its body was allowed to write. -/
theorem log_of_reaches (hn : d.Named) {opening during : List (Party × Database.Op)} {t u : TxId}
    {start start' : Tables} {x : Transaction} (h₁ : g.Reaches d .self opening (.opened t start ⟨start, []⟩))
    (h₂ : (Stage.opened t start ⟨start, []⟩).Reaches (d.along opening) .self during g')
    (hg : g' = .opened u start' x) : x.log = (d.along opening).acceptedAlong t (during.map (·.2)) := by
  subst hg
  obtain rfl : t = u := (List.cons.inj h₂.txs).1
  exact (Database.tx?_after_of_some (hn.along opening) h₁.inside h₂.inside).2

/-- The stages of a scope from its begin to its end: the body finds its transaction new, and what is concluded is what
    the body has left. -/
theorem ran_of_body (hn : d.Named) (hs : d.Sound) {opening during closing : List (Party × Database.Op)}
    {child c : Context} {a : Outcome α} (hbody : ∀ {child t}, child.held? = some t → Body child (body child))
    (hbegin : (m.begin parent).result.Amid fits [] d opening (.ok child))
    (hduring : (body child).Amid fits (d.begunBy .self opening) (d.along opening) during (a, c))
    (h : (conclude c a).Amid fits (d.begunBy .self opening ++ (d.along opening).begunBy .self during)
      ((d.along opening).along during) closing r) :
    ∃ t, m.Ran parent body fits d opening during closing t a r := by
  have hn₁ := hn.along opening
  have hs₁ := hs.along hn opening
  obtain ⟨_, ⟨t, start, hheld, -, rfl⟩, h₁⟩ := (leads_begin m parent).of_amid trivial rfl hn hs hbegin
  have hown : d.begunBy .self opening = [t] := h₁.txs
  rw [hown] at hduring h
  obtain ⟨g₂, hc, h₂⟩ := ((hbody hheld).leads (.opened hheld)).of_amid h₁.inside rfl hn₁ hs₁ hduring
  obtain ⟨g₃, hr, h₃⟩ := (leads_conclude hc a).of_amid h₂.inside h₂.txs (hn₁.along during) (hs₁.along hn₁ during) h
  have hall := h₁.trans (h₂.trans h₃)
  obtain ⟨hopen, u, hu⟩ := ended_of_concluded hr
  obtain rfl : t = u := (List.cons.inj ((h₂.trans h₃).txs.trans hu)).1
  refine ⟨t, ⟨child, c, hbegin, hheld, hduring⟩, hall.txs.trans hu, ?_, ?_, ?_, ?_⟩
  · rintro v rfl
    obtain ⟨ha, u, start', x, hg₂, rfl⟩ := hr
    exact ⟨ha, hall.logs.trans (by rw [Stage.logs, log_of_reaches hn h₁ h₂ hg₂])⟩
  · rintro f rfl
    obtain ⟨-, u, rfl⟩ := hr
    exact publications_of_logs hall rfl
  · rintro f rfl
    rcases r with e | v
    · exact congrArg Except.error (hr.1 f rfl).symm
    · cases hr.1
  · rintro ⟨u, x⟩ he rfl
    have hnone := hall.inside.closed hopen (hu ▸ List.mem_singleton.mpr rfl)
    exact nomatch hnone.symm.trans ((hn.along _).mem_opened.mp he)

/-- A scope is all or nothing, on every database that runs of transactions lead to, whatever fails, and whatever others
    do to the database meanwhile. -/
theorem run_all_or_nothing (capacity : Nat) (before : List Database.Op)
    (hbody : ∀ {child t}, child.held? = some t → Body child (body child))
    (h : (m.run parent body).result.Amid fits [] ((Database.new capacity).after before) trace r) :
    ((((Database.new capacity).after before).publications trace).map (·.2)).foldlM Tables.replay
        ((Database.new capacity).after before).tables =
          .ok (((Database.new capacity).after before).along trace).tables ∧
      ((∃ f, r = .error f ∧ m.Refused parent fits ((Database.new capacity).after before) trace f) ∨
        ∃ opening during closing t a, trace = opening ++ (during ++ closing) ∧
          m.Ran parent body fits ((Database.new capacity).after before) opening during closing t a r) := by
  have hn := (Database.Named.new capacity).after before
  have hs := (Database.Sound.new capacity).after (.new capacity) before
  refine ⟨Database.tables_along _ trace, ?_⟩
  rw [run_eq] at h
  obtain ⟨r₁, opening, rest, rfl, hbegin, h⟩ := h.of_bind
  rcases r₁ with f | child
  · exact .inl ⟨f, refused_of_begin hn hs hbegin h⟩
  · obtain ⟨⟨a, c⟩, during, closing, rfl, hduring, h⟩ := h.of_bind
    obtain ⟨t, hran⟩ := ran_of_body hn hs hbody hbegin hduring h
    exact .inr ⟨opening, during, closing, t, a, rfl, hran⟩

/-- A body that inserts one identity, and rolls its scope back itself if that is refused. -/
def inserting (c : Context) : Program Effect (Outcome Unit × Context) :=
  (c.query (.insertUser ⟨⟨"u1"⟩, "Ann", ⟨"ann@example.com"⟩⟩)).result.bind fun
    | .ok () => .done (.ok (), c)
    | .error f => (ScopeManager.rollback c).bind fun (_, c) => .done (.error f, c)

theorem body_inserting (c : Context) : Body c (inserting c) := by
  refine .bind (c.within_query _) fun r => ?_
  rcases r with f | ⟨⟩
  · exact .rollback fun _ => .ends _ _
  · exact .ends _ c

/-- The scope of that body, while somebody else begins a transaction and tries to insert the same identity. -/
def meeting : List (Party × Database.Op) :=
  [(.self, .begin), (.self, .query 0 (.insertUser ⟨⟨"u1"⟩, "Ann", ⟨"ann@example.com"⟩⟩)), (.others, .begin),
    (.others, .query 1 (.insertUser ⟨⟨"u1"⟩, "Ann", ⟨"ann@example.com"⟩⟩)), (.self, .commit 0), (.others, .commit 1)]

theorem run_all_or_nothing_of_meeting :
    (((Database.new 2).publications meeting).map (·.2)).foldlM Tables.replay .empty =
        .ok ((Database.new 2).along meeting).tables ∧
      ((∃ f, (.ok () : Outcome Unit) = .error f ∧
        (⟨none⟩ : ScopeManager).Refused (.background 0) (fun _ _ => true) (.new 2) meeting f) ∨
        ∃ opening during closing t a, meeting = opening ++ (during ++ closing) ∧
          (⟨none⟩ : ScopeManager).Ran (.background 0) inserting (fun _ _ => true) (.new 2) opening during closing t a
            (.ok ())) := by
  refine run_all_or_nothing 2 [] (fun _ => body_inserting _) ?_
  refine .acts .calm rfl (.silent .calm rfl (.acts .calm rfl ?_))
  exact .meanwhile (by decide) (.meanwhile (by decide) (.acts .calm rfl (.meanwhile (by decide) (.done _ _ _))))

end ScopeManager
end IdentityVault
