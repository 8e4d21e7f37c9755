import IdentityVault.Proofs.Gateway.Workplace
import IdentityVault.Proofs.Scope.Backend
import IdentityVault.Proofs.Store.Blank
import IdentityVault.Proofs.Store.Retention
import Mathlib.Data.List.Forall2

/-! Two workplaces where the same is done, but for the emails that come with credentials. Side by side they stay the
    same but for the emails in the rows of credentials, so that everything is answered alike. -/

namespace IdentityVault

universe u

variable {α β : Type}

/-! ### Programs side by side -/

/-- Two programs that ask for effects that are alike, and go on alike whatever these yield. -/
inductive Program.Alike {E : Type → Type u} (R : ⦃β : Type⦄ → E β → E β → Prop) {α : Type} :
    Program E α → Program E α → Prop
  | done (a : α) : Alike R (.done a) (.done a)
  | ask {β : Type} {e e' : E β} {next next' : β → Program E α} (he : R e e') (hn : ∀ b, Alike R (next b) (next' b)) :
    Alike R (.ask e next) (.ask e' next')

namespace Program.Alike
variable {E : Type → Type u} {R : ⦃β : Type⦄ → E β → E β → Prop} {p p' : Program E β} {f f' : β → Program E α}

theorem refl (hr : ∀ {β : Type} (e : E β), R e e) (p : Program E α) : p.Alike R p := by
  induction p with
  | done a => exact .done a
  | ask e next ih => exact .ask (hr e) ih

theorem bind (h : p.Alike R p') (hf : ∀ b, (f b).Alike R (f' b)) : (p.bind f).Alike R (p'.bind f') := by
  induction h with
  | done b => exact hf b
  | ask he _ ih => exact .ask he ih

end Program.Alike

/-- Two effects that differ at most in the email of a credential. -/
def Effect.Alike {β : Type} (e e' : Effect β) : Prop := e.blank = e'.blank

theorem Effect.Alike.refl (e : Effect β) : e.Alike e := Eq.refl e.blank

/-- Two deeds that differ at most in the email of a request for a credential, or in the email of the row of one. -/
inductive Deed.Alike : {α : Type} → Deed α → Deed α → Prop
  | same {α : Type} (deed : Deed α) : Alike deed deed
  | request (user : Id) (email email' : Email) (password : PasswordHash) :
    Alike (.call (.createCredential ⟨user, email, password⟩)) (.call (.createCredential ⟨user, email', password⟩))
  | insert (c : Credential) (email : Email) :
    Alike (.row (.insertCredential c)) (.row (.insertCredential { c with email }))
  | update (c : Credential) (email : Email) :
    Alike (.row (.updateCredential c)) (.row (.updateCredential { c with email }))

theorem Context.alike_query (c : Context) (q q' : Query α) (h : q.blank = q'.blank) :
    (c.query q).result.Alike @Effect.Alike (c.query q').result := by
  obtain ⟨f, hfails⟩ | ⟨t, -, hasks⟩ := c.query_cases
  · rw [hfails, hfails]
    exact .done _
  · rw [hasks, hasks]
    exact .ask (congrArg (Effect.query c.deadline t) h) fun r => .done r

theorem Deed.Alike.perform {deed deed' : Deed α} (h : deed.Alike deed') (c : Context) :
    (deed.perform c).Alike @Effect.Alike (deed'.perform c) := by
  have refl (p : Program Effect (α × Context)) : p.Alike @Effect.Alike p :=
    Program.Alike.refl (R := @Effect.Alike) Effect.Alike.refl p
  cases h with
  | same => exact refl _
  -- What a request says of the email is not even looked at.
  | request => exact refl _
  | insert row email =>
    exact (c.alike_query (.insertCredential row) (.insertCredential { row with email }) rfl).bind fun r => .done _
  | update row email =>
    exact (c.alike_query (.updateCredential row) (.updateCredential { row with email }) rfl).bind fun r => .done _

/-! ### Workers side by side -/

inductive Worker.Alike : Worker → Worker → Prop
  | free (c : Context) {plan plan' : Plan} (h : plan.Alike @Deed.Alike plan') : Alike (.free c plan) (.free c plan')
  | busy {α : Type} {rest rest' : Program Effect (α × Context)} {next next' : α → Plan}
    (hr : rest.Alike @Effect.Alike rest') (hn : ∀ a, (next a).Alike @Deed.Alike (next' a)) :
    Alike (.busy rest next) (.busy rest' next')

/-- Effects that are alike yield the same on databases that are the same but for emails, and do the same to them. -/
theorem Effect.Alike.answer {e e' : Effect β} {d d' : Database} (he : e.Alike e') (hd : d.blank = d'.blank)
    (fits : Verifier) (m : Moment) :
    (e.answer fits m d).map (fun r => (r.1, r.2.map Database.Op.blank)) =
      (e'.answer fits m d').map fun r => (r.1, r.2.map Database.Op.blank) := by
  rw [← answer_blank, ← answer_blank, he, hd]

theorem Worker.Alike.go {worker worker' : Worker} {d d' : Database} (h : worker.Alike worker')
    (hd : d.blank = d'.blank) (fits : Verifier) (m : Moment) : (worker.go fits m d).1.Alike (worker'.go fits m d').1 ∧
      (worker.go fits m d).2.1.map Database.Op.blank = (worker'.go fits m d').2.1.map Database.Op.blank ∧
        (worker.go fits m d).2.2 = (worker'.go fits m d').2.2 := by
  cases h with
  | free c h =>
    cases h with
    | done a => exact ⟨.free c (.done a), rfl, rfl⟩
    | ask he hn => exact ⟨.busy (he.perform c) hn, rfl, rfl⟩
  | busy hr hn =>
    cases hr with
    | done r => exact ⟨.free r.2 (hn r.1), rfl, rfl⟩
    | @ask β e e' rest rest' he hr =>
      have hanswer := he.answer hd fits m
      rw [Worker.go, Worker.go]
      cases ha : e.answer fits m d with
      | none =>
        rw [ha, Option.map_none] at hanswer
        rw [Option.map_eq_none_iff.mp hanswer.symm]
        exact ⟨.busy (.ask he hr) hn, rfl, rfl⟩
      | some r =>
        rw [ha, Option.map_some] at hanswer
        obtain ⟨r', ha', hsame⟩ := Option.map_eq_some_iff.mp hanswer.symm
        obtain ⟨hb, hops⟩ := Prod.mk.inj hsame
        rw [ha']
        refine ⟨.busy ?_ hn, hops.symm, rfl⟩
        rw [hb]
        exact hr r.1

/-! ### Workplaces side by side -/

/-- At each place, two lists that are alike have nothing, or what is alike. -/
theorem forall₂_getElem? {σ : Type u} {R : σ → σ → Prop} {l l' : List σ} (h : List.Forall₂ R l l') (i : Nat) :
    l[i]? = none ∧ l'[i]? = none ∨ ∃ a b, l[i]? = some a ∧ l'[i]? = some b ∧ R a b := by
  induction h generalizing i with
  | nil => exact .inl ⟨rfl, rfl⟩
  | @cons a b l l' hab _ ih =>
    cases i with
    | zero => exact .inr ⟨a, b, rfl, rfl, hab⟩
    | succ i => exact ih i

theorem forall₂_set {σ : Type u} {R : σ → σ → Prop} {l l' : List σ} (h : List.Forall₂ R l l') (i : Nat) {a b : σ}
    (hab : R a b) : List.Forall₂ R (l.set i a) (l'.set i b) := by
  induction h generalizing i with
  | nil => exact .nil
  | cons hcd h ih =>
    cases i with
    | zero => exact .cons hab h
    | succ i => exact .cons hcd (ih i)

namespace Workplace

structure Alike (w w' : Workplace) : Prop where
  database : w.database.blank = w'.database.blank
  workers : List.Forall₂ Worker.Alike w.workers w'.workers
  answers : w.answers = w'.answers

inductive Turn.Alike : Turn → Turn → Prop
  | join (c : Context) {plan plan' : Plan} (h : plan.Alike @Deed.Alike plan') : Alike (.join c plan) (.join c plan')
  | go (i : Nat) (m : Moment) : Alike (.go i m) (.go i m)

theorem Turn.Alike.refl (turn : Turn) : turn.Alike turn := by
  cases turn with
  | join c plan => exact .join c (Program.Alike.refl (R := @Deed.Alike) .same plan)
  | go i m => exact .go i m

variable {fits : Verifier} {w w' : Workplace}

theorem Alike.turn {turn turn' : Turn} (h : w.Alike w') (ht : turn.Alike turn') :
    (w.turn fits turn).Alike (w'.turn fits turn') := by
  cases ht with
  | join c hplan =>
    exact ⟨h.database, List.rel_append h.workers (.cons (.free c hplan) .nil), h.answers⟩
  | go i m =>
    rcases forall₂_getElem? h.workers i with ⟨hnone, hnone'⟩ | ⟨worker, worker', hi, hi', halike⟩
    · simp only [Workplace.turn, hnone, hnone']
      exact h
    · obtain ⟨hworker, hops, hanswers⟩ := halike.go h.database fits m
      simp only [Workplace.turn, hi, hi']
      refine ⟨?_, forall₂_set h.workers i hworker, ?_⟩
      · rw [moved, moved, ← Database.after_blank, ← Database.after_blank, h.database, hops]
      · rw [moved, moved, h.answers, hanswers]

theorem Alike.after {turns turns' : List Turn} (h : w.Alike w') (ht : List.Forall₂ Turn.Alike turns turns') :
    (w.after fits turns).Alike (w'.after fits turns') := by
  induction ht generalizing w w' with
  | nil => exact h
  | cons ht _ ih => exact ih (h.turn ht)

/-- Two runs that differ at most in the emails that come with credentials are answered alike, each deed at each of its
    turns. And a commit that does not update an identity leaves the email that its credential is seen with as it is,
    whatever email there is in the row of the credential. -/
theorem email_unseen (fits : Verifier) (capacity : Nat) {turns turns' : List Turn}
    (h : List.Forall₂ Turn.Alike turns turns') :
    ((new (.new capacity)).after fits turns).answers = ((new (.new capacity)).after fits turns').answers ∧
      ∀ {t : TxId} {x : Transaction} {k : Id} {u : User},
        ((new (.new capacity)).after fits turns).database.tx? t = some x →
        ((new (.new capacity)).after fits turns).database.tables.users.get? k = some u →
        (∀ v, .updateUser v ∈ x.log → v.id ≠ k) →
          (((new (.new capacity)).after fits turns).database.commit t).2.tables.users.get? k = some u ∧
            ∀ c, (((new (.new capacity)).after fits turns).database.commit t).2.tables.credentialOf? k = some c →
              c.email = u.email := by
  have hstart : (new (.new capacity)).Alike (new (.new capacity)) := ⟨rfl, .nil, rfl⟩
  refine ⟨(hstart.after h).answers, fun hx hu hlog => ?_⟩
  have hkept := Database.user_of_commit hx hu hlog
  refine ⟨hkept, fun c hc => ?_⟩
  obtain ⟨v, old, hv, -, rfl⟩ := Tables.credentialOf?_eq_some.mp hc
  rw [← Option.some.inj (hv.symm.trans hkept)]

/-- Ann is registered with a credential, for which some email is given. Then her password is changed, and before this
    is committed, somebody else has changed her email. -/
def moving (email : Email) : List Turn :=
  .join (.background 0) (.ask (.begin ⟨none⟩) fun _ => .ask (.call (.createUser "Ann" ⟨"ann@example.com"⟩)) fun _ =>
    .ask (.call (.createCredential ⟨⟨"u1"⟩, email, ⟨"old"⟩⟩)) fun _ => .ask .commit fun _ => .done ()) ::
  .join (.background 1) (.ask (.begin ⟨none⟩) fun _ => .ask (.call (.updateCredential ⟨"u1"⟩ ⟨"new"⟩)) fun _ => .done ()) ::
  .join (.background 2) (.ask (.begin ⟨none⟩) fun _ =>
    .ask (.call (.updateUser ⟨⟨"u1"⟩, "Ann", ⟨"eve@example.com"⟩⟩)) fun _ => .ask .commit fun _ => .done ()) ::
  (List.replicate 19 (.go 0 { Moment.calm with id := .ok ⟨"u1"⟩ }) ++ List.replicate 10 (.go 1 .calm) ++
    List.replicate 11 (.go 2 .calm))

theorem email_unseen_of_moving :
    List.Forall₂ Turn.Alike (moving ⟨"ann@example.com"⟩) (moving ⟨"bob@example.com"⟩) ∧
      ((new (.new 3)).after (fun _ _ => true) (moving ⟨"ann@example.com"⟩)).answers =
        ((new (.new 3)).after (fun _ _ => true) (moving ⟨"bob@example.com"⟩)).answers ∧
      (((new (.new 3)).after (fun _ _ => true) (moving ⟨"ann@example.com"⟩)).database.commit 1).2.tables.users.get?
        ⟨"u1"⟩ = some ⟨⟨"u1"⟩, "Ann", ⟨"eve@example.com"⟩⟩ := by
  have h : List.Forall₂ Turn.Alike (moving ⟨"ann@example.com"⟩) (moving ⟨"bob@example.com"⟩) := by
    refine .cons (.join _ ?_) (List.forall₂_same.mpr fun turn _ => .refl turn)
    exact .ask (.same _) fun _ => .ask (.same _) fun _ => .ask (.request _ _ _ _) fun _ => .ask (.same _) fun _ => .done ()
  obtain ⟨hanswers, hkept⟩ := email_unseen (fun _ _ => true) 3 h
  obtain ⟨y, c, hx⟩ : ∃ y c, ((new (.new 3)).after (fun _ _ => true) (moving ⟨"ann@example.com"⟩)).database.tx? 1 =
    some ⟨y, [.updateCredential c]⟩ := ⟨_, _, rfl⟩
  exact ⟨h, hanswers, (hkept hx rfl (by simp)).1⟩

example : ((((new (.new 3)).after (fun _ _ => true) (moving ⟨"bob@example.com"⟩)).database.commit 1).2.tables.credentialOf?
    ⟨"u1"⟩).map (fun c => (c.email, c.password)) = some (⟨"eve@example.com"⟩, ⟨"new"⟩) := by
  decide +kernel

end Workplace
end IdentityVault
