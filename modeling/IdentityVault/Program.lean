/-! Programs as trees: a program is finished, or asks for an effect and goes on with what it yields. What an effect
    does is decided by whoever runs the program. -/

namespace IdentityVault

universe u

/-- A program that asks for effects of the signature `E` and ends with a value. -/
inductive Program (E : Type → Type u) (α : Type) : Type (max 1 u) where
  | done (value : α)
  | ask {β : Type} (effect : E β) (next : β → Program E α)

namespace Program

variable {E : Type → Type u} {α β γ : Type}

def perform (effect : E α) : Program E α := ask effect done

/-- The program that goes on with `f` where `p` ends. -/
def bind : Program E α → (α → Program E β) → Program E β
  | done a, f => f a
  | ask e next, f => ask e fun b => (next b).bind f

instance : Monad (Program E) where
  pure := done
  bind := bind

/-- Runs a program, where `handle` says what an effect does. -/
def run {m : Type → Type} [Monad m] (handle : {β : Type} → E β → m β) : Program E α → m α
  | done a => pure a
  | ask e next => do run handle (next (← handle e))

@[simp]
theorem pure_eq (a : α) : (pure a : Program E α) = done a := rfl

@[simp]
theorem bind_eq (p : Program E α) (f : α → Program E β) : p >>= f = p.bind f := rfl

@[simp]
theorem done_bind (a : α) (f : α → Program E β) : (done a).bind f = f a := rfl

@[simp]
theorem ask_bind (e : E γ) (next : γ → Program E α) (f : α → Program E β) :
    (ask e next).bind f = ask e fun b => (next b).bind f := rfl

@[simp]
theorem bind_done (p : Program E α) : p.bind done = p := by
  induction p with
  | done a => rfl
  | ask e next ih => simp only [ask_bind, ih]

theorem bind_assoc (p : Program E α) (f : α → Program E β) (g : β → Program E γ) :
    (p.bind f).bind g = p.bind fun a => (f a).bind g := by
  induction p with
  | done a => rfl
  | ask e next ih => simp only [ask_bind, ih]

instance : LawfulMonad (Program E) := LawfulMonad.mk' _ bind_done (fun _ _ => rfl) bind_assoc

variable {m : Type → Type} [Monad m] (handle : {β : Type} → E β → m β)

@[simp]
theorem run_done (a : α) : (done a : Program E α).run handle = pure a := rfl

@[simp]
theorem run_ask (e : E β) (next : β → Program E α) :
    (ask e next).run handle = (do (next (← handle e)).run handle) := rfl

theorem run_bind [LawfulMonad m] (p : Program E α) (f : α → Program E β) :
    (p.bind f).run handle = (do (f (← p.run handle)).run handle) := by
  induction p with
  | done a => simp
  | ask e next ih => simp only [ask_bind, run_ask, ih, LawfulMonad.bind_assoc]

end Program
end IdentityVault
