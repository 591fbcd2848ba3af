import Scriptlet.Fault
import Scriptlet.State
/-!
Computations on a state. One ends with a value, or with a fault, or it uses up the number of steps
that it was allowed; what was done to the state before a fault stays done.
-/
namespace Scriptlet

/-- How a computation ends. -/
inductive Outcome (ε α : Type) where
  | value (a : α) (s : State)
  | failure (e : ε) (s : State)
  /-- The allowed number of steps was used up. -/
  | timeout

/-- A computation that may change the state and may stop with a fault. -/
def Eval (α : Type) := State → Outcome Fault α

namespace Eval

variable {α β : Type}

@[always_inline, inline]
protected def pure (a : α) : Eval α := fun s => .value a s

@[always_inline, inline]
protected def bind (m : Eval α) (f : α → Eval β) : Eval β := fun s =>
  match m s with
  | .value a s => f a s
  | .failure e s => .failure e s
  | .timeout => .timeout

@[always_inline]
instance : Monad Eval where
  pure := Eval.pure
  bind := Eval.bind

/-- Uses up the allowed steps. -/
def timeout : Eval α := fun _ => .timeout

@[always_inline, inline]
def fail (e : Fault) : Eval α := fun s => .failure e s

/-- Reports what the program does wrong at `p`. -/
@[always_inline, inline]
def raise (cause : Fault.Cause) (p : Position) : Eval α :=
  fail (.raised cause p)

/-- Turns an error into a fault of the computation. -/
@[always_inline, inline]
def lift : Except Fault α → Eval α
  | .ok a => Pure.pure a
  | .error e => fail e

instance : MonadLift (Except Fault) Eval := ⟨lift⟩

@[always_inline, inline]
def get : Eval State := fun s => .value s s

@[always_inline, inline]
def modify (change : State → State) : Eval Unit := fun s => .value () (change s)

@[always_inline, inline]
def store : Eval Store := fun s => .value s.store s

@[always_inline, inline]
def modifyStore (change : Store → Store) : Eval Unit := fun s =>
  .value () { s with store := change s.store }

@[always_inline, inline]
def add (change : Store → α × Store) : Eval α := fun s =>
  let (a, store) := change s.store
  .value a { s with store }

@[always_inline, inline]
def emit (e : Event) : Eval Unit :=
  modify (·.emit e)

theorem pure_apply (a : α) (s : State) : (Pure.pure a : Eval α) s = .value a s := rfl

theorem bind_apply (m : Eval α) (f : α → Eval β) (s : State) :
    (m >>= f) s =
      match m s with
      | .value a s => f a s
      | .failure e s => .failure e s
      | .timeout => .timeout := rfl

theorem bind_pure_self (m : Eval α) : (m >>= fun a => Pure.pure a) = m := by
  funext s
  rw [bind_apply]
  cases m s <;> rfl

theorem bind_bind {γ : Type} (m : Eval α) (f : α → Eval β) (g : β → Eval γ) :
    m >>= f >>= g = m >>= fun a => f a >>= g := by
  funext s
  simp only [bind_apply]
  cases m s <;> rfl

instance : LawfulMonad Eval :=
  LawfulMonad.mk' Eval bind_pure_self (fun _ _ => rfl) bind_bind

end Eval
end Scriptlet
