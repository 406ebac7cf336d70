import Mathlib.Data.Option.Basic

/-!
# How a call ends

A call returns a value, throws an exception, or has undefined behaviour: from then on
nothing is known of the program. Calls in sequence end like the first that does not return.
-/

namespace Cpp

/-- How a call ends. -/
inductive Outcome (α : Type) where
  | returns (a : α)
  | throws (what : String)
  | undefined
  deriving DecidableEq

namespace Outcome

variable {α β : Type}

/-- A call and then another on what it returns. -/
def bind : Outcome α → (α → Outcome β) → Outcome β
  | returns a, f => f a
  | throws what, _ => throws what
  | undefined, _ => undefined

/-- What is returned, if anything. -/
def toOption : Outcome α → Option α
  | returns a => some a
  | throws _ => none
  | undefined => none

/-- A call that throws if there is no value. -/
def ofOption (what : String) : Option α → Outcome α
  | some a => returns a
  | none => throws what

@[simp] theorem bind_returns (a : α) (f : α → Outcome β) : (returns a).bind f = f a := rfl

@[simp] theorem bind_throws (what : String) (f : α → Outcome β) :
    (throws what).bind f = throws what := rfl

@[simp] theorem bind_undefined (f : α → Outcome β) :
    (undefined : Outcome α).bind f = undefined := rfl

@[simp] theorem toOption_ofOption (what : String) (x : Option α) :
    (ofOption what x).toOption = x := by
  cases x <;> rfl

/-- What a sequence of calls returns. -/
theorem toOption_bind (x : Outcome α) (f : α → Outcome β) :
    (x.bind f).toOption = x.toOption.bind fun a => (f a).toOption := by
  cases x with
  | returns a => rfl
  | throws what => rfl
  | undefined => rfl

/-- Two calls, and then another on what they return. -/
theorem toOption_bind₂ {γ : Type} {x : Outcome α} {y : Outcome β} {f : α → β → Outcome γ}
    {x' : Option α} {y' : Option β} {g : α → β → Option γ} (hx : x.toOption = x')
    (hy : y.toOption = y') (hf : ∀ a b, (f a b).toOption = g a b) :
    (x.bind fun a => y.bind (f a)).toOption = x'.bind fun a => y'.bind (g a) := by
  rw [toOption_bind, hx]
  refine Option.bind_congr fun a _ => ?_
  rw [toOption_bind, hy]
  exact Option.bind_congr fun b _ => hf a b

end Outcome

end Cpp
