import Mathlib.Data.List.Basic

/-!
# SpiderChat.Lib.Except

Computations that may fail, taken apart: a sequence ends well when both of its parts do, and
`Ensures` carries what holds of a result, or of a failure, through it.
-/

namespace Lib

variable {ε : Type} {α β : Type}

theorem bind_eq_ok {x : Except ε α} {f : α → Except ε β} {b : β} :
    x >>= f = .ok b ↔ ∃ a, x = .ok a ∧ f a = .ok b := by
  cases x with
  | error e => simp [bind, Except.bind]
  | ok a => simp [bind, Except.bind]

@[simp] theorem ok_bind (a : α) (f : α → Except ε β) : (Except.ok a >>= f) = f a := rfl

@[simp] theorem pure_eq_ok {a b : α} : (pure a : Except ε α) = .ok b ↔ a = b := by
  simp [pure, Except.pure]

/-- What holds of the result, and of what the computation fails with. -/
def Ensures (P : α → Prop) (E : ε → Prop) : Except ε α → Prop
  | .ok a => P a
  | .error e => E e

variable {P : α → Prop} {E : ε → Prop}

theorem Ensures.bind {x : Except ε α} {f : α → Except ε β} {Q : β → Prop} (h : Ensures P E x)
    (hf : ∀ a, P a → Ensures Q E (f a)) : Ensures Q E (x >>= f) := by
  cases x with
  | error e => exact h
  | ok a => exact hf a h

theorem Ensures.mono {x : Except ε α} {Q : α → Prop} (h : Ensures P E x) (hPQ : ∀ a, P a → Q a) :
    Ensures Q E x := by
  cases x with
  | error e => exact h
  | ok a => exact hPQ a h

theorem Ensures.pure {a : α} (h : P a) : Ensures P E (pure a) := h

theorem Ensures.throw {e : ε} (h : E e) : Ensures P E (throw e) := h

end Lib
