import Libmacaroon.Library.Checked

/-! Runs by the errors of the program's own that they can raise. -/
namespace Checked
variable {ε α β σ : Type} {E : ε → Prop}

/-- Every error that the run returns is one of `E`. -/
def Raises (E : ε → Prop) (x : Outcome ε α) : Prop := ∀ e, x = .err e → E e

namespace Raises

theorem ok (a : α) : Raises E (.ok a : Outcome ε α) := by
  intro e h
  cases h

theorem err {e : ε} (he : E e) : Raises E (.err e : Outcome ε α) := by
  intro e' h
  cases h
  exact he

theorem failIf (c : Prop) [Decidable c] {e : ε} (he : E e) : Raises E (Checked.failIf c e) := by
  by_cases h : c
  · rw [Checked.failIf, if_pos h]
    exact err he
  · rw [Checked.failIf, if_neg h]
    exact ok ()

end Raises

namespace Stateful

/-- From every state the call returns no other error than one of `E`. -/
def Raises (E : ε → Prop) (x : Stateful σ ε α) : Prop := ∀ s, Checked.Raises E (x.call s).1

namespace Raises

theorem pure (a : α) : Raises E (Pure.pure a : Stateful σ ε α) := fun _ => .ok a

theorem get : Raises E (Stateful.get : Stateful σ ε σ) := fun s => .ok s

theorem modify (f : σ → σ) : Raises E (Stateful.modify f : Stateful σ ε Unit) := fun _ => .ok ()

theorem lift {x : Outcome ε α} (h : Checked.Raises E x) :
    Raises E (liftM x : Stateful σ ε α) := fun _ => h

/-- A call in two parts fails in one of them. -/
theorem bind {x : Stateful σ ε α} {f : α → Stateful σ ε β} (hx : Raises E x)
    (hf : ∀ a, Raises E (f a)) : Raises E (x >>= f) := by
  intro s e h
  obtain hfirst | ⟨a, s', _, hsecond⟩ :=
    bind_eq_error.mp (Prod.ext h rfl : (x >>= f).call s = (.err e, ((x >>= f).call s).2))
  · exact hx s e (congrArg Prod.fst hfirst)
  · exact hf a s' e (congrArg Prod.fst hsecond)

end Raises

end Stateful

end Checked
