import Libmacaroon.Library.Completes

/-! Calls that respect a relation on states. From related states they return the same, and they leave
related states, also when they fail. -/
namespace Checked.Stateful
variable {ε α β σ : Type} {R : σ → σ → Prop}

def Respects (R : σ → σ → Prop) (x : Stateful σ ε α) : Prop :=
  ∀ s t, R s t → (x.call s).1 = (x.call t).1 ∧ R (x.call s).2 (x.call t).2

namespace Respects

theorem pure (a : α) : Respects R (Pure.pure a : Stateful σ ε α) := by
  intro s t hst
  exact ⟨rfl, hst⟩

theorem lift (x : Outcome ε α) : Respects R (liftM x : Stateful σ ε α) := by
  intro s t hst
  exact ⟨rfl, hst⟩

theorem bind {x : Stateful σ ε α} {f : α → Stateful σ ε β} (hx : Respects R x)
    (hf : ∀ a, Respects R (f a)) : Respects R (x >>= f) := by
  intro s t hst
  obtain ⟨hresult, hleft⟩ := hx s t hst
  rw [call_bind, call_bind]
  generalize x.call s = run at hresult hleft
  generalize x.call t = run' at hresult hleft
  obtain ⟨r, s'⟩ := run
  obtain ⟨r', t'⟩ := run'
  simp only at hresult hleft
  subst hresult
  cases r with
  | error e => exact ⟨rfl, hleft⟩
  | ok a => exact hf a s' t' hleft

end Respects

theorem respects_closed (R : σ → σ → Prop) : Closed fun α (x : Stateful σ ε α) => Respects R x where
  pure := .pure
  lift _ := .lift _
  bind := .bind

/-- Both outcomes are values that `V` relates, or both the same failure. -/
def Both (V : α → β → Prop) : Outcome ε α → Outcome ε β → Prop
  | .ok a, .ok b => V a b
  | .error e, .error f => e = f
  | _, _ => False

/-- Two calls in step. From related states they both succeed, with related values, or both fail alike;
they leave related states either way. -/
def Matches (R : σ → σ → Prop) (V : α → β → Prop) (x : Stateful σ ε α) (y : Stateful σ ε β) :
    Prop :=
  ∀ s t, R s t → Both V (x.call s).1 (y.call t).1 ∧ R (x.call s).2 (y.call t).2

namespace Matches
variable {V : α → β → Prop}

theorem pure {a : α} {b : β} (h : V a b) :
    Matches R V (Pure.pure a : Stateful σ ε α) (Pure.pure b) := by
  intro s t hst
  exact ⟨h, hst⟩

theorem lift {x : Outcome ε α} {y : Outcome ε β} (h : Both V x y) :
    Matches R V (liftM x : Stateful σ ε α) (liftM y) := by
  intro s t hst
  exact ⟨h, hst⟩

theorem bind {α' β' : Type} {W : α' → β' → Prop} {x : Stateful σ ε α} {y : Stateful σ ε β}
    {f : α → Stateful σ ε α'} {g : β → Stateful σ ε β'} (hxy : Matches R V x y)
    (hfg : ∀ a b, V a b → Matches R W (f a) (g b)) : Matches R W (x >>= f) (y >>= g) := by
  intro s t hst
  obtain ⟨hresult, hleft⟩ := hxy s t hst
  rw [call_bind, call_bind]
  generalize x.call s = run at hresult hleft
  generalize y.call t = run' at hresult hleft
  obtain ⟨r, s'⟩ := run
  obtain ⟨r', t'⟩ := run'
  cases r with
  | error e =>
    cases r' with
    | error e' => exact ⟨hresult, hleft⟩
    | ok b => exact absurd hresult id
  | ok a =>
    cases r' with
    | error e' => exact absurd hresult id
    | ok b => exact hfg a b hresult s' t' hleft

end Matches

theorem Both.of_eq (x : Outcome ε α) : Both Eq x x := by
  cases x <;> rfl

theorem Both.eq {x y : Outcome ε α} (h : Both Eq x y) : x = y := by
  cases x with
  | error e =>
    cases y with
    | error e' => exact congrArg Except.error h
    | ok b => exact absurd h id
  | ok a =>
    cases y with
    | error e' => exact absurd h id
    | ok b => exact congrArg Except.ok h

end Checked.Stateful
