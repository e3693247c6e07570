import Libmacaroon.Library.Checked

/-! Runs that do not panic. One rule for each way to build a run; what a run has checked before is
known to the part that follows. -/
namespace Checked
variable {ε α β σ : Type}

/-- The run ends with a value or with an error of the program's own. -/
def Completes (x : Outcome ε α) : Prop := (∃ a, x = .ok a) ∨ ∃ e, x = .err e

namespace Completes

theorem ok (a : α) : Completes (.ok a : Outcome ε α) := .inl ⟨a, rfl⟩

theorem err (e : ε) : Completes (.err e : Outcome ε α) := .inr ⟨e, rfl⟩

theorem pure (a : α) : Completes (Pure.pure a : Outcome ε α) := ok a

theorem err_iff {x : Outcome ε α} (h : Completes x) : (∃ e, x = .err e) ↔ ¬ ∃ a, x = .ok a := by
  obtain ⟨a, rfl⟩ | ⟨e, rfl⟩ := h
  · simp
  · simp

theorem bind {x : Outcome ε α} {f : α → Outcome ε β} (hx : Completes x)
    (hf : ∀ a, x = .ok a → Completes (f a)) : Completes (x >>= f) := by
  obtain ⟨a, rfl⟩ | ⟨e, rfl⟩ := hx
  · exact hf a rfl
  · exact err e

theorem failIf (c : Prop) [Decidable c] (e : ε) : Completes (Checked.failIf c e) := by
  by_cases h : c
  · rw [Checked.failIf, if_pos h]
    exact err e
  · rw [Checked.failIf, if_neg h]
    exact ok ()

theorem add {w : Width} {a b : Nat} (h : a + b < 2 ^ w.bits) :
    Completes (Checked.add w a b : Outcome ε Nat) := by
  rw [Checked.add, if_pos h]
  exact ok (a + b)

theorem sub {a b : Nat} (h : b ≤ a) : Completes (Checked.sub a b : Outcome ε Nat) := by
  rw [Checked.sub, if_pos h]
  exact ok (a - b)

theorem shl {w : Width} {x s : Nat} (h : s < w.bits) :
    Completes (Checked.shl w x s : Outcome ε Nat) := by
  rw [Checked.shl, if_pos h]
  exact ok _

theorem indexAt {xs : List α} {i : Nat} (h : i < xs.length) :
    Completes (Checked.indexAt xs i : Outcome ε α) := by
  rw [Checked.indexAt, List.getElem?_eq_getElem h]
  exact ok xs[i]

theorem slice {xs : List α} {lo hi : Nat} (hlo : lo ≤ hi) (hhi : hi ≤ xs.length) :
    Completes (Checked.slice xs lo hi : Outcome ε (List α)) := by
  rw [Checked.slice, if_pos ⟨hlo, hhi⟩]
  exact ok _

/-- The error of a run that completes can be handed on. -/
theorem of_error {x : Outcome ε α} {f : Failure ε} (h : Completes x) (hx : x = .error f) :
    Completes (.error f : Outcome ε β) := by
  subst hx
  obtain ⟨a, h⟩ | ⟨e, h⟩ := h
  · cases h
  · cases h
    exact err e

/- A check, a difference or a sum, and what follows it. -/
theorem failIf_bind {c : Prop} [Decidable c] {e : ε} {f : Unit → Outcome ε β}
    (hf : ¬ c → Completes (f ())) : Completes (Checked.failIf c e >>= f) := by
  apply bind (failIf c e)
  intro _ hpassed
  exact hf (failIf_eq_ok.mp hpassed)

theorem sub_bind {a b : Nat} {f : Nat → Outcome ε β} (h : b ≤ a) (hf : Completes (f (a - b))) :
    Completes (Checked.sub a b >>= f) := by
  apply bind (sub h)
  intro c hc
  rw [(sub_eq_ok.mp hc).2]
  exact hf

theorem add_bind {w : Width} {a b : Nat} {f : Nat → Outcome ε β} (h : a + b < 2 ^ w.bits)
    (hf : Completes (f (a + b))) : Completes (Checked.add w a b >>= f) := by
  apply bind (add h)
  intro c hc
  rw [(add_eq_ok.mp hc).2]
  exact hf

/-- A loop whose passes all complete. -/
theorem foldlM {step : β → α → Outcome ε β} (hstep : ∀ b a, Completes (step b a)) (xs : List α)
    (b : β) : Completes (xs.foldlM step b) := by
  induction xs generalizing b with
  | nil => exact ok b
  | cons a xs ih =>
    rw [List.foldlM_cons]
    apply bind (hstep b a)
    intro b' _
    exact ih b'

end Completes

namespace Stateful

/-- The call completes from every state. -/
def Completes (x : Stateful σ ε α) : Prop := ∀ s, Checked.Completes (x.call s).1

namespace Completes

theorem pure (a : α) : Completes (Pure.pure a : Stateful σ ε α) := fun _ => .ok a

theorem get : Completes (Stateful.get : Stateful σ ε σ) := fun s => .ok s

theorem modify (f : σ → σ) : Completes (Stateful.modify f : Stateful σ ε Unit) := fun _ => .ok ()

theorem lift {x : Outcome ε α} (h : Checked.Completes x) :
    Completes (liftM x : Stateful σ ε α) := fun _ => h

theorem bind {x : Stateful σ ε α} {f : α → Stateful σ ε β} (hx : x.Completes)
    (hf : ∀ a, (f a).Completes) : (x >>= f).Completes := by
  intro s
  rw [call_bind]
  have hcall := hx s
  generalize x.call s = run at hcall
  obtain ⟨r, s'⟩ := run
  obtain ⟨a, rfl⟩ | ⟨e, rfl⟩ := hcall
  · exact hf a s'
  · exact .err e

end Completes

/-- A property of calls that is kept by every way to build one. -/
structure Closed (P : ∀ α : Type, Stateful σ ε α → Prop) : Prop where
  pure {α : Type} (a : α) : P α (Pure.pure a)
  lift {α : Type} {x : Outcome ε α} (h : Checked.Completes x) : P α (liftM x)
  bind {α β : Type} {x : Stateful σ ε α} {f : α → Stateful σ ε β} (hx : P α x)
    (hf : ∀ a, P β (f a)) : P β (x >>= f)

theorem completes_closed : Closed fun α (x : Stateful σ ε α) => x.Completes where
  pure := .pure
  lift := .lift
  bind := .bind

end Stateful

end Checked
