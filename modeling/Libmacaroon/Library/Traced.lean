import Libmacaroon.Library.Checked
import Mathlib.Algebra.BigOperators.Group.List.Basic
import Mathlib.Algebra.Ring.Nat

/-! Calls that also record events. Forgetting the events is a morphism to plain calls, and a rule for
each way to build a call compares two runs that both succeed. -/
namespace Checked

/-- A stateful call with the events of its run, in order, up to where it failed. -/
def Traced (ω σ ε α : Type) := σ → (Outcome ε α × σ) × List ω

namespace Traced
variable {ω σ ε α β : Type}

instance : Monad (Traced ω σ ε) where
  pure a := fun s => ((.ok a, s), [])
  bind x f := fun s =>
    match x s with
    | ((.ok a, s'), ws) => ((f a s').1, ws ++ (f a s').2)
    | ((.error e, s'), ws) => ((.error e, s'), ws)

instance : MonadLift (Stateful σ ε) (Traced ω σ ε) where
  monadLift x := fun s => (x s, [])

instance : MonadLift (Except (Failure ε)) (Traced ω σ ε) where
  monadLift x := fun s => ((x, s), [])

def record (w : ω) : Traced ω σ ε Unit := fun s => ((.ok (), s), [w])

/-- The call without its events. -/
def erase (x : Traced ω σ ε α) : Stateful σ ε α := fun s => (x s).1

/-- The events of the call. -/
def trace (x : Traced ω σ ε α) (s : σ) : List ω := (x s).2

@[simp] theorem erase_pure (a : α) : (pure a : Traced ω σ ε α).erase = pure a := rfl

@[simp] theorem erase_record (w : ω) : (record w : Traced ω σ ε Unit).erase = pure () := rfl

@[simp] theorem erase_lift (x : Stateful σ ε α) :
    Traced.erase (liftM x : Traced ω σ ε α) = x := rfl

@[simp] theorem erase_liftOutcome (x : Outcome ε α) :
    Traced.erase (liftM x : Traced ω σ ε α) = liftM x := rfl

@[simp] theorem erase_bind (x : Traced ω σ ε α) (f : α → Traced ω σ ε β) :
    (x >>= f).erase = x.erase >>= fun a => (f a).erase := by
  funext s
  simp only [erase, bind]
  obtain ⟨⟨r, s'⟩, ws⟩ := x s
  cases r <;> rfl

theorem trace_bind {x : Traced ω σ ε α} {f : α → Traced ω σ ε β} {s s' : σ} {a : α}
    (h : x.erase.call s = (.ok a, s')) :
    (x >>= f).trace s = x.trace s ++ (f a).trace s' := by
  have hx : (x s).1 = (.ok a, s') := h
  simp only [trace, bind]
  generalize x s = run at hx
  obtain ⟨r, ws⟩ := run
  subst hx
  rfl

/-- When the first part fails there is no second. -/
theorem trace_bind_error {x : Traced ω σ ε α} {f : α → Traced ω σ ε β} {s s' : σ} {e : Failure ε}
    (h : x.erase.call s = (.error e, s')) : (x >>= f).trace s = x.trace s := by
  have hx : (x s).1 = (.error e, s') := h
  simp only [trace, bind]
  generalize x s = run at hx
  obtain ⟨r, ws⟩ := run
  subst hx
  rfl

/-- `P` relates the state before, the events and the state after of every run, also of one that
fails. -/
def Along (P : σ → List ω → σ → Prop) (x : Traced ω σ ε α) : Prop :=
  ∀ s, P s (x.trace s) (x.erase.call s).2

namespace Along
variable {P Q S : σ → List ω → σ → Prop}

theorem pure {a : α} (h : ∀ s, P s [] s) : Along P (pure a : Traced ω σ ε α) := h

theorem record {w : ω} (h : ∀ s, P s [w] s) : Along P (record w : Traced ω σ ε Unit) := h

theorem liftOutcome {x : Outcome ε α} (h : ∀ s, P s [] s) :
    Along P (liftM x : Traced ω σ ε α) := h

/-- Either the first part fails, and then `P` is all there is, or `Q` goes on from where it ended with
the value it gave. -/
theorem bind {x : Traced ω σ ε α} {f : α → Traced ω σ ε β} (hx : Along P x)
    (hf : ∀ s a s', x.erase.call s = (.ok a, s') → Along Q (f a)) (hfail : ∀ s ws t, P s ws t → S s ws t)
    (hcomp : ∀ s ws t ws' u, P s ws t → Q t ws' u → S s (ws ++ ws') u) : Along S (x >>= f) := by
  intro s
  have hP := hx s
  rw [erase_bind, Stateful.call_bind]
  cases hcall : x.erase.call s with
  | mk r t =>
    rw [hcall] at hP
    cases r with
    | error e =>
      rw [trace_bind_error hcall]
      exact hfail s _ t hP
    | ok a =>
      rw [trace_bind hcall]
      exact hcomp s _ t _ _ hP (hf s a t hcall t)

end Along

/-- Every event of every run satisfies `P`, also of a run that fails. -/
def Records (P : ω → Prop) (x : Traced ω σ ε α) : Prop :=
  Along (fun _ ws _ => ∀ w ∈ ws, P w) x

namespace Records
variable {P : ω → Prop}

theorem pure (a : α) : Records P (pure a : Traced ω σ ε α) := by
  apply Along.pure
  simp

theorem record {w : ω} (h : P w) : Records P (record w : Traced ω σ ε Unit) := by
  apply Along.record
  intro _
  simpa using h

theorem liftOutcome (x : Outcome ε α) : Records P (liftM x : Traced ω σ ε α) := by
  apply Along.liftOutcome
  simp

theorem bind {x : Traced ω σ ε α} {f : α → Traced ω σ ε β} (hx : Records P x)
    (hf : ∀ s a s', x.erase.call s = (.ok a, s') → Records P (f a)) : Records P (x >>= f) := by
  refine Along.bind hx hf ?_ ?_
  · intro _ ws _ hws
    exact hws
  · intro _ ws _ ws' _ hws hws'
    exact List.forall_mem_append.mpr ⟨hws, hws'⟩

end Records

/-- The potential method. Every run pays for its events out of a grant `n` and of what it takes from
the potential `Φ` of the state, also a run that fails. -/
def Charged (cost : ω → Nat) (Φ : σ → Nat) (n : Nat) (x : Traced ω σ ε α) : Prop :=
  Along (fun s ws t => (ws.map cost).sum + Φ t ≤ Φ s + n) x

namespace Charged
variable {cost : ω → Nat} {Φ : σ → Nat} {n n' : Nat}

theorem pure (a : α) : Charged cost Φ 0 (pure a : Traced ω σ ε α) := by
  apply Along.pure
  simp

theorem record (w : ω) : Charged cost Φ (cost w) (record w : Traced ω σ ε Unit) := by
  apply Along.record
  intro s
  simp [Nat.add_comm]

theorem liftOutcome (x : Outcome ε α) : Charged cost Φ 0 (liftM x : Traced ω σ ε α) := by
  apply Along.liftOutcome
  simp

theorem mono {x : Traced ω σ ε α} (h : Charged cost Φ n x) (hle : n ≤ n') :
    Charged cost Φ n' x := by
  intro s
  have hs := h s
  omega

theorem bind {x : Traced ω σ ε α} {f : α → Traced ω σ ε β} (hx : Charged cost Φ n x)
    (hf : ∀ a, Charged cost Φ n' (f a)) : Charged cost Φ (n + n') (x >>= f) := by
  refine Along.bind hx (fun _ a _ _ => hf a) ?_ ?_
  · intro s ws t h
    omega
  · intro s ws t ws' u h h'
    rw [List.map_append, List.sum_append]
    omega

end Charged

/-- The two calls agree from related states: when both succeed, their values and the states they
leave are related, and their events are the same. -/
def Agree (R : σ → σ → Prop) (V : α → β → Prop) (x : Traced ω σ ε α) (y : Traced ω σ ε β) : Prop :=
  ∀ s t a b s' t', R s t → x.erase.call s = (.ok a, s') → y.erase.call t = (.ok b, t') →
    V a b ∧ R s' t' ∧ x.trace s = y.trace t

namespace Agree
variable {R : σ → σ → Prop} {V : α → β → Prop} {x : Traced ω σ ε α} {y : Traced ω σ ε β}

theorem pure {a : α} {b : β} (h : V a b) :
    Agree R V (pure a : Traced ω σ ε α) (pure b : Traced ω σ ε β) := by
  intro s t a b s' t' hst hx hy
  cases hx
  cases hy
  exact ⟨h, hst, rfl⟩

theorem record (w : ω) : Agree R Eq (record w : Traced ω σ ε Unit) (Traced.record w) := by
  intro s t a b s' t' hst hx hy
  cases hx
  cases hy
  exact ⟨rfl, hst, rfl⟩

theorem lift {x : Stateful σ ε α} {y : Stateful σ ε β}
    (h : ∀ s t a b s' t', R s t → x.call s = (.ok a, s') → y.call t = (.ok b, t') →
      V a b ∧ R s' t') :
    Agree R V (liftM x : Traced ω σ ε α) (liftM y : Traced ω σ ε β) := by
  intro s t a b s' t' hst hx hy
  obtain ⟨hab, hst'⟩ := h s t a b s' t' hst hx hy
  exact ⟨hab, hst', rfl⟩

theorem liftOutcome {x : Outcome ε α} {y : Outcome ε β} (h : ∀ a b, x = .ok a → y = .ok b → V a b) :
    Agree R V (liftM x : Traced ω σ ε α) (liftM y : Traced ω σ ε β) := by
  intro s t a b s' t' hst hx hy
  obtain ⟨rfl, rfl⟩ := Prod.mk.inj hx
  obtain ⟨rfl, rfl⟩ := Prod.mk.inj hy
  exact ⟨h a b rfl rfl, hst, rfl⟩

theorem bind {α' β' : Type} {W : α' → β' → Prop} {f : α → Traced ω σ ε α'}
    {g : β → Traced ω σ ε β'} (hxy : Agree R V x y)
    (hfg : ∀ a b, V a b → Agree R W (f a) (g b)) : Agree R W (x >>= f) (y >>= g) := by
  intro s t a b s' t' hst hx hy
  rw [erase_bind] at hx hy
  obtain ⟨a₁, s₁, hx₁, hx₂⟩ := Stateful.bind_eq_ok.mp hx
  obtain ⟨b₁, t₁, hy₁, hy₂⟩ := Stateful.bind_eq_ok.mp hy
  obtain ⟨hV, hR, htrace⟩ := hxy s t a₁ b₁ s₁ t₁ hst hx₁ hy₁
  obtain ⟨hW, hR', htrace'⟩ := hfg a₁ b₁ hV s₁ t₁ a b s' t' hR hx₂ hy₂
  refine ⟨hW, hR', ?_⟩
  rw [trace_bind hx₁, trace_bind hy₁, htrace, htrace']

end Agree

end Traced

end Checked
