import Mathlib.Algebra.Group.Nat.Defs
import Mathlib.Tactic.Common

/-! Checked execution. A run gives a value, an error of the program's own, or a panic of the
language; machine-word arithmetic, indexing and slicing panic exactly where the language does. -/
namespace Checked

inductive Panic where
  | index
  | slice
  | underflow
  | overflow
  | copyLength
deriving DecidableEq, Repr

inductive Failure (ε : Type) where
  | err (e : ε)
  | panic (p : Panic)
deriving DecidableEq, Repr

abbrev Outcome (ε α : Type) := Except (Failure ε) α

/-- The program returned its own error `e`. -/
@[match_pattern] abbrev Outcome.err {ε α : Type} (e : ε) : Outcome ε α := .error (.err e)

/-- The program panicked. -/
@[match_pattern] abbrev Outcome.panic {ε α : Type} (p : Panic) : Outcome ε α := .error (.panic p)

/-- Width of the machine word. -/
inductive Width where
  | w32
  | w64
deriving DecidableEq, Repr

def Width.bits : Width → Nat
  | .w32 => 32
  | .w64 => 64

variable {ε α β : Type}

/-- `if c { return Err(e) }`. -/
def failIf (c : Prop) [Decidable c] (e : ε) : Outcome ε Unit := if c then .err e else .ok ()

def add (w : Width) (a b : Nat) : Outcome ε Nat :=
  if a + b < 2 ^ w.bits then .ok (a + b) else .panic .overflow

def sub (a b : Nat) : Outcome ε Nat :=
  if b ≤ a then .ok (a - b) else .panic .underflow

/- Shifting left drops the bits beyond the word; only a shift amount of at least the word's
   width is an overflow. -/
def shl (w : Width) (x s : Nat) : Outcome ε Nat :=
  if s < w.bits then .ok ((x <<< s) % 2 ^ w.bits) else .panic .overflow

def indexAt (xs : List α) (i : Nat) : Outcome ε α :=
  match xs[i]? with
  | some x => .ok x
  | none => .panic .index

def slice (xs : List α) (lo hi : Nat) : Outcome ε (List α) :=
  if lo ≤ hi ∧ hi ≤ xs.length then .ok ((xs.take hi).drop lo) else .panic .slice

theorem bind_eq_ok {ε : Type} {x : Except ε α} {f : α → Except ε β} {b : β} :
    x >>= f = .ok b ↔ ∃ a, x = .ok a ∧ f a = .ok b := by
  constructor
  · intro h
    cases x with
    | error e => cases h
    | ok a => exact ⟨a, rfl, h⟩
  · intro h
    obtain ⟨a, rfl, h⟩ := h
    exact h

@[simp] theorem ok_bind {ε : Type} (a : α) (f : α → Except ε β) : (Except.ok a >>= f) = f a := rfl

@[simp] theorem error_bind {ε : Type} (e : ε) (f : α → Except ε β) :
    (Except.error e >>= f) = .error e := rfl

@[simp] theorem pure_eq_ok {ε : Type} {a b : α} : (pure a : Except ε α) = .ok b ↔ a = b := by
  simp [pure, Except.pure]

@[simp] theorem failIf_eq_ok {c : Prop} [Decidable c] {e : ε} {u : Unit} :
    failIf c e = .ok u ↔ ¬ c := by
  by_cases h : c <;> simp [failIf, h]

theorem add_eq_ok {w : Width} {a b c : Nat} :
    (add w a b : Outcome ε Nat) = .ok c ↔ a + b < 2 ^ w.bits ∧ c = a + b := by
  by_cases h : a + b < 2 ^ w.bits
  · simp [add, h, eq_comm]
  · simp [add, h]

theorem sub_eq_ok {a b c : Nat} : (sub a b : Outcome ε Nat) = .ok c ↔ b ≤ a ∧ c = a - b := by
  by_cases h : b ≤ a
  · simp [sub, h, eq_comm]
  · simp [sub, h]

theorem indexAt_eq_ok {xs : List α} {i : Nat} {x : α} :
    (indexAt xs i : Outcome ε α) = .ok x ↔ xs[i]? = some x := by
  cases h : xs[i]? <;> simp [indexAt, h]

theorem slice_eq_ok {xs ys : List α} {lo hi : Nat} :
    (slice xs lo hi : Outcome ε (List α)) = .ok ys ↔
      lo ≤ hi ∧ hi ≤ xs.length ∧ ys = (xs.take hi).drop lo := by
  by_cases h : lo ≤ hi ∧ hi ≤ xs.length
  · simp [slice, h, eq_comm]
  · simp [slice, h, ← and_assoc]

/-- A run whose steps either fail at their guard or do what the total `act` does: it ends where `act`
ends, provided every step meets its guard in the state that `act` has brought it to. -/
theorem foldlM_guarded {ε σ : Type} {step : σ → α → Except ε σ} {act : σ → α → σ}
    {guard : σ → α → Prop} {xs : List α} {s t : σ}
    (hstep : ∀ before x after, xs = before ++ x :: after → ∀ t,
      step (before.foldl act s) x = .ok t ↔
        guard (before.foldl act s) x ∧ t = act (before.foldl act s) x) :
    xs.foldlM step s = .ok t ↔ t = xs.foldl act s ∧
      ∀ before x after, xs = before ++ x :: after → guard (before.foldl act s) x := by
  induction xs generalizing s with
  | nil => simpa using eq_comm
  | cons x xs ih =>
    have hhead := hstep [] x xs rfl
    have htail := @ih (act s x) fun before y after hsplit =>
      hstep (x :: before) y after (congrArg (List.cons x) hsplit)
    rw [List.foldlM_cons, bind_eq_ok, List.foldl_cons]
    constructor
    · intro h
      obtain ⟨u, hu, hrun⟩ := h
      obtain ⟨hguard, rfl⟩ := (hhead u).mp hu
      obtain ⟨ht, hall⟩ := htail.mp hrun
      refine ⟨ht, fun before y after hsplit => ?_⟩
      cases before with
      | nil =>
        obtain ⟨rfl, _⟩ := List.cons.inj hsplit
        exact hguard
      | cons z before =>
        obtain ⟨rfl, hrest⟩ := List.cons.inj hsplit
        exact hall before y after hrest
    · intro h
      obtain ⟨ht, hall⟩ := h
      refine ⟨act s x, (hhead _).mpr ⟨hall [] x xs rfl, rfl⟩, htail.mpr ⟨ht, ?_⟩⟩
      intro before y after hsplit
      exact hall (x :: before) y after (congrArg (List.cons x) hsplit)

/-- A fallible call on a mutable state. What it did to the state stays when it fails. -/
def Stateful (σ ε α : Type) := σ → Outcome ε α × σ

namespace Stateful
variable {σ : Type}

instance : Monad (Stateful σ ε) where
  pure a := fun s => (.ok a, s)
  bind x f := fun s =>
    match x s with
    | (.ok a, s') => f a s'
    | (.error e, s') => (.error e, s')

instance : MonadLift (Except (Failure ε)) (Stateful σ ε) where
  monadLift x := fun s => (x, s)

def get : Stateful σ ε σ := fun s => (.ok s, s)

def modify (f : σ → σ) : Stateful σ ε Unit := fun s => (.ok (), f s)

/-- The result of the call and the state it leaves behind. -/
def call (x : Stateful σ ε α) (s : σ) : Outcome ε α × σ := x s

@[simp] theorem call_pure (a : α) (s : σ) : (pure a : Stateful σ ε α).call s = (.ok a, s) := rfl

@[simp] theorem call_lift (x : Outcome ε α) (s : σ) : Stateful.call (liftM x) s = (x, s) := rfl

@[simp] theorem call_get (s : σ) : (get : Stateful σ ε σ).call s = (.ok s, s) := rfl

@[simp] theorem call_modify (f : σ → σ) (s : σ) :
    (modify f : Stateful σ ε Unit).call s = (.ok (), f s) := rfl

@[simp] theorem pure_bind (a : α) (f : α → Stateful σ ε β) :
    ((pure a : Stateful σ ε α) >>= f) = f a := rfl

/-- Lifting is a morphism. -/
theorem lift_bind (x : Outcome ε α) (f : α → Outcome ε β) :
    (liftM (x >>= f) : Stateful σ ε β) = liftM x >>= fun a => liftM (f a) := by
  cases x <;> rfl

theorem call_bind (x : Stateful σ ε α) (f : α → Stateful σ ε β) (s : σ) :
    (x >>= f).call s =
      match x.call s with
      | (.ok a, s') => (f a).call s'
      | (.error e, s') => (.error e, s') := by
  simp only [call, bind]
  rcases x s with ⟨_ | a, s'⟩ <;> rfl

theorem bind_eq_ok {x : Stateful σ ε α} {f : α → Stateful σ ε β} {s s'' : σ} {b : β} :
    (x >>= f).call s = (.ok b, s'') ↔
      ∃ a s', x.call s = (.ok a, s') ∧ (f a).call s' = (.ok b, s'') := by
  rw [call_bind]
  rcases x.call s with ⟨_ | a, s'⟩ <;> simp

/-- A call fails in its first part, or in its second after the first succeeded. -/
theorem bind_eq_error {x : Stateful σ ε α} {f : α → Stateful σ ε β} {s s'' : σ}
    {e : Failure ε} : (x >>= f).call s = (.error e, s'') ↔
      x.call s = (.error e, s'') ∨
        ∃ a s', x.call s = (.ok a, s') ∧ (f a).call s' = (.error e, s'') := by
  rw [call_bind]
  obtain ⟨r, s'⟩ := x.call s
  cases r <;> simp

end Stateful

end Checked
