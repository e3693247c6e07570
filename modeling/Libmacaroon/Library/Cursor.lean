import Mathlib.Tactic.Common

/-! Reading a list through an index. `Reads data i xs j` says that a cursor which moves from `i`
to `j` passes exactly the elements `xs`. -/
namespace Cursor
variable {α : Type} {data xs ys : List α} {i j k : Nat} {x : α}

def Reads (data : List α) (i : Nat) (xs : List α) (j : Nat) : Prop :=
  j = i + xs.length ∧ data.drop i = xs ++ data.drop j

namespace Reads

theorem refl (data : List α) (i : Nat) : Reads data i [] i := by simp [Reads]

theorem trans (h : Reads data i xs j) (h' : Reads data j ys k) : Reads data i (xs ++ ys) k := by
  obtain ⟨hj, hx⟩ := h
  obtain ⟨hk, hy⟩ := h'
  constructor
  · simp only [List.length_append]; omega
  · rw [hx, hy, List.append_assoc]

theorem split (h : Reads data i (xs ++ ys) k) :
    Reads data i xs (i + xs.length) ∧ Reads data (i + xs.length) ys k := by
  obtain ⟨hk, hd⟩ := h
  have hrest : data.drop (i + xs.length) = ys ++ data.drop k := by
    rw [← List.drop_drop, hd, List.append_assoc, List.drop_left]
  refine ⟨⟨rfl, ?_⟩, ?_, hrest⟩
  · rw [hd, hrest, List.append_assoc]
  · rw [hk, List.length_append, Nat.add_assoc]

theorem cons (h : Reads data i (x :: xs) k) :
    data[i]? = some x ∧ Reads data (i + 1) xs k := by
  have hs := split (show Reads data i ([x] ++ xs) k from h)
  refine ⟨?_, hs.2⟩
  have := congrArg (fun l => l[0]?) h.2
  simpa using this

theorem singleton (h : data[i]? = some x) : Reads data i [x] (i + 1) := by
  obtain ⟨hi, rfl⟩ := List.getElem?_eq_some_iff.mp h
  exact ⟨rfl, by simp⟩

theorem of_slice (hij : i ≤ j) (hj : j ≤ data.length) :
    Reads data i ((data.take j).drop i) j := by
  constructor
  · simp only [List.length_drop, List.length_take]; omega
  · have hlen : (data.take j).length = j := by simp only [List.length_take]; omega
    conv_lhs => rw [← List.take_append_drop j data]
    rw [List.drop_append_of_le_length (by omega)]

theorem slice_eq (h : Reads data i xs j) : (data.take j).drop i = xs := by
  obtain ⟨rfl, hd⟩ := h
  rw [List.drop_take, hd]
  simp

theorem le_length (h : Reads data i xs j) (hne : xs ≠ []) : j ≤ data.length := by
  have hlen := congrArg List.length h.2
  have hpos : 0 < xs.length := List.length_pos_iff.mpr hne
  simp only [List.length_append, List.length_drop] at hlen
  have := h.1
  omega

theorem le_length_of_le (h : Reads data i xs j) (hi : i ≤ data.length) : j ≤ data.length := by
  by_cases hne : xs = []
  · subst hne
    have := h.1
    simp only [List.length_nil] at this
    omega
  · exact h.le_length hne

/-- Passing some elements is reading a slice. -/
theorem iff_slice (hne : xs ≠ []) :
    Reads data i xs j ↔ i ≤ j ∧ j ≤ data.length ∧ xs = (data.take j).drop i := by
  constructor
  · intro h
    have hj := h.1
    exact ⟨by omega, h.le_length hne, h.slice_eq.symm⟩
  · intro h
    obtain ⟨hij, hj, rfl⟩ := h
    exact of_slice hij hj

/-- A cursor that starts at the beginning and reaches the end has passed the whole list. -/
theorem eq_of_exhausted (h : Reads data 0 xs j) (hj : data.length ≤ j) : data = xs := by
  have hd := h.2
  rwa [List.drop_eq_nil_of_le hj, List.append_nil, List.drop_zero] at hd

theorem whole (data : List α) : Reads data 0 data data.length := by simp [Reads]

end Reads

end Cursor
