import Mathlib.Data.List.Induction
import Mathlib.Tactic.Common

/-! Chains of a keyed function, in which every output is the key of the next call. Two chains from
one key that end alike made the same calls, unless two of their calls collide or one of them gives
the first key back. -/
namespace KeyedChain
variable {κ τ ι : Type*} (f : κ → τ → κ) (text : κ → ι → τ)

/-- The key after the items, where `text` says what an item contributes under the current key. -/
def last : List ι → κ → κ
  | [], k => k
  | x :: xs, k => last xs (f k (text k x))

/-- The calls of `f` on the way. -/
def calls : List ι → κ → List (κ × τ)
  | [], _ => []
  | x :: xs, k => (k, text k x) :: calls xs (f k (text k x))

/-- Two different calls have the same output. -/
def Collide (cs : List (κ × τ)) : Prop := ∃ p ∈ cs, ∃ q ∈ cs, p ≠ q ∧ f p.1 p.2 = f q.1 q.2

/-- Some call has the output `k`. -/
def Returns (k : κ) (cs : List (κ × τ)) : Prop := ∃ p ∈ cs, f p.1 p.2 = k

variable {f text} {k : κ} {cs cs' : List (κ × τ)}

theorem Collide.mono (h : Collide f cs) (hsub : cs ⊆ cs') : Collide f cs' := by
  obtain ⟨p, hp, q, hq, hne, heq⟩ := h
  exact ⟨p, hsub hp, q, hsub hq, hne, heq⟩

theorem Returns.mono (h : Returns f k cs) (hsub : cs ⊆ cs') : Returns f k cs' := by
  obtain ⟨p, hp, heq⟩ := h
  exact ⟨p, hsub hp, heq⟩

theorem append_subset_append {ds ds' : List (κ × τ)} (hc : cs ⊆ cs') (hd : ds ⊆ ds') :
    cs ++ ds ⊆ cs' ++ ds' := by
  apply List.append_subset.mpr
  exact ⟨List.subset_append_of_subset_left ds' hc, List.subset_append_of_subset_right cs' hd⟩

theorem last_append (xs : List ι) (x : ι) (k : κ) : last f text (xs ++ [x]) k =
    f (last f text xs k) (text (last f text xs k) x) := by
  induction xs generalizing k with
  | nil => rfl
  | cons y xs ih => exact ih (f k (text k y))

theorem calls_append (xs : List ι) (x : ι) (k : κ) : calls f text (xs ++ [x]) k =
    calls f text xs k ++ [(last f text xs k, text (last f text xs k) x)] := by
  induction xs generalizing k with
  | nil => rfl
  | cons y xs ih => simp only [List.cons_append, calls, last, ih]

theorem returns_of_last {xs : List ι} {x : ι} (h : last f text (xs ++ [x]) k = k) :
    Returns f k (calls f text (xs ++ [x]) k) := by
  rw [calls_append]
  exact ⟨_, List.mem_append_right _ List.mem_cons_self, (last_append xs x k).symm.trans h⟩

/-- The argument runs backwards: equal outputs come from equal calls, so from equal keys. -/
theorem calls_eq_or_collide {xs ys : List ι} (h : last f text xs k = last f text ys k) :
    calls f text xs k = calls f text ys k ∨
      Collide f (calls f text xs k ++ calls f text ys k) ∨
      Returns f k (calls f text xs k ++ calls f text ys k) := by
  induction xs using List.reverseRecOn generalizing ys with
  | nil =>
    obtain rfl | ⟨ys, y, rfl⟩ := ys.eq_nil_or_concat
    · exact .inl rfl
    · rw [List.concat_eq_append] at h ⊢
      exact .inr (.inr ((returns_of_last h.symm).mono (List.subset_append_right _ _)))
  | append_singleton xs x ih =>
    obtain rfl | ⟨ys, y, rfl⟩ := ys.eq_nil_or_concat
    · exact .inr (.inr ((returns_of_last h).mono (List.subset_append_left _ _)))
    · rw [List.concat_eq_append] at h ⊢
      rw [calls_append, calls_append]
      rw [last_append, last_append] at h
      by_cases heq : (last f text xs k, text (last f text xs k) x) =
          (last f text ys k, text (last f text ys k) y)
      · have hkey : last f text xs k = last f text ys k := congrArg Prod.fst heq
        have hsub : calls f text xs k ++ calls f text ys k ⊆
            (calls f text xs k ++ [(last f text xs k, text (last f text xs k) x)]) ++
              (calls f text ys k ++ [(last f text ys k, text (last f text ys k) y)]) :=
          append_subset_append (List.subset_append_left _ _) (List.subset_append_left _ _)
        obtain hcalls | hcollide | hreturns := ih hkey
        · exact .inl (by rw [hcalls, heq])
        · exact .inr (.inl (hcollide.mono hsub))
        · exact .inr (.inr (hreturns.mono hsub))
      · refine .inr (.inl ⟨_, ?_, _, ?_, heq, h⟩)
        · exact List.mem_append_left _ (List.mem_append_right _ List.mem_cons_self)
        · exact List.mem_append_right _ (List.mem_append_right _ List.mem_cons_self)

theorem last_append_items (xs ys : List ι) (k : κ) :
    last f text (xs ++ ys) k = last f text ys (last f text xs k) := by
  induction xs generalizing k with
  | nil => rfl
  | cons x xs ih => exact ih (f k (text k x))

theorem calls_append_items (xs ys : List ι) (k : κ) : calls f text (xs ++ ys) k =
    calls f text xs k ++ calls f text ys (last f text xs k) := by
  induction xs generalizing k with
  | nil => rfl
  | cons x xs ih => simp only [List.cons_append, calls, last, ih]

theorem length_calls (xs : List ι) (k : κ) : (calls f text xs k).length = xs.length := by
  induction xs generalizing k with
  | nil => rfl
  | cons x xs ih => simp only [calls, List.length_cons, ih]

/-- A key that the chain runs through is the first one or the output of a call. -/
theorem eq_or_returns {before : List ι} {k k' : κ} (h : last f text before k = k')
    (after : List ι) : k = k' ∨ Returns f k' (calls f text (before ++ after) k) := by
  obtain rfl | ⟨xs, x, rfl⟩ := before.eq_nil_or_concat
  · exact .inl h
  · rw [List.concat_eq_append] at h ⊢
    rw [last_append] at h
    rw [calls_append_items, calls_append]
    exact .inr ⟨_, List.mem_append_left _ (List.mem_append_right _ List.mem_cons_self), h⟩

/-- A chain with an item ends in the output of its last call. -/
theorem exists_last_call {xs : List ι} (hne : xs ≠ []) (k : κ) :
    ∃ e ∈ calls f text xs k, f e.1 e.2 = last f text xs k := by
  obtain ⟨ys, y, rfl⟩ := xs.eq_nil_or_concat.resolve_left hne
  rw [List.concat_eq_append, last_append, calls_append]
  exact ⟨_, List.mem_append_right _ List.mem_cons_self, rfl⟩

/-- Two chains that end alike: their calls collide, or the chain with fewer calls repeats the last
calls of the other, and its first key is a key that the other reaches. -/
theorem overlap_or_collide {xs ys : List ι} {k k' : κ}
    (h : last f text xs k = last f text ys k') :
    Collide f (calls f text xs k ++ calls f text ys k') ∨
      (∃ before after, xs = before ++ after ∧ last f text before k = k' ∧
        calls f text after k' = calls f text ys k') ∨
      ∃ before after, ys = before ++ after ∧ last f text before k' = k ∧
        calls f text after k = calls f text xs k := by
  induction xs using List.reverseRecOn generalizing ys with
  | nil => exact .inr (.inr ⟨ys, [], by simp, h.symm, rfl⟩)
  | append_singleton xs x ih =>
    obtain rfl | ⟨ys, y, rfl⟩ := ys.eq_nil_or_concat
    · exact .inr (.inl ⟨xs ++ [x], [], by simp, h, rfl⟩)
    · rw [List.concat_eq_append] at h ⊢
      rw [last_append, last_append] at h
      by_cases heq : (last f text xs k, text (last f text xs k) x) =
          (last f text ys k', text (last f text ys k') y)
      · have hkey : last f text xs k = last f text ys k' := congrArg Prod.fst heq
        obtain hcollide | ⟨before, after, rfl, hstart, hcalls⟩ | ⟨before, after, rfl, hstart, hcalls⟩ :=
          ih hkey
        · refine .inl (hcollide.mono ?_)
          rw [calls_append, calls_append]
          exact append_subset_append (List.subset_append_left _ _) (List.subset_append_left _ _)
        · refine .inr (.inl ⟨before, after ++ [x], by simp, hstart, ?_⟩)
          have hlast : last f text after k' = last f text (before ++ after) k := by
            rw [last_append_items, hstart]
          rw [calls_append, calls_append, hcalls, hlast, heq]
        · refine .inr (.inr ⟨before, after ++ [y], by simp, hstart, ?_⟩)
          have hlast : last f text after k = last f text (before ++ after) k' := by
            rw [last_append_items, hstart]
          rw [calls_append, calls_append, hcalls, hlast, heq]
      · refine .inl ⟨_, ?_, _, ?_, heq, h⟩
        · rw [calls_append]
          exact List.mem_append_left _ (List.mem_append_right _ List.mem_cons_self)
        · rw [calls_append _ y]
          exact List.mem_append_right _ (List.mem_append_right _ List.mem_cons_self)

/-- Chains of one length that end alike start alike. -/
theorem key_eq_or_collide {xs ys : List ι} {k k' : κ} (hlen : xs.length = ys.length)
    (h : last f text xs k = last f text ys k') :
    Collide f (calls f text xs k ++ calls f text ys k') ∨
      k = k' ∧ calls f text xs k = calls f text ys k' := by
  obtain hcollide | ⟨before, after, rfl, hstart, hcalls⟩ | ⟨before, after, rfl, hstart, hcalls⟩ :=
    overlap_or_collide h
  · exact .inl hcollide
  · have hsame := congrArg List.length hcalls
    rw [length_calls, length_calls, ← hlen, List.length_append] at hsame
    obtain rfl : before = [] := List.length_eq_zero_iff.mp (by omega)
    exact .inr ⟨hstart, hstart ▸ hcalls⟩
  · have hsame := congrArg List.length hcalls
    rw [length_calls, length_calls, hlen, List.length_append] at hsame
    obtain rfl : before = [] := List.length_eq_zero_iff.mp (by omega)
    exact .inr ⟨hstart.symm, hstart ▸ hcalls.symm⟩

end KeyedChain
