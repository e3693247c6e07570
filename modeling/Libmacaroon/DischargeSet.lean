import Libmacaroon.Verifier
import Mathlib.Data.List.Duplicate
import Mathlib.Data.Multiset.AddSub

/-! The map of discharges as a pool: its contents as a multiset, and what removing one does. -/
namespace Libmacaroon
open Checked

namespace DischargeSet

/-- The macaroons in the map. -/
def contents (σ : DischargeSet) : Multiset Macaroon := (σ.entries.map Sigma.snd : List Macaroon)

/-- Every macaroon is stored under its own identifier. -/
def WellKeyed (σ : DischargeSet) : Prop := ∀ e ∈ σ.entries, e.2.identifier = e.1

variable {σ τ : DischargeSet} {id : Bytes} {d : Macaroon} {R : Multiset Macaroon}

theorem contents_erase (h : σ.lookup id = some d) : σ.contents = d ::ₘ contents (σ.erase id) := by
  have hmem : ⟨id, d⟩ ∈ σ.entries := AList.mem_lookup_iff.mp h
  obtain ⟨d', l₁, l₂, hnot, hl, herase⟩ := List.exists_of_kerase (List.mem_keys_of_mem hmem)
  have hd : d' = d := by
    have hd' : ⟨id, d'⟩ ∈ σ.entries := by rw [hl]; simp
    exact σ.nodupKeys.eq_of_mk_mem hd' hmem
  have hentries : (σ.erase id).entries = l₁ ++ l₂ := herase
  simp only [contents, hentries, hl, hd, Multiset.cons_coe, Multiset.coe_eq_coe, List.map_append,
    List.map_cons]
  exact List.perm_middle

theorem WellKeyed.erase (hσ : σ.WellKeyed) (id : Bytes) : WellKeyed (σ.erase id) :=
  fun e he => hσ e (List.Sublist.mem he (List.kerase_sublist id σ.entries))

theorem WellKeyed.identifier (hσ : σ.WellKeyed) (h : σ.lookup id = some d) :
    d.identifier = id := hσ ⟨id, d⟩ (AList.mem_lookup_iff.mp h)

theorem WellKeyed.lookup (hσ : σ.WellKeyed) (h : d ∈ σ.contents) :
    σ.lookup d.identifier = some d := by
  obtain ⟨e, he, rfl⟩ := List.mem_map.mp (Multiset.mem_coe.mp h)
  refine AList.mem_lookup_iff.mpr ?_
  rw [hσ e he]
  exact he

theorem contents_erase_of_cons (hσ : σ.WellKeyed) (h : σ.contents = d ::ₘ R) :
    DischargeSet.contents (σ.erase d.identifier) = R := by
  have hlookup := hσ.lookup (h ▸ Multiset.mem_cons_self d R)
  have hcons := contents_erase hlookup
  rw [h] at hcons
  exact (Multiset.cons_inj_right d).mp hcons.symm

theorem removeDischarge_of_some (h : σ.lookup id = some d) :
    (Verifier.removeDischarge id).call σ = (.ok d, σ.erase id) := by
  simp only [Verifier.removeDischarge, Stateful.call_bind, Stateful.call_get,
    Stateful.call_modify, h, Stateful.call_pure]

/-- A discharge that is missing leaves the map as it was. -/
theorem removeDischarge_of_none (h : σ.lookup id = none) :
    ∃ e, (Verifier.removeDischarge id).call σ = (.error e, σ) := by
  have hkept : σ.erase id = σ :=
    AList.ext (List.kerase_of_notMem_keys (AList.lookup_eq_none.mp h))
  simp only [Verifier.removeDischarge, Stateful.call_bind, Stateful.call_get,
    Stateful.call_modify, h, hkept, Stateful.call_lift]
  exact ⟨_, rfl⟩

theorem removeDischarge_eq_ok :
    (Verifier.removeDischarge id).call σ = (.ok d, τ) ↔ σ.lookup id = some d ∧ τ = σ.erase id := by
  cases h : σ.lookup id with
  | none =>
    simp [Verifier.removeDischarge, Stateful.call_bind, h]
  | some d' =>
    rw [removeDischarge_of_some h]
    simp [eq_comm]

theorem entries_eq_nil : σ.entries = [] ↔ σ.contents = 0 := by
  simp [contents]

/-- A list of discharges is collected exactly when their identifiers are distinct. -/
theorem collectDischarges_eq_ok {ds : List Macaroon} (hσ : σ.WellKeyed) :
    Verifier.collectDischarges σ ds = .ok τ → τ.WellKeyed ∧ τ.contents = σ.contents + ds ∧
      (ds.map Macaroon.identifier).Nodup ∧ ∀ d ∈ ds, d.identifier ∉ σ := by
  induction ds generalizing σ with
  | nil =>
    intro h
    cases h
    exact ⟨hσ, by simp, by simp, by simp⟩
  | cons d ds ih =>
    intro h
    rw [Verifier.collectDischarges] at h
    split_ifs at h with hmem
    have hentries : (σ.insert d.identifier d).entries = ⟨d.identifier, d⟩ :: σ.entries :=
      AList.entries_insert_of_notMem hmem
    have hins : WellKeyed (σ.insert d.identifier d) := by
      intro e he
      rw [hentries] at he
      obtain rfl | he := List.mem_cons.mp he
      · rfl
      · exact hσ e he
    obtain ⟨hτ, hcontents, hnodup, hfresh⟩ := ih hins h
    refine ⟨hτ, ?_, ?_, ?_⟩
    · rw [hcontents, contents, hentries]
      simp [contents, ← Multiset.cons_coe]
    · rw [List.map_cons, List.nodup_cons]
      refine ⟨?_, hnodup⟩
      intro hd
      obtain ⟨d', hd', heq⟩ := List.mem_map.mp hd
      exact hfresh d' hd' (by rw [heq, AList.mem_insert]; exact .inl rfl)
    · refine List.forall_mem_cons.mpr ⟨hmem, fun d' hd' hold => hfresh d' hd' ?_⟩
      rw [AList.mem_insert]
      exact .inr hold

theorem collectDischarges_of_nodup {ds : List Macaroon}
    (hnodup : (ds.map Macaroon.identifier).Nodup) (hfresh : ∀ d ∈ ds, d.identifier ∉ σ) :
    ∃ τ, Verifier.collectDischarges σ ds = .ok τ := by
  induction ds generalizing σ with
  | nil => exact ⟨σ, rfl⟩
  | cons d ds ih =>
    rw [List.map_cons, List.nodup_cons] at hnodup
    have hmem : d.identifier ∉ σ := hfresh d (by simp)
    rw [Verifier.collectDischarges, if_neg hmem]
    refine ih hnodup.2 fun d' hd' hin => ?_
    obtain heq | hold := (AList.mem_insert σ).mp hin
    · exact hnodup.1 (heq ▸ List.mem_map_of_mem hd')
    · exact hfresh d' (by simp [hd']) hold

theorem collectDischarges_empty {ds : List Macaroon} :
    (∃ σ, Verifier.collectDischarges ∅ ds = .ok σ) ↔ (ds.map Macaroon.identifier).Nodup := by
  have hempty : WellKeyed ∅ := by simp [WellKeyed]
  constructor
  · intro h
    obtain ⟨σ, h⟩ := h
    exact (collectDischarges_eq_ok hempty h).2.2.1
  · intro hnodup
    exact collectDischarges_of_nodup hnodup fun d _ => AList.notMem_empty d.identifier

/-- The error names an identifier of the list that was in the map already, or that occurs twice. -/
theorem collectDischarges_error {ds : List Macaroon} {e : Failure MacaroonError}
    (h : Verifier.collectDischarges σ ds = .error e) : ∃ id,
      (id ∈ σ ∧ id ∈ ds.map Macaroon.identifier ∨
        List.Duplicate id (ds.map Macaroon.identifier)) ∧
      e = .err (.caveatNotSatisfied
        (.lossyDebug "duplicate discharge macaroons with identifier " id)) := by
  induction ds generalizing σ with
  | nil => cases h
  | cons d ds ih =>
    rw [Verifier.collectDischarges] at h
    split_ifs at h with hmem
    · cases h
      exact ⟨d.identifier, .inl ⟨hmem, List.mem_cons_self⟩, rfl⟩
    · obtain ⟨id, hid, rfl⟩ := ih h
      refine ⟨id, ?_, rfl⟩
      obtain ⟨hin, hlater⟩ | htwice := hid
      · obtain rfl | hold := (AList.mem_insert σ).mp hin
        · exact .inr hlater.duplicate_cons_self
        · exact .inl ⟨hold, List.mem_cons_of_mem d.identifier hlater⟩
      · exact .inr (htwice.duplicate_cons d.identifier)

theorem collectDischarges_duplicate {ds : List Macaroon}
    (h : ¬ (ds.map Macaroon.identifier).Nodup) :
    ∃ id, List.Duplicate id (ds.map Macaroon.identifier) ∧
      Verifier.collectDischarges ∅ ds = .err (.caveatNotSatisfied
        (.lossyDebug "duplicate discharge macaroons with identifier " id)) := by
  cases hcollect : Verifier.collectDischarges ∅ ds with
  | ok σ => exact absurd (collectDischarges_empty.mp ⟨σ, hcollect⟩) h
  | error e =>
    obtain ⟨id, ⟨hin, _⟩ | htwice, rfl⟩ := collectDischarges_error hcollect
    · exact absurd hin (AList.notMem_empty id)
    · exact ⟨id, htwice, rfl⟩

end DischargeSet

end Libmacaroon
