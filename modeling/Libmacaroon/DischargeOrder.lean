import Libmacaroon.DischargeExact
import Libmacaroon.Library.Respects
import Libmacaroon.VerifierSafety

/-! The order in which the discharges are given does not matter. The maps they are collected in hold
the same entries, in some order, and no step of the verifier depends on that order. -/
namespace Libmacaroon
open Checked

/-- The variants of `MacaroonError`, without what they carry. -/
inductive Variant where
  | cryptoError
  | incompleteMacaroon
  | incompleteCaveat
  | deserializationError
  | caveatNotSatisfied
  | dischargeNotUsed
  | invalidSignature
  | tooManyCaveats
  | fieldTooLarge
  | rngError
deriving DecidableEq, Repr

def MacaroonError.variant : MacaroonError → Variant
  | .cryptoError _ => .cryptoError
  | .incompleteMacaroon _ => .incompleteMacaroon
  | .incompleteCaveat _ => .incompleteCaveat
  | .deserializationError _ => .deserializationError
  | .caveatNotSatisfied _ => .caveatNotSatisfied
  | .dischargeNotUsed => .dischargeNotUsed
  | .invalidSignature => .invalidSignature
  | .tooManyCaveats => .tooManyCaveats
  | .fieldTooLarge _ _ => .fieldTooLarge
  | .rngError _ => .rngError

namespace DischargeSet
variable {σ τ : DischargeSet} {ds ds' : List Macaroon}

/-- The two maps have the same entries. -/
def SameEntries (σ τ : DischargeSet) : Prop := σ.entries.Perm τ.entries

theorem SameEntries.lookup (h : SameEntries σ τ) (id : Bytes) : σ.lookup id = τ.lookup id :=
  AList.perm_lookup h

theorem SameEntries.erase (h : SameEntries σ τ) (id : Bytes) :
    SameEntries (σ.erase id) (τ.erase id) := AList.perm_erase h

theorem SameEntries.entries_eq_nil (h : SameEntries σ τ) : σ.entries = [] ↔ τ.entries = [] := by
  rw [← List.length_eq_zero_iff, ← List.length_eq_zero_iff, List.Perm.length_eq h]

/-- The entries of a map follow from the macaroons in it. -/
theorem WellKeyed.entries_eq (hσ : σ.WellKeyed) :
    σ.entries = (σ.entries.map Sigma.snd).map fun d => ⟨d.identifier, d⟩ := by
  have hsame : ∀ e ∈ σ.entries, (⟨e.2.identifier, e.2⟩ : Σ _ : ByteString, Macaroon) = id e := by
    intro e he
    rw [hσ e he]
    rfl
  rw [List.map_map]
  exact ((List.map_congr_left hsame).trans (List.map_id _)).symm

theorem sameEntries_of_contents (hσ : σ.WellKeyed) (hτ : τ.WellKeyed)
    (h : σ.contents = τ.contents) : SameEntries σ τ := by
  rw [SameEntries, hσ.entries_eq, hτ.entries_eq]
  exact (Multiset.coe_eq_coe.mp h).map _

end DischargeSet

namespace Verifier
variable {B : Backend} {v : Verifier}

open DischargeSet Stateful

theorem removeDischarge_respects (id : Bytes) : Respects SameEntries (removeDischarge id) := by
  intro σ τ hστ
  simp only [removeDischarge, call_bind, call_get, call_modify, hστ.lookup id]
  cases τ.lookup id with
  | none => exact ⟨rfl, hστ.erase id⟩
  | some d => exact ⟨rfl, hστ.erase id⟩

variable {ds ds' : List Macaroon}

/-- With distinct identifiers the order changes nothing at all. -/
theorem verify_perm (m : Macaroon) (key : MacaroonKey)
    (hnodup : (ds.map Macaroon.identifier).Nodup) (hperm : ds'.Perm ds) :
    v.verify B m key ds' = v.verify B m key ds := by
  have hnodup' : (ds'.map Macaroon.identifier).Nodup :=
    ((hperm.map Macaroon.identifier).nodup_iff).mpr hnodup
  obtain ⟨σ, hσ⟩ := collectDischarges_empty.mpr hnodup
  obtain ⟨τ, hτ⟩ := collectDischarges_empty.mpr hnodup'
  obtain ⟨hσkeyed, hσcontents, _⟩ := collectDischarges_eq_ok wellKeyed_empty hσ
  obtain ⟨hτkeyed, hτcontents, _⟩ := collectDischarges_eq_ok wellKeyed_empty hτ
  have hsame : SameEntries τ σ := by
    apply sameEntries_of_contents hτkeyed hσkeyed
    rw [hσcontents, hτcontents, Multiset.coe_eq_coe.mpr hperm]
  have hrespects : Respects SameEntries (verifyWithSig B v m.signature m key 0) :=
    verifyWithSig_closed (respects_closed SameEntries) removeDischarge_respects m.signature m key 0
  obtain ⟨hresult, hleft⟩ := hrespects τ σ hsame
  rw [verify, verify, hσ, hτ, ok_bind, ok_bind]
  simp only [hresult, ne_eq, hleft.entries_eq_nil]

end Verifier

/-- The order of the discharges does not matter: two orders are both accepted, or both rejected with
the same variant of error. -/
theorem discharge_order_irrelevant (B : Backend) (v : Verifier) (m : Macaroon) (key : MacaroonKey)
    (ds ds' : List Macaroon) (hperm : ds'.Perm ds) :
    (v.verify B m key ds = .ok () ∧ v.verify B m key ds' = .ok ()) ∨
      ∃ e e', v.verify B m key ds = .err e ∧ v.verify B m key ds' = .err e' ∧
        e.variant = e'.variant := by
  by_cases hnodup : (ds.map Macaroon.identifier).Nodup
  · have hsame := Verifier.verify_perm (B := B) (v := v) m key hnodup hperm
    obtain ⟨_, hok⟩ | ⟨e, he⟩ := Verifier.verify_completes (B := B) (v := v) m key ds
    · exact .inl ⟨hok, hsame.trans hok⟩
    · exact .inr ⟨e, e, he, hsame.trans he, rfl⟩
  · have hnodup' : ¬ (ds'.map Macaroon.identifier).Nodup := by
      rwa [(hperm.map Macaroon.identifier).nodup_iff]
    obtain ⟨_, _, herror⟩ := Verifier.verify_duplicate (B := B) (v := v) m key hnodup
    obtain ⟨_, _, herror'⟩ := Verifier.verify_duplicate (B := B) (v := v) m key hnodup'
    exact .inr ⟨_, _, herror, herror', rfl⟩

/- Two discharges with one identifier and different signatures. -/
theorem discharge_order_irrelevant_duplicate :
    (delegatedVerifier.verify Instances.backend Instances.delegated zeroKey
        [discharge, boundDischarge] = .ok () ∧
      delegatedVerifier.verify Instances.backend Instances.delegated zeroKey
        [boundDischarge, discharge] = .ok ()) ∨
      ∃ e e', delegatedVerifier.verify Instances.backend Instances.delegated zeroKey
          [discharge, boundDischarge] = .err e ∧
        delegatedVerifier.verify Instances.backend Instances.delegated zeroKey
          [boundDischarge, discharge] = .err e' ∧ e.variant = e'.variant :=
  discharge_order_irrelevant _ _ _ _ _ _ (List.Perm.swap _ _ _)

end Libmacaroon
