import Libmacaroon.DischargeSingleUse
import Libmacaroon.Library.Respects

/-! Locations are hints. Neither the signature nor the verifier reads them, so moving a macaroon, its
caveats or its discharges elsewhere changes no result. -/
namespace Libmacaroon
open Checked Checked.Stateful

/-- The macaroons differ in locations only, their own and their caveats'. -/
structure Relocated (m m' : Macaroon) : Prop where
  content : m.content = m'.content
  signature : m.signature = m'.signature

namespace Relocated
variable {m m' : Macaroon}

theorem identifier (h : Relocated m m') : m.identifier = m'.identifier :=
  congrArg Content.identifier h.content

theorem caveats (h : Relocated m m') :
    List.Forall₂ (fun c c' => c.content = c'.content) m.caveats m'.caveats := by
  have hcaveats : m.caveats.map Caveat.content = m'.caveats.map Caveat.content :=
    congrArg Content.caveats h.content
  rwa [← List.forall₂_eq_eq_eq, List.forall₂_map_left_iff, List.forall₂_map_right_iff] at hcaveats

end Relocated

/-- Under every identifier the two maps hold the same macaroon, up to locations. -/
def DischargeSet.Relocated (σ τ : DischargeSet) : Prop :=
  ∀ id, Option.Rel Libmacaroon.Relocated (σ.lookup id) (τ.lookup id)

namespace DischargeSet
variable {σ τ : DischargeSet} {id : Bytes}

theorem Relocated.erase (h : Relocated σ τ) (id : Bytes) : Relocated (σ.erase id) (τ.erase id) := by
  intro id'
  by_cases heq : id' = id
  · rw [heq, AList.lookup_erase, AList.lookup_erase]
    exact .none
  · rw [AList.lookup_erase_ne heq, AList.lookup_erase_ne heq]
    exact h id'

theorem Relocated.insert {d d' : Macaroon} (h : Relocated σ τ) (hd : Libmacaroon.Relocated d d') :
    Relocated (σ.insert d.identifier d) (τ.insert d'.identifier d') := by
  intro id
  rw [← hd.identifier]
  by_cases heq : id = d.identifier
  · rw [heq, AList.lookup_insert, AList.lookup_insert]
    exact .some hd
  · rw [AList.lookup_insert_ne heq, AList.lookup_insert_ne heq]
    exact h id

theorem Relocated.lookup_eq_none (h : Relocated σ τ) (id : Bytes) :
    σ.lookup id = none ↔ τ.lookup id = none := by
  have hid := h id
  generalize σ.lookup id = found at hid
  generalize τ.lookup id = found' at hid
  cases hid <;> simp

theorem Relocated.mem_iff (h : Relocated σ τ) (id : Bytes) : id ∈ σ ↔ id ∈ τ := by
  simpa only [AList.lookup_eq_none, not_iff_not] using h.lookup_eq_none id

theorem entries_eq_nil_iff_lookup : σ.entries = [] ↔ ∀ id, σ.lookup id = none := by
  constructor
  · intro h id
    rw [AList.lookup_eq_none, AList.mem_keys, AList.keys, h]
    simp
  · intro h
    rw [List.eq_nil_iff_forall_not_mem]
    intro e he
    have hsome : σ.lookup e.1 = some e.2 := AList.mem_lookup_iff.mpr he
    rw [h e.1] at hsome
    cases hsome

theorem Relocated.entries_eq_nil (h : Relocated σ τ) : σ.entries = [] ↔ τ.entries = [] := by
  rw [entries_eq_nil_iff_lookup, entries_eq_nil_iff_lookup]
  exact forall_congr' h.lookup_eq_none

end DischargeSet

namespace Verifier
variable {B : Backend} {v : Verifier} {σ τ : DischargeSet} {m m' : Macaroon}
  {key rootSig : MacaroonKey}

theorem removeDischarge_matches (id : Bytes) :
    Matches DischargeSet.Relocated Relocated (removeDischarge id) (removeDischarge id) := by
  intro σ τ hστ
  have hid := hστ id
  simp only [removeDischarge, call_bind, call_get, call_modify]
  generalize σ.lookup id = found at hid
  generalize τ.lookup id = found' at hid
  cases hid with
  | none => exact ⟨rfl, hστ.erase id⟩
  | some hd => exact ⟨hd, hστ.erase id⟩

variable {recurse : Macaroon → MacaroonKey → Stateful DischargeSet MacaroonError Unit}

theorem verifyCaveat_matches
    (hrec : ∀ d d' k, Relocated d d' →
      Matches DischargeSet.Relocated Eq (recurse d k) (recurse d' k))
    {c c' : Caveat} (hc : c.content = c'.content) (sig : MacaroonKey) :
    Matches DischargeSet.Relocated Eq (verifyCaveat B v recurse c sig)
      (verifyCaveat B v recurse c' sig) := by
  cases c with
  | firstParty fp =>
    cases c' with
    | firstParty fp' =>
      obtain rfl : fp = fp' := congrArg FirstParty.mk (CaveatContent.firstParty.inj hc)
      apply Matches.bind (Matches.lift (Both.of_eq _))
      intro _ _ _
      exact Matches.pure rfl
    | thirdParty tp' => cases hc
  | thirdParty tp =>
    cases c' with
    | firstParty fp' => cases hc
    | thirdParty tp' =>
      obtain ⟨hid, hvid⟩ := CaveatContent.thirdParty.inj hc
      simp only [verifyCaveat, Caveat.sign, ← hid, ← hvid]
      apply Matches.bind (Matches.lift (Both.of_eq _))
      intro k _ rfl
      apply Matches.bind (removeDischarge_matches tp.id)
      intro d d' hd
      apply Matches.bind (hrec d d' k hd)
      intro _ _ _
      exact Matches.pure rfl

theorem verifyCaveats_matches
    (hrec : ∀ d d' k, Relocated d d' →
      Matches DischargeSet.Relocated Eq (recurse d k) (recurse d' k))
    {cs cs' : List Caveat} (hcs : List.Forall₂ (fun c c' => c.content = c'.content) cs cs')
    (sig : MacaroonKey) :
    Matches DischargeSet.Relocated Eq (verifyCaveats B v recurse cs sig)
      (verifyCaveats B v recurse cs' sig) := by
  induction hcs generalizing sig with
  | nil => exact Matches.pure rfl
  | cons hc _ ih =>
    apply Matches.bind (verifyCaveat_matches hrec hc sig)
    intro sig' _ rfl
    exact ih sig'

theorem verifyWithSig_matches (hm : Relocated m m') (depth : Nat) :
    Matches DischargeSet.Relocated Eq (verifyWithSig B v rootSig m key depth)
      (verifyWithSig B v rootSig m' key depth) := by
  induction depth using level_induction generalizing m m' key with
  | level depth ih =>
    rw [verifyWithSig, verifyWithSig]
    by_cases hdepth : depth > maxVerificationDepth
    · rw [if_pos hdepth, if_pos hdepth]
      exact Matches.lift (Both.of_eq _)
    · rw [if_neg hdepth, if_neg hdepth, ← hm.identifier, ← hm.signature]
      apply Matches.bind
      · apply verifyCaveats_matches _ hm.caveats
        intro d d' k hd
        exact ih (by omega) hd
      intro sig _ rfl
      split
      · exact Matches.pure rfl
      · exact Matches.lift (Both.of_eq _)

theorem collectDischarges_matches {ds ds' : List Macaroon} (hστ : DischargeSet.Relocated σ τ)
    (hds : List.Forall₂ Relocated ds ds') :
    Both DischargeSet.Relocated (collectDischarges σ ds) (collectDischarges τ ds') := by
  induction hds generalizing σ τ with
  | nil => exact hστ
  | @cons d d' _ _ hd _ ih =>
    rw [collectDischarges, collectDischarges]
    have hinsert := ih (hστ.insert hd)
    have hmem := hστ.mem_iff d.identifier
    rw [← hd.identifier] at hinsert ⊢
    by_cases hdup : d.identifier ∈ σ
    · rw [if_pos hdup, if_pos (hmem.mp hdup)]
      rfl
    · rw [if_neg hdup, if_neg fun h => hdup (hmem.mpr h)]
      exact hinsert

end Verifier

/-- The verifier gives the same answer, also the same error, on macaroons and discharges that differ
in locations only. -/
theorem verify_ignores_locations (B : Backend) (v : Verifier) (m m' : Macaroon) (key : MacaroonKey)
    (ds ds' : List Macaroon) (hm : Relocated m m') (hds : List.Forall₂ Relocated ds ds') :
    v.verify B m key ds = v.verify B m' key ds' := by
  have hempty : DischargeSet.Relocated ∅ ∅ := fun _ => .none
  have hcollect := Verifier.collectDischarges_matches hempty hds
  rw [Verifier.verify, Verifier.verify]
  generalize Verifier.collectDischarges ∅ ds = collected at hcollect
  generalize Verifier.collectDischarges ∅ ds' = collected' at hcollect
  cases collected with
  | error e =>
    cases collected' with
    | error e' => exact congrArg Except.error hcollect
    | ok τ => exact absurd hcollect id
  | ok σ =>
    cases collected' with
    | error e' => exact absurd hcollect id
    | ok τ =>
      have hrun : Matches DischargeSet.Relocated Eq (v.verifyWithSig B m.signature m key 0)
          (v.verifyWithSig B m.signature m' key 0) := Verifier.verifyWithSig_matches hm 0
      obtain ⟨hresult, hleft⟩ := hrun σ τ hcollect
      rw [ok_bind, ok_bind, ← hm.signature]
      simp only [hresult.eq, ne_eq, hleft.entries_eq_nil]

/- The root macaroon, its caveat and the discharge, all somewhere else. -/
def elsewhere (m : Macaroon) : Macaroon :=
  { m with
    location := some "elsewhere"
    caveats := m.caveats.map fun c =>
      match c with
      | .firstParty fp => .firstParty fp
      | .thirdParty tp => .thirdParty { tp with location := "elsewhere" } }

theorem verify_ignores_locations_elsewhere :
    Verifier.default.verify Instances.backend visiting (Instances.ofNat 1)
        [visiting.bind Instances.backend ticket] =
      Verifier.default.verify Instances.backend (elsewhere visiting) (Instances.ofNat 1)
        [elsewhere (visiting.bind Instances.backend ticket)] :=
  verify_ignores_locations Instances.backend Verifier.default visiting (elsewhere visiting)
    (Instances.ofNat 1) [visiting.bind Instances.backend ticket]
    [elsewhere (visiting.bind Instances.backend ticket)] ⟨by decide +kernel, by decide +kernel⟩
    (.cons ⟨by decide +kernel, by decide +kernel⟩ .nil)

end Libmacaroon
