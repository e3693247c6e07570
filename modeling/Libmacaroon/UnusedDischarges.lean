import Libmacaroon.DischargeExact
import Libmacaroon.VerifierSafety
import Libmacaroon.Library.Raises

/-! What an error of the verifier says about the discharges. Left over ones are reported only when the
others are accepted without them; after any other error no choice among the discharges helps. -/
namespace Libmacaroon
open Checked

/-- The errors of a check that failed, in the macaroons or in one of their signatures. -/
inductive Rejection : MacaroonError → Prop
  | cryptoError (s : String) : Rejection (.cryptoError s)
  | caveatNotSatisfied (s : Message) : Rejection (.caveatNotSatisfied s)
  | invalidSignature : Rejection .invalidSignature

variable {B : Backend} {v : Verifier} {m : Macaroon} {key : MacaroonKey} {ds used : List Macaroon}

theorem decryptKey_raises (key : MacaroonKey) (data : Bytes) :
    Raises Rejection (decryptKey B key data) := by
  unfold decryptKey
  split
  · exact .err (.cryptoError _)
  · dsimp only
    split
    · split
      · exact .ok _
      · exact .err (.cryptoError _)
    · exact .err (.cryptoError _)

namespace Verifier

theorem removeDischarge_raises (id : Bytes) : (removeDischarge id).Raises Rejection := by
  unfold removeDischarge
  refine Stateful.Raises.bind .get fun dischargeSet => ?_
  refine Stateful.Raises.bind (.modify _) fun _ => ?_
  split
  · exact .pure _
  · exact .lift (.err (.caveatNotSatisfied _))

section Loop
variable {recurse : Macaroon → MacaroonKey → Stateful DischargeSet MacaroonError Unit}
  (hrec : ∀ d k, (recurse d k).Raises Rejection)
include hrec

theorem verifyCaveat_raises (c : Caveat) (sig : MacaroonKey) :
    (verifyCaveat B v recurse c sig).Raises Rejection := by
  cases c with
  | firstParty fp =>
    refine Stateful.Raises.bind (.lift (.failIf _ (.caveatNotSatisfied _))) fun _ => ?_
    exact .pure _
  | thirdParty tp =>
    refine Stateful.Raises.bind (.lift (decryptKey_raises _ _)) fun caveatKey => ?_
    refine Stateful.Raises.bind (removeDischarge_raises tp.id) fun dm => ?_
    refine Stateful.Raises.bind (hrec dm caveatKey) fun _ => ?_
    exact .pure _

theorem verifyCaveats_raises (cs : List Caveat) (sig : MacaroonKey) :
    (verifyCaveats B v recurse cs sig).Raises Rejection := by
  induction cs generalizing sig with
  | nil => exact .pure sig
  | cons c cs ih =>
    refine Stateful.Raises.bind (verifyCaveat_raises hrec c sig) fun sig' => ?_
    exact ih sig'

end Loop

/-- Leftover discharges are no concern of `verify_with_sig`. -/
theorem verifyWithSig_raises (rootSig : MacaroonKey) (m : Macaroon) (key : MacaroonKey)
    (depth : Nat) : (verifyWithSig B v rootSig m key depth).Raises Rejection := by
  induction depth using level_induction generalizing m key with
  | level depth ih =>
    rw [verifyWithSig]
    split
    next => exact .lift (.err (.caveatNotSatisfied _))
    next hdepth =>
      have hrec (d : Macaroon) (k : MacaroonKey) :
          (verifyWithSig B v rootSig d k (depth + 1)).Raises Rejection := ih (by omega) d k
      refine Stateful.Raises.bind (verifyCaveats_raises hrec m.caveats _) fun sig => ?_
      split
      · exact .pure ()
      · exact .lift (.failIf _ .invalidSignature)

theorem collectDischarges_raises (σ : DischargeSet) (ds : List Macaroon) :
    Raises Rejection (collectDischarges σ ds) := by
  induction ds generalizing σ with
  | nil => exact .ok σ
  | cons d ds ih =>
    rw [collectDischarges]
    split
    · exact .err (.caveatNotSatisfied _)
    · exact ih (σ.insert d.identifier d)

/-- A run that fails no check has used some of the discharges, and accepts these alone. -/
theorem verify_rejects_or_uses (m : Macaroon) (key : MacaroonKey) (ds : List Macaroon) :
    (∃ e, Rejection e ∧ verify B v m key ds = .err e) ∨
    (ds.map Macaroon.identifier).Nodup ∧
      ∃ used, used.Sublist ds ∧ verify B v m key used = .ok () := by
  obtain ⟨σ, hcollect⟩ | ⟨e, hcollect⟩ := collectDischarges_completes ∅ ds
  · obtain ⟨hσ, hcontents, hnodup, _⟩ :=
      DischargeSet.collectDischarges_eq_ok wellKeyed_empty hcollect
    have hraises := verifyWithSig_raises (B := B) (v := v) m.signature m key 0 σ
    have hcompletes := verifyWithSig_completes (B := B) (v := v) m.signature m key 0 σ
    generalize hrun : (verifyWithSig B v m.signature m key 0).call σ = run at hraises hcompletes
    obtain ⟨r, τ⟩ := run
    obtain ⟨_, rfl⟩ | ⟨e, rfl⟩ := hcompletes
    · obtain ⟨_, F, hheight, hroot, hF⟩ := verifyWithSig_sound hσ hrun
      have hpart : macaroons F ≤ (ds : Multiset Macaroon) := by
        rw [← Multiset.zero_add (ds : Multiset Macaroon), ← contents_empty, ← hcontents,
          hF.contents]
        exact Multiset.le_add_right _ _
      obtain ⟨used, hperm, hsub⟩ := Multiset.coe_le.mp hpart
      have htree : VerificationTree B v m key used F :=
        ⟨hperm.symm, by omega, hroot, hF.nodes⟩
      exact .inr ⟨hnodup, used, hsub, verify_complete (hnodup.sublist (hsub.map _)) htree⟩
    · refine .inl ⟨e, hraises e rfl, ?_⟩
      rw [verify, hcollect, ok_bind, hrun]
      rfl
  · refine .inl ⟨e, collectDischarges_raises ∅ ds e hcollect, ?_⟩
    rw [verify, hcollect, error_bind]

/-- Whoever is accepted with some of the discharges is told when there are more. -/
theorem verify_of_part (hnodup : (ds.map Macaroon.identifier).Nodup) (hsub : used.Sublist ds)
    (hne : used ≠ ds) (h : verify B v m key used = .ok ()) :
    verify B v m key ds = .err .dischargeNotUsed := by
  obtain ⟨_, F, hF⟩ := verify_sound h
  obtain ⟨σ, hcollect⟩ := DischargeSet.collectDischarges_empty.mpr hnodup
  obtain ⟨hσ, hcontents, _⟩ := DischargeSet.collectDischarges_eq_ok wellKeyed_empty hcollect
  have hused : macaroons F = (used : Multiset Macaroon) := Multiset.coe_eq_coe.mpr hF.uses
  obtain ⟨R, hR⟩ := Multiset.le_iff_exists_add.mp (Multiset.coe_le.mpr hsub.subperm)
  have huses : σ.contents = macaroons F + R := by
    rw [hcontents, contents_empty, Multiset.zero_add, hR, hused]
  obtain ⟨τ, hcall, _, hleft⟩ := verifyWithSig_complete hσ
    (show F.height + 0 ≤ maxVerificationDepth from hF.depth) hF.root hF.nodes huses
  have hmore : τ.entries ≠ [] := by
    intro hnone
    rw [DischargeSet.entries_eq_nil, hleft] at hnone
    rw [hnone, Multiset.add_zero] at hR
    exact hne (hsub.eq_of_length (Multiset.coe_eq_coe.mp hR).length_eq.symm)
  rw [verify, hcollect, ok_bind, hcall]
  simp only [ok_bind, failIf, if_pos hmore]

theorem accepted_part_unique {used' : List Macaroon} (hnodup : (ds.map Macaroon.identifier).Nodup)
    (hsub : used.Sublist ds) (hsub' : used'.Sublist ds) (h : verify B v m key used = .ok ())
    (h' : verify B v m key used' = .ok ()) : used' = used := by
  obtain ⟨_, F, hF⟩ := verify_sound h
  obtain ⟨_, G, hG⟩ := verify_sound h'
  have hsame : F = G :=
    forest_unique hnodup hF.root.discharged hG.root.discharged hF.discharged hG.discharged
      (fun y hy => hsub.subset (hF.mem hy)) fun y hy => hsub'.subset (hG.mem hy)
  have hperm : used'.Perm used := hG.uses.symm.trans (hsame ▸ hF.uses)
  exact (hnodup.of_map.perm_iff_eq_of_sublist hsub' hsub).mp hperm

end Verifier

/-- The verifier reports unused discharges exactly when their identifiers are distinct and it accepts
the rest of them, which is one choice only. It rejects for another reason exactly when they are not
distinct or it accepts no choice among them, all of them included. -/
theorem unused_discharges_exact (B : Backend) (v : Verifier) (m : Macaroon) (key : MacaroonKey)
    (ds : List Macaroon) :
    (v.verify B m key ds = .err .dischargeNotUsed ↔ (ds.map Macaroon.identifier).Nodup ∧
      ∃! used, (used.Sublist ds ∧ v.verify B m key used = .ok ()) ∧ used ≠ ds) ∧
    ((∃ e, Rejection e ∧ v.verify B m key ds = .err e) ↔
      ((ds.map Macaroon.identifier).Nodup →
        ∀ used, used.Sublist ds → v.verify B m key used ≠ .ok ())) := by
  constructor
  · constructor
    · intro h
      obtain ⟨e, he, hrun⟩ | ⟨hnodup, used, hsub, hok⟩ :=
        Verifier.verify_rejects_or_uses (B := B) (v := v) m key ds
      · rw [h] at hrun
        cases hrun
        cases he
      · refine ⟨hnodup, used, ⟨⟨hsub, hok⟩, ?_⟩, ?_⟩
        · rintro rfl
          rw [h] at hok
          cases hok
        · intro used' hused'
          exact Verifier.accepted_part_unique hnodup hsub hused'.1.1 hok hused'.1.2
    · intro h
      obtain ⟨hnodup, used, ⟨⟨hsub, hok⟩, hne⟩, _⟩ := h
      exact Verifier.verify_of_part hnodup hsub hne hok
  · constructor
    · intro h hnodup used hsub hok
      obtain ⟨e, he, hrun⟩ := h
      by_cases hall : used = ds
      · rw [hall, hrun] at hok
        cases hok
      · rw [Verifier.verify_of_part hnodup hsub hall hok] at hrun
        cases hrun
        cases he
    · intro h
      obtain hrejects | ⟨hnodup, used, hsub, hok⟩ :=
        Verifier.verify_rejects_or_uses (B := B) (v := v) m key ds
      · exact hrejects
      · exact absurd hok (h hnodup used hsub)

end Libmacaroon
