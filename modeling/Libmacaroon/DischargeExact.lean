import Libmacaroon.MintVerify

/-! An accepted list of discharges is exact: with fewer or more of them the same root is rejected. -/
namespace Libmacaroon
open Checked
variable {B : Backend} {v : Verifier} {m : Macaroon} {key : MacaroonKey} {ds ds' : List Macaroon}

namespace Verifier

/-- Two accepted lists, one a part of the other, make the same tree and so are the same list. -/
theorem accepted_sublist_eq (hsub : ds'.Sublist ds) (h : verify B v m key ds = .ok ())
    (h' : verify B v m key ds' = .ok ()) : ds' = ds := by
  obtain ⟨hnodup, F, hF⟩ := verify_sound h
  obtain ⟨_, G, hG⟩ := verify_sound h'
  have hsame : F = G :=
    forest_unique hnodup hF.root.discharged hG.root.discharged hF.discharged hG.discharged
      (fun y hy => hF.mem hy) fun y hy => hsub.subset (hG.mem hy)
  have hperm : ds'.Perm ds := hG.uses.symm.trans (hsame ▸ hF.uses)
  exact hsub.eq_of_length hperm.length_eq

end Verifier

/-- No discharge is optional and none is ignored: taking some away from an accepted list, or putting
more in, at any positions, is not accepted. -/
theorem discharges_exact (B : Backend) (v : Verifier) (m : Macaroon) (key : MacaroonKey)
    (ds : List Macaroon) (h : v.verify B m key ds = .ok ()) (ds' : List Macaroon) (hne : ds' ≠ ds)
    (hsub : ds'.Sublist ds ∨ ds.Sublist ds') : v.verify B m key ds' ≠ .ok () := by
  intro h'
  obtain hfewer | hmore := hsub
  · exact hne (Verifier.accepted_sublist_eq hfewer h h')
  · exact hne (Verifier.accepted_sublist_eq hmore h' h).symm

/- The root of `issuedRoot` with its one discharge. -/
def boundDischarge : Macaroon := Instances.delegated.bind Instances.backend discharge

theorem discharges_exact_repeated :
    delegatedVerifier.verify Instances.backend Instances.delegated zeroKey
      [discharge, boundDischarge] ≠ .ok () :=
  discharges_exact Instances.backend delegatedVerifier Instances.delegated zeroKey
    [boundDischarge] (by decide +kernel) _ (by simp) (.inr (List.sublist_cons_self _ _))

end Libmacaroon
