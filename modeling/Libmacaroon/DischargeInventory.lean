import Libmacaroon.DischargeSingleUse

/-! Which discharges a client has to collect. Those that are accepted answer the third-party caveats of
the root macaroon and of the discharges themselves, one for each. -/
namespace Libmacaroon
open Checked

/-- The ids of the third-party caveats, as a client reads them off the macaroon. -/
def Macaroon.dischargeIds (m : Macaroon) : List ByteString :=
  m.thirdPartyCaveats.filterMap fun c => c.asThirdParty.map ThirdParty.id

variable {B : Backend}

/-- The ids do not depend on the signatures the caveats stand under. -/
theorem thirdPartyCaveats_ids (m : Macaroon) (sig : MacaroonKey) :
    (thirdPartyCaveats B m.caveats sig).map (fun c => c.1.id) = m.dischargeIds := by
  obtain ⟨_, _, _, cs⟩ := m
  simp only [Macaroon.dischargeIds, Macaroon.thirdPartyCaveats]
  induction cs generalizing sig with
  | nil => rfl
  | cons c cs ih =>
    cases c with
    | firstParty fp => simpa [thirdPartyCaveats] using ih _
    | thirdParty tp => simpa [thirdPartyCaveats, Caveat.asThirdParty] using ih _

theorem Verifier.Discharged.identifiers {x : Node} {children : List Node}
    (h : Verifier.Discharged B x children) :
    children.map (fun y => y.1.identifier) = x.1.dischargeIds := by
  rw [← thirdPartyCaveats_ids (B := B) x.1 (hmac B x.2 x.1.identifier)]
  rw [← List.forall₂_eq_eq_eq, List.forall₂_map_left_iff, List.forall₂_map_right_iff]
  exact (h.imp fun _ _ hc => hc.1).flip

open Verifier in
/-- In an accepted run the identifiers of the discharges are the ids of the third-party caveats of all
macaroons, the root and the discharges, each once; and every predicate of any of them is
satisfied. -/
theorem discharges_match_caveats (B : Backend) (v : Verifier) (m : Macaroon) (key : MacaroonKey)
    (ds : List Macaroon) (hok : v.verify B m key ds = .ok ()) :
    List.Perm (ds.map Macaroon.identifier) ((m :: ds).flatMap Macaroon.dischargeIds) ∧
      ((m :: ds).flatMap Macaroon.dischargeIds).Nodup ∧
      ∀ x ∈ m :: ds, ∀ c ∈ x.firstPartyCaveats, ∀ fp ∈ c.asFirstParty,
        v.Satisfies fp.predicate := by
  obtain ⟨hnodup, F, hF⟩ := verify_sound hok
  have hids : (F.labels.map fun y => y.1.identifier).Perm
      ((F.roots.map fun y => y.1.identifier) ++ F.labels.flatMap fun y => y.1.dischargeIds) :=
    hF.nodes.map_labels_perm fun x children hnode => Discharged.identifiers hnode.discharged
  have hroot : (F.roots.map fun y => y.1.identifier) = m.dischargeIds :=
    Discharged.identifiers hF.root.discharged
  have hperm : List.Perm (ds.map Macaroon.identifier)
      ((m :: ds).flatMap Macaroon.dischargeIds) := by
    have huses := hF.uses.map Macaroon.identifier
    have hflat := hF.uses.flatMap_right Macaroon.dischargeIds
    rw [List.map_map] at huses
    rw [List.flatMap_map] at hflat
    rw [hroot] at hids
    exact huses.symm.trans (hids.trans (hflat.append_left _))
  refine ⟨hperm, hperm.nodup_iff.mp hnodup, ?_⟩
  have hsatisfied {x : Macaroon} (h : ∀ fp, Caveat.firstParty fp ∈ x.caveats →
      v.Satisfies fp.predicate) : ∀ c ∈ x.firstPartyCaveats, ∀ fp ∈ c.asFirstParty,
        v.Satisfies fp.predicate := by
    intro c hc fp hfp
    have hmem := List.mem_of_mem_filter hc
    cases c with
    | firstParty fp' =>
      cases hfp
      exact h _ hmem
    | thirdParty tp => cases hfp
  intro x hx
  obtain rfl | hx := List.mem_cons.mp hx
  · exact hsatisfied hF.root.satisfied
  · obtain ⟨k, hlabel⟩ := hF.exists_label hx
    obtain ⟨_, hnode, _⟩ := hF.nodes.exists_children hlabel
    exact hsatisfied hnode.satisfied

theorem discharges_match_caveats_visiting :
    List.Perm ([visiting.bind Instances.backend ticket].map Macaroon.identifier)
        ([visiting, visiting.bind Instances.backend ticket].flatMap Macaroon.dischargeIds) ∧
      ([visiting, visiting.bind Instances.backend ticket].flatMap Macaroon.dischargeIds).Nodup ∧
      ∀ x ∈ [visiting, visiting.bind Instances.backend ticket], ∀ c ∈ x.firstPartyCaveats,
        ∀ fp ∈ c.asFirstParty, Verifier.default.Satisfies fp.predicate :=
  discharges_match_caveats Instances.backend Verifier.default visiting (Instances.ofNat 1)
    [visiting.bind Instances.backend ticket] (by decide +kernel)

end Libmacaroon
