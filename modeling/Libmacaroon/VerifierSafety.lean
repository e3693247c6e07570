import Libmacaroon.DischargeSet
import Libmacaroon.Library.Completes

/-! What holds of all calls of the verifier, by the few ways in which they are built. In particular
they do not panic: verification accepts or returns an error, whatever it is given. -/
namespace Libmacaroon
open Checked
variable {B : Backend} {v : Verifier}

theorem decryptKey_completes (key : MacaroonKey) (data : Bytes) :
    Completes (decryptKey B key data) := by
  unfold decryptKey
  split
  · exact .err _
  · dsimp only
    split
    · split
      · exact .ok _
      · exact .err _
    · exact .err _

namespace Verifier

theorem removeDischarge_completes (id : Bytes) : (removeDischarge id).Completes := by
  unfold removeDischarge
  apply Stateful.Completes.bind .get
  intro dischargeSet
  apply Stateful.Completes.bind (.modify _)
  intro _
  split
  · exact .pure _
  · exact .lift (.err _)

section Closed
variable {P : ∀ α : Type, Stateful DischargeSet MacaroonError α → Prop} (hP : Stateful.Closed P)
  (hremove : ∀ id, P _ (removeDischarge id))
include hP hremove

/- What is kept by every way to build a call and holds of taking a discharge out of the map holds of
   the verifier's calls. -/
theorem verifyCaveat_closed
    {recurse : Macaroon → MacaroonKey → Stateful DischargeSet MacaroonError Unit}
    (hrec : ∀ d k, P _ (recurse d k)) (c : Caveat) (sig : MacaroonKey) :
    P _ (verifyCaveat B v recurse c sig) := by
  cases c with
  | firstParty fp =>
    apply hP.bind (hP.lift (.failIf _ _))
    intro _
    exact hP.pure _
  | thirdParty tp =>
    apply hP.bind (hP.lift (decryptKey_completes _ _))
    intro caveatKey
    apply hP.bind (hremove tp.id)
    intro dm
    apply hP.bind (hrec dm caveatKey)
    intro _
    exact hP.pure _

theorem verifyCaveats_closed
    {recurse : Macaroon → MacaroonKey → Stateful DischargeSet MacaroonError Unit}
    (hrec : ∀ d k, P _ (recurse d k)) (cs : List Caveat) (sig : MacaroonKey) :
    P _ (verifyCaveats B v recurse cs sig) := by
  induction cs generalizing sig with
  | nil => exact hP.pure sig
  | cons c cs ih =>
    apply hP.bind (verifyCaveat_closed hP hremove hrec c sig)
    intro sig'
    exact ih sig'

theorem verifyWithSig_closed (rootSig : MacaroonKey) (m : Macaroon) (key : MacaroonKey)
    (depth : Nat) : P _ (verifyWithSig B v rootSig m key depth) := by
  induction depth using level_induction generalizing m key with
  | level depth ih =>
    rw [verifyWithSig]
    split
    next => exact hP.lift (.err _)
    next hdepth =>
      have hrec (d : Macaroon) (k : MacaroonKey) :
          P _ (verifyWithSig B v rootSig d k (depth + 1)) := ih (by omega) d k
      apply hP.bind (verifyCaveats_closed hP hremove hrec m.caveats _)
      intro sig
      split
      · exact hP.pure ()
      · exact hP.lift (.failIf _ _)

end Closed

theorem verifyWithSig_completes (rootSig : MacaroonKey) (m : Macaroon) (key : MacaroonKey)
    (depth : Nat) : (verifyWithSig B v rootSig m key depth).Completes :=
  verifyWithSig_closed Stateful.completes_closed removeDischarge_completes rootSig m key depth

theorem collectDischarges_completes (σ : DischargeSet) (ds : List Macaroon) :
    Completes (collectDischarges σ ds) := by
  induction ds generalizing σ with
  | nil => exact .ok σ
  | cons d ds ih =>
    rw [collectDischarges]
    split
    · exact .err _
    · exact ih (σ.insert d.identifier d)

theorem verify_completes (m : Macaroon) (key : MacaroonKey) (ds : List Macaroon) :
    Completes (v.verify B m key ds) := by
  apply Completes.bind (collectDischarges_completes ∅ ds)
  intro σ _
  apply Completes.bind (verifyWithSig_completes m.signature m key 0 σ)
  intro _ _
  exact .failIf _ _

end Verifier

end Libmacaroon
