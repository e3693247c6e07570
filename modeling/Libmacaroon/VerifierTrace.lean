import Libmacaroon.DischargeSet
import Libmacaroon.Library.Traced

/-! The verifier once more, with a record of the HMACs it evaluates and of its recursive calls. Without
the record it is the verifier. -/
namespace Libmacaroon
open Checked

inductive Event where
  | hmac (evaluation : Evaluation)
  | verifyWithSig (depth : Nat)
deriving DecidableEq

def Event.evaluation? : Event → Option Evaluation
  | .hmac evaluation => some evaluation
  | .verifyWithSig _ => none

abbrev Recorded := Traced Event DischargeSet MacaroonError

namespace Recorded
variable (B : Backend) (v : Verifier)

def hmac (key : MacaroonKey) (text : Bytes) : Recorded MacaroonKey := do
  Traced.record (.hmac (key, text))
  return Libmacaroon.hmac B key text

def hmac2 (key : MacaroonKey) (text1 text2 : Bytes) : Recorded MacaroonKey := do
  let tmp1 ← hmac B key text1
  let tmp2 ← hmac B key text2
  hmac B key (tmp1.bytes ++ tmp2.bytes)

def sign (c : Caveat) (key : MacaroonKey) : Recorded MacaroonKey :=
  match c with
  | .firstParty fp => hmac B key fp.predicate
  | .thirdParty tp => hmac2 B key tp.verifierId tp.id

def verifyCaveat (recurse : Macaroon → MacaroonKey → Recorded Unit) (c : Caveat)
    (sig : MacaroonKey) : Recorded MacaroonKey :=
  match c with
  | .thirdParty tp => do
    let caveatKey ← decryptKey B sig tp.verifierId
    let dm ← Verifier.removeDischarge tp.id
    recurse dm caveatKey
    sign B c sig
  | .firstParty fp => do
    failIf (!(fp.predicate ∈ v.exact || v.verifyGeneral fp.predicate))
      (MacaroonError.caveatNotSatisfied
        (.lossy "first party caveat not satisfied: " fp.predicate))
    sign B c sig

def verifyCaveats (recurse : Macaroon → MacaroonKey → Recorded Unit) :
    List Caveat → MacaroonKey → Recorded MacaroonKey
  | [], sig => return sig
  | c :: cs, sig => do
    let sig ← verifyCaveat B v recurse c sig
    verifyCaveats recurse cs sig

def verifyWithSig (rootSig : MacaroonKey) (m : Macaroon) (key : MacaroonKey) (depth : Nat) :
    Recorded Unit := do
  Traced.record (.verifyWithSig depth)
  if depth > maxVerificationDepth then
    liftM (.err (.caveatNotSatisfied (.text
      "discharge verification exceeded maximum depth")) : Result Unit)
  else
    let sig ← hmac B key m.identifier
    let sig ← verifyCaveats B v (fun dm caveatKey => verifyWithSig rootSig dm caveatKey (depth + 1))
      m.caveats sig
    if rootSig = sig then
      return ()
    else
      let boundSig ← hmac2 B zeroKey rootSig.bytes sig.bytes
      failIf (boundSig ≠ m.signature) MacaroonError.invalidSignature
termination_by maxVerificationDepth + 1 - depth

/-- The result of `verify` and the events of its run. -/
def verify (m : Macaroon) (key : MacaroonKey) (discharges : List Macaroon) :
    Result Unit × List Event :=
  match Verifier.collectDischarges ∅ discharges with
  | .error e => (.error e, [])
  | .ok dischargeSet =>
    let run := verifyWithSig B v m.signature m key 0
    let (result, left) := run.erase.call dischargeSet
    (do result; failIf (left.entries ≠ []) .dischargeNotUsed, run.trace dischargeSet)

/-- The HMAC evaluations of the run of `verify`, in order. -/
def evaluations (m : Macaroon) (key : MacaroonKey) (discharges : List Macaroon) :
    List Evaluation :=
  (verify B v m key discharges).2.filterMap Event.evaluation?

variable {B v}

@[simp] theorem erase_hmac (key : MacaroonKey) (text : Bytes) :
    (hmac B key text).erase = pure (Libmacaroon.hmac B key text) := by
  simp [hmac]

@[simp] theorem erase_hmac2 (key : MacaroonKey) (text1 text2 : Bytes) :
    (hmac2 B key text1 text2).erase = pure (Libmacaroon.hmac2 B key text1 text2) := by
  simp only [hmac2, Traced.erase_bind, erase_hmac, Stateful.pure_bind]
  rfl

@[simp] theorem erase_sign (c : Caveat) (key : MacaroonKey) :
    (sign B c key).erase = pure (c.sign B key) := by
  cases c with
  | firstParty fp => exact erase_hmac key fp.predicate
  | thirdParty tp => exact erase_hmac2 key tp.verifierId tp.id

variable {recurse : Macaroon → MacaroonKey → Recorded Unit}

theorem erase_verifyCaveat (c : Caveat) (sig : MacaroonKey) :
    (verifyCaveat B v recurse c sig).erase =
      Verifier.verifyCaveat B v (fun dm key => (recurse dm key).erase) c sig := by
  cases c with
  | firstParty fp => simp [verifyCaveat, Verifier.verifyCaveat]
  | thirdParty tp => simp [verifyCaveat, Verifier.verifyCaveat]

theorem erase_verifyCaveats (cs : List Caveat) (sig : MacaroonKey) :
    (verifyCaveats B v recurse cs sig).erase =
      Verifier.verifyCaveats B v (fun dm key => (recurse dm key).erase) cs sig := by
  induction cs generalizing sig with
  | nil => rfl
  | cons c cs ih =>
    simp only [verifyCaveats, Verifier.verifyCaveats, Traced.erase_bind, erase_verifyCaveat, ih]

theorem erase_verifyWithSig (rootSig : MacaroonKey) (m : Macaroon) (key : MacaroonKey)
    (depth : Nat) : (verifyWithSig B v rootSig m key depth).erase =
      Verifier.verifyWithSig B v rootSig m key depth := by
  induction depth using Verifier.level_induction generalizing m key with
  | level depth ih =>
    rw [verifyWithSig, Verifier.verifyWithSig]
    simp only [Traced.erase_bind, Traced.erase_record, Stateful.pure_bind]
    by_cases hdepth : depth > maxVerificationDepth
    · rw [if_pos hdepth, if_pos hdepth]
      rfl
    · rw [if_neg hdepth, if_neg hdepth]
      have hrec (dm : Macaroon) (caveatKey : MacaroonKey) :
          (verifyWithSig B v rootSig dm caveatKey (depth + 1)).erase =
            Verifier.verifyWithSig B v rootSig dm caveatKey (depth + 1) :=
        ih (by omega) dm caveatKey
      simp only [Traced.erase_bind, erase_hmac, Stateful.pure_bind, erase_verifyCaveats, hrec]
      congr 1
      funext sig
      by_cases hroot : rootSig = sig
      · rw [if_pos hroot, if_pos hroot]
        rfl
      · rw [if_neg hroot, if_neg hroot]
        simp

/-- Recording changes no result. -/
theorem verify_result (m : Macaroon) (key : MacaroonKey) (ds : List Macaroon) :
    (verify B v m key ds).1 = v.verify B m key ds := by
  cases h : Verifier.collectDischarges ∅ ds with
  | error e => simp [verify, Verifier.verify, h]
  | ok σ => simp [verify, Verifier.verify, h, erase_verifyWithSig]

end Recorded

end Libmacaroon
