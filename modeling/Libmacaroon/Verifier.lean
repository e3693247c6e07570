import Libmacaroon.Macaroon
import Mathlib.Data.List.AList
import Mathlib.Data.Finset.Insert

/-! The verifier (`verifier.rs`). `verify_with_sig` works on one mutable map of discharges; its
recursion follows identifiers through that map and is cut off by the depth check. -/
namespace Libmacaroon
open Checked

def maxVerificationDepth : Nat := 32

/-- `HashMap<ByteString, Macaroon>`: at most one discharge for each identifier. -/
abbrev DischargeSet := AList fun _ : ByteString => Macaroon

structure Verifier where
  exact : Finset ByteString
  general : List (Bytes → Bool)

namespace Verifier

def default : Verifier := ⟨∅, []⟩

def satisfyExact (v : Verifier) (b : Bytes) : Verifier := { v with exact := insert b v.exact }

def satisfyGeneral (v : Verifier) (f : Bytes → Bool) : Verifier :=
  { v with general := v.general ++ [f] }

def verifyGeneral (v : Verifier) (value : Bytes) : Bool := v.general.any fun f => f value

/-- `discharge_set.remove(id)`, an error when the map has no such entry. -/
def removeDischarge (id : Bytes) : Stateful DischargeSet MacaroonError Macaroon := do
  let dischargeSet ← .get
  .modify fun dischargeSet => dischargeSet.erase id
  match dischargeSet.lookup id with
  | some dm => return dm
  | none => (.err (.caveatNotSatisfied (.text
      "no discharge macaroon found (or discharge has already been used) for third-party caveat")) :
      Result Macaroon)

variable (B : Backend) (v : Verifier)

/- One pass of the loop over the caveats: the running signature after `c`. `recurse` is the call
   of `verify_with_sig` on a discharge. -/
def verifyCaveat (recurse : Macaroon → MacaroonKey → Stateful DischargeSet MacaroonError Unit)
    (c : Caveat) (sig : MacaroonKey) : Stateful DischargeSet MacaroonError MacaroonKey :=
  match c with
  | .thirdParty tp => do
    let caveatKey ← decryptKey B sig tp.verifierId
    let dm ← removeDischarge tp.id
    recurse dm caveatKey
    return c.sign B sig
  | .firstParty fp => do
    failIf (!(fp.predicate ∈ v.exact || v.verifyGeneral fp.predicate))
      (MacaroonError.caveatNotSatisfied
        (.lossy "first party caveat not satisfied: " fp.predicate))
    return c.sign B sig

def verifyCaveats (recurse : Macaroon → MacaroonKey → Stateful DischargeSet MacaroonError Unit) :
    List Caveat → MacaroonKey → Stateful DischargeSet MacaroonError MacaroonKey
  | [], sig => return sig
  | c :: cs, sig => do
    let sig ← verifyCaveat B v recurse c sig
    verifyCaveats recurse cs sig

def verifyWithSig (rootSig : MacaroonKey) (m : Macaroon) (key : MacaroonKey) (depth : Nat) :
    Stateful DischargeSet MacaroonError Unit :=
  if depth > maxVerificationDepth then
    liftM (.err (.caveatNotSatisfied (.text
      "discharge verification exceeded maximum depth")) : Result Unit)
  else do
    let sig ← verifyCaveats B v (fun dm caveatKey => verifyWithSig rootSig dm caveatKey (depth + 1))
      m.caveats (hmac B key m.identifier)
    if rootSig = sig then
      return ()
    else
      let boundSig := hmac2 B zeroKey rootSig.bytes sig.bytes
      failIf (boundSig ≠ m.signature) MacaroonError.invalidSignature
termination_by maxVerificationDepth + 1 - depth

/-- Induction along the calls of `verify_with_sig`: each level rests on the next, until the depth
check cuts the calls off. -/
@[elab_as_elim]
theorem level_induction {motive : Nat → Prop}
    (level : ∀ depth, (depth ≤ maxVerificationDepth → motive (depth + 1)) → motive depth)
    (depth : Nat) : motive depth := by
  induction hn : maxVerificationDepth + 1 - depth using Nat.strongRecOn generalizing depth with
  | ind n ih =>
    apply level
    intro hdepth
    exact ih (maxVerificationDepth + 1 - (depth + 1)) (by omega) (depth + 1) rfl

def collectDischarges : DischargeSet → List Macaroon → Result DischargeSet
  | dischargeSet, [] => .ok dischargeSet
  | dischargeSet, d :: ds =>
    if d.identifier ∈ dischargeSet then
      .err (.caveatNotSatisfied (.lossyDebug "duplicate discharge macaroons with identifier "
        d.identifier))
    else
      collectDischarges (dischargeSet.insert d.identifier d) ds

def verify (m : Macaroon) (key : MacaroonKey) (discharges : List Macaroon) : Result Unit := do
  let dischargeSet ← collectDischarges ∅ discharges
  let (result, left) := (verifyWithSig B v m.signature m key 0).call dischargeSet
  result
  failIf (left.entries ≠ []) .dischargeNotUsed

end Verifier

end Libmacaroon
