import Libmacaroon.DischargeExact

/-! The verifier enters a verification only through the byte strings it satisfies: satisfying more of
them accepts more, satisfying the same ones gives the same result. -/
namespace Libmacaroon
open Checked

/-- One call that adds to a verifier. -/
inductive Registration where
  | satisfyExact (b : Bytes)
  | satisfyGeneral (f : Bytes → Bool)

namespace Verifier

def register (v : Verifier) : Registration → Verifier
  | .satisfyExact b => v.satisfyExact b
  | .satisfyGeneral f => v.satisfyGeneral f

variable {B : Backend} {v v' : Verifier} {rootSig : MacaroonKey}

theorem Satisfies.register {p : Bytes} (h : v.Satisfies p) (r : Registration) :
    (v.register r).Satisfies p := by
  cases r with
  | satisfyExact b =>
    obtain hexact | hgeneral := h
    · exact .inl (Finset.mem_insert_of_mem hexact)
    · exact .inr hgeneral
  | satisfyGeneral f =>
    obtain hexact | ⟨g, hg, hp⟩ := h
    · exact .inl hexact
    · exact .inr ⟨g, List.mem_append_left [f] hg, hp⟩

theorem Satisfies.registerAll {p : Bytes} (h : v.Satisfies p) (rs : List Registration) :
    (rs.foldl Verifier.register v).Satisfies p := by
  induction rs generalizing v with
  | nil => exact h
  | cons r rs ih => exact ih (h.register r)

theorem NodeOk.mono (hsub : ∀ p, v.Satisfies p → v'.Satisfies p) {x : Node}
    {children : List Node} (h : NodeOk B v rootSig x children) : NodeOk B v' rootSig x children :=
  ⟨h.discharged, fun fp hfp => hsub fp.predicate (h.satisfied fp hfp), h.signed⟩

theorem VerificationTree.mono (hsub : ∀ p, v.Satisfies p → v'.Satisfies p) {m : Macaroon}
    {key : MacaroonKey} {ds : List Macaroon} {F : Forest Node}
    (hF : VerificationTree B v m key ds F) : VerificationTree B v' m key ds F where
  uses := hF.uses
  depth := hF.depth
  root := hF.root.mono hsub
  nodes := hF.nodes.imp fun _ _ _ h => h.mono hsub

theorem verify_mono (hsub : ∀ p, v.Satisfies p → v'.Satisfies p) {m : Macaroon}
    {key : MacaroonKey} {ds : List Macaroon} (h : v.verify B m key ds = .ok ()) :
    v'.verify B m key ds = .ok () := by
  obtain ⟨hnodup, F, hF⟩ := verify_sound h
  exact verify_complete hnodup (hF.mono hsub)

section Same
variable (hsame : ∀ p, v.Satisfies p ↔ v'.Satisfies p)
include hsame

/- The results are the same also on error, so the two runs are compared step by step. -/
theorem verifyCaveat_congr
    (recurse : Macaroon → MacaroonKey → Stateful DischargeSet MacaroonError Unit) (c : Caveat)
    (sig : MacaroonKey) : verifyCaveat B v recurse c sig = verifyCaveat B v' recurse c sig := by
  cases c with
  | thirdParty tp => rfl
  | firstParty fp =>
    have hcheck : (!(fp.predicate ∈ v.exact || v.verifyGeneral fp.predicate)) =
        (!(fp.predicate ∈ v'.exact || v'.verifyGeneral fp.predicate)) := by
      rw [Bool.eq_iff_iff, rejects_iff, rejects_iff, hsame]
    simp only [verifyCaveat, hcheck]

theorem verifyCaveats_congr
    (recurse : Macaroon → MacaroonKey → Stateful DischargeSet MacaroonError Unit)
    (cs : List Caveat) (sig : MacaroonKey) :
    verifyCaveats B v recurse cs sig = verifyCaveats B v' recurse cs sig := by
  induction cs generalizing sig with
  | nil => rfl
  | cons c cs ih =>
    rw [verifyCaveats, verifyCaveats, verifyCaveat_congr hsame]
    congr 1
    funext sig'
    exact ih sig'

theorem verifyWithSig_congr (m : Macaroon) (key : MacaroonKey) (depth : Nat) :
    verifyWithSig B v rootSig m key depth = verifyWithSig B v' rootSig m key depth := by
  induction depth using level_induction generalizing m key with
  | level depth ih =>
    rw [verifyWithSig, verifyWithSig]
    split
    next => rfl
    next hdepth =>
      have hrec : (fun dm caveatKey => verifyWithSig B v rootSig dm caveatKey (depth + 1)) =
          fun dm caveatKey => verifyWithSig B v' rootSig dm caveatKey (depth + 1) := by
        funext dm caveatKey
        exact ih (by omega) dm caveatKey
      rw [hrec, verifyCaveats_congr hsame]

theorem verify_congr (m : Macaroon) (key : MacaroonKey) (ds : List Macaroon) :
    v.verify B m key ds = v'.verify B m key ds := by
  simp only [verify, verifyWithSig_congr hsame]

end Same

end Verifier

/-- Verification is monotone in what the verifier satisfies, so it survives any further calls of
`satisfy_exact` and `satisfy_general`, and it depends on nothing else of the verifier. -/
theorem verify_monotone (B : Backend) (v v' : Verifier) (m : Macaroon) (key : MacaroonKey)
    (ds : List Macaroon) :
    ((∀ p, v.Satisfies p → v'.Satisfies p) →
      v.verify B m key ds = .ok () → v'.verify B m key ds = .ok ()) ∧
    (∀ rs : List Registration, v.verify B m key ds = .ok () →
      (rs.foldl Verifier.register v).verify B m key ds = .ok ()) ∧
    ((∀ p, v.Satisfies p ↔ v'.Satisfies p) →
      v.verify B m key ds = v'.verify B m key ds) := by
  refine ⟨?_, ?_, ?_⟩
  · intro hsub h
    exact Verifier.verify_mono hsub h
  · intro rs h
    exact Verifier.verify_mono (fun p hp => hp.registerAll rs) h
  · intro hsame
    exact Verifier.verify_congr hsame m key ds

/- A verifier with one predicate, after a general closure and another predicate were added. -/
theorem verify_monotone_registered :
    ((delegatedVerifier.satisfyGeneral fun p => p.isEmpty).satisfyExact [1]).verify
      Instances.backend Instances.delegated zeroKey [boundDischarge] = .ok () :=
  (verify_monotone Instances.backend delegatedVerifier delegatedVerifier Instances.delegated zeroKey
    [boundDischarge]).2.1 [.satisfyGeneral fun p => p.isEmpty, .satisfyExact [1]]
    (by decide +kernel)

end Libmacaroon
