import Libmacaroon.VerifierSpec
import Libmacaroon.VerifierTrace

/-! Runs on discharges that differ in their signatures only. The signature is read in the last check
alone, so two runs that pass every check evaluate the same HMACs. -/
namespace Libmacaroon
open Checked

def Macaroon.resign (m : Macaroon) (s : MacaroonKey) : Macaroon := { m with signature := s }

/-- `m'` is `m` with some signature. -/
def Resigned (m m' : Macaroon) : Prop := ∃ s, m' = m.resign s

/-- Under one identifier the two maps hold a macaroon up to its signature. -/
def DischargeSet.Alike (σ τ : DischargeSet) : Prop :=
  ∀ id d d', σ.lookup id = some d → τ.lookup id = some d' → Resigned d d'

variable {B : Backend} {v : Verifier} {m m' : Macaroon} {key rootSig : MacaroonKey}
  {σ τ : DischargeSet} {ds ds' : List Macaroon}

namespace Resigned

theorem symm (h : Resigned m m') : Resigned m' m := by
  obtain ⟨s, rfl⟩ := h
  exact ⟨m.signature, rfl⟩

theorem identifier (h : Resigned m m') : m'.identifier = m.identifier := by
  obtain ⟨s, rfl⟩ := h
  rfl

theorem caveats (h : Resigned m m') : m'.caveats = m.caveats := by
  obtain ⟨s, rfl⟩ := h
  rfl

theorem chain (h : Resigned m m') (key : MacaroonKey) :
    Libmacaroon.chain B key m' = Libmacaroon.chain B key m := by
  obtain ⟨s, rfl⟩ := h
  rfl

end Resigned

namespace DischargeSet

theorem Alike.erase (h : Alike σ τ) (id : Bytes) : Alike (σ.erase id) (τ.erase id) := by
  intro id' d d' hd hd'
  by_cases heq : id' = id
  · rw [heq, AList.lookup_erase] at hd
    cases hd
  · rw [AList.lookup_erase_ne heq] at hd hd'
    exact h id' d d' hd hd'

theorem mem_of_lookup {id : Bytes} {d : Macaroon} (h : σ.lookup id = some d) :
    d ∈ σ.contents := by
  rw [contents_erase h]
  exact Multiset.mem_cons_self d _

/-- Lists of discharges that differ in signatures are collected to maps that do. -/
theorem alike_of_collect (hds : ∀ d ∈ ds, ∀ d' ∈ ds', d.identifier = d'.identifier → Resigned d d')
    (hσ : Verifier.collectDischarges ∅ ds = .ok σ)
    (hτ : Verifier.collectDischarges ∅ ds' = .ok τ) : Alike σ τ := by
  obtain ⟨hσkeyed, hσcontents, _⟩ := collectDischarges_eq_ok Verifier.wellKeyed_empty hσ
  obtain ⟨hτkeyed, hτcontents, _⟩ := collectDischarges_eq_ok Verifier.wellKeyed_empty hτ
  intro id d d' hd hd'
  have hmem := mem_of_lookup hd
  have hmem' := mem_of_lookup hd'
  rw [hσcontents, Verifier.contents_empty, Multiset.zero_add, Multiset.mem_coe] at hmem
  rw [hτcontents, Verifier.contents_empty, Multiset.zero_add, Multiset.mem_coe] at hmem'
  apply hds d hmem d' hmem'
  rw [hσkeyed.identifier hd, hτkeyed.identifier hd']

end DischargeSet

namespace Recorded
open DischargeSet Traced

theorem hmac_agree (key : MacaroonKey) (text : Bytes) :
    Agree Alike Eq (hmac B key text) (hmac B key text) := by
  apply Agree.bind (Agree.record _)
  intro _ _ _
  exact Agree.pure rfl

theorem hmac2_agree (key : MacaroonKey) (text1 text2 : Bytes) :
    Agree Alike Eq (hmac2 B key text1 text2) (hmac2 B key text1 text2) := by
  apply Agree.bind (hmac_agree key text1)
  intro tmp1 _ rfl
  apply Agree.bind (hmac_agree key text2)
  intro tmp2 _ rfl
  exact hmac_agree key _

theorem sign_agree (c : Caveat) (key : MacaroonKey) :
    Agree Alike Eq (sign B c key) (sign B c key) := by
  cases c with
  | firstParty fp => exact hmac_agree key fp.predicate
  | thirdParty tp => exact hmac2_agree key tp.verifierId tp.id

theorem removeDischarge_agree (id : Bytes) :
    Agree Alike Resigned (liftM (Verifier.removeDischarge id) : Recorded Macaroon)
      (liftM (Verifier.removeDischarge id) : Recorded Macaroon) := by
  apply Agree.lift
  intro σ τ d d' σ' τ' hστ hσ hτ
  obtain ⟨hd, rfl⟩ := removeDischarge_eq_ok.mp hσ
  obtain ⟨hd', rfl⟩ := removeDischarge_eq_ok.mp hτ
  exact ⟨hστ id d d' hd hd', hστ.erase id⟩

variable {recurse : Macaroon → MacaroonKey → Recorded Unit}

theorem verifyCaveat_agree
    (hrec : ∀ d d' k, Resigned d d' → Agree Alike Eq (recurse d k) (recurse d' k))
    (c : Caveat) (sig : MacaroonKey) :
    Agree Alike Eq (verifyCaveat B v recurse c sig) (verifyCaveat B v recurse c sig) := by
  cases c with
  | firstParty fp =>
    apply Agree.bind (V := Eq) (Agree.liftOutcome fun _ _ _ _ => rfl)
    intro _ _ _
    exact sign_agree _ sig
  | thirdParty tp =>
    have hkey : ∀ k k', decryptKey B sig tp.verifierId = .ok k →
        decryptKey B sig tp.verifierId = .ok k' → k = k' :=
      fun k k' hk hk' => Except.ok.inj (hk.symm.trans hk')
    apply Agree.bind (Agree.liftOutcome hkey)
    intro k _ rfl
    apply Agree.bind (removeDischarge_agree tp.id)
    intro d d' hd
    apply Agree.bind (hrec d d' k hd)
    intro _ _ _
    exact sign_agree _ sig

theorem verifyCaveats_agree
    (hrec : ∀ d d' k, Resigned d d' → Agree Alike Eq (recurse d k) (recurse d' k))
    (cs : List Caveat) (sig : MacaroonKey) :
    Agree Alike Eq (verifyCaveats B v recurse cs sig) (verifyCaveats B v recurse cs sig) := by
  induction cs generalizing sig with
  | nil => exact Agree.pure rfl
  | cons c cs ih =>
    apply Agree.bind (verifyCaveat_agree hrec c sig)
    intro sig' _ rfl
    exact ih sig'

theorem verifyWithSig_agree (hm : Resigned m m') (depth : Nat) :
    Agree Alike Eq (verifyWithSig B v rootSig m key depth)
      (verifyWithSig B v rootSig m' key depth) := by
  induction depth using Verifier.level_induction generalizing m m' key with
  | level depth ih =>
    rw [verifyWithSig, verifyWithSig]
    apply Agree.bind (Agree.record _)
    intro _ _ _
    by_cases hdepth : depth > maxVerificationDepth
    · rw [if_pos hdepth, if_pos hdepth]
      exact Agree.liftOutcome fun _ _ _ _ => rfl
    · rw [if_neg hdepth, if_neg hdepth, hm.identifier, hm.caveats]
      apply Agree.bind (hmac_agree key m.identifier)
      intro sig _ rfl
      apply Agree.bind
      · apply verifyCaveats_agree
        intro d d' k hd
        exact ih (by omega) hd
      intro last _ rfl
      by_cases hroot : rootSig = last
      · rw [if_pos hroot, if_pos hroot]
        exact Agree.pure rfl
      · rw [if_neg hroot, if_neg hroot]
        apply Agree.bind (hmac2_agree _ _ _)
        intro boundSig _ rfl
        exact Agree.liftOutcome fun _ _ _ _ => rfl

theorem verify_trace (h : Verifier.collectDischarges ∅ ds = .ok σ) :
    (verify B v m key ds).2 = (verifyWithSig B v m.signature m key 0).trace σ := by
  simp [verify, h]

/-- Accepted runs on discharges that differ in signatures evaluate the same HMACs. -/
theorem evaluations_eq (h : v.verify B m key ds = .ok ()) (h' : v.verify B m key ds' = .ok ())
    (hds : ∀ d ∈ ds, ∀ d' ∈ ds', d.identifier = d'.identifier → Resigned d d') :
    evaluations B v m key ds = evaluations B v m key ds' := by
  obtain ⟨σ, σ', hσ, hcall, _⟩ := Verifier.verify_call.mp h
  obtain ⟨τ, τ', hτ, hcall', _⟩ := Verifier.verify_call.mp h'
  have hagree : Agree Alike Eq (verifyWithSig B v m.signature m key 0)
      (verifyWithSig B v m.signature m key 0) := verifyWithSig_agree ⟨m.signature, rfl⟩ 0
  rw [← erase_verifyWithSig] at hcall hcall'
  obtain ⟨_, _, htrace⟩ := hagree σ τ _ _ σ' τ' (alike_of_collect hds hσ hτ) hcall hcall'
  rw [evaluations, evaluations, verify_trace hσ, verify_trace hτ, htrace]

end Recorded

end Libmacaroon
