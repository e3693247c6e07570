import Libmacaroon.DischargeConsumption
import Libmacaroon.Resigned
import Mathlib.Algebra.BigOperators.Group.Multiset.Basic

/-! What a verification costs. Every macaroon pays for the HMACs over it out of its own size, so the
work of a run is bounded by the root macaroon and the discharges, however they name each other. -/
namespace Libmacaroon
open Checked

section Work
variable (w : Nat → Nat)

/-- The work of `Caveat::sign`, where `w` is that of one HMAC by the length of its text. -/
def Caveat.signWork : Caveat → Nat
  | .firstParty fp => w fp.predicate.length
  | .thirdParty tp => w tp.verifierId.length + w tp.id.length + w 64

/-- The work of one call of `verify_with_sig` on the macaroon, without the calls below it: the
identifier, the caveats and the binding of two signatures. -/
def Macaroon.verifyWork (m : Macaroon) : Nat :=
  w m.identifier.length + (m.caveats.map (Caveat.signWork w)).sum + (w 32 + w 32 + w 64)

def Event.work : Event → Nat
  | .hmac evaluation => w evaluation.2.length
  | .verifyWithSig _ => 0

/-- The work of the discharges that are left in the map. -/
def DischargeSet.verifyWork (σ : DischargeSet) : Nat :=
  (σ.contents.map (Macaroon.verifyWork w)).sum

end Work

namespace Recorded
variable {B : Backend} {v : Verifier} {w : Nat → Nat} {α : Type}

open Traced

/-- The call pays out of `n` and of the discharges it takes out of the map. -/
abbrev Pays (w : Nat → Nat) (n : Nat) (x : Recorded α) : Prop :=
  Charged (Event.work w) (DischargeSet.verifyWork w) n x

theorem pays_hmac (key : MacaroonKey) (text : Bytes) :
    Pays w (w text.length) (hmac B key text) :=
  Charged.bind (Charged.record (Event.hmac (key, text))) fun _ => Charged.pure _

theorem pays_hmac2 (key : MacaroonKey) (text1 text2 : Bytes) :
    Pays w (w text1.length + w text2.length + w 64) (hmac2 B key text1 text2) := by
  rw [Nat.add_assoc]
  apply Charged.bind (pays_hmac key text1)
  intro tmp1
  apply Charged.bind (pays_hmac key text2)
  intro tmp2
  have hlength : (tmp1.bytes ++ tmp2.bytes).length = 64 := by
    rw [List.length_append, tmp1.length_eq, tmp2.length_eq]
  simpa only [hlength] using pays_hmac (w := w) (B := B) key (tmp1.bytes ++ tmp2.bytes)

theorem pays_sign (c : Caveat) (key : MacaroonKey) : Pays w (c.signWork w) (sign B c key) := by
  cases c with
  | firstParty fp => exact pays_hmac key fp.predicate
  | thirdParty tp => exact pays_hmac2 key tp.verifierId tp.id

/-- What is done with a discharge is paid for by taking it out. -/
theorem pays_removeDischarge {id : Bytes} {f : Macaroon → Recorded α} {n : Nat}
    (hf : ∀ d, Pays w (d.verifyWork w + n) (f d)) :
    Pays w n (liftM (Verifier.removeDischarge id) >>= f) := by
  intro σ
  cases hlookup : σ.lookup id with
  | none =>
    obtain ⟨e, hcall⟩ := DischargeSet.removeDischarge_of_none hlookup
    have hcall : (liftM (Verifier.removeDischarge id) : Recorded Macaroon).erase.call σ =
        (.error e, σ) := hcall
    have htrace : (liftM (Verifier.removeDischarge id) : Recorded Macaroon).trace σ = [] := rfl
    rw [trace_bind_error hcall, erase_bind, Stateful.call_bind, hcall, htrace]
    simp
  | some d =>
    have hcall : (liftM (Verifier.removeDischarge id) : Recorded Macaroon).erase.call σ =
        (.ok d, σ.erase id) := DischargeSet.removeDischarge_of_some hlookup
    have htrace : (liftM (Verifier.removeDischarge id) : Recorded Macaroon).trace σ = [] := rfl
    have hrest := hf d (σ.erase id)
    have hpaid : DischargeSet.verifyWork w σ =
        d.verifyWork w + DischargeSet.verifyWork w (σ.erase id) := by
      rw [DischargeSet.verifyWork, DischargeSet.contents_erase hlookup, Multiset.map_cons,
        Multiset.sum_cons]
      rfl
    rw [trace_bind hcall, erase_bind, Stateful.call_bind, hcall, htrace, hpaid, List.nil_append]
    simp only [] at hrest ⊢
    omega

variable {recurse : Macaroon → MacaroonKey → Recorded Unit}

theorem pays_verifyCaveat (hrec : ∀ d k, Pays w (d.verifyWork w) (recurse d k)) (c : Caveat)
    (sig : MacaroonKey) : Pays w (c.signWork w) (verifyCaveat B v recurse c sig) := by
  cases c with
  | firstParty fp =>
    rw [← Nat.zero_add (Caveat.signWork w _)]
    apply Charged.bind (Charged.liftOutcome _)
    intro _
    exact pays_sign (.firstParty fp) sig
  | thirdParty tp =>
    rw [← Nat.zero_add (Caveat.signWork w _)]
    apply Charged.bind (Charged.liftOutcome _)
    intro caveatKey
    apply pays_removeDischarge
    intro d
    apply Charged.bind (hrec d caveatKey)
    intro _
    exact pays_sign (.thirdParty tp) sig

theorem pays_verifyCaveats (hrec : ∀ d k, Pays w (d.verifyWork w) (recurse d k))
    (cs : List Caveat) (sig : MacaroonKey) :
    Pays w (cs.map (Caveat.signWork w)).sum (verifyCaveats B v recurse cs sig) := by
  induction cs generalizing sig with
  | nil => exact Charged.pure sig
  | cons c cs ih =>
    rw [List.map_cons, List.sum_cons]
    exact Charged.bind (pays_verifyCaveat hrec c sig) ih

theorem pays_verifyWithSig (rootSig : MacaroonKey) (m : Macaroon) (key : MacaroonKey)
    (depth : Nat) : Pays w (m.verifyWork w) (verifyWithSig B v rootSig m key depth) := by
  induction depth using Verifier.level_induction generalizing m key with
  | level depth ih =>
    rw [verifyWithSig, ← Nat.zero_add (m.verifyWork w)]
    apply Charged.bind (Charged.record (Event.verifyWithSig depth))
    intro _
    split
    next => exact (Charged.liftOutcome _).mono (Nat.zero_le _)
    next hle =>
      rw [Macaroon.verifyWork, Nat.add_assoc]
      apply Charged.bind (pays_hmac key m.identifier)
      intro sig
      apply Charged.bind (pays_verifyCaveats (fun d k => ih (by omega) d k) m.caveats sig)
      intro sig'
      split
      · exact (Charged.pure ()).mono (Nat.zero_le _)
      · have hbound := pays_hmac2 (B := B) (w := w) zeroKey rootSig.bytes sig'.bytes
        rw [rootSig.length_eq, sig'.length_eq] at hbound
        rw [← Nat.add_zero (w 32 + w 32 + w 64)]
        apply Charged.bind hbound
        intro _
        exact Charged.liftOutcome _

end Recorded

/-- The HMACs of any run, accepted or not, cost no more than the root macaroon and the discharges
together, whatever an HMAC costs by the length of its text. -/
theorem verification_work (B : Backend) (v : Verifier) (w : Nat → Nat) (m : Macaroon)
    (key : MacaroonKey) (ds : List Macaroon) :
    ((Recorded.evaluations B v m key ds).map fun e => w e.2.length).sum ≤
      ((m :: ds).map (Macaroon.verifyWork w)).sum := by
  have hwork (events : List Event) :
      ((events.filterMap Event.evaluation?).map fun e => w e.2.length).sum =
        (events.map (Event.work w)).sum := by
    induction events with
    | nil => rfl
    | cons event events ih =>
      cases event with
      | hmac evaluation => simp [Event.evaluation?, Event.work, ih]
      | verifyWithSig depth =>
        rw [List.filterMap_cons_none rfl, ih]
        simp [Event.work]
  rw [Recorded.evaluations, hwork, List.map_cons, List.sum_cons]
  cases hσ : Verifier.collectDischarges ∅ ds with
  | error e => simp [Recorded.verify, hσ]
  | ok σ =>
    have hpaid := Recorded.pays_verifyWithSig (B := B) (v := v) (w := w) m.signature m key 0 σ
    obtain ⟨_, hcontents, _⟩ := DischargeSet.collectDischarges_eq_ok Verifier.wellKeyed_empty hσ
    have hpool : DischargeSet.verifyWork w σ = (ds.map (Macaroon.verifyWork w)).sum := by
      rw [DischargeSet.verifyWork, hcontents, Verifier.contents_empty, Multiset.zero_add,
        Multiset.map_coe, Multiset.sum_coe]
    rw [Recorded.verify_trace hσ]
    omega

end Libmacaroon
