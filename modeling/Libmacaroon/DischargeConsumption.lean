import Libmacaroon.VerifierSafety
import Libmacaroon.VerifierTrace

/-! What a call of `verify_with_sig` does to the map of discharges. It only takes entries out, one for
each further call, however the discharges name each other and whether it succeeds or not. -/
namespace Libmacaroon
open Checked

def Event.depth? : Event → Option Nat
  | .hmac _ => none
  | .verifyWithSig depth => some depth

/-- The depths of the recorded calls of `verify_with_sig`, in order. -/
def depths (events : List Event) : List Nat := events.filterMap Event.depth?

/-- The step from `σ` to `τ` takes entries out of the map, one for each of its calls but `n`, and no
call is deeper than `limit`. -/
structure Consumes (limit n : Nat) (σ : DischargeSet) (events : List Event) (τ : DischargeSet) :
    Prop where
  sublist : τ.entries.Sublist σ.entries
  calls : (depths events).length + τ.entries.length = σ.entries.length + n
  depth_le : ∀ depth ∈ depths events, depth ≤ limit

namespace Consumes
variable {limit n : Nat} {σ τ υ : DischargeSet} {events events' : List Event}

theorem refl (limit : Nat) (σ : DischargeSet) : Consumes limit 0 σ [] σ :=
  ⟨List.Sublist.refl _, by simp [depths], by simp [depths]⟩

theorem trans (h : Consumes limit n σ events τ) (h' : Consumes limit 0 τ events' υ) :
    Consumes limit n σ (events ++ events') υ := by
  have hdepths : depths (events ++ events') = depths events ++ depths events' :=
    List.filterMap_append
  have hcalls := h.calls
  have hcalls' := h'.calls
  refine ⟨h'.sublist.trans h.sublist, ?_, ?_⟩
  · rw [hdepths, List.length_append]
    omega
  · intro depth hdepth
    rw [hdepths] at hdepth
    obtain hleft | hright := List.mem_append.mp hdepth
    · exact h.depth_le depth hleft
    · exact h'.depth_le depth hright

theorem call {depth : Nat} (h : depth ≤ limit) (σ : DischargeSet) :
    Consumes limit 1 σ [.verifyWithSig depth] σ :=
  ⟨List.Sublist.refl _, by simp [depths, Event.depth?, Nat.add_comm],
    by simpa [depths, Event.depth?] using h⟩

end Consumes

namespace Recorded
variable {B : Backend} {v : Verifier} {limit : Nat} {α : Type}

open Traced

/- Two parts one after the other, the first of which owes the call `n`. -/
theorem along_bind {n : Nat} {β : Type} {x : Recorded α} {f : α → Recorded β}
    (hx : Along (Consumes limit n) x) (hf : ∀ a, Along (Consumes limit 0) (f a)) :
    Along (Consumes limit n) (x >>= f) :=
  Along.bind hx (fun _ a _ _ => hf a) (fun _ _ _ h => h) fun _ _ _ _ _ h h' => h.trans h'

theorem along_pure (a : α) : Along (Consumes limit 0) (pure a : Recorded α) :=
  Along.pure (Consumes.refl limit)

theorem along_liftOutcome (x : Result α) : Along (Consumes limit 0) (liftM x : Recorded α) :=
  Along.liftOutcome (Consumes.refl limit)

theorem along_hmac (key : MacaroonKey) (text : Bytes) :
    Along (Consumes limit 0) (hmac B key text) := by
  apply along_bind (Along.record ?_)
  · intro _
    exact along_pure _
  · intro σ
    exact ⟨List.Sublist.refl _, by simp [depths, Event.depth?], by simp [depths, Event.depth?]⟩

theorem along_hmac2 (key : MacaroonKey) (text1 text2 : Bytes) :
    Along (Consumes limit 0) (hmac2 B key text1 text2) := by
  apply along_bind (along_hmac key text1)
  intro tmp1
  apply along_bind (along_hmac key text2)
  intro tmp2
  exact along_hmac key _

theorem along_sign (c : Caveat) (key : MacaroonKey) :
    Along (Consumes limit 0) (sign B c key) := by
  cases c with
  | firstParty fp => exact along_hmac key fp.predicate
  | thirdParty tp => exact along_hmac2 key tp.verifierId tp.id

/-- A discharge that is taken out pays for the call made on it; one that is missing leaves the map as
it was. -/
theorem along_removeDischarge {id : Bytes} {f : Macaroon → Recorded α}
    (hf : ∀ d, Along (Consumes limit 1) (f d)) :
    Along (Consumes limit 0) (liftM (Verifier.removeDischarge id) >>= f) := by
  intro σ
  cases hlookup : σ.lookup id with
  | none =>
    obtain ⟨e, hcall⟩ := DischargeSet.removeDischarge_of_none hlookup
    have hcall : (liftM (Verifier.removeDischarge id) : Recorded Macaroon).erase.call σ =
        (.error e, σ) := hcall
    rw [trace_bind_error hcall, erase_bind, Stateful.call_bind, hcall]
    exact Consumes.refl limit σ
  | some d =>
    have hcall : (liftM (Verifier.removeDischarge id) : Recorded Macaroon).erase.call σ =
        (.ok d, σ.erase id) := DischargeSet.removeDischarge_of_some hlookup
    rw [trace_bind hcall, erase_bind, Stateful.call_bind, hcall]
    have hrest := hf d (σ.erase id)
    have hlength : σ.entries.length = (σ.erase id).entries.length + 1 := by
      have hcard := congrArg Multiset.card (DischargeSet.contents_erase hlookup)
      simpa [DischargeSet.contents] using hcard
    refine ⟨hrest.sublist.trans (List.kerase_sublist id σ.entries), ?_, hrest.depth_le⟩
    rw [hlength]
    exact hrest.calls

variable {recurse : Macaroon → MacaroonKey → Recorded Unit}

theorem along_verifyCaveat (hrec : ∀ d k, Along (Consumes limit 1) (recurse d k)) (c : Caveat)
    (sig : MacaroonKey) : Along (Consumes limit 0) (verifyCaveat B v recurse c sig) := by
  cases c with
  | firstParty fp =>
    apply along_bind (along_liftOutcome _)
    intro _
    exact along_sign _ sig
  | thirdParty tp =>
    apply along_bind (along_liftOutcome _)
    intro caveatKey
    apply along_removeDischarge
    intro dm
    apply along_bind (hrec dm caveatKey)
    intro _
    exact along_sign _ sig

theorem along_verifyCaveats (hrec : ∀ d k, Along (Consumes limit 1) (recurse d k))
    (cs : List Caveat) (sig : MacaroonKey) :
    Along (Consumes limit 0) (verifyCaveats B v recurse cs sig) := by
  induction cs generalizing sig with
  | nil => exact along_pure sig
  | cons c cs ih =>
    apply along_bind (along_verifyCaveat hrec c sig)
    intro sig'
    exact ih sig'

theorem along_verifyWithSig (rootSig : MacaroonKey) (m : Macaroon) (key : MacaroonKey)
    (depth : Nat) (hdepth : depth ≤ limit) (hlimit : maxVerificationDepth + 1 ≤ limit) :
    Along (Consumes limit 1) (verifyWithSig B v rootSig m key depth) := by
  induction depth using Verifier.level_induction generalizing m key with
  | level depth ih =>
    rw [verifyWithSig]
    apply along_bind (Along.record (Consumes.call hdepth))
    intro _
    split
    next => exact along_liftOutcome _
    next hle =>
      have hrec (d : Macaroon) (k : MacaroonKey) :
          Along (Consumes limit 1) (verifyWithSig B v rootSig d k (depth + 1)) :=
        ih (by omega) d k (by omega)
      apply along_bind (along_hmac key m.identifier)
      intro sig
      apply along_bind (along_verifyCaveats hrec m.caveats sig)
      intro sig'
      split
      · exact along_pure ()
      · apply along_bind (along_hmac2 _ _ _)
        intro boundSig
        exact along_liftOutcome _

end Recorded

theorem collectDischarges_length {σ τ : DischargeSet} {ds : List Macaroon}
    (h : Verifier.collectDischarges σ ds = .ok τ) :
    τ.entries.length = σ.entries.length + ds.length := by
  induction ds generalizing σ with
  | nil =>
    cases h
    rfl
  | cons d ds ih =>
    rw [Verifier.collectDischarges] at h
    split_ifs at h with hmem
    rw [ih h, AList.entries_insert_of_notMem hmem, List.length_cons, List.length_cons]
    omega

/-- Verification ends and consumes the discharges, on any input. A call of `verify_with_sig` returns,
leaves a part of the map it was given, and is together with the calls below it one call more than the
entries it took out; from a depth of at most 33 no depth exceeds 33. In a run of `verify` there is at
most one call more than there are discharges. -/
theorem verification_consumes (B : Backend) (v : Verifier) :
    (∀ (rootSig : MacaroonKey) (m : Macaroon) (key : MacaroonKey) (depth : Nat) (σ : DischargeSet),
      let call := (v.verifyWithSig B rootSig m key depth).call σ
      let events := (Recorded.verifyWithSig B v rootSig m key depth).trace σ
      Completes call.1 ∧ call.2.entries.Sublist σ.entries ∧
        (depths events).length = σ.entries.length - call.2.entries.length + 1 ∧
        (depth ≤ 33 → ∀ n ∈ depths events, n ≤ 33)) ∧
    ∀ (m : Macaroon) (key : MacaroonKey) (ds : List Macaroon),
      let events := (Recorded.verify B v m key ds).2
      Completes (v.verify B m key ds) ∧ (depths events).length ≤ ds.length + 1 ∧
        ∀ n ∈ depths events, n ≤ 33 := by
  have hcall (rootSig : MacaroonKey) (m : Macaroon) (key : MacaroonKey) (depth limit : Nat)
      (σ : DischargeSet) (hdepth : depth ≤ limit) (hlimit : maxVerificationDepth + 1 ≤ limit) :
      Consumes limit 1 σ ((Recorded.verifyWithSig B v rootSig m key depth).trace σ)
        ((v.verifyWithSig B rootSig m key depth).call σ).2 := by
    have h := Recorded.along_verifyWithSig (B := B) (v := v) rootSig m key depth hdepth hlimit σ
    rwa [Recorded.erase_verifyWithSig] at h
  constructor
  · intro rootSig m key depth σ
    have h := hcall rootSig m key depth (max depth 33) σ (le_max_left _ _) (le_max_right _ _)
    have hcalls := h.calls
    have hle := h.sublist.length_le
    refine ⟨Verifier.verifyWithSig_completes rootSig m key depth σ, h.sublist, by omega, ?_⟩
    intro hdepth
    exact (hcall rootSig m key depth 33 σ hdepth (Nat.le_refl _)).depth_le
  · intro m key ds
    refine ⟨Verifier.verify_completes m key ds, ?_⟩
    cases hσ : Verifier.collectDischarges ∅ ds with
    | error e => simp [Recorded.verify, hσ, depths]
    | ok σ =>
      have h := hcall m.signature m key 0 33 σ (Nat.zero_le _) (Nat.le_refl _)
      have hcalls := h.calls
      have hlength := collectDischarges_length hσ
      have hempty : (∅ : DischargeSet).entries.length = 0 := rfl
      simp only [Recorded.verify, hσ]
      exact ⟨by omega, h.depth_le⟩

end Libmacaroon
