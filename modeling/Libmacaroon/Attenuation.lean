import Libmacaroon.Signature

/-! Runs of `add_first_party_caveat` and `add_third_party_caveat` on one macaroon. A call that fails
leaves it alone; the others append one caveat each and carry the signature on. -/
namespace Libmacaroon
open Checked Utf8

/-- One call with its arguments and what the random source does in it. -/
inductive AddCall where
  | firstParty (predicate : Bytes)
  | thirdParty (location : String) (key : MacaroonKey) (id : Bytes) (rng : Rng)

/-- The errors an `add_*` call returns. -/
inductive AddError : Failure MacaroonError → Prop where
  | fieldTooLarge (field : String) (size : Nat) : AddError (.err (.fieldTooLarge field size))
  | tooManyCaveats : AddError (.err .tooManyCaveats)
  | rngError (s : String) : AddError (.err (.rngError s))
  | cryptoError (s : String) : AddError (.err (.cryptoError s))

section Run
variable (B : Backend)

def AddCall.run : AddCall → Stateful Macaroon MacaroonError Unit
  | .firstParty predicate => Macaroon.addFirstPartyCaveat B predicate
  | .thirdParty location key id rng => Macaroon.addThirdPartyCaveat B location key id rng

/-- The macaroon that the calls leave behind, whether they succeed or not. -/
def attenuate (m : Macaroon) (calls : List AddCall) : Macaroon :=
  calls.foldl (fun m call => ((call.run B).call m).2) m

/-- The calls that return `Ok`, each made on what the calls before it left. -/
def succeeded (m : Macaroon) : List AddCall → List AddCall
  | [] => []
  | call :: calls =>
    match (call.run B).call m with
    | (.ok (), m') => call :: succeeded m' calls
    | (.error _, m') => succeeded m' calls

/-- The caveat is the one that the call asks for, under the signature `sig`. -/
inductive Appends (sig : MacaroonKey) : AddCall → Caveat → Prop where
  | firstParty (predicate : Bytes) :
      Appends sig (.firstParty predicate) (newFirstParty predicate)
  | thirdParty (location : String) (key : MacaroonKey) (id : Bytes) (nonce : Nonce)
      (ciphertext : Bytes) (h : B.encrypt sig nonce key.bytes = some ciphertext) :
      Appends sig (.thirdParty location key id (some nonce))
        (newThirdParty id (nonce.bytes ++ ciphertext) location)

/-- One caveat for each call, in order, each under the signature that the caveats before it give. -/
inductive AppendsAll : MacaroonKey → List AddCall → List Caveat → Prop where
  | nil (sig : MacaroonKey) : AppendsAll sig [] []
  | cons {sig : MacaroonKey} {call : AddCall} {caveat : Caveat} {calls : List AddCall}
      {caveats : List Caveat} (h : Appends B sig call caveat)
      (hrest : AppendsAll (caveat.sign B sig) calls caveats) :
      AppendsAll sig (call :: calls) (caveat :: caveats)

end Run

variable {B : Backend} {m m' : Macaroon}

theorem checkFieldSize_eq_error {field : String} {size : Nat} {e : Failure MacaroonError}
    (h : checkFieldSize field size = .error e) : AddError e := by
  simp only [checkFieldSize, failIf] at h
  split at h
  · cases h
    exact .fieldTooLarge field size
  · cases h

theorem encryptKey_eq_error {key plaintext : MacaroonKey} {rng : Rng} {e : Failure MacaroonError}
    (h : encryptKey B key plaintext rng = .error e) : AddError e := by
  cases rng with
  | none =>
    cases h
    exact .rngError _
  | some nonce =>
    cases hseal : B.encrypt key nonce plaintext.bytes with
    | none =>
      simp only [encryptKey, fillRandom, ok_bind, hseal] at h
      cases h
      exact .cryptoError _
    | some ciphertext =>
      simp only [encryptKey, fillRandom, ok_bind, hseal] at h
      cases h

namespace Macaroon

theorem checkCaveatCapacity_error {e : Failure MacaroonError}
    (h : checkCaveatCapacity.call m = (.error e, m')) : m' = m ∧ AddError e := by
  simp only [checkCaveatCapacity, Stateful.bind_eq_error, Stateful.call_get, Stateful.call_lift,
    Prod.mk.injEq, reduceCtorEq, false_and, false_or] at h
  obtain ⟨_, _, ⟨h, rfl⟩, hcheck, rfl⟩ := h
  cases h
  refine ⟨rfl, ?_⟩
  simp only [failIf] at hcheck
  split at hcheck
  · cases hcheck
    exact .tooManyCaveats
  · cases hcheck

/-- A call that fails leaves the macaroon as it was. -/
theorem addFirstPartyCaveat_error {predicate : Bytes} {e : Failure MacaroonError}
    (h : (addFirstPartyCaveat B predicate).call m = (.error e, m')) : m' = m ∧ AddError e := by
  simp only [addFirstPartyCaveat, Stateful.bind_eq_error, Stateful.call_lift,
    Stateful.call_modify, Prod.mk.injEq, reduceCtorEq, false_and, and_false, exists_false,
    or_false] at h
  obtain ⟨hsize, rfl⟩ | ⟨_, _, ⟨_, rfl⟩, hcapacity⟩ := h
  · exact ⟨rfl, checkFieldSize_eq_error hsize⟩
  · exact checkCaveatCapacity_error hcapacity

theorem addThirdPartyCaveat_error {location : String} {key : MacaroonKey} {id : Bytes} {rng : Rng}
    {e : Failure MacaroonError}
    (h : (addThirdPartyCaveat B location key id rng).call m = (.error e, m')) :
    m' = m ∧ AddError e := by
  simp only [addThirdPartyCaveat, Stateful.bind_eq_error, Stateful.call_lift,
    Stateful.call_get, Stateful.call_modify, checkCaveatCapacity_eq_ok, Prod.mk.injEq, reduceCtorEq,
    false_and, and_false, exists_false, or_false, false_or] at h
  obtain ⟨hsize, rfl⟩ | ⟨_, _, ⟨_, rfl⟩, h⟩ := h
  · exact ⟨rfl, checkFieldSize_eq_error hsize⟩
  obtain ⟨hsize, rfl⟩ | ⟨_, _, ⟨_, rfl⟩, h⟩ := h
  · exact ⟨rfl, checkFieldSize_eq_error hsize⟩
  obtain hcapacity | ⟨_, _, ⟨_, rfl⟩, _, _, ⟨_, rfl⟩, hseal, rfl⟩ := h
  · exact checkCaveatCapacity_error hcapacity
  · exact ⟨rfl, encryptKey_eq_error hseal⟩

end Macaroon

namespace AddCall
variable {call : AddCall}

theorem run_error {e : Failure MacaroonError} (h : (call.run B).call m = (.error e, m')) :
    m' = m ∧ AddError e := by
  cases call with
  | firstParty predicate => exact Macaroon.addFirstPartyCaveat_error h
  | thirdParty location key id rng => exact Macaroon.addThirdPartyCaveat_error h

/-- A call that succeeds appends the caveat it asks for. -/
theorem run_ok (h : (call.run B).call m = (.ok (), m')) :
    ∃ caveat, Appends B m.signature call caveat ∧ m' = m.push B caveat := by
  cases call with
  | firstParty predicate =>
    obtain ⟨_, _, rfl⟩ := Macaroon.addFirstPartyCaveat_eq_ok.mp h
    exact ⟨_, .firstParty predicate, rfl⟩
  | thirdParty location key id rng =>
    obtain ⟨_, _, _, vid, hvid, rfl⟩ := Macaroon.addThirdPartyCaveat_eq_ok.mp h
    obtain ⟨nonce, ciphertext, rfl, hseal, rfl⟩ := encryptKey_eq_ok.mp hvid
    exact ⟨_, .thirdParty location key id nonce ciphertext hseal, rfl⟩

end AddCall

theorem attenuate_cons (m : Macaroon) (call : AddCall) (calls : List AddCall) :
    attenuate B m (call :: calls) = attenuate B ((call.run B).call m).2 calls := rfl

/-- The failed calls can be left out. -/
theorem attenuate_succeeded (m : Macaroon) (calls : List AddCall) :
    attenuate B m (succeeded B m calls) = attenuate B m calls := by
  induction calls generalizing m with
  | nil => rfl
  | cons call calls ih =>
    rw [succeeded, attenuate_cons]
    split
    next m' hok => rw [attenuate_cons, hok, ih]
    next e m' herror =>
      obtain ⟨rfl, _⟩ := AddCall.run_error herror
      rw [herror, ih]

/-- What a whole run appends. -/
theorem attenuate_appends (m : Macaroon) (calls : List AddCall) : ∃ caveats,
    AppendsAll B m.signature (succeeded B m calls) caveats ∧
      attenuate B m calls = { m with signature := runningSignature B caveats m.signature,
                                     caveats := m.caveats ++ caveats } := by
  induction calls generalizing m with
  | nil => exact ⟨[], .nil m.signature, by simp [attenuate, runningSignature]⟩
  | cons call calls ih =>
    rw [succeeded, attenuate_cons]
    split
    next m' hok =>
      obtain ⟨caveat, hcaveat, rfl⟩ := AddCall.run_ok hok
      obtain ⟨caveats, hrest, hlast⟩ := ih (m.push B caveat)
      refine ⟨caveat :: caveats, .cons hcaveat hrest, ?_⟩
      rw [hok, hlast]
      simp [Macaroon.push, runningSignature]
    next e m' herror =>
      obtain ⟨rfl, _⟩ := AddCall.run_error herror
      obtain ⟨caveats, hrest, hlast⟩ := ih m'
      exact ⟨caveats, hrest, by rw [herror, hlast]⟩

/-- Attenuation is atomic and append-only, from any macaroon and over any run of calls. -/
theorem attenuation_atomic (B : Backend) (m₀ : Macaroon) (calls : List AddCall) :
    (∀ before call after, calls = before ++ call :: after →
      ∀ e m', (call.run B).call (attenuate B m₀ before) = (.error e, m') →
        m' = attenuate B m₀ before ∧ AddError e) ∧
      attenuate B m₀ calls = attenuate B m₀ (succeeded B m₀ calls) ∧
      (attenuate B m₀ calls).identifier = m₀.identifier ∧
      (attenuate B m₀ calls).location = m₀.location ∧
      ∃ caveats, AppendsAll B m₀.signature (succeeded B m₀ calls) caveats ∧
        (attenuate B m₀ calls).caveats = m₀.caveats ++ caveats ∧
        (attenuate B m₀ calls).signature =
          caveats.foldl (fun sig caveat => caveat.sign B sig) m₀.signature := by
  obtain ⟨caveats, hcaveats, hlast⟩ := attenuate_appends (B := B) m₀ calls
  refine ⟨?_, (attenuate_succeeded m₀ calls).symm, ?_, ?_, caveats, hcaveats, ?_, ?_⟩
  · intro before call after _ e m' herror
    exact AddCall.run_error herror
  · rw [hlast]
  · rw [hlast]
  · rw [hlast]
  · rw [hlast]
    rfl

end Libmacaroon
