import Libmacaroon.Macaroon

/-! The size and shape limits of a macaroon, and the calls of the builder API that keep them. -/
namespace Libmacaroon
open Checked Utf8

def Caveat.WithinLimits : Caveat → Prop
  | .firstParty fp => fp.predicate.length ≤ maxFieldSizeBytes
  | .thirdParty tp => tp.id.length ≤ maxFieldSizeBytes ∧
      tp.verifierId.length ≤ maxFieldSizeBytes ∧ (asBytes tp.location).length ≤ maxFieldSizeBytes

structure Macaroon.WithinLimits (m : Macaroon) : Prop where
  identifier_pos : 1 ≤ m.identifier.length
  identifier_le : m.identifier.length ≤ maxFieldSizeBytes
  location_le : ∀ l ∈ m.location, (asBytes l).length ≤ maxFieldSizeBytes
  caveats_le : m.caveats.length ≤ maxCaveats
  caveat_le : ∀ c ∈ m.caveats, c.WithinLimits

instance (c : Caveat) : Decidable c.WithinLimits :=
  match c with
  | .firstParty fp => inferInstanceAs (Decidable (fp.predicate.length ≤ maxFieldSizeBytes))
  | .thirdParty tp => inferInstanceAs (Decidable (tp.id.length ≤ maxFieldSizeBytes ∧
      tp.verifierId.length ≤ maxFieldSizeBytes ∧ (asBytes tp.location).length ≤ maxFieldSizeBytes))

instance (m : Macaroon) : Decidable m.WithinLimits :=
  decidable_of_iff (1 ≤ m.identifier.length ∧ m.identifier.length ≤ maxFieldSizeBytes ∧
    (∀ l ∈ m.location, (asBytes l).length ≤ maxFieldSizeBytes) ∧ m.caveats.length ≤ maxCaveats ∧
    ∀ c ∈ m.caveats, c.WithinLimits)
    ⟨fun ⟨hpos, hid, hloc, hlen, hcs⟩ => ⟨hpos, hid, hloc, hlen, hcs⟩,
      fun ⟨hpos, hid, hloc, hlen, hcs⟩ => ⟨hpos, hid, hloc, hlen, hcs⟩⟩

/-- A secretbox of a 32-byte key takes 48 bytes. -/
def Backend.SealsKeysTo48 (B : Backend) : Prop :=
  ∀ key nonce plaintext ciphertext, plaintext.length = 32 →
    B.encrypt key nonce plaintext = some ciphertext → ciphertext.length = 48

theorem encryptKey_eq_ok {B : Backend} {key plaintext : MacaroonKey} {rng : Rng} {vid : Bytes} :
    encryptKey B key plaintext rng = .ok vid ↔ ∃ nonce ciphertext, rng = some nonce ∧
      B.encrypt key nonce plaintext.bytes = some ciphertext ∧ vid = nonce.bytes ++ ciphertext := by
  cases rng with
  | none => simp [encryptKey, fillRandom]
  | some nonce =>
    cases h : B.encrypt key nonce plaintext.bytes <;> simp [encryptKey, fillRandom, h, eq_comm]

theorem encryptKey_length {B : Backend} (hB : B.SealsKeysTo48) {key plaintext : MacaroonKey}
    {rng : Rng} {vid : Bytes} (h : encryptKey B key plaintext rng = .ok vid) : vid.length = 72 := by
  obtain ⟨nonce, ciphertext, _, hc, rfl⟩ := encryptKey_eq_ok.mp h
  have hlen := hB _ _ _ _ plaintext.length_eq hc
  rw [List.length_append, nonce.length_eq, hlen]

namespace Macaroon
variable {B : Backend}

@[simp] theorem validate_eq_ok {m m' : Macaroon} :
    m.validate = .ok m' ↔ m.identifier ≠ [] ∧ m' = m := by
  simp only [validate, bind_eq_ok, failIf_eq_ok, pure_eq_ok]
  constructor
  · intro h
    obtain ⟨_, hne, he⟩ := h
    exact ⟨hne, he.symm⟩
  · intro h
    obtain ⟨hne, he⟩ := h
    exact ⟨(), hne, he.symm⟩

@[simp] theorem checkLocationSize_eq_ok {field : String} {location : Option String} {u : Unit} :
    checkLocationSize field location = .ok u ↔
      ∀ l ∈ location, (asBytes l).length ≤ maxFieldSizeBytes := by
  cases location <;> simp [checkLocationSize]

theorem create_eq_ok {location : Option String} {key : MacaroonKey} {identifier : Bytes}
    {m : Macaroon} : create B location key identifier = .ok m ↔
      identifier ≠ [] ∧ identifier.length ≤ maxFieldSizeBytes ∧
      (∀ l ∈ location, (asBytes l).length ≤ maxFieldSizeBytes) ∧
      m = ⟨identifier, location, hmac B key identifier, []⟩ := by
  simp only [create, bind_eq_ok, checkFieldSize_eq_ok, checkLocationSize_eq_ok, validate_eq_ok]
  constructor
  · intro h
    obtain ⟨_, hid, _, hloc, hne, hm⟩ := h
    exact ⟨hne, hid, hloc, hm⟩
  · intro h
    obtain ⟨hne, hid, hloc, hm⟩ := h
    exact ⟨(), hid, (), hloc, hne, hm⟩

/-- The macaroon a successful `add_*` call leaves behind. -/
def push (B : Backend) (m : Macaroon) (caveat : Caveat) : Macaroon :=
  { m with signature := caveat.sign B m.signature, caveats := m.caveats ++ [caveat] }

theorem push_caveats_le {m : Macaroon} {c : Caveat} (hlt : m.caveats.length < maxCaveats) :
    (m.push B c).caveats.length ≤ maxCaveats := by
  simp only [push, List.length_append, List.length_singleton]
  omega

theorem checkCaveatCapacity_eq_ok {m m' : Macaroon} {u : Unit} :
    checkCaveatCapacity.call m = (.ok u, m') ↔ m.caveats.length < maxCaveats ∧ m = m' := by
  simp [checkCaveatCapacity, Stateful.bind_eq_ok, and_comm]

theorem addFirstPartyCaveat_eq_ok {predicate : Bytes} {m m' : Macaroon} {u : Unit} :
    (addFirstPartyCaveat B predicate).call m = (.ok u, m') ↔
      predicate.length ≤ maxFieldSizeBytes ∧ m.caveats.length < maxCaveats ∧
      m.push B (newFirstParty predicate) = m' := by
  simp only [addFirstPartyCaveat, Stateful.bind_eq_ok, Stateful.call_lift, Stateful.call_modify,
    checkCaveatCapacity_eq_ok, Prod.mk.injEq, checkFieldSize_eq_ok]
  simp [push]

theorem addThirdPartyCaveat_eq_ok {location : String} {key : MacaroonKey} {id : Bytes} {rng : Rng}
    {m m' : Macaroon} {u : Unit} :
    (addThirdPartyCaveat B location key id rng).call m = (.ok u, m') ↔
      id.length ≤ maxFieldSizeBytes ∧ (asBytes location).length ≤ maxFieldSizeBytes ∧
      m.caveats.length < maxCaveats ∧ ∃ vid, encryptKey B m.signature key rng = .ok vid ∧
      m.push B (newThirdParty id vid location) = m' := by
  simp only [addThirdPartyCaveat, Stateful.bind_eq_ok, Stateful.call_lift, Stateful.call_modify,
    Stateful.call_get, checkCaveatCapacity_eq_ok, Prod.mk.injEq, checkFieldSize_eq_ok]
  simp [push]

theorem WithinLimits.create {location : Option String} {key : MacaroonKey} {identifier : Bytes}
    {m : Macaroon} (h : create B location key identifier = .ok m) : m.WithinLimits := by
  obtain ⟨hne, hid, hloc, rfl⟩ := create_eq_ok.mp h
  exact ⟨List.length_pos_iff.mpr hne, hid, hloc, by simp, by simp⟩

theorem WithinLimits.push {m : Macaroon} {c : Caveat} (hm : m.WithinLimits)
    (hlt : m.caveats.length < maxCaveats) (hc : c.WithinLimits) : (m.push B c).WithinLimits := by
  refine ⟨hm.identifier_pos, hm.identifier_le, hm.location_le, push_caveats_le hlt, ?_⟩
  intro c' hc'
  obtain hold | hnew := List.mem_append.mp hc'
  · exact hm.caveat_le c' hold
  · rwa [List.mem_singleton.mp hnew]

theorem WithinLimits.addFirstPartyCaveat {predicate : Bytes} {m m' : Macaroon} {u : Unit}
    (hm : m.WithinLimits) (h : (addFirstPartyCaveat B predicate).call m = (.ok u, m')) :
    m'.WithinLimits := by
  obtain ⟨hp, hlt, rfl⟩ := addFirstPartyCaveat_eq_ok.mp h
  exact hm.push hlt hp

theorem WithinLimits.addThirdPartyCaveat {location : String} {key : MacaroonKey} {id : Bytes}
    {rng : Rng} {m m' : Macaroon} {u : Unit} (hB : B.SealsKeysTo48) (hm : m.WithinLimits)
    (h : (addThirdPartyCaveat B location key id rng).call m = (.ok u, m')) : m'.WithinLimits := by
  obtain ⟨hid, hloc, hlt, vid, hvid, rfl⟩ := addThirdPartyCaveat_eq_ok.mp h
  have hlen := encryptKey_length hB hvid
  exact hm.push hlt ⟨hid, by simp only [maxFieldSizeBytes]; omega, hloc⟩

theorem WithinLimits.bind {root discharge : Macaroon} (hd : discharge.WithinLimits) :
    (root.bind B discharge).WithinLimits :=
  ⟨hd.identifier_pos, hd.identifier_le, hd.location_le, hd.caveats_le, hd.caveat_le⟩

end Macaroon

/-- What the builder API gives: a macaroon created, then attenuated and bound by calls that
succeed, in any order. -/
inductive Constructed (B : Backend) : Macaroon → Prop where
  | create {location : Option String} {key : MacaroonKey} {identifier : Bytes} {m : Macaroon}
      (h : Macaroon.create B location key identifier = .ok m) : Constructed B m
  | addFirstPartyCaveat {predicate : Bytes} {m m' : Macaroon} (hm : Constructed B m)
      (h : (Macaroon.addFirstPartyCaveat B predicate).call m = (.ok (), m')) : Constructed B m'
  | addThirdPartyCaveat {location : String} {key : MacaroonKey} {id : Bytes} {rng : Rng}
      {m m' : Macaroon} (hm : Constructed B m)
      (h : (Macaroon.addThirdPartyCaveat B location key id rng).call m = (.ok (), m')) :
      Constructed B m'
  | bind (root : Macaroon) {m : Macaroon} (hm : Constructed B m) : Constructed B (root.bind B m)

namespace Constructed
variable {B : Backend} {m : Macaroon}

theorem withinLimits (hB : B.SealsKeysTo48) (hm : Constructed B m) : m.WithinLimits := by
  induction hm with
  | create h => exact .create h
  | addFirstPartyCaveat _ h ih => exact ih.addFirstPartyCaveat h
  | addThirdPartyCaveat _ h ih => exact ih.addThirdPartyCaveat hB h
  | bind _ _ ih => exact ih.bind

theorem verifierId_length (hB : B.SealsKeysTo48) (hm : Constructed B m) :
    ∀ tp, Caveat.thirdParty tp ∈ m.caveats → tp.verifierId.length = 72 := by
  induction hm with
  | create h =>
    obtain ⟨_, _, _, rfl⟩ := Macaroon.create_eq_ok.mp h
    simp
  | addFirstPartyCaveat _ h ih =>
    obtain ⟨_, _, rfl⟩ := Macaroon.addFirstPartyCaveat_eq_ok.mp h
    intro tp htp
    simp only [Macaroon.push, newFirstParty, List.mem_append, List.mem_singleton,
      reduceCtorEq, or_false] at htp
    exact ih tp htp
  | addThirdPartyCaveat _ h ih =>
    obtain ⟨_, _, _, vid, hvid, rfl⟩ := Macaroon.addThirdPartyCaveat_eq_ok.mp h
    intro tp htp
    obtain hold | hnew := List.mem_append.mp htp
    · exact ih tp hold
    · cases List.mem_singleton.mp hnew
      exact encryptKey_length hB hvid
  | bind _ _ ih => exact ih

/- The name and the number of caveats do not depend on what a sealed key looks like. -/
theorem identifier_ne_nil (hm : Constructed B m) : m.identifier ≠ [] := by
  induction hm with
  | create h =>
    obtain ⟨hne, _, _, rfl⟩ := Macaroon.create_eq_ok.mp h
    exact hne
  | addFirstPartyCaveat _ h ih =>
    obtain ⟨_, _, rfl⟩ := Macaroon.addFirstPartyCaveat_eq_ok.mp h
    exact ih
  | addThirdPartyCaveat _ h ih =>
    obtain ⟨_, _, _, _, _, rfl⟩ := Macaroon.addThirdPartyCaveat_eq_ok.mp h
    exact ih
  | bind _ _ ih => exact ih

theorem caveats_le (hm : Constructed B m) : m.caveats.length ≤ maxCaveats := by
  induction hm with
  | create h =>
    obtain ⟨_, _, _, rfl⟩ := Macaroon.create_eq_ok.mp h
    simp
  | addFirstPartyCaveat _ h ih =>
    obtain ⟨_, hlt, rfl⟩ := Macaroon.addFirstPartyCaveat_eq_ok.mp h
    exact Macaroon.push_caveats_le hlt
  | addThirdPartyCaveat _ h ih =>
    obtain ⟨_, _, hlt, _, _, rfl⟩ := Macaroon.addThirdPartyCaveat_eq_ok.mp h
    exact Macaroon.push_caveats_le hlt
  | bind _ _ ih => exact ih

end Constructed

end Libmacaroon
