import Libmacaroon.Limits
import Libmacaroon.Serialization.V2Json
import Mathlib.Data.List.Forall2

/-! What `from_json` accepts: the caveats decode one by one, and the macaroon is put together from
fields that each passed its check. -/
namespace Libmacaroon.V2Json
open Checked Utf8
variable {E : Base64Crate}

/-- The caveat that one element of `c` decodes to. -/
def decodeCaveat (E : Base64Crate) (c : Caveat) : Result Libmacaroon.Caveat := do
  rejectBoth c.i c.i64 "caveat i and i64"
  rejectBoth c.l c.l64 "caveat l and l64"
  rejectBoth c.v c.v64 "caveat v and v64"
  let caveatId ← chooseId c.i c.i64 "No caveat ID found"
  checkFieldSize "caveat id" caveatId.length
  let caveatLocation ← chooseLocation E c.l c.l64
  let caveatBuilder ← addCaveatLocation (CaveatBuilder.new.addId caveatId) caveatLocation
  let caveatBuilder ← addCaveatVerifierId caveatBuilder (chooseVerifierId c.v c.v64)
  caveatBuilder.build

theorem caveatStep_eq (builder : MacaroonBuilder) (c : Caveat) :
    caveatStep E (builder, .new) c = (do
      let caveat ← decodeCaveat E c
      let builder ← builder.addCaveat caveat
      return (builder, .new)) := by
  simp only [caveatStep, decodeCaveat, bind_assoc]

@[simp] theorem rejectBoth_eq_ok {α β : Type} {a : Option α} {b : Option β} {pair : String}
    {u : Unit} : rejectBoth a b pair = .ok u ↔ a = none ∨ b = none := by
  cases a <;> cases b <;> simp [rejectBoth]

theorem addCaveatLocation_eq_ok {b b' : CaveatBuilder} {location : Option String}
    (hb : b.location = none) : addCaveatLocation b location = .ok b' ↔
      (∀ l ∈ location, (asBytes l).length ≤ maxFieldSizeBytes) ∧
        { b with location := location } = b' := by
  obtain ⟨id, vid, loc⟩ := b
  simp only at hb
  cases location with
  | none => simp [addCaveatLocation, hb]
  | some l =>
    simp only [addCaveatLocation, bind_eq_ok, checkFieldSize_eq_ok, pure_eq_ok]
    simp [CaveatBuilder.addLocation]

theorem addCaveatVerifierId_eq_ok {b b' : CaveatBuilder} {vid : Option ByteString}
    (hb : b.verifierId = none) : addCaveatVerifierId b vid = .ok b' ↔
      (∀ v ∈ vid, v.length ≤ maxFieldSizeBytes) ∧ { b with verifierId := vid } = b' := by
  obtain ⟨id, vid', loc⟩ := b
  simp only at hb
  cases vid with
  | none => simp [addCaveatVerifierId, hb]
  | some v =>
    simp only [addCaveatVerifierId, bind_eq_ok, checkFieldSize_eq_ok, pure_eq_ok]
    simp [CaveatBuilder.addVerifierId]

theorem decodeCaveat_eq_ok {c : Caveat} {caveat : Libmacaroon.Caveat} :
    decodeCaveat E c = .ok caveat ↔ (c.i = none ∨ c.i64 = none) ∧ (c.l = none ∨ c.l64 = none) ∧
      (c.v = none ∨ c.v64 = none) ∧ ∃ id location,
        chooseId c.i c.i64 "No caveat ID found" = .ok id ∧ id.length ≤ maxFieldSizeBytes ∧
        chooseLocation E c.l c.l64 = .ok location ∧
        (∀ l ∈ location, (asBytes l).length ≤ maxFieldSizeBytes) ∧
        (∀ v ∈ chooseVerifierId c.v c.v64, v.length ≤ maxFieldSizeBytes) ∧
        CaveatBuilder.build ⟨some id, chooseVerifierId c.v c.v64, location⟩ = .ok caveat := by
  simp only [decodeCaveat, bind_eq_ok, rejectBoth_eq_ok, checkFieldSize_eq_ok]
  constructor
  · intro h
    obtain ⟨_, hi, _, hl, _, hv, id, hid, _, hmax, location, hloc, b, hb, b', hb', hbuild⟩ := h
    obtain ⟨hlmax, rfl⟩ := (addCaveatLocation_eq_ok rfl).mp hb
    obtain ⟨hvmax, rfl⟩ := (addCaveatVerifierId_eq_ok rfl).mp hb'
    exact ⟨hi, hl, hv, id, location, hid, hmax, hloc, hlmax, hvmax, hbuild⟩
  · intro h
    obtain ⟨hi, hl, hv, id, location, hid, hmax, hloc, hlmax, hvmax, hbuild⟩ := h
    exact ⟨(), hi, (), hl, (), hv, id, hid, (), hmax, location, hloc, _,
      (addCaveatLocation_eq_ok rfl).mpr ⟨hlmax, rfl⟩, _,
      (addCaveatVerifierId_eq_ok rfl).mpr ⟨hvmax, rfl⟩, hbuild⟩

theorem decodeCaveat_withinLimits {c : Caveat} {caveat : Libmacaroon.Caveat}
    (h : decodeCaveat E c = .ok caveat) : caveat.WithinLimits := by
  obtain ⟨_, _, _, id, location, _, hmax, _, hlmax, hvmax, hbuild⟩ := decodeCaveat_eq_ok.mp h
  obtain ⟨_, hid, h⟩ := CaveatBuilder.build_eq_ok.mp hbuild
  cases hid
  obtain ⟨_, _, rfl⟩ | ⟨vid, l, hvid, hl, rfl⟩ := h
  · exact hmax
  · exact ⟨hmax, hvmax vid hvid, hlmax l hl⟩

/-- The caveat loop decodes the caveats in order, as long as the builder has room. -/
theorem foldlM_caveatStep {builder : MacaroonBuilder} {cs : List Caveat}
    {builders : MacaroonBuilder × CaveatBuilder} (hb : builder.caveats.length ≤ maxCaveats) :
    cs.foldlM (caveatStep E) (builder, .new) = .ok builders ↔ ∃ caveats,
      List.Forall₂ (fun c caveat => decodeCaveat E c = .ok caveat) cs caveats ∧
      builder.caveats.length + caveats.length ≤ maxCaveats ∧
      ({ builder with caveats := builder.caveats ++ caveats }, .new) = builders := by
  induction cs generalizing builder with
  | nil =>
    simp only [List.foldlM_nil, pure_eq_ok, List.forall₂_nil_left_iff, exists_eq_left]
    simp [hb]
  | cons c cs ih =>
    simp only [List.foldlM_cons, caveatStep_eq, bind_assoc, bind_eq_ok,
      MacaroonBuilder.addCaveat_eq_ok, pure_eq_ok]
    constructor
    · intro h
      obtain ⟨caveat, hcaveat, _, ⟨hlt, rfl⟩, _, rfl, hrun⟩ := h
      obtain ⟨caveats, hall, hlen, rfl⟩ := (ih (by simp; omega)).mp hrun
      refine ⟨caveat :: caveats, .cons hcaveat hall, ?_, by simp⟩
      simp only [List.length_append, List.length_cons, List.length_nil] at hlen ⊢
      omega
    · intro h
      obtain ⟨_, hall, hlen, hbuilders⟩ := h
      cases hall with
      | @cons _ caveat _ caveats hcaveat hall =>
        simp only [List.length_cons] at hlen
        refine ⟨caveat, hcaveat, _, ⟨by omega, rfl⟩, _, rfl, (ih ?_).mpr ⟨caveats, hall, ?_, ?_⟩⟩
        · simp only [List.length_append, List.length_singleton]
          omega
        · simp only [List.length_append, List.length_singleton]
          omega
        · simpa using hbuilders

theorem setLocation_eq_ok {b b' : MacaroonBuilder} {location : Option String}
    (hb : b.location = none) : setLocation b location = .ok b' ↔
      (∀ l ∈ location, (asBytes l).length ≤ maxFieldSizeBytes) ∧
        { b with location := location } = b' := by
  obtain ⟨id, loc, sig, cs⟩ := b
  simp only at hb
  cases location with
  | none => simp [setLocation, hb]
  | some l =>
    simp only [setLocation, bind_eq_ok, checkFieldSize_eq_ok, pure_eq_ok]
    simp [MacaroonBuilder.setLocation]

theorem fromJson_eq_ok {ser : Serialization} {m : Macaroon} : fromJson E ser = .ok m ↔
    ser.v = 2 ∧ (ser.i = none ∨ ser.i64 = none) ∧ (ser.l = none ∨ ser.l64 = none) ∧
      (ser.s = none ∨ ser.s64 = none) ∧
      chooseId ser.i ser.i64 "No identifier found" = .ok m.identifier ∧ m.identifier ≠ [] ∧
      m.identifier.length ≤ maxFieldSizeBytes ∧ chooseLocation E ser.l ser.l64 = .ok m.location ∧
      (∀ l ∈ m.location, (asBytes l).length ≤ maxFieldSizeBytes) ∧
      chooseSignature E ser.s ser.s64 = .ok m.signature.bytes ∧
      List.Forall₂ (fun c caveat => decodeCaveat E c = .ok caveat) ser.c m.caveats ∧
      m.caveats.length ≤ maxCaveats := by
  simp only [fromJson, bind_eq_ok, rejectIf_eq_ok, rejectBoth_eq_ok, checkFieldSize_eq_ok,
    Decidable.not_not]
  constructor
  · intro h
    obtain ⟨_, hv, _, hi, _, hl, _, hs, id, hid, _, hidmax, location, hloc, _, hset, sig, hsig, _,
        hlen, _, hsetsig, _, hrun, hbuild⟩ := h
    obtain ⟨hlmax, rfl⟩ := (setLocation_eq_ok rfl).mp hset
    rw [MacaroonBuilder.setSignature, dif_pos hlen] at hsetsig
    cases hsetsig
    obtain ⟨caveats, hall, hcs, rfl⟩ := (foldlM_caveatStep (by simp [MacaroonBuilder.setIdentifier,
      MacaroonBuilder.new])).mp hrun
    obtain ⟨hne, signature, hsome, rfl⟩ := MacaroonBuilder.build_eq_ok.mp hbuild
    cases hsome
    refine ⟨hv, hi, hl, hs, hid, hne, hidmax, hloc, hlmax, hsig, ?_, ?_⟩
    · simpa [MacaroonBuilder.setIdentifier, MacaroonBuilder.new] using hall
    · simpa [MacaroonBuilder.setIdentifier, MacaroonBuilder.new] using hcs
  · intro h
    obtain ⟨hv, hi, hl, hs, hid, hne, hidmax, hloc, hlmax, hsig, hall, hcs⟩ := h
    refine ⟨(), hv, (), hi, (), hl, (), hs, m.identifier, hid, (), hidmax, m.location, hloc, _,
      (setLocation_eq_ok rfl).mpr ⟨hlmax, rfl⟩, m.signature.bytes, hsig, (),
      m.signature.length_eq, _, MacaroonBuilder.setSignature_bytes _ _, (_, .new),
      (foldlM_caveatStep (by simp [MacaroonBuilder.setIdentifier, MacaroonBuilder.new])).mpr
        ⟨m.caveats, hall, by simpa [MacaroonBuilder.setIdentifier, MacaroonBuilder.new] using hcs,
          rfl⟩, ?_⟩
    exact MacaroonBuilder.build_eq_ok.mpr ⟨hne, m.signature, rfl, rfl⟩

theorem forall₂_withinLimits {cs : List Caveat} {caveats : List Libmacaroon.Caveat}
    (h : List.Forall₂ (fun c caveat => decodeCaveat E c = .ok caveat) cs caveats) :
    ∀ c ∈ caveats, c.WithinLimits := by
  induction h with
  | nil => simp
  | cons hc _ ih => exact List.forall_mem_cons.mpr ⟨decodeCaveat_withinLimits hc, ih⟩

theorem fromJson_withinLimits {ser : Serialization} {m : Macaroon}
    (h : fromJson E ser = .ok m) : m.WithinLimits := by
  obtain ⟨_, _, _, _, _, hne, hid, _, hloc, _, hall, hlen⟩ := fromJson_eq_ok.mp h
  exact ⟨List.length_pos_iff.mpr hne, hid, hloc, hlen, forall₂_withinLimits hall⟩

end Libmacaroon.V2Json
