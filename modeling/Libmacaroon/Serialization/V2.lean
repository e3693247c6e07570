import Libmacaroon.Limits
import Libmacaroon.Serialization.MacaroonBuilder
import Libmacaroon.Serialization.V2Fields

/-! The V2 binary format (`serialization/v2.rs`). -/
namespace Libmacaroon.V2
open Checked Utf8

def serializeLocation : Option String → Bytes
  | some location => serializeField LOCATION (asBytes location)
  | none => []

def serializeCaveat : Caveat → Bytes
  | .firstParty fp => serializeField IDENTIFIER fp.predicate ++ [EOS]
  | .thirdParty tp =>
    serializeField LOCATION (asBytes tp.location) ++ serializeField IDENTIFIER tp.id ++
      serializeField VID tp.verifierId ++ [EOS]

def serializeBinary (macaroon : Macaroon) : Result Bytes :=
  .ok ([2] ++ serializeLocation macaroon.location ++
    serializeField IDENTIFIER macaroon.identifier ++ [EOS] ++
    macaroon.caveats.flatMap serializeCaveat ++ [EOS] ++
    serializeField SIGNATURE macaroon.signature.bytes)

/- The start that the header and every caveat share: an optional location, then the identifier.
   `tag` is the tag just read, `missing` the text of the error. The source keeps the location in
   the builder and asks `has_location()` whether the identifier is still to come. -/
def readLocatedIdentifier (w : Width) (missing : String) (tag : UInt8) (d : Deserializer) :
    Result (Option String × Bytes × Deserializer) :=
  if tag = LOCATION then do
    let (field, d) ← d.getField w
    let location ← strFromUtf8 field
    let (tag, d) ← d.getTag w
    rejectIf (tag ≠ IDENTIFIER) missing
    let (id, d) ← d.getField w
    return (some location, id, d)
  else if tag = IDENTIFIER then do
    let (id, d) ← d.getField w
    return (none, id, d)
  else deserializationError missing

def readHeader (w : Width) (d : Deserializer) : Result (MacaroonBuilder × Deserializer) := do
  let (version, d) ← d.getByte w
  rejectIf (version ≠ 2) "Wrong version number"
  let (tag, d) ← d.getTag w
  let (location, identifier, d) ← readLocatedIdentifier w "Identifier not found" tag d
  let (_, d) ← d.getEos w
  return ({ MacaroonBuilder.new with identifier := identifier, location := location }, d)

/- One pass of the caveat loop: the builder with the caveat, and the tag that follows it. -/
def readCaveat (w : Width) (tag : UInt8) (builder : MacaroonBuilder) (d : Deserializer) :
    Result (UInt8 × MacaroonBuilder × Deserializer) := do
  let (location, id, d) ← readLocatedIdentifier w "Caveat identifier not found" tag d
  let caveatBuilder : CaveatBuilder :=
    { CaveatBuilder.new with id := some id, location := location }
  let (tag, d) ← d.getTag w
  if tag = VID then do
    let (field, d) ← d.getField w
    let caveat ← (caveatBuilder.addVerifierId field).build
    let builder ← builder.addCaveat caveat
    let (_, d) ← d.getEos w
    let (tag, d) ← d.getTag w
    return (tag, builder, d)
  else if tag = EOS then do
    let caveat ← caveatBuilder.build
    let builder ← builder.addCaveat caveat
    let (tag, d) ← d.getTag w
    return (tag, builder, d)
  else deserializationError "Unexpected caveat tag found"

theorem readLocatedIdentifier_reads {w : Width} {missing : String} {tag : UInt8}
    {d d' : Deserializer} {location : Option String} {id : Bytes}
    (h : readLocatedIdentifier w missing tag d = .ok (location, id, d')) :
    id.length ≤ maxFieldSizeBytes ∧ (∀ l ∈ location, (asBytes l).length ≤ maxFieldSizeBytes) ∧
      ∃ bytes, tag :: bytes = serializeLocation location ++ serializeField IDENTIFIER id ∧
        d.Reads bytes d' := by
  unfold readLocatedIdentifier at h
  by_cases hl : tag = LOCATION
  · simp only [if_pos hl, bind_eq_ok, Prod.exists, rejectIf_eq_ok, strFromUtf8_eq_ok, pure_eq_ok,
      Prod.mk.injEq] at h
    obtain ⟨field, d₁, hfield, l, hloc, tag₂, d₂, htag, _, hid, i, d₃, hi, rfl, rfl, rfl⟩ := h
    rw [Decidable.not_not.mp hid] at htag
    obtain ⟨hlmax, hlread⟩ := Deserializer.getField_reads hfield
    obtain ⟨himax, hiread⟩ := Deserializer.getField_reads hi
    refine ⟨himax, ?_, _, ?_, (hlread.trans (Deserializer.getByte_reads htag)).trans hiread⟩
    · simpa [hloc] using hlmax
    · simp [serializeLocation, serializeField, hloc, hl]
  · by_cases hi : tag = IDENTIFIER
    · simp only [if_neg hl, if_pos hi, bind_eq_ok, Prod.exists, pure_eq_ok, Prod.mk.injEq] at h
      obtain ⟨field, d₂, hfield, rfl, rfl, rfl⟩ := h
      obtain ⟨hmax, hread⟩ := Deserializer.getField_reads hfield
      refine ⟨hmax, by simp, _, ?_, hread⟩
      simp [serializeLocation, serializeField, hi]
    · simp only [if_neg hl, if_neg hi] at h
      cases h

/-- An accepted caveat is spelled as `serialize_binary` spells it. The first byte of the spelling
is the tag the loop had read before, the byte after it is the tag for the next pass. -/
theorem readCaveat_reads {w : Width} {tag next : UInt8} {builder builder' : MacaroonBuilder}
    {d d' : Deserializer} (h : readCaveat w tag builder d = .ok (next, builder', d')) :
    ∃ c bytes, builder' = { builder with caveats := builder.caveats ++ [c] } ∧
      builder.caveats.length < maxCaveats ∧ c.WithinLimits ∧
      tag :: bytes = serializeCaveat c ++ [next] ∧ d.Reads bytes d' := by
  simp only [readCaveat, bind_eq_ok, Prod.exists] at h
  obtain ⟨location, id, d₁, hstart, tag₂, d₂, htag, h⟩ := h
  obtain ⟨hidmax, hlocmax, bytes, hbytes, hread⟩ := readLocatedIdentifier_reads hstart
  have hread := hread.trans (Deserializer.getByte_reads htag)
  by_cases hv : tag₂ = VID
  · simp only [if_pos hv, bind_eq_ok, Prod.exists, MacaroonBuilder.addCaveat, failIf_eq_ok,
      pure_eq_ok, Prod.mk.injEq] at h
    obtain ⟨vid, d₃, hvid, c, hc, _, ⟨_, hmax, rfl⟩, _, d₄, heos, _, d₅, hnext, rfl, rfl, rfl⟩ := h
    cases location with
    | none => cases hc
    | some location =>
      obtain rfl := Except.ok.inj hc
      obtain ⟨hvmax, hvread⟩ := Deserializer.getField_reads hvid
      refine ⟨_, _, rfl, by omega, ⟨hidmax, hvmax, hlocmax location rfl⟩, ?_, ((hread.trans
        hvread).trans (Deserializer.getEos_reads heos)).trans (Deserializer.getByte_reads hnext)⟩
      simp only [serializeLocation] at hbytes
      simp only [newThirdParty, serializeCaveat, ← List.cons_append, hbytes, hv]
      simp [serializeField]
  · by_cases he : tag₂ = EOS
    · simp only [if_neg hv, if_pos he, bind_eq_ok, Prod.exists, MacaroonBuilder.addCaveat,
        failIf_eq_ok, pure_eq_ok, Prod.mk.injEq] at h
      obtain ⟨c, hc, _, ⟨_, hmax, rfl⟩, _, d₅, hnext, rfl, rfl, rfl⟩ := h
      cases location with
      | some location => cases hc
      | none =>
        obtain rfl := Except.ok.inj hc
        refine ⟨_, _, rfl, by omega, hidmax, ?_, hread.trans (Deserializer.getByte_reads hnext)⟩
        simp only [serializeLocation, List.nil_append] at hbytes
        simp only [newFirstParty, serializeCaveat, ← List.cons_append, hbytes, he]
    · simp only [if_neg hv, if_neg he] at h
      cases h

theorem readCaveat_advances {w : Width} {tag next : UInt8} {builder builder' : MacaroonBuilder}
    {d d' : Deserializer} (h : readCaveat w tag builder d = .ok (next, builder', d')) :
    d'.data.length - d'.index < d.data.length - d.index := by
  obtain ⟨c, bytes, _, _, _, hbytes, hdata, hread⟩ := readCaveat_reads h
  have hne : bytes ≠ [] := by
    intro he
    rw [he] at hbytes
    cases c <;> simp [serializeCaveat, serializeField] at hbytes
  have hle := hread.le_length hne
  have hindex := hread.1
  have hpos := List.length_pos_iff.mpr hne
  rw [hdata]
  omega

def caveatLoop (w : Width) (tag : UInt8) (builder : MacaroonBuilder) (d : Deserializer) :
    Result (MacaroonBuilder × Deserializer) :=
  if tag = EOS then .ok (builder, d)
  else
    match _h : readCaveat w tag builder d with
    | .error e => .error e
    | .ok (next, builder', d') => caveatLoop w next builder' d'
termination_by d.data.length - d.index
decreasing_by exact readCaveat_advances _h

def readSignature (w : Width) (builder : MacaroonBuilder) (d : Deserializer) :
    Result (MacaroonBuilder × Deserializer) := do
  let (tag, d) ← d.getTag w
  if tag = SIGNATURE then do
    let (sig, d) ← d.getField w
    rejectIf (sig.length ≠ 32) "Bad signature length"
    let builder ← builder.setSignature sig
    return (builder, d)
  else deserializationError "Unexpected tag found"

def deserialize (w : Width) (data : Bytes) : Result Macaroon := do
  let (builder, d) ← readHeader w (Deserializer.new data)
  let (tag, d) ← d.getTag w
  let (builder, d) ← caveatLoop w tag builder d
  let (builder, d) ← readSignature w builder d
  rejectIf (!d.isExhausted) "trailing data after signature"
  builder.build

end Libmacaroon.V2
