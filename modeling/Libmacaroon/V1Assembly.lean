import Libmacaroon.V1Packets

/-! The assembly loop on packets in the order in which `serialize_binary` writes them. -/
namespace Libmacaroon.V1
open Checked Utf8

namespace Assembly
variable {a a' b : Assembly} {value : Bytes}

section Step
variable (a value)

theorem step_location : a.step ⟨LOCATION, value⟩ = (do
    rejectIf a.seenSignature "packet found after signature"
    a.onLocation value) := by
  simp [step]

theorem step_identifier : a.step ⟨IDENTIFIER, value⟩ = (do
    rejectIf a.seenSignature "packet found after signature"
    a.onIdentifier value) := by
  simp [step, LOCATION, IDENTIFIER]

theorem step_signature : a.step ⟨SIGNATURE, value⟩ = (do
    rejectIf a.seenSignature "packet found after signature"
    a.onSignature value) := by
  simp [step, LOCATION, IDENTIFIER, SIGNATURE]

theorem step_cid : a.step ⟨CID, value⟩ = (do
    rejectIf a.seenSignature "packet found after signature"
    a.onCid value) := by
  simp [step, LOCATION, IDENTIFIER, SIGNATURE, CID]

theorem step_vid : a.step ⟨VID, value⟩ = (do
    rejectIf a.seenSignature "packet found after signature"
    a.onVid value) := by
  simp [step, LOCATION, IDENTIFIER, SIGNATURE, CID, VID]

theorem step_cl : a.step ⟨CL, value⟩ = (do
    rejectIf a.seenSignature "packet found after signature"
    a.onCl value) := by
  simp [step, LOCATION, IDENTIFIER, SIGNATURE, CID, VID, CL]

end Step

theorem flushCaveat_eq_ok : a.flushCaveat = .ok b ↔
    (a.caveatBuilder.id = none ∧ b = a) ∨ ∃ caveat, a.caveatBuilder.hasId ∧
      a.caveatBuilder.build = .ok caveat ∧ a.builder.caveats.length < maxCaveats ∧
      b = { a with builder := { a.builder with caveats := a.builder.caveats ++ [caveat] },
                   caveatBuilder := .new } := by
  by_cases hid : a.caveatBuilder.hasId
  · have hsome : a.caveatBuilder.id ≠ none := by
      simpa [CaveatBuilder.hasId, Option.isSome_iff_ne_none] using hid
    simp only [flushCaveat, hid, if_true, bind_eq_ok, MacaroonBuilder.addCaveat_eq_ok, pure_eq_ok,
      hsome, false_and, false_or]
    constructor
    · intro h
      obtain ⟨caveat, hbuild, _, ⟨hlt, rfl⟩, hb⟩ := h
      exact ⟨caveat, trivial, hbuild, hlt, hb.symm⟩
    · intro h
      obtain ⟨caveat, _, hbuild, hlt, hb⟩ := h
      exact ⟨caveat, hbuild, _, ⟨hlt, rfl⟩, hb.symm⟩
  · have hnone : a.caveatBuilder.id = none := by
      simpa [CaveatBuilder.hasId] using hid
    simp [flushCaveat, hid, hnone, eq_comm]

/-- After the packets of `c` the open caveat is `c`: flushing it hands over exactly `c`. -/
theorem foldlM_caveatPackets (c : Caveat) (hflush : a.flushCaveat = .ok b)
    (hclosed : b.caveatBuilder = .new) (hsig : b.seenSignature = false)
    (hlt : b.builder.caveats.length < maxCaveats) :
    ∃ a', (caveatPackets c).foldlM step a = .ok a' ∧ a'.seenSignature = false ∧
      a'.flushCaveat =
        .ok { b with builder := { b.builder with caveats := b.builder.caveats ++ [c] } } := by
  have hasig : a.seenSignature = false := by
    obtain ⟨_, rfl⟩ | ⟨_, _, _, _, rfl⟩ := flushCaveat_eq_ok.mp hflush
    · exact hsig
    · exact hsig
  cases c with
  | firstParty fp =>
    refine ⟨{ b with caveatBuilder := ⟨some fp.predicate, none, none⟩ }, ?_, hsig, ?_⟩
    · simp [caveatPackets, step_cid, hasig, rejectIf, failIf, onCid, hflush, hclosed,
        CaveatBuilder.addId, CaveatBuilder.new]
    · refine flushCaveat_eq_ok.mpr (.inr ⟨.firstParty fp, rfl, rfl, hlt, ?_⟩)
      simp [← hclosed]
  | thirdParty tp =>
    refine ⟨{ b with caveatBuilder := ⟨some tp.id, some tp.verifierId, some tp.location⟩ }, ?_,
      hsig, ?_⟩
    · simp [caveatPackets, step_cid, step_vid, step_cl, hasig, hsig, rejectIf, failIf, onCid, onVid,
        onCl, hflush, hclosed, CaveatBuilder.addId, CaveatBuilder.addVerifierId,
        CaveatBuilder.addLocation, CaveatBuilder.hasVerifierId, CaveatBuilder.hasLocation,
        CaveatBuilder.new, strFromUtf8]
    · refine flushCaveat_eq_ok.mpr (.inr ⟨.thirdParty tp, rfl, rfl, hlt, ?_⟩)
      simp [← hclosed]

theorem foldlM_caveats (cs : List Caveat) (hflush : a.flushCaveat = .ok b)
    (hclosed : b.caveatBuilder = .new) (hasig : a.seenSignature = false)
    (hlen : b.builder.caveats.length + cs.length ≤ maxCaveats) :
    ∃ a', (cs.flatMap caveatPackets).foldlM step a = .ok a' ∧ a'.seenSignature = false ∧
      a'.flushCaveat =
        .ok { b with builder := { b.builder with caveats := b.builder.caveats ++ cs } } := by
  induction cs generalizing a b with
  | nil => exact ⟨a, rfl, hasig, by simpa using hflush⟩
  | cons c cs ih =>
    have hsig : b.seenSignature = false := by
      obtain ⟨_, rfl⟩ | ⟨_, _, _, _, rfl⟩ := flushCaveat_eq_ok.mp hflush
      · exact hasig
      · exact hasig
    simp only [List.length_cons] at hlen
    obtain ⟨a₁, hrun, hasig₁, hflush₁⟩ :=
      foldlM_caveatPackets c hflush hclosed hsig (by omega)
    obtain ⟨a₂, hrun₂, hasig₂, hflush₂⟩ := ih hflush₁ hclosed hasig₁
      (by simp only [List.length_append, List.length_singleton]; omega)
    refine ⟨a₂, ?_, hasig₂, ?_⟩
    · rw [List.flatMap_cons, List.foldlM_append, hrun, ok_bind, hrun₂]
    · rw [hflush₂]
      simp

theorem step_signature_of_flush {signature : MacaroonKey} (hflush : a.flushCaveat = .ok b)
    (hasig : a.seenSignature = false) : a.step ⟨SIGNATURE, signature.bytes⟩ =
      .ok { b with builder := { b.builder with signature := some signature },
                   seenSignature := true } := by
  have hflush' : { a with seenSignature := true }.flushCaveat =
      .ok { b with seenSignature := true } := by
    rw [flushCaveat_eq_ok] at hflush ⊢
    obtain ⟨hid, rfl⟩ | ⟨caveat, hid, hbuild, hlt, rfl⟩ := hflush
    · exact .inl ⟨hid, rfl⟩
    · exact .inr ⟨caveat, hid, hbuild, hlt, rfl⟩
  rw [step_signature]
  simp [hasig, rejectIf, failIf, onSignature, hflush', signature.length_eq,
    MacaroonBuilder.setSignature_bytes]

/-- The state of the loop before the first caveat. -/
def header (location : Option String) (identifier : Bytes) : Assembly :=
  ⟨⟨identifier, location, none, []⟩, .new, location.isSome, true, false⟩

theorem foldlM_header (location : Option String) (identifier : Bytes) :
    (locationPackets location ++ [(⟨IDENTIFIER, identifier⟩ : Packet)]).foldlM step new =
      .ok (header location identifier) := by
  cases location with
  | none =>
    simp [locationPackets, step_identifier, new, rejectIf, failIf, onIdentifier,
      MacaroonBuilder.setIdentifier, MacaroonBuilder.new]
    rfl
  | some l =>
    simp [locationPackets, step_location, step_identifier, new, rejectIf, failIf, onIdentifier,
      onLocation, MacaroonBuilder.setIdentifier, MacaroonBuilder.setLocation, MacaroonBuilder.new,
      strFromUtf8]
    rfl

/-- The loop over the packets of a macaroon ends with the fields of that macaroon. -/
theorem foldlM_emittedPackets {m : Macaroon} (hlen : m.caveats.length ≤ maxCaveats) :
    (emittedPackets m).foldlM step new =
      .ok ({ header m.location m.identifier with
        builder := ⟨m.identifier, m.location, some m.signature, m.caveats⟩,
        seenSignature := true } : Assembly) := by
  have hsplit : emittedPackets m = (locationPackets m.location ++ [⟨IDENTIFIER, m.identifier⟩]) ++
      (m.caveats.flatMap caveatPackets ++ [⟨SIGNATURE, m.signature.bytes⟩]) := by
    simp [emittedPackets, contentPackets]
  have hheader := foldlM_header m.location m.identifier
  obtain ⟨a, hrun, hasig, hflush⟩ := foldlM_caveats m.caveats
    (flushCaveat_eq_ok.mpr (.inl ⟨rfl, rfl⟩) : (header m.location m.identifier).flushCaveat = .ok _)
    rfl rfl (by simpa [header] using hlen)
  rw [hsplit, List.foldlM_append, hheader, ok_bind, List.foldlM_append, hrun, ok_bind]
  simp [step_signature_of_flush hflush hasig, header]

end Assembly

def tags : List String := [LOCATION, IDENTIFIER, SIGNATURE, CID, VID, CL]

theorem space_not_mem_tags : ∀ tag ∈ tags, 32 ∉ asBytes tag := by decide +kernel

theorem caveatPackets_key {c : Caveat} {p : Packet} (hp : p ∈ caveatPackets c) :
    p.key ∈ [CID, VID, CL] := by
  cases c with
  | firstParty fp => simp [List.mem_singleton.mp hp]
  | thirdParty tp =>
    simp only [caveatPackets, List.mem_cons, List.not_mem_nil, or_false] at hp
    obtain rfl | rfl | rfl := hp <;> simp

theorem emittedPackets_key {m : Macaroon} {p : Packet} (hp : p ∈ emittedPackets m) :
    p.key ∈ tags := by
  simp only [emittedPackets, contentPackets, locationPackets, List.mem_append, List.mem_map,
    List.mem_cons, List.not_mem_nil, or_false, List.mem_flatMap] at hp
  obtain (⟨l, _, rfl⟩ | rfl | ⟨c, _, hc⟩) | rfl := hp
  · simp [tags]
  · simp [tags]
  · have hkey := caveatPackets_key hc
    simp only [List.mem_cons, List.not_mem_nil, or_false] at hkey
    obtain h | h | h := hkey <;> simp [tags, h]
  · simp [tags]

/-- Every macaroon with a name and an admissible number of caveats is read back, when it could be
written at all. -/
theorem deserialize_serializeBinary {w : Width} {m : Macaroon} {data : Bytes}
    (hid : m.identifier ≠ []) (hlen : m.caveats.length ≤ maxCaveats)
    (h : serializeBinary m = .ok data) : deserialize w data = .ok m := by
  rw [serializeBinary_eq] at h
  have hkeys : ∀ p ∈ emittedPackets m, 32 ∉ asBytes p.key := by
    intro p hp
    exact space_not_mem_tags p.key (emittedPackets_key hp)
  rw [deserialize, deserializeAsPackets_of_serialize hkeys h, ok_bind,
    Assembly.foldlM_emittedPackets hlen, ok_bind]
  exact MacaroonBuilder.build_eq_ok.mpr ⟨hid, m.signature, rfl, rfl⟩

end Libmacaroon.V1
