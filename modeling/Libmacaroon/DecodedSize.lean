import Libmacaroon.TokenLanguage

/-! Decoding does not amplify: a token has room for every field of the macaroon it decodes to. -/
namespace Libmacaroon
open Checked Utf8

def Caveat.fields : Caveat → List Bytes
  | .firstParty fp => [fp.predicate]
  | .thirdParty tp => [tp.id, tp.verifierId, asBytes tp.location]

/-- The byte strings that a macaroon is made of. -/
def Macaroon.fields (m : Macaroon) : List Bytes :=
  m.location.toList.map asBytes ++ m.identifier :: m.caveats.flatMap Caveat.fields ++
    [m.signature.bytes]

/-- The least room for the fields: each of them with a tag and a size. -/
def room (fields : List Bytes) : Nat := (fields.map fun f => f.length + 2).sum

@[simp] theorem room_nil : room [] = 0 := rfl

@[simp] theorem room_cons (f : Bytes) (fs : List Bytes) :
    room (f :: fs) = f.length + 2 + room fs := by
  simp [room]

@[simp] theorem room_append (fs gs : List Bytes) : room (fs ++ gs) = room fs + room gs := by
  simp [room]

namespace V1
variable {w : Width} {data : Bytes} {m : Macaroon}

theorem emittedPackets_values (m : Macaroon) :
    (emittedPackets m).map Packet.value = m.fields := by
  have hcaveats (cs : List Caveat) :
      (cs.flatMap caveatPackets).map Packet.value = cs.flatMap Caveat.fields := by
    induction cs with
    | nil => rfl
    | cons c cs ih =>
      rw [List.flatMap_cons, List.map_append, ih, List.flatMap_cons]
      cases c <;> rfl
  simp only [emittedPackets, contentPackets, Macaroon.fields, List.map_append, List.map_cons,
    List.map_nil, hcaveats, locationPackets, List.map_map]
  rfl

theorem packets_length {ps : List Packet} (h : deserializeAsPackets w data = .ok ps) :
    data.length = (ps.map Packet.size).sum := by
  induction ps generalizing data with
  | nil => simp [deserializeAsPackets_eq_nil.mp h]
  | cons p ps ih =>
    obtain ⟨frame, rest, rfl, hframe, hrest⟩ := deserializeAsPackets_eq_cons.mp h
    rw [List.length_append, hframe.length, ih hrest, List.map_cons, List.sum_cons]

theorem room_values_le (ps : List Packet) :
    room (ps.map Packet.value) ≤ (ps.map Packet.size).sum := by
  induction ps with
  | nil => simp
  | cons p ps ih =>
    simp only [List.map_cons, room_cons, List.sum_cons, Packet.size, headerSize]
    omega

theorem deserialize_room (h : deserialize w data = .ok m) : room m.fields ≤ data.length := by
  obtain ⟨ps, b, hps, hpackets, _⟩ := deserialize_accounts h
  have hsum : (ps.map Packet.size).sum =
      ((emittedPackets m).map Packet.size).sum + ((pendingPackets b).map Packet.size).sum := by
    have hperm : ps.Perm (emittedPackets m ++ pendingPackets b) :=
      Multiset.coe_eq_coe.mp (by rw [hpackets, Multiset.coe_add])
    rw [(hperm.map Packet.size).sum_nat, List.map_append, List.sum_append_nat]
  have hroom := room_values_le (emittedPackets m)
  rw [emittedPackets_values] at hroom
  rw [packets_length hps, hsum]
  omega

end V1

namespace V2

theorem serializeField_room (tag : UInt8) (value : Bytes) :
    value.length + 2 ≤ (serializeField tag value).length := by
  have hsize : 1 ≤ (varintSize value.length).length := by
    rw [varintSize]
    split <;> simp
  simp only [serializeField, List.length_append, List.length_cons]
  omega

theorem serializeCaveat_room (c : Caveat) : room c.fields ≤ (serializeCaveat c).length := by
  cases c with
  | firstParty fp =>
    have hpredicate := serializeField_room IDENTIFIER fp.predicate
    simp only [Caveat.fields, room_cons, room_nil, serializeCaveat, List.length_append]
    omega
  | thirdParty tp =>
    have hlocation := serializeField_room LOCATION (asBytes tp.location)
    have hid := serializeField_room IDENTIFIER tp.id
    have hvid := serializeField_room VID tp.verifierId
    simp only [Caveat.fields, room_cons, room_nil, serializeCaveat, List.length_append]
    omega

theorem serializeCaveats_room (cs : List Caveat) :
    room (cs.flatMap Caveat.fields) ≤ (cs.flatMap serializeCaveat).length := by
  induction cs with
  | nil => simp
  | cons c cs ih =>
    have hc := serializeCaveat_room c
    simp only [List.flatMap_cons, room_append, List.length_append]
    omega

theorem serializeBinary_room {m : Macaroon} {data : Bytes} (h : serializeBinary m = .ok data) :
    room m.fields ≤ data.length := by
  obtain rfl := Except.ok.inj h
  have hlocation : room (m.location.toList.map asBytes) ≤ (serializeLocation m.location).length := by
    cases m.location with
    | none => simp
    | some l => simpa [serializeLocation] using serializeField_room LOCATION (asBytes l)
  have hid := serializeField_room IDENTIFIER m.identifier
  have hcaveats := serializeCaveats_room m.caveats
  have hsignature := serializeField_room SIGNATURE m.signature.bytes
  simp only [Macaroon.fields, room_append, room_cons, room_nil, List.length_append]
  omega

end V2

theorem Macaroon.deserializeBinary_room {w : Width} {token : Bytes} {m : Macaroon}
    (h : deserializeBinary w token = .ok m) : room m.fields ≤ token.length := by
  obtain ⟨_, hwrite⟩ | ⟨_, hread⟩ := deserializeBinary_iff.mp h
  · exact V2.serializeBinary_room hwrite
  · exact V1.deserialize_room hread

theorem Base64Text.length_le {v text : Bytes} (h : Base64Text v text) :
    4 * v.length ≤ 3 * text.length := by
  obtain ⟨A, _, signs, _, rfl⟩ := h
  have hle := Base64.four_mul_length_le v
  rw [List.length_append, Base64.encode_unpadded, List.length_map]
  omega

/-- A binary token is at least as long as the macaroon's fields, each with two bytes more, and a
base64 token is longer than that by a third. -/
theorem decoding_never_amplifies (E : Base64Crate) (J : V2Json.SerdeJson) (w : Width)
    (token : Bytes) (m : Macaroon) (hS : E.STANDARD.Decodes Base64.standard)
    (hU : E.URL_SAFE.Decodes Base64.urlSafe) :
    (Macaroon.deserializeBinary w token = .ok m → room m.fields ≤ token.length) ∧
      (Macaroon.deserialize E J w token = .ok m → token[0]? ≠ some 0x7b →
        4 * room m.fields ≤ 3 * token.length) := by
  refine ⟨Macaroon.deserializeBinary_room, fun h hbrace => ?_⟩
  simp only [Macaroon.deserialize, bind_eq_ok, indexAt_eq_ok, Macaroon.validate_eq_ok] at h
  obtain ⟨_, _, first, hfirst, mac, hmatch, _, rfl⟩ := h
  unfold Macaroon.matchToken at hmatch
  split_ifs at hmatch with hopen
  · exact absurd (hopen ▸ hfirst) hbrace
  · obtain ⟨binary, hdecode, hbinary⟩ := bind_eq_ok.mp hmatch
    have htext := ((base64DecodeFlexible_iff hS hU).mp hdecode).2.length_le
    have hroom := Macaroon.deserializeBinary_room hbinary
    omega

/- `decoded` as a binary token and in base64. -/
theorem decoding_never_amplifies_halfPadded :
    room decoded.fields ≤ ([2, 2, 1, 65, 0, 0, 6, 32] ++ zeroKey.bytes).length ∧
      4 * room decoded.fields ≤ 3 * halfPadded.length := by
  have hS := indifferentEngine_decodes Base64.standard true
  have hU := indifferentEngine_decodes Base64.urlSafe true
  let J : V2Json.SerdeJson := ⟨fun _ => .error "", fun _ => .error ""⟩
  constructor
  · exact (decoding_never_amplifies indifferentBase64 J .w32 _ decoded hS hU).1 (by decide +kernel)
  · exact (decoding_never_amplifies indifferentBase64 J .w32 halfPadded decoded hS hU).2
      (by decide +kernel) (by decide +kernel)

end Libmacaroon
