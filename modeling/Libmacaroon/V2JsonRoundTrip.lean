import Libmacaroon.Instances
import Libmacaroon.Token
import Libmacaroon.V2JsonDecoding

/-! The V2JSON round trip. It fails on empty bytes: their base64 is the empty string, which the
flexible decoder refuses. -/
namespace Libmacaroon.V2Json
open Checked Utf8
variable {E : Base64Crate} {J : SerdeJson}

/-- The bytes that a caveat puts into its `i64` field. -/
def caveatId : Libmacaroon.Caveat → ByteString
  | .firstParty fp => fp.predicate
  | .thirdParty tp => tp.id

/-- `serde_json` writes these fields as a JSON object and reads the same fields back from it. -/
def SerdeJson.Carries (J : SerdeJson) (fields : SerializationFields String) : Prop :=
  ∃ text, J.toString fields = .ok text ∧ (asBytes text)[0]? = some 0x7b ∧
    J.fromSlice (asBytes text) = .ok fields

theorem visitStr_display {b : ByteString} (hE : E.Lawful) (hb : b ≠ []) :
    visitStr E (b.display E) = .ok b := by
  rw [visitStr, ByteString.display, hE.urlSafeNoPad.encode,
    base64DecodeFlexible_encode hE false hb]

theorem visitStr_display_nil (hE : E.Lawful) :
    visitStr E (ByteString.display E []) = .fromForeign (.json "unable to base64 decode value") := by
  rw [visitStr, ByteString.display, hE.urlSafeNoPad.encode, Base64.encode_nil,
    base64DecodeFlexible_nil]

/-- The bytes of a caveat that V2JSON writes in base64. -/
def base64Fields : Libmacaroon.Caveat → List ByteString
  | .firstParty fp => [fp.predicate]
  | .thirdParty tp => [tp.id, tp.verifierId]

theorem visitStr_display_eq_ok (hE : E.Lawful) {b b' : ByteString} :
    visitStr E (b.display E) = .ok b' ↔ b ≠ [] ∧ b' = b := by
  by_cases hb : b = []
  · subst hb
    simp [visitStr_display_nil hE]
  · simp [visitStr_display hE hb, hb, eq_comm]

theorem deserialize_caveat_eq_ok (hE : E.Lawful) {c : Libmacaroon.Caveat} {c' : Caveat} :
    ((caveatFromMacaroon c).serialize E).deserialize E = .ok c' ↔
      (∀ b ∈ base64Fields c, b ≠ []) ∧ c' = caveatFromMacaroon c := by
  cases c with
  | firstParty fp =>
    simp only [CaveatFields.deserialize, CaveatFields.serialize, caveatFromMacaroon, base64Fields,
      Option.map_some, Option.map_none, visitOption, bind_eq_ok, pure_eq_ok,
      visitStr_display_eq_ok hE, List.forall_mem_singleton]
    constructor
    · intro h
      obtain ⟨_, ⟨_, ⟨hne, rfl⟩, rfl⟩, _, hnone, rfl⟩ := h
      cases hnone
      exact ⟨hne, rfl⟩
    · intro h
      obtain ⟨hne, rfl⟩ := h
      exact ⟨_, ⟨_, ⟨hne, rfl⟩, rfl⟩, none, rfl, rfl⟩
  | thirdParty tp =>
    simp only [CaveatFields.deserialize, CaveatFields.serialize, caveatFromMacaroon, base64Fields,
      Option.map_some, visitOption, bind_eq_ok, pure_eq_ok, visitStr_display_eq_ok hE,
      List.forall_mem_cons]
    constructor
    · intro h
      obtain ⟨_, ⟨_, ⟨hid, rfl⟩, rfl⟩, _, ⟨_, ⟨hvid, rfl⟩, rfl⟩, rfl⟩ := h
      exact ⟨⟨hid, hvid, by simp⟩, rfl⟩
    · intro h
      obtain ⟨⟨hid, hvid, _⟩, rfl⟩ := h
      exact ⟨_, ⟨_, ⟨hid, rfl⟩, rfl⟩, _, ⟨_, ⟨hvid, rfl⟩, rfl⟩, rfl⟩

theorem deserializeCaveats_eq_ok (hE : E.Lawful) {cs : List Libmacaroon.Caveat}
    {cs' : List Caveat} :
    deserializeCaveats E ((cs.map caveatFromMacaroon).map (CaveatFields.serialize E)) = .ok cs' ↔
      (∀ c ∈ cs, ∀ b ∈ base64Fields c, b ≠ []) ∧ cs' = cs.map caveatFromMacaroon := by
  induction cs generalizing cs' with
  | nil => simp [deserializeCaveats, eq_comm]
  | cons c cs ih =>
    simp only [List.map_cons, deserializeCaveats, bind_eq_ok, pure_eq_ok,
      deserialize_caveat_eq_ok hE, ih, List.forall_mem_cons]
    constructor
    · intro h
      obtain ⟨_, ⟨hc, rfl⟩, _, ⟨hcs, rfl⟩, rfl⟩ := h
      exact ⟨⟨hc, hcs⟩, rfl⟩
    · intro h
      obtain ⟨⟨hc, hcs⟩, rfl⟩ := h
      exact ⟨_, ⟨hc, rfl⟩, _, ⟨hcs, rfl⟩, rfl⟩

/-- A third-party caveat of the API has a verifier id, so only the id can be empty. -/
theorem base64Fields_ne_nil {c : Libmacaroon.Caveat}
    (hvid : ∀ tp, c = .thirdParty tp → tp.verifierId ≠ []) :
    (∀ b ∈ base64Fields c, b ≠ []) ↔ caveatId c ≠ [] := by
  cases c with
  | firstParty fp => simp [base64Fields, caveatId]
  | thirdParty tp => simpa [base64Fields, caveatId] using fun _ => hvid tp rfl

/- `from_json` on the fields of a caveat, and of a macaroon. -/
theorem decodeCaveat_caveatFromMacaroon {c : Libmacaroon.Caveat} (hc : c.WithinLimits) :
    decodeCaveat E (caveatFromMacaroon c) = .ok c := by
  cases c with
  | firstParty fp =>
    exact decodeCaveat_eq_ok.mpr ⟨.inl rfl, .inl rfl, .inl rfl, fp.predicate, none, rfl, hc, rfl,
      by simp, by simp [chooseVerifierId, caveatFromMacaroon], rfl⟩
  | thirdParty tp =>
    obtain ⟨hid, hvid, hloc⟩ := hc
    exact decodeCaveat_eq_ok.mpr ⟨.inl rfl, .inr rfl, .inl rfl, tp.id, some tp.location, rfl, hid,
      rfl, by simpa using hloc, by simpa [chooseVerifierId, caveatFromMacaroon] using hvid, rfl⟩

theorem fromJson_fromMacaroon (hE : E.Lawful) {m : Macaroon} (hm : m.WithinLimits)
    {ser : Serialization} (hser : fromMacaroon E m = .ok ser) : fromJson E ser = .ok m := by
  cases hser
  have hsig : m.signature.bytes ≠ [] := by
    intro hnil
    have := m.signature.length_eq
    simp [hnil] at this
  refine fromJson_eq_ok.mpr ⟨rfl, .inl rfl, .inr rfl, .inl rfl, rfl,
    List.length_pos_iff.mp hm.identifier_pos, hm.identifier_le, ?_, hm.location_le, ?_, ?_,
    hm.caveats_le⟩
  · cases h : m.location <;> simp [chooseLocation]
  · rw [chooseSignature]
    simp only [hE.urlSafeNoPad.encode, base64DecodeFlexible_encode hE false hsig]
  · rw [List.forall₂_map_left_iff, List.forall₂_same]
    exact fun c hc => decodeCaveat_caveatFromMacaroon (hm.caveat_le c hc)

/-- What `serde_json` hands to `from_json` for the text it wrote for `ser`. -/
theorem deserialize_serialize {ser : Serialization} {text : String}
    (hcarry : J.fromSlice (asBytes text) = .ok (ser.serialize E)) :
    deserialize E J (asBytes text) = (ser.serialize E).deserialize E >>= fromJson E := by
  simp only [deserialize, readSerialization, hcarry]

theorem deserialize_text {w : Width} {text : String} (htext : (asBytes text)[0]? = some 0x7b) :
    Macaroon.deserialize E J w (asBytes text) =
      deserialize E J (asBytes text) >>= Macaroon.validate := by
  have hne : asBytes text ≠ [] := by
    intro hnil
    simp [hnil] at htext
  have hreject : rejectIf (asBytes text = []) "empty token provided" = .ok () :=
    rejectIf_eq_ok.mpr hne
  have hindex : (indexAt (asBytes text) 0 : Result UInt8) = .ok 0x7b := indexAt_eq_ok.mpr htext
  rw [Macaroon.deserialize, hreject, ok_bind, hindex, ok_bind, Macaroon.matchToken, if_pos rfl]

/-- The fields that are written for `m`. -/
def writtenFields (E : Base64Crate) (m : Macaroon) : SerializationFields String :=
  match fromMacaroon E m with
  | .ok ser => ser.serialize E
  | .error _ => ⟨0, none, none, none, none, [], none, none⟩

/-- The fields written for `m` are read back exactly when no base64 text is empty. -/
theorem deserialize_writtenFields_eq_ok (hE : E.Lawful) {m : Macaroon} (hid : m.identifier ≠ [])
    {ser : Serialization} : (writtenFields E m).deserialize E = .ok ser ↔
      (∀ c ∈ m.caveats, ∀ b ∈ base64Fields c, b ≠ []) ∧ fromMacaroon E m = .ok ser := by
  simp only [writtenFields, fromMacaroon, SerializationFields.deserialize,
    SerializationFields.serialize, Option.map_some, visitOption, visitStr_display hE hid, ok_bind,
    bind_eq_ok, pure_eq_ok, deserializeCaveats_eq_ok hE, Except.ok.injEq]
  constructor
  · intro h
    obtain ⟨_, rfl, _, ⟨hne, rfl⟩, rfl⟩ := h
    exact ⟨hne, rfl⟩
  · intro h
    obtain ⟨hne, rfl⟩ := h
    exact ⟨_, rfl, _, ⟨hne, rfl⟩, rfl⟩

/-- A constructed macaroon survives V2JSON exactly when none of its predicates and third-party ids
is empty. -/
theorem v2json_round_trip_iff (B : Backend) (E : Base64Crate) (J : SerdeJson) (w : Width)
    (m : Macaroon) (hB : B.SealsKeysTo48) (hE : E.Lawful) (hm : Constructed B m)
    (hJ : ∀ ser, fromMacaroon E m = .ok ser → J.Carries (ser.serialize E)) :
    (∃ t, m.serialize E J .V2JSON = .ok t ∧ Macaroon.deserialize E J w (asBytes t) = .ok m) ↔
      ∀ c ∈ m.caveats, caveatId c ≠ [] := by
  obtain ⟨ser, hser⟩ : ∃ ser, fromMacaroon E m = .ok ser := ⟨_, rfl⟩
  obtain ⟨text, hwrite, htext, hcarry⟩ := hJ ser hser
  have hserialize : m.serialize E J .V2JSON = .ok text := by
    simp only [Macaroon.serialize, serialize, hser, ok_bind, hwrite]
  have hdeserialize : Macaroon.deserialize E J w (asBytes text) =
      (ser.serialize E).deserialize E >>= fromJson E >>= Macaroon.validate := by
    rw [deserialize_text htext, deserialize_serialize hcarry]
  have hfields {ser' : Serialization} : (ser.serialize E).deserialize E = .ok ser' ↔
      (∀ c ∈ m.caveats, ∀ b ∈ base64Fields c, b ≠ []) ∧ fromMacaroon E m = .ok ser' := by
    cases hser
    exact deserialize_writtenFields_eq_ok hE hm.identifier_ne_nil
  have hfilled : (∀ c ∈ m.caveats, ∀ b ∈ base64Fields c, b ≠ []) ↔
      ∀ c ∈ m.caveats, caveatId c ≠ [] := by
    refine forall₂_congr fun c hc => base64Fields_ne_nil ?_
    rintro tp rfl hnil
    have := hm.verifierId_length hB tp hc
    simp [hnil] at this
  rw [← hfilled]
  constructor
  · intro h
    obtain ⟨t, ht, hok⟩ := h
    obtain rfl : text = t := Except.ok.inj (hserialize.symm.trans ht)
    rw [hdeserialize] at hok
    obtain ⟨_, hjson, _⟩ := bind_eq_ok.mp hok
    obtain ⟨ser', hread, _⟩ := bind_eq_ok.mp hjson
    exact (hfields.mp hread).1
  · intro hne
    refine ⟨text, hserialize, ?_⟩
    rw [hdeserialize, hfields.mpr ⟨hne, hser⟩, ok_bind,
      fromJson_fromMacaroon hE (hm.withinLimits hB) hser, ok_bind]
    exact Macaroon.validate_eq_ok.mpr ⟨hm.identifier_ne_nil, rfl⟩

theorem json_carries {fields : SerializationFields String}
    (h : (asBytes (Instances.jsonText fields))[0]? = some 0x7b) :
    (Instances.json fields).Carries fields := by
  refine ⟨Instances.jsonText fields, rfl, h, ?_⟩
  simp only [Instances.json, if_true]

theorem v2json_round_trip_iff_delegated :
    (∃ t, Instances.delegated.serialize Instances.base64
        (Instances.json (writtenFields Instances.base64 Instances.delegated)) .V2JSON = .ok t ∧
      Macaroon.deserialize Instances.base64
        (Instances.json (writtenFields Instances.base64 Instances.delegated)) .w64 (asBytes t) =
          .ok Instances.delegated) ↔
      ∀ c ∈ Instances.delegated.caveats, caveatId c ≠ [] :=
  v2json_round_trip_iff Instances.backend _ _ _ _ Instances.backend_sealsKeysTo48
    Instances.base64_lawful Instances.delegated_minted.constructed (by
      intro ser hser
      cases hser
      exact json_carries (by decide +kernel))

/- A macaroon whose only predicate is empty. -/
def emptyPredicate : Macaroon := Instances.created.push Instances.backend (newFirstParty [])

/-- The API accepts an empty predicate, V2JSON writes it and does not read it back. -/
theorem v2json_rejects_empty_predicate :
    Constructed Instances.backend emptyPredicate ∧
      (Instances.json (writtenFields Instances.base64 emptyPredicate)).Carries
        (writtenFields Instances.base64 emptyPredicate) ∧
      emptyPredicate.serialize Instances.base64
        (Instances.json (writtenFields Instances.base64 emptyPredicate)) .V2JSON =
          .ok (Instances.jsonText (writtenFields Instances.base64 emptyPredicate)) ∧
      (Macaroon.deserialize Instances.base64
        (Instances.json (writtenFields Instances.base64 emptyPredicate)) .w64
        (asBytes (Instances.jsonText (writtenFields Instances.base64 emptyPredicate)))).isOk =
          false := by
  refine ⟨?_, json_carries (by decide +kernel), rfl, by decide +kernel⟩
  exact .addFirstPartyCaveat Instances.created_minted.constructed
    (Macaroon.addFirstPartyCaveat_eq_ok.mpr ⟨by decide, by decide, rfl⟩)

end Libmacaroon.V2Json
