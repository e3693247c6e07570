import Libmacaroon.TokenLanguage
import Libmacaroon.V2JsonCanonicalForm

/-! The JSON objects that the V2JSON reader accepts: every value stands in one member of its pair, as it
is or in base64, and the macaroon keeps the limits. -/
namespace Libmacaroon.V2Json
open Checked Utf8

/-- The two members of a pair and the value they give: `read` of the plain one, or what the other has
in base64, which is not empty. -/
inductive Pair {β : Type} (read : β → Bytes) : Option β → Option String → Option Bytes → Prop where
  | absent : Pair read none none none
  | plain (x : β) : Pair read (some x) none (some (read x))
  | base64 {text : String} {v : Bytes} (hne : v ≠ []) (htext : Base64Text v (asBytes text)) :
      Pair read none (some text) (some v)

/-- The fields give the caveat: an identifier alone, or all three values. -/
def CaveatFields.Spells (c : CaveatFields String) : Libmacaroon.Caveat → Prop
  | .firstParty fp => Pair asBytes c.i c.i64 (some fp.predicate) ∧ Pair asBytes c.l c.l64 none ∧
      Pair asBytes c.v c.v64 none
  | .thirdParty tp => Pair asBytes c.i c.i64 (some tp.id) ∧
      Pair asBytes c.l c.l64 (some (asBytes tp.location)) ∧
      Pair asBytes c.v c.v64 (some tp.verifierId)

structure SerializationFields.Spells (ser : SerializationFields String) (m : Macaroon) : Prop where
  version : ser.v = 2
  identifier : Pair asBytes ser.i ser.i64 (some m.identifier)
  location : Pair asBytes ser.l ser.l64 (m.location.map asBytes)
  signature : Pair id ser.s ser.s64 (some m.signature.bytes)
  caveats : List.Forall₂ CaveatFields.Spells ser.c m.caveats

section Pairs
variable {E : Base64Crate} (hS : E.STANDARD.Decodes Base64.standard)
  (hU : E.URL_SAFE.Decodes Base64.urlSafe)
include hS hU

theorem visitStr_eq_ok {value : String} {raw : ByteString} :
    visitStr E value = .ok raw ↔ raw ≠ [] ∧ Base64Text raw (asBytes value) := by
  rw [← base64DecodeFlexible_iff hS hU, visitStr]
  cases base64DecodeFlexible E (asBytes value) with
  | ok raw' => rfl
  | error e => cases e <;> simp

/-- A pair of which both members are strings. -/
theorem pair_iff {plain text : Option String} {value : Option Bytes} :
    Pair asBytes plain text value ↔ ∃ raw, visitOption E text = .ok raw ∧
      (plain = none ∨ raw = none) ∧ (plain.map asBytes <|> raw) = value := by
  constructor
  · intro h
    cases h with
    | absent => exact ⟨none, rfl, .inl rfl, rfl⟩
    | plain x => exact ⟨none, rfl, .inr rfl, rfl⟩
    | @base64 text v hne htext =>
      refine ⟨some v, ?_, .inl rfl, rfl⟩
      rw [visitOption, (visitStr_eq_ok hS hU).mpr ⟨hne, htext⟩]
      rfl
  · intro h
    obtain ⟨raw, hraw, hone, rfl⟩ := h
    cases text with
    | none =>
      cases hraw
      cases plain with
      | none => exact .absent
      | some x => exact .plain x
    | some text =>
      simp only [visitOption, bind_eq_ok, pure_eq_ok, visitStr_eq_ok hS hU] at hraw
      obtain ⟨v, ⟨hne, htext⟩, rfl⟩ := hraw
      obtain rfl | hnone := hone
      · exact .base64 hne htext
      · cases hnone

/-- The location, which is decoded late and has to be text. -/
theorem location_iff {l l64 location : Option String} :
    (l = none ∨ l64 = none) ∧ chooseLocation E l l64 = .ok location ↔
      Pair asBytes l l64 (location.map asBytes) := by
  constructor
  · intro h
    obtain ⟨hone, hchoose⟩ := h
    cases l with
    | some x =>
      obtain hnone | rfl := hone
      · cases hnone
      · cases hchoose
        exact .plain x
    | none =>
      cases l64 with
      | none =>
        cases hchoose
        exact .absent
      | some text =>
        simp only [chooseLocation, bind_eq_ok, pure_eq_ok, strFromUtf8_eq_ok,
          base64DecodeFlexible_iff hS hU] at hchoose
        obtain ⟨_, ⟨hne, htext⟩, x, rfl, rfl⟩ := hchoose
        exact .base64 hne htext
  · intro h
    generalize hvalue : location.map asBytes = value at h
    cases h with
    | absent =>
      obtain rfl := Option.map_eq_none_iff.mp hvalue
      exact ⟨.inl rfl, rfl⟩
    | plain x =>
      obtain ⟨y, rfl, hy⟩ := Option.map_eq_some_iff.mp hvalue
      obtain rfl := asBytes_inj.mp hy
      exact ⟨.inr rfl, rfl⟩
    | @base64 text v hne htext =>
      obtain ⟨x, rfl, rfl⟩ := Option.map_eq_some_iff.mp hvalue
      refine ⟨.inl rfl, ?_⟩
      rw [chooseLocation, (base64DecodeFlexible_iff hS hU).mpr ⟨hne, htext⟩, ok_bind,
        strFromUtf8_eq_ok.mpr rfl]
      rfl

theorem signature_iff {s : Option Bytes} {s64 : Option String} {sig : Bytes} :
    (s = none ∨ s64 = none) ∧ chooseSignature E s s64 = .ok sig ↔ Pair id s s64 (some sig) := by
  constructor
  · intro h
    obtain ⟨hone, hchoose⟩ := h
    cases s with
    | some raw =>
      obtain hnone | rfl := hone
      · cases hnone
      · cases hchoose
        exact .plain _
    | none =>
      cases s64 with
      | none => cases hchoose
      | some text =>
        obtain ⟨hne, htext⟩ := (base64DecodeFlexible_iff hS hU).mp hchoose
        exact .base64 hne htext
  · intro h
    cases h with
    | plain => exact ⟨.inr rfl, rfl⟩
    | base64 hne htext => exact ⟨.inl rfl, (base64DecodeFlexible_iff hS hU).mpr ⟨hne, htext⟩⟩

end Pairs

theorem chooseId_eq_ok {i : Option String} {i64 : Option ByteString} {missing : String}
    {id : ByteString} : chooseId i i64 missing = .ok id ↔ (i.map asBytes <|> i64) = some id := by
  refine ⟨chooseId_canonical, fun h => ?_⟩
  cases i with
  | some text =>
    cases h
    rfl
  | none =>
    cases i64 with
    | some raw =>
      cases h
      rfl
    | none => cases h

/-- Which caveat the three values give, and that it keeps the limits as they do. -/
theorem build_eq_ok_iff {id : Bytes} {vid : Option Bytes} {location : Option String}
    {caveat : Libmacaroon.Caveat} :
    (id.length ≤ maxFieldSizeBytes ∧ (∀ l ∈ location, (asBytes l).length ≤ maxFieldSizeBytes) ∧
        (∀ v ∈ vid, v.length ≤ maxFieldSizeBytes) ∧
        CaveatBuilder.build ⟨some id, vid, location⟩ = .ok caveat) ↔
      ((vid = none ∧ location = none ∧ caveat = newFirstParty id) ∨
        ∃ v l, vid = some v ∧ location = some l ∧ caveat = newThirdParty id v l) ∧
          caveat.WithinLimits := by
  simp only [CaveatBuilder.build_eq_ok, Option.some.injEq, exists_eq_left']
  constructor
  · intro h
    obtain ⟨hid, hl, hv, h⟩ := h
    refine ⟨h, ?_⟩
    obtain ⟨_, _, rfl⟩ | ⟨v, l, rfl, rfl, rfl⟩ := h
    · exact hid
    · exact ⟨hid, hv v rfl, hl l rfl⟩
  · intro h
    obtain ⟨h, hlimits⟩ := h
    refine ⟨?_, ?_, ?_, h⟩
    all_goals obtain ⟨rfl, rfl, rfl⟩ | ⟨v, l, rfl, rfl, rfl⟩ := h
    · exact hlimits
    · exact hlimits.1
    · simp
    · simpa using hlimits.2.2
    · simp
    · simpa using hlimits.2.1

section Language
variable {E : Base64Crate} (hS : E.STANDARD.Decodes Base64.standard)
  (hU : E.URL_SAFE.Decodes Base64.urlSafe)
include hS hU

/-- A caveat is decoded by its three pairs. -/
theorem decodeCaveat_iff {c : CaveatFields String} {caveat : Libmacaroon.Caveat} :
    (∃ c', c.deserialize E = .ok c' ∧ decodeCaveat E c' = .ok caveat) ↔
      ∃ id vid location, Pair asBytes c.i c.i64 (some id) ∧ Pair asBytes c.v c.v64 vid ∧
        Pair asBytes c.l c.l64 (location.map asBytes) ∧ id.length ≤ maxFieldSizeBytes ∧
        (∀ l ∈ location, (asBytes l).length ≤ maxFieldSizeBytes) ∧
        (∀ v ∈ vid, v.length ≤ maxFieldSizeBytes) ∧
        CaveatBuilder.build ⟨some id, vid, location⟩ = .ok caveat := by
  simp only [CaveatFields.deserialize, bind_eq_ok, pure_eq_ok, decodeCaveat_eq_ok]
  constructor
  · intro h
    obtain ⟨_, ⟨i64, hi64, v64, hv64, rfl⟩, hi, hl, hv, id, location, hid, hmax, hloc, hlmax, hvmax,
      hbuild⟩ := h
    exact ⟨id, chooseVerifierId c.v v64, location,
      (pair_iff hS hU).mpr ⟨i64, hi64, hi, chooseId_eq_ok.mp hid⟩,
      (pair_iff hS hU).mpr ⟨v64, hv64, hv, chooseVerifierId_canonical c.v v64⟩,
      (location_iff hS hU).mp ⟨hl, hloc⟩, hmax, hlmax, hvmax, hbuild⟩
  · intro h
    obtain ⟨id, vid, location, hid, hvid, hlocation, hmax, hlmax, hvmax, hbuild⟩ := h
    obtain ⟨i64, hi64, hi, hidvalue⟩ := (pair_iff hS hU).mp hid
    obtain ⟨v64, hv64, hv, rfl⟩ := (pair_iff hS hU).mp hvid
    obtain ⟨hl, hloc⟩ := (location_iff hS hU).mpr hlocation
    rw [chooseVerifierId_canonical] at hvmax hbuild
    exact ⟨_, ⟨i64, hi64, v64, hv64, rfl⟩, hi, hl, hv, id, location, chooseId_eq_ok.mpr hidvalue, hmax,
      hloc, hlmax, hvmax, hbuild⟩

theorem caveat_iff {c : CaveatFields String} {caveat : Libmacaroon.Caveat} :
    (∃ c', c.deserialize E = .ok c' ∧ decodeCaveat E c' = .ok caveat) ↔
      c.Spells caveat ∧ caveat.WithinLimits := by
  simp only [decodeCaveat_iff hS hU, build_eq_ok_iff]
  constructor
  · intro h
    obtain ⟨id, vid, location, hid, hvid, hlocation, hcaveat, hlimits⟩ := h
    obtain ⟨rfl, rfl, rfl⟩ | ⟨v, l, rfl, rfl, rfl⟩ := hcaveat
    · exact ⟨⟨hid, hlocation, hvid⟩, hlimits⟩
    · exact ⟨⟨hid, hlocation, hvid⟩, hlimits⟩
  · intro h
    obtain ⟨hspells, hlimits⟩ := h
    cases caveat with
    | firstParty fp =>
      obtain ⟨hid, hlocation, hvid⟩ := hspells
      exact ⟨fp.predicate, none, none, hid, hvid, hlocation, .inl ⟨rfl, rfl, rfl⟩, hlimits⟩
    | thirdParty tp =>
      obtain ⟨hid, hlocation, hvid⟩ := hspells
      exact ⟨tp.id, some tp.verifierId, some tp.location, hid, hvid, hlocation,
        .inr ⟨_, _, rfl, rfl, rfl⟩, hlimits⟩

theorem caveats_iff {cs : List (CaveatFields String)} {caveats : List Libmacaroon.Caveat} :
    (∃ cs', deserializeCaveats E cs = .ok cs' ∧
        List.Forall₂ (fun c caveat => decodeCaveat E c = .ok caveat) cs' caveats) ↔
      List.Forall₂ CaveatFields.Spells cs caveats ∧ ∀ c ∈ caveats, c.WithinLimits := by
  induction cs generalizing caveats with
  | nil =>
    simp only [deserializeCaveats, Except.ok.injEq, exists_eq_left', List.forall₂_nil_left_iff]
    constructor
    · rintro rfl
      exact ⟨rfl, by simp⟩
    · exact And.left
  | cons c cs ih =>
    simp only [deserializeCaveats, bind_eq_ok, pure_eq_ok]
    constructor
    · intro h
      obtain ⟨_, ⟨c', hc', cs', hcs', rfl⟩, hall⟩ := h
      obtain _ | ⟨hdecode, hrest⟩ := hall
      obtain ⟨hspells, hlimits⟩ := (caveat_iff hS hU).mp ⟨c', hc', hdecode⟩
      obtain ⟨hspellsAll, hlimitsAll⟩ := ih.mp ⟨cs', hcs', hrest⟩
      exact ⟨.cons hspells hspellsAll, List.forall_mem_cons.mpr ⟨hlimits, hlimitsAll⟩⟩
    · intro h
      obtain ⟨hspells, hlimits⟩ := h
      obtain _ | ⟨hhead, htail⟩ := hspells
      rw [List.forall_mem_cons] at hlimits
      obtain ⟨c', hc', hdecode⟩ := (caveat_iff hS hU).mpr ⟨hhead, hlimits.1⟩
      obtain ⟨cs', hcs', hrest⟩ := ih.mpr ⟨htail, hlimits.2⟩
      exact ⟨_, ⟨c', hc', cs', hcs', rfl⟩, .cons hdecode hrest⟩

theorem fromJson_iff {fields : SerializationFields String} {m : Macaroon} :
    (∃ ser, fields.deserialize E = .ok ser ∧ fromJson E ser = .ok m) ↔
      fields.Spells m ∧ m.WithinLimits := by
  simp only [SerializationFields.deserialize, bind_eq_ok, pure_eq_ok, fromJson_eq_ok]
  constructor
  · intro h
    obtain ⟨_, ⟨i64, hi64, cs, hcs, rfl⟩, hv, hi, hl, hs, hid, hne, hidmax, hloc, hlmax, hsig, hall,
      hlen⟩ := h
    obtain ⟨hcaveats, hlimits⟩ := (caveats_iff hS hU).mp ⟨cs, hcs, hall⟩
    refine ⟨⟨hv, ?_, (location_iff hS hU).mp ⟨hl, hloc⟩, (signature_iff hS hU).mp ⟨hs, hsig⟩, hcaveats⟩,
      ⟨List.length_pos_iff.mpr hne, hidmax, hlmax, hlen, hlimits⟩⟩
    exact (pair_iff hS hU).mpr ⟨i64, hi64, hi, chooseId_eq_ok.mp hid⟩
  · intro h
    obtain ⟨hfields, hm⟩ := h
    obtain ⟨i64, hi64, hi, hid⟩ := (pair_iff hS hU).mp hfields.identifier
    obtain ⟨hl, hloc⟩ := (location_iff hS hU).mpr hfields.location
    obtain ⟨hs, hsig⟩ := (signature_iff hS hU).mpr hfields.signature
    obtain ⟨cs, hcs, hall⟩ := (caveats_iff hS hU).mpr ⟨hfields.caveats, hm.caveat_le⟩
    exact ⟨_, ⟨i64, hi64, cs, hcs, rfl⟩, hfields.version, hi, hl, hs, chooseId_eq_ok.mpr hid,
      List.length_pos_iff.mp hm.identifier_pos, hm.identifier_le, hloc, hm.location_le, hsig, hall,
      hm.caveats_le⟩

end Language

/-- The V2JSON language: an object is accepted as `m` exactly when its fields spell `m`, each in one of
its two ways, and `m` keeps the limits. -/
theorem json_language (E : Base64Crate) (J : SerdeJson) (data : Bytes) (m : Macaroon)
    (hS : E.STANDARD.Decodes Base64.standard) (hU : E.URL_SAFE.Decodes Base64.urlSafe) :
    deserialize E J data = .ok m ↔
      ∃ fields, J.fromSlice data = .ok fields ∧ fields.Spells m ∧ m.WithinLimits := by
  simp only [deserialize, bind_eq_ok, readSerialization]
  cases hread : J.fromSlice data with
  | error e => simp
  | ok fields => simpa using fromJson_iff hS hU

/- The fields of `respelled`, as they stand in the text. -/
def respelledFields : SerializationFields String :=
  { v := 2, i := some "A", i64 := none, l := none, l64 := some "eA", s := some zeroKey.bytes,
    s64 := none,
    c := [⟨some "B", none, none, some "eQ==", some "C", none⟩, ⟨none, some "RA", none, none, none,
      none⟩] }

def respelledMacaroon : Macaroon :=
  ⟨asBytes "A", some "x", zeroKey,
    [.thirdParty ⟨asBytes "B", asBytes "C", "y"⟩, .firstParty ⟨[68]⟩]⟩

theorem respelledFields_spells : respelledFields.Spells respelledMacaroon where
  version := rfl
  identifier := .plain "A"
  location := .base64 (by decide +kernel)
    ⟨Base64.urlSafe, by simp, [], List.nil_prefix, by decide +kernel⟩
  signature := .plain zeroKey.bytes
  caveats := .cons
    ⟨.plain "B", .base64 (by decide +kernel)
      ⟨Base64.standard, by simp, [61, 61], by decide +kernel, by decide +kernel⟩, .plain "C"⟩
    (.cons ⟨.base64 (by decide)
      ⟨Base64.standard, by simp, [], List.nil_prefix, by decide +kernel⟩, .absent, .absent⟩ .nil)

theorem json_language_respelled :
    deserialize indifferentBase64 (Instances.json respelledFields)
      (asBytes (Instances.jsonText respelledFields)) = .ok respelledMacaroon := by
  have hread : (Instances.json respelledFields).fromSlice
      (asBytes (Instances.jsonText respelledFields)) = .ok respelledFields := by
    simp only [Instances.json, if_true]
  exact (json_language _ _ _ _ (indifferentEngine_decodes Base64.standard true)
    (indifferentEngine_decodes Base64.urlSafe true)).mpr
    ⟨respelledFields, hread, respelledFields_spells, by decide +kernel⟩

end Libmacaroon.V2Json
