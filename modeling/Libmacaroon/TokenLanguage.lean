import Libmacaroon.FlexibleDecoding
import Libmacaroon.Reachable
import Libmacaroon.V1Grammar
import Libmacaroon.V2Canonical
import Libmacaroon.V2RoundTrip

/-! The tokens that `deserialize` and `deserialize_binary` accept, and that they have none in
common. -/
namespace Libmacaroon
open Checked Utf8

/-- An encoding of `v` in one of the two alphabets, with all, part or none of its padding. -/
def Base64Text (v text : Bytes) : Prop :=
  ∃ A ∈ [Base64.standard, Base64.urlSafe], ∃ signs, signs <+: Base64.padding true v ∧
    text = Base64.encode A false v ++ signs

theorem usualSymbol_gt (s : Fin 64) :
    42 < Base64.standard.symbol s ∧ 42 < Base64.urlSafe.symbol s := by
  revert s
  decide +kernel

/-- All bytes of such a text lie between the spaces and the braces. -/
theorem Base64Text.bounds {v text : Bytes} (h : Base64Text v text) {c : UInt8} (hc : c ∈ text) :
    42 < c ∧ c < 123 := by
  obtain ⟨A, hA, signs, hsigns, rfl⟩ := h
  obtain hc | hc := List.mem_append.mp hc
  · simp only [List.mem_cons, List.not_mem_nil, or_false] at hA
    obtain rfl | hsymbol := Base64.mem_encode hc
    · decide
    · obtain ⟨s, rfl⟩ := hsymbol
      obtain rfl | rfl := hA
      · exact ⟨(usualSymbol_gt s).1, Base64.standard_lt s⟩
      · exact ⟨(usualSymbol_gt s).2, Base64.urlSafe_lt s⟩
  · obtain rfl := Base64.padding_eq_pad c (hsigns.subset hc)
    decide

/- The standard alphabet has neither of the two symbols that choose the engine. -/
theorem standardText_ne {v signs : Bytes} {c : UInt8} (hsigns : signs <+: Base64.padding true v)
    (hc : c ∈ Base64.encode Base64.standard false v ++ signs) : c ≠ 95 ∧ c ≠ 45 := by
  obtain hc | hc := List.mem_append.mp hc
  · obtain rfl | ⟨s, rfl⟩ := Base64.mem_encode hc
    · decide
    · exact Base64.standard_ne s
  · obtain rfl := Base64.padding_eq_pad c (hsigns.subset hc)
    decide

theorem urlSafe_eq_standard {v : Bytes} (h95 : 95 ∉ Base64.encode Base64.urlSafe false v)
    (h45 : 45 ∉ Base64.encode Base64.urlSafe false v) :
    Base64.encode Base64.urlSafe false v = Base64.encode Base64.standard false v := by
  refine Base64.encode_congr fun s hs => ?_
  obtain h | h | h := Base64.urlSafe_symbol s
  · exact absurd (h ▸ hs) h45
  · exact absurd (h ▸ hs) h95
  · exact h

section Flexible
variable {E : Base64Crate} {text v : Bytes} (hS : E.STANDARD.Decodes Base64.standard)
  (hU : E.URL_SAFE.Decodes Base64.urlSafe)
include hS

theorem base64DecodeFlexible_plain (hne : text ≠ []) (h95 : 95 ∉ text) (h45 : 45 ∉ text) :
    base64DecodeFlexible E text = .ok v ↔ Base64.decodeLenient Base64.standard text = some v := by
  have hreject : rejectIf (text = []) "empty token to deserialize" = .ok () :=
    rejectIf_eq_ok.mpr hne
  have hbranch : ¬ (text.contains 95 || text.contains 45) = true := by simp [h95, h45]
  rw [base64DecodeFlexible, hreject, ok_bind, if_neg hbranch, Base64Engine.tryDecode_eq_ok, hS]

omit hS in
include hU in
theorem base64DecodeFlexible_dashed (h : 95 ∈ text ∨ 45 ∈ text) :
    base64DecodeFlexible E text = .ok v ↔ Base64.decodeLenient Base64.urlSafe text = some v := by
  have hreject : rejectIf (text = []) "empty token to deserialize" = .ok () := by
    rw [rejectIf_eq_ok]
    rintro rfl
    simp at h
  have hbranch : (text.contains 95 || text.contains 45) = true := by simpa using h
  rw [base64DecodeFlexible, hreject, ok_bind, if_pos hbranch, Base64Engine.tryDecode_eq_ok, hU]

include hU in
/-- The flexible decoder decodes the texts of a byte string, and nothing else. -/
theorem base64DecodeFlexible_iff :
    base64DecodeFlexible E text = .ok v ↔ v ≠ [] ∧ Base64Text v text := by
  constructor
  · intro h
    have htext : Base64Text v text := by
      obtain h | h := base64DecodeFlexible_eq_ok h
      · obtain ⟨signs, hsigns, rfl⟩ := Base64.decodeLenient_eq_some.mp ((hS text v).mp h)
        exact ⟨Base64.standard, by simp, signs, hsigns, rfl⟩
      · obtain ⟨signs, hsigns, rfl⟩ := Base64.decodeLenient_eq_some.mp ((hU text v).mp h)
        exact ⟨Base64.urlSafe, by simp, signs, hsigns, rfl⟩
    refine ⟨?_, htext⟩
    rintro rfl
    obtain ⟨A, _, signs, hsigns, htext⟩ := htext
    rw [List.prefix_nil.mp hsigns, Base64.encode_nil, List.append_nil] at htext
    rw [htext, base64DecodeFlexible_nil] at h
    cases h
  · intro h
    obtain ⟨hv, A, hA, signs, hsigns, rfl⟩ := h
    have hne : Base64.encode A false v ++ signs ≠ [] :=
      List.append_ne_nil_of_left_ne_nil (Base64.encode_ne_nil hv) signs
    simp only [List.mem_cons, List.not_mem_nil, or_false] at hA
    by_cases hdash : 95 ∈ Base64.encode A false v ++ signs ∨ 45 ∈ Base64.encode A false v ++ signs
    · rw [base64DecodeFlexible_dashed hU hdash, Base64.decodeLenient_eq_some]
      obtain rfl | rfl := hA
      · obtain h | h := hdash
        · exact absurd rfl (standardText_ne hsigns h).1
        · exact absurd rfl (standardText_ne hsigns h).2
      · exact ⟨signs, hsigns, rfl⟩
    · obtain ⟨h95, h45⟩ := not_or.mp hdash
      rw [base64DecodeFlexible_plain hS hne h95 h45, Base64.decodeLenient_eq_some]
      obtain rfl | rfl := hA
      · exact ⟨signs, hsigns, rfl⟩
      · refine ⟨signs, hsigns, ?_⟩
        rw [urlSafe_eq_standard (fun h => h95 (List.mem_append_left signs h))
          fun h => h45 (List.mem_append_left signs h)]

end Flexible

namespace Macaroon
variable {E : Base64Crate} {J : V2Json.SerdeJson} {w : Width} {m : Macaroon} {token : Bytes}

theorem deserializeBinary_iff : deserializeBinary w token = .ok m ↔
    (m.WithinLimits ∧ V2.serializeBinary m = .ok token) ∨
      (∃ c, token[0]? = some c ∧ isHexDigit c) ∧ V1.deserialize w token = .ok m := by
  constructor
  · intro h
    simp only [deserializeBinary, bind_eq_ok, validate_eq_ok, indexAt_eq_ok] at h
    obtain ⟨_, _, first, hfirst, mac, hmatch, _, rfl⟩ := h
    unfold matchBinary at hmatch
    split_ifs at hmatch with htwo hhex
    · exact .inl (V2.deserialize_reads hmatch)
    · exact .inr ⟨⟨first, hfirst, hhex⟩, hmatch⟩
  · intro h
    obtain ⟨hm, hwrite⟩ | ⟨⟨first, hfirst, hhex⟩, hread⟩ := h
    · exact V2.deserializeBinary_serializeBinary hm hwrite
    · have htwo : first ≠ 2 := by
        rintro rfl
        cases hhex
      have hmatch : matchBinary w first token = .ok m := by
        rw [matchBinary, if_neg htwo, if_pos hhex, hread]
      have hid := (V1.deserialize_withinLimits hread).identifier_pos
      simp only [deserializeBinary, bind_eq_ok, rejectIf_eq_ok, indexAt_eq_ok, validate_eq_ok]
      refine ⟨(), ?_, first, hfirst, m, hmatch, List.length_pos_iff.mp hid, rfl⟩
      rintro rfl
      simp at hfirst

theorem deserializeBinary_ne_nil (h : deserializeBinary w token = .ok m) : token ≠ [] := by
  rintro rfl
  simp [deserializeBinary, rejectIf, failIf] at h

end Macaroon

/-- What `deserialize` accepts: JSON from its opening brace on, and the base64 texts of the one V2
token of a macaroon within the limits and of the V1 tokens. -/
theorem token_language (E : Base64Crate) (J : V2Json.SerdeJson) (w : Width) (token : Bytes)
    (m : Macaroon) (hS : E.STANDARD.Decodes Base64.standard)
    (hU : E.URL_SAFE.Decodes Base64.urlSafe) :
    Macaroon.deserialize E J w token = .ok m ↔
      (token[0]? = some 0x7b ∧ V2Json.deserialize E J token = .ok m) ∨
      ∃ binary, Base64Text binary token ∧
        ((m.WithinLimits ∧ V2.serializeBinary m = .ok binary) ∨
          (∃ c, binary[0]? = some c ∧ Macaroon.isHexDigit c) ∧ V1.deserialize w binary = .ok m) := by
  simp only [← Macaroon.deserializeBinary_iff]
  constructor
  · intro h
    simp only [Macaroon.deserialize, bind_eq_ok, Macaroon.validate_eq_ok, indexAt_eq_ok] at h
    obtain ⟨_, _, first, hfirst, mac, hmatch, _, rfl⟩ := h
    unfold Macaroon.matchToken at hmatch
    split_ifs at hmatch with hbrace
    · exact .inl ⟨hbrace ▸ hfirst, hmatch⟩
    · obtain ⟨binary, hdecode, hbinary⟩ := bind_eq_ok.mp hmatch
      exact .inr ⟨binary, ((base64DecodeFlexible_iff hS hU).mp hdecode).2, hbinary⟩
  · intro h
    simp only [Macaroon.deserialize, bind_eq_ok, Macaroon.validate_eq_ok, indexAt_eq_ok,
      rejectIf_eq_ok]
    obtain ⟨hbrace, hjson⟩ | ⟨binary, htext, hbinary⟩ := h
    · have hmatch : Macaroon.matchToken E J w 0x7b token = .ok m := by
        rw [Macaroon.matchToken, if_pos rfl, hjson]
      have hid := (Macaroon.v2Json_withinLimits hjson).identifier_pos
      refine ⟨(), ?_, 0x7b, hbrace, m, hmatch, List.length_pos_iff.mp hid, rfl⟩
      rintro rfl
      simp at hbrace
    · have hdecode : base64DecodeFlexible E token = .ok binary :=
        (base64DecodeFlexible_iff hS hU).mpr ⟨Macaroon.deserializeBinary_ne_nil hbinary, htext⟩
      have hne : token ≠ [] := by
        rintro rfl
        rw [base64DecodeFlexible_nil] at hdecode
        cases hdecode
      obtain ⟨first, rest, rfl⟩ := List.exists_cons_of_ne_nil hne
      have hfirst : first ≠ 0x7b := UInt8.ne_of_lt (htext.bounds List.mem_cons_self).2
      have hmatch : Macaroon.matchToken E J w first (first :: rest) = .ok m := by
        rw [Macaroon.matchToken, if_neg hfirst, hdecode, ok_bind, hbinary]
      have hid := (Macaroon.deserializeBinary_withinLimits hbinary).identifier_pos
      exact ⟨(), hne, first, rfl, m, hmatch, List.length_pos_iff.mp hid, rfl⟩

/- The V2 token of `decoded`, with half of the padding that is due. -/
def halfPadded : Bytes :=
  Base64.encode Base64.standard false ([2, 2, 1, 65, 0, 0, 6, 32] ++ zeroKey.bytes) ++ [61]

theorem token_language_halfPadded :
    Macaroon.deserialize indifferentBase64 ⟨fun _ => .error "", fun _ => .error ""⟩ .w32 halfPadded =
      .ok decoded :=
  (token_language _ _ _ _ _ (indifferentEngine_decodes Base64.standard true)
    (indifferentEngine_decodes Base64.urlSafe true)).mpr
    (.inr ⟨[2, 2, 1, 65, 0, 0, 6, 32] ++ zeroKey.bytes,
      ⟨Base64.standard, by simp, [61], by decide +kernel, rfl⟩, .inl ⟨by decide +kernel, by decide +kernel⟩⟩)

/- The texts begin with a brace or are base64; the binary tokens hold a space or begin with 2. -/
theorem text_or_json {E : Base64Crate} {J : V2Json.SerdeJson} {w : Width} {token : Bytes}
    {m : Macaroon} (hS : E.STANDARD.Decodes Base64.standard)
    (hU : E.URL_SAFE.Decodes Base64.urlSafe) (h : Macaroon.deserialize E J w token = .ok m) :
    token[0]? = some 0x7b ∨ ∀ c ∈ token, 42 < c := by
  simp only [Macaroon.deserialize, bind_eq_ok, indexAt_eq_ok] at h
  obtain ⟨_, _, first, hfirst, mac, hmatch, _⟩ := h
  unfold Macaroon.matchToken at hmatch
  split_ifs at hmatch with hbrace
  · exact .inl (hbrace ▸ hfirst)
  · obtain ⟨binary, hdecode, _⟩ := bind_eq_ok.mp hmatch
    exact .inr fun c hc => (((base64DecodeFlexible_iff hS hU).mp hdecode).2.bounds hc).1

theorem V1.space_mem {w : Width} {data : Bytes} {m : Macaroon} (h : V1.deserialize w data = .ok m) :
    32 ∈ data := by
  obtain ⟨ps, b, hps, hpackets, _⟩ := V1.deserialize_accounts h
  obtain ⟨p, ps, rfl⟩ : ∃ p ps', ps = p :: ps' := by
    refine List.exists_cons_of_ne_nil ?_
    rintro rfl
    have hmem : (⟨V1.IDENTIFIER, m.identifier⟩ : V1.Packet) ∈ ((([] : List V1.Packet)) :
        Multiset V1.Packet) := by
      rw [hpackets]
      refine Multiset.mem_add.mpr (.inl ?_)
      simp [V1.emittedPackets, V1.contentPackets]
    simp at hmem
  obtain ⟨frame, rest, rfl, ⟨header, hex, last, rfl, _⟩, _⟩ :=
    V1.deserializeAsPackets_eq_cons.mp hps
  simp

/-- No byte string is a token for both entry points. -/
theorem entry_points_disjoint (E : Base64Crate) (J : V2Json.SerdeJson) (w w' : Width)
    (token : Bytes) (m m' : Macaroon) (hS : E.STANDARD.Decodes Base64.standard)
    (hU : E.URL_SAFE.Decodes Base64.urlSafe) (h : Macaroon.deserialize E J w token = .ok m) :
    Macaroon.deserializeBinary w' token ≠ .ok m' := by
  intro h'
  obtain ⟨_, hwrite⟩ | ⟨⟨first, hfirst, hhex⟩, hread⟩ := Macaroon.deserializeBinary_iff.mp h'
  · obtain rfl := Except.ok.inj hwrite
    obtain hbrace | hall := text_or_json hS hU h
    · simp at hbrace
    · have hlt := hall 2 (by simp)
      simp at hlt
  · obtain hbrace | hall := text_or_json hS hU h
    · obtain rfl := Option.some.inj (hfirst.symm.trans hbrace)
      cases hhex
    · have hlt := hall 32 (V1.space_mem hread)
      simp at hlt

theorem entry_points_disjoint_halfPadded :
    Macaroon.deserializeBinary .w64 halfPadded ≠ .ok decoded :=
  entry_points_disjoint indifferentBase64 ⟨fun _ => .error "", fun _ => .error ""⟩ .w32 .w64
    halfPadded decoded decoded (indifferentEngine_decodes Base64.standard true)
    (indifferentEngine_decodes Base64.urlSafe true) (by decide +kernel)

end Libmacaroon
