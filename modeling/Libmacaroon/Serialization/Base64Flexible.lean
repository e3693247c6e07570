import Libmacaroon.Library.Base64
import Libmacaroon.Macaroon

/-! The base64 engines and the flexible decoder in front of every token (`lib.rs`). The engines
are configured here but implemented by the `base64` crate, so the model is over them. -/
namespace Libmacaroon
open Checked Utf8

/-- One engine of the `base64` crate; a decoding error is its `Display` text. -/
structure Base64Engine where
  encode : Bytes → String
  decode : Bytes → Except String Bytes

structure Base64Crate where
  STANDARD : Base64Engine
  URL_SAFE : Base64Engine
  URL_SAFE_NO_PAD : Base64Engine

def Base64Engine.tryDecode (e : Base64Engine) (b : Bytes) : Result Bytes :=
  match e.decode b with
  | .ok v => .ok v
  | .error text => .fromForeign (.base64 text)

variable (E : Base64Crate)

/- `b'_'` and `b'-'` are 95 and 45. -/
def base64DecodeFlexible (b : Bytes) : Result Bytes := do
  rejectIf (b = []) "empty token to deserialize"
  if b.contains 95 || b.contains 45 then
    E.URL_SAFE.tryDecode b
  else
    E.STANDARD.tryDecode b

/-- `ByteString`'s `Display`. -/
def ByteString.display (b : ByteString) : String := E.URL_SAFE_NO_PAD.encode b

/-- The engine writes base64 in the alphabet `A`, and decodes padded and unpadded text. -/
structure Base64Engine.Implements (e : Base64Engine) (A : Base64.Alphabet) (padded : Bool) :
    Prop where
  encode : ∀ b, asBytes (e.encode b) = Base64.encode A padded b
  decode : ∀ padded' b, e.decode (Base64.encode A padded' b) = .ok b

/-- The three engines as the crate configures them. -/
structure Base64Crate.Lawful (E : Base64Crate) : Prop where
  standard : E.STANDARD.Implements Base64.standard true
  urlSafe : E.URL_SAFE.Implements Base64.urlSafe true
  urlSafeNoPad : E.URL_SAFE_NO_PAD.Implements Base64.urlSafe false

variable {E : Base64Crate} {b : Bytes}

theorem Base64Engine.tryDecode_eq_ok {e : Base64Engine} {v : Bytes} :
    e.tryDecode b = .ok v ↔ e.decode b = .ok v := by
  cases h : e.decode b <;> simp [Base64Engine.tryDecode, h]

/-- What is accepted was decoded by one of the two engines. -/
theorem base64DecodeFlexible_eq_ok {v : Bytes} (h : base64DecodeFlexible E b = .ok v) :
    E.STANDARD.decode b = .ok v ∨ E.URL_SAFE.decode b = .ok v := by
  simp only [base64DecodeFlexible, bind_eq_ok] at h
  obtain ⟨_, _, h⟩ := h
  split at h
  · exact .inr (Base64Engine.tryDecode_eq_ok.mp h)
  · exact .inl (Base64Engine.tryDecode_eq_ok.mp h)

section Encodings
variable (hS : ∀ padded b, E.STANDARD.decode (Base64.encode Base64.standard padded b) = .ok b)
include hS

theorem base64DecodeFlexible_standard (padded : Bool) (hb : b ≠ []) :
    base64DecodeFlexible E (Base64.encode Base64.standard padded b) = .ok b := by
  have hreject : rejectIf (Base64.encode Base64.standard padded b = [])
      "empty token to deserialize" = .ok () := rejectIf_eq_ok.mpr (Base64.encode_ne_nil hb)
  have hplain : ∀ c ∈ Base64.encode Base64.standard padded b, c ≠ 95 ∧ c ≠ 45 := by
    intro c hc
    obtain rfl | ⟨s, rfl⟩ := Base64.mem_encode hc
    · decide
    · exact Base64.standard_ne s
  have hbranch : ¬ ((Base64.encode Base64.standard padded b).contains 95 ||
      (Base64.encode Base64.standard padded b).contains 45) = true := by
    simp only [List.contains_eq_mem, Bool.or_eq_true, decide_eq_true_eq, not_or]
    exact ⟨fun h => (hplain 95 h).1 rfl, fun h => (hplain 45 h).2 rfl⟩
  rw [base64DecodeFlexible, hreject, ok_bind, if_neg hbranch, Base64Engine.tryDecode, hS]

/- Without `-` and `_` the text is the same in both alphabets, so the engine that is chosen does
   not matter. -/
theorem base64DecodeFlexible_urlSafe
    (hU : ∀ padded b, E.URL_SAFE.decode (Base64.encode Base64.urlSafe padded b) = .ok b)
    (padded : Bool) (hb : b ≠ []) :
    base64DecodeFlexible E (Base64.encode Base64.urlSafe padded b) = .ok b := by
  by_cases hplain : 95 ∉ Base64.encode Base64.urlSafe padded b ∧
      45 ∉ Base64.encode Base64.urlSafe padded b
  · have hsame : Base64.encode Base64.urlSafe padded b = Base64.encode Base64.standard padded b := by
      refine Base64.encode_congr fun s hs => ?_
      obtain h | h | h := Base64.urlSafe_symbol s
      · exact absurd (h ▸ hs) hplain.2
      · exact absurd (h ▸ hs) hplain.1
      · exact h
    rw [hsame, base64DecodeFlexible_standard hS padded hb]
  · have hreject : rejectIf (Base64.encode Base64.urlSafe padded b = [])
        "empty token to deserialize" = .ok () := rejectIf_eq_ok.mpr (Base64.encode_ne_nil hb)
    have hbranch : ((Base64.encode Base64.urlSafe padded b).contains 95 ||
        (Base64.encode Base64.urlSafe padded b).contains 45) = true := by
      simp only [List.contains_eq_mem, Bool.or_eq_true, decide_eq_true_eq]
      by_contra hnone
      exact hplain (not_or.mp hnone)
    rw [base64DecodeFlexible, hreject, ok_bind, if_pos hbranch, Base64Engine.tryDecode, hU]

end Encodings

theorem base64DecodeFlexible_encode (hE : E.Lawful) (padded : Bool) (hb : b ≠ []) :
    base64DecodeFlexible E (Base64.encode Base64.urlSafe padded b) = .ok b :=
  base64DecodeFlexible_urlSafe hE.standard.decode hE.urlSafe.decode padded hb

theorem base64DecodeFlexible_nil : base64DecodeFlexible E [] =
    deserializationError "empty token to deserialize" := by
  simp [base64DecodeFlexible, rejectIf, failIf]

/-- No encoding begins like a JSON object. -/
theorem encode_head_ne_brace {A : Base64.Alphabet} {padded : Bool} {c : UInt8}
    (hA : ∀ s, A.symbol s < 123) (hc : (Base64.encode A padded b)[0]? = some c) : c ≠ 0x7b := by
  obtain rfl | ⟨s, rfl⟩ := Base64.mem_encode (List.mem_of_getElem? hc)
  · decide
  · exact UInt8.ne_of_lt (hA s)

end Libmacaroon
