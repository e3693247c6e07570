import Libmacaroon.Serialization.Base64Flexible
import Mathlib.Data.List.DropRight

/-! What the flexible decoder accepts: the standard and the URL-safe encoding of a byte string, with
or without padding, and nothing else. -/
namespace Libmacaroon
open Checked Utf8

/-- The engine decodes as the RFC has it for the alphabet `A`: filled-up bits are zero, and the
padding may be missing. -/
def Base64Engine.Decodes (e : Base64Engine) (A : Base64.Alphabet) : Prop :=
  ∀ text v, e.decode text = .ok v ↔ Base64.decodeLenient A text = some v

/-- The text without its trailing `=`. -/
def stripPadding (text : Bytes) : Bytes := text.rdropWhile (· == Base64.pad)

/-- `-` becomes `+` and `_` becomes `/`. -/
def toStandard (c : UInt8) : UInt8 := if c = 45 then 43 else if c = 95 then 47 else c

theorem stripPadding_append {body signs : Bytes} (hbody : ∀ c ∈ body, c ≠ Base64.pad)
    (hsigns : ∀ c ∈ signs, c = Base64.pad) : stripPadding (body ++ signs) = body := by
  induction signs using List.reverseRecOn with
  | nil =>
    rw [List.append_nil]
    apply List.rdropWhile_eq_self_iff.mpr
    intro hne
    simpa using hbody _ (List.getLast_mem hne)
  | append_singleton signs c ih =>
    have hc : (c == Base64.pad) = true := beq_iff_eq.mpr (hsigns c (by simp))
    rw [stripPadding, ← List.append_assoc,
      List.rdropWhile_concat_pos (· == Base64.pad) (body ++ signs) c hc]
    exact ih fun c' hc' => hsigns c' (List.mem_append_left _ hc')

theorem toStandard_standard (s : Fin 64) :
    toStandard (Base64.standard.symbol s) = Base64.standard.symbol s := by
  revert s
  decide +kernel

theorem toStandard_urlSafe (s : Fin 64) :
    toStandard (Base64.urlSafe.symbol s) = Base64.standard.symbol s := by
  revert s
  decide +kernel

/-- The usual alphabets write a byte string alike, up to the two symbols. -/
theorem map_toStandard_encode {A : Base64.Alphabet}
    (hA : ∀ s, toStandard (A.symbol s) = Base64.standard.symbol s) (v : Bytes) :
    (Base64.encode A false v).map toStandard = Base64.encode Base64.standard false v := by
  rw [Base64.encode_unpadded, Base64.encode_unpadded, List.map_map]
  apply List.map_congr_left
  intro s _
  exact hA s

theorem encode_unpadded_ne_pad {A : Base64.Alphabet} {v : Bytes} :
    ∀ c ∈ Base64.encode A false v, c ≠ Base64.pad := by
  rw [Base64.encode_unpadded]
  exact Base64.symbols_ne_pad _

/-- An accepted text: some encoding and then padding. -/
def Spells (A : Base64.Alphabet) (v b : Bytes) : Prop :=
  ∃ signs, (∀ c ∈ signs, c = Base64.pad) ∧ b = Base64.encode A false v ++ signs

theorem Spells.stripPadding_eq {A : Base64.Alphabet} {v b : Bytes} (h : Spells A v b) :
    stripPadding b = Base64.encode A false v := by
  obtain ⟨signs, hsigns, rfl⟩ := h
  exact stripPadding_append encode_unpadded_ne_pad hsigns

/-- What is left of the spelling is the bytes alone. -/
theorem Spells.normalized {A : Base64.Alphabet} {v b : Bytes} (h : Spells A v b)
    (hA : ∀ s, toStandard (A.symbol s) = Base64.standard.symbol s) :
    stripPadding (b.map toStandard) = Base64.encode Base64.standard false v := by
  obtain ⟨signs, hsigns, rfl⟩ := h
  rw [List.map_append, map_toStandard_encode hA]
  apply stripPadding_append encode_unpadded_ne_pad
  intro c hc
  obtain ⟨c', hc', rfl⟩ := List.mem_map.mp hc
  rw [hsigns c' hc']
  rfl

section Engines
variable {E : Base64Crate} {b v : Bytes}

theorem Base64Engine.Decodes.spells {e : Base64Engine} {A : Base64.Alphabet} (he : e.Decodes A)
    (h : e.decode b = .ok v) : Spells A v b := by
  obtain ⟨signs, hsigns, rfl⟩ := Base64.decodeLenient_eq_some.mp ((he b v).mp h)
  exact ⟨signs, fun c hc => Base64.padding_eq_pad c (hsigns.subset hc), rfl⟩

theorem base64DecodeFlexible_spells (hS : E.STANDARD.Decodes Base64.standard)
    (hU : E.URL_SAFE.Decodes Base64.urlSafe) (h : base64DecodeFlexible E b = .ok v) :
    Spells Base64.standard v b ∨ Spells Base64.urlSafe v b := by
  obtain h | h := base64DecodeFlexible_eq_ok h
  · exact .inl (hS.spells h)
  · exact .inr (hU.spells h)

theorem Base64Engine.Decodes.encode {e : Base64Engine} {A : Base64.Alphabet} (he : e.Decodes A)
    (padded : Bool) (v : Bytes) : e.decode (Base64.encode A padded v) = .ok v := by
  rw [he, Base64.decodeLenient_eq_some]
  cases padded with
  | false => exact ⟨[], List.nil_prefix, by rw [List.append_nil]⟩
  | true => exact ⟨Base64.padding true v, List.prefix_rfl, by rw [Base64.encode_unpadded]; rfl⟩

end Engines

/-- The flexible decoder is exact: it decodes all four spellings of a byte string, accepts no other
text, and two texts for one byte string differ in the two symbols and the padding only. -/
theorem flexible_decoding_exact (E : Base64Crate) (hS : E.STANDARD.Decodes Base64.standard)
    (hU : E.URL_SAFE.Decodes Base64.urlSafe) :
    (∀ v ≠ [], ∀ A ∈ [Base64.standard, Base64.urlSafe], ∀ padded,
      base64DecodeFlexible E (Base64.encode A padded v) = .ok v) ∧
    (∀ b v, base64DecodeFlexible E b = .ok v →
      stripPadding b = Base64.encode Base64.standard false v ∨
        stripPadding b = Base64.encode Base64.urlSafe false v) ∧
    ∀ b b' v v', base64DecodeFlexible E b = .ok v → base64DecodeFlexible E b' = .ok v' →
      stripPadding (b.map toStandard) ≠ stripPadding (b'.map toStandard) → v ≠ v' := by
  have hnormal (b v : Bytes) (h : base64DecodeFlexible E b = .ok v) :
      stripPadding (b.map toStandard) = Base64.encode Base64.standard false v := by
    obtain hspells | hspells := base64DecodeFlexible_spells hS hU h
    · exact hspells.normalized toStandard_standard
    · exact hspells.normalized toStandard_urlSafe
  refine ⟨?_, ?_, ?_⟩
  · intro v hv A hA padded
    obtain rfl | hA := List.mem_cons.mp hA
    · exact base64DecodeFlexible_standard hS.encode padded hv
    · obtain rfl := List.mem_singleton.mp hA
      exact base64DecodeFlexible_urlSafe hS.encode hU.encode padded hv
  · intro b v h
    obtain hspells | hspells := base64DecodeFlexible_spells hS hU h
    · exact .inl hspells.stripPadding_eq
    · exact .inr hspells.stripPadding_eq
  · intro b b' v v' h h' hne heq
    rw [hnormal b v h, hnormal b' v' h', heq] at hne
    exact hne rfl

/- Engines that decode as the RFC has it. -/
def indifferentEngine (A : Base64.Alphabet) (padded : Bool) : Base64Engine where
  encode b := ofAscii (Base64.encode A padded b)
  decode text :=
    match Base64.decodeLenient A text with
    | some b => .ok b
    | none => .error "Invalid padding"

def indifferentBase64 : Base64Crate where
  STANDARD := indifferentEngine Base64.standard true
  URL_SAFE := indifferentEngine Base64.urlSafe true
  URL_SAFE_NO_PAD := indifferentEngine Base64.urlSafe false

theorem indifferentEngine_decodes (A : Base64.Alphabet) (padded : Bool) :
    (indifferentEngine A padded).Decodes A := by
  intro text v
  cases h : Base64.decodeLenient A text with
  | none => simp [indifferentEngine, h]
  | some b => simp [indifferentEngine, h]

/- `T3U_VA=` is `Ou?T` in the URL-safe alphabet, with half of its padding. -/
theorem flexible_decoding_exact_partial :
    stripPadding [84, 51, 85, 95, 86, 65, 61] =
        Base64.encode Base64.standard false [79, 117, 63, 84] ∨
      stripPadding [84, 51, 85, 95, 86, 65, 61] =
        Base64.encode Base64.urlSafe false [79, 117, 63, 84] :=
  (flexible_decoding_exact indifferentBase64 (indifferentEngine_decodes Base64.standard true)
    (indifferentEngine_decodes Base64.urlSafe true)).2.1 _ _ (by decide +kernel)

end Libmacaroon
