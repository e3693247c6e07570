import Libmacaroon.Instances
import Libmacaroon.Library.Completes
import Libmacaroon.Token
import Libmacaroon.V1Packets
import Libmacaroon.V2Canonical

/-! Decoding does not panic: each index, slice, difference, sum and shift of the three decoders is
within bounds, whatever the bytes. -/
namespace Libmacaroon
open Checked Utf8

/-- A slice of bytes. No slice is longer than `isize::MAX`. -/
structure ByteSlice (w : Width) where
  bytes : Bytes
  length_lt : bytes.length < 2 ^ (w.bits - 1)

theorem rejectIf_bind {α : Type} {c : Prop} [Decidable c] {s : String} {f : Unit → Result α}
    (hf : ¬ c → Completes (f ())) : Completes (rejectIf c s >>= f) := Completes.failIf_bind hf

theorem checkFieldSize_bind {α : Type} {field : String} {size : Nat} {f : Unit → Result α}
    (hf : Completes (f ())) : Completes (checkFieldSize field size >>= f) :=
  Completes.failIf_bind fun _ => hf

theorem strFromUtf8_completes (b : Bytes) : Completes (strFromUtf8 b) := by
  unfold strFromUtf8
  split
  · exact .ok _
  · exact .err _

theorem CaveatBuilder.build_completes (b : CaveatBuilder) : Completes b.build := by
  unfold CaveatBuilder.build
  split
  · exact .err _
  · split
    · exact .ok _
    · exact .ok _
    · exact .err _
    · exact .err _

namespace MacaroonBuilder

/-- Every decoder has checked the length before it hands over a signature. -/
theorem setSignature_completes {signature : Bytes} (b : MacaroonBuilder)
    (h : signature.length = 32) : Completes (b.setSignature signature) := by
  rw [setSignature, dif_pos h]
  exact .ok _

theorem addCaveat_completes (b : MacaroonBuilder) (c : Caveat) : Completes (b.addCaveat c) := by
  apply Completes.failIf_bind
  intro _
  exact .pure _

theorem build_completes (b : MacaroonBuilder) : Completes b.build := by
  apply Completes.failIf_bind
  intro _
  split
  · exact .err _
  · exact .ok _

end MacaroonBuilder

theorem Macaroon.validate_completes (m : Macaroon) : Completes m.validate := by
  apply Completes.failIf_bind
  intro _
  exact .pure m

namespace V1
variable {w : Width}

theorem parseHex_completes (hex : String) : Completes (parseHex w hex) := by
  unfold parseHex
  split
  · exact .ok _
  · exact .err _

theorem splitIndex_completes (packet : Bytes) : Completes (splitIndex packet) := by
  unfold splitIndex
  split
  · exact .ok _
  · exact .err _

theorem splitIndex_lt {packet : Bytes} {index : Nat} (h : splitIndex packet = .ok index) :
    index < packet.length := by
  obtain ⟨key, tail, rfl, _, rfl⟩ := splitIndex_eq_ok.mp h
  simp

theorem readPacket_completes (remaining : Bytes) : Completes (readPacket w remaining) := by
  unfold readPacket
  apply rejectIf_bind
  intro hfour
  apply Completes.bind (.slice (by omega) (by omega))
  intro header _
  apply Completes.bind (strFromUtf8_completes header)
  intro hex _
  apply Completes.bind (parseHex_completes hex)
  intro size _
  apply rejectIf_bind
  intro hle
  apply rejectIf_bind
  intro hlarge
  apply Completes.bind (.slice (by omega) (by omega))
  intro packetData _
  apply Completes.bind (splitIndex_completes packetData)
  intro index hindex
  have hlt := splitIndex_lt hindex
  apply Completes.bind (.slice (by omega) (by omega))
  intro keySlice _
  apply Completes.bind (.slice (by omega) (by omega))
  intro valueSlice _
  apply rejectIf_bind
  intro htwo
  apply Completes.sub_bind (by omega)
  apply checkFieldSize_bind
  apply Completes.bind (strFromUtf8_completes keySlice)
  intro key _
  apply Completes.sub_bind (by omega)
  apply Completes.bind (.slice (by omega) (by omega))
  intro value _
  apply Completes.bind (.slice (by omega) (by omega))
  intro rest _
  exact .pure _

theorem deserializeAsPackets_completes (remaining : Bytes) :
    Completes (deserializeAsPackets w remaining) := by
  fun_induction deserializeAsPackets w remaining with
  | case1 => exact .ok []
  | case2 remaining hne e he =>
    exact (readPacket_completes remaining).of_error he
  | case3 remaining hne packet rest hok ih =>
    apply Completes.bind ih
    intro packets _
    exact .pure _

namespace Assembly

theorem flushCaveat_completes (a : Assembly) : Completes a.flushCaveat := by
  unfold flushCaveat
  split
  · apply Completes.bind a.caveatBuilder.build_completes
    intro caveat _
    apply Completes.bind (a.builder.addCaveat_completes caveat)
    intro builder _
    exact .pure _
  · exact .ok a

theorem onLocation_completes (a : Assembly) (value : Bytes) : Completes (a.onLocation value) := by
  apply rejectIf_bind
  intro _
  apply Completes.bind (strFromUtf8_completes value)
  intro location _
  exact .pure _

theorem onIdentifier_completes (a : Assembly) (value : Bytes) :
    Completes (a.onIdentifier value) := by
  apply rejectIf_bind
  intro _
  exact .pure _

theorem onSignature_completes (a : Assembly) (value : Bytes) :
    Completes (a.onSignature value) := by
  apply Completes.bind (flushCaveat_completes _)
  intro b _
  apply rejectIf_bind
  intro hlen
  rw [Decidable.not_not] at hlen
  apply Completes.bind (b.builder.setSignature_completes hlen)
  intro builder _
  exact .pure _

theorem onCid_completes (a : Assembly) (value : Bytes) : Completes (a.onCid value) := by
  apply Completes.bind a.flushCaveat_completes
  intro b _
  exact .pure _

theorem onVid_completes (a : Assembly) (value : Bytes) : Completes (a.onVid value) := by
  apply rejectIf_bind
  intro _
  exact .pure _

theorem onCl_completes (a : Assembly) (value : Bytes) : Completes (a.onCl value) := by
  apply rejectIf_bind
  intro _
  apply Completes.bind (strFromUtf8_completes value)
  intro location _
  exact .pure _

theorem step_completes (a : Assembly) (packet : Packet) : Completes (a.step packet) := by
  apply rejectIf_bind
  intro _
  split_ifs
  · exact a.onLocation_completes packet.value
  · exact a.onIdentifier_completes packet.value
  · exact a.onSignature_completes packet.value
  · exact a.onCid_completes packet.value
  · exact a.onVid_completes packet.value
  · exact a.onCl_completes packet.value
  · exact .err _

end Assembly

theorem deserialize_completes (data : Bytes) : Completes (deserialize w data) := by
  apply Completes.bind (deserializeAsPackets_completes data)
  intro packets _
  apply Completes.bind (.foldlM Assembly.step_completes packets Assembly.new)
  intro assembly _
  exact assembly.builder.build_completes

end V1

namespace V2
variable {w : Width} {d d' : Deserializer}

namespace Deserializer

/-- The index has not left the token, which leaves room for the index arithmetic. -/
structure Within (w : Width) (d : Deserializer) : Prop where
  index_le : d.index ≤ d.data.length
  fits : Fits w d.data

theorem Within.reads {bytes : Bytes} (hd : d.Within w) (h : d.Reads bytes d') : d'.Within w := by
  obtain ⟨hdata, hread⟩ := h
  constructor
  · rw [hdata]
    exact hread.le_length_of_le hd.index_le
  · rw [hdata]
    exact hd.fits

theorem Within.new {data : Bytes} (h : Fits w data) : (Deserializer.new data).Within w :=
  ⟨Nat.zero_le _, h⟩

theorem Within.getByte {b : UInt8} (hd : d.Within w) (h : d.getByte w = .ok (b, d')) :
    d'.Within w := hd.reads (getByte_reads h)

theorem Within.getField {field : Bytes} (hd : d.Within w) (h : d.getField w = .ok (field, d')) :
    d'.Within w := hd.reads (getField_reads h).2

theorem getByte_completes (hf : Fits w d.data) : Completes (d.getByte w) := by
  simp only [Fits, maxFieldSizeBytes] at hf
  unfold Deserializer.getByte
  apply rejectIf_bind
  intro hne
  have hpos := List.length_pos_iff.mpr hne
  apply Completes.sub_bind (by omega)
  apply rejectIf_bind
  intro hindex
  apply Completes.bind (.indexAt (by omega))
  intro byte _
  apply Completes.add_bind (by omega)
  exact .pure _

theorem getEos_completes (hd : d.Within w) : Completes (d.getEos w) := by
  apply Completes.bind (getByte_completes hd.fits)
  intro r _
  apply rejectIf_bind
  intro _
  exact .pure _

theorem fieldSizeLoop_completes {size shift : Nat} (hf : Fits w d.data) :
    Completes (d.fieldSizeLoop w size shift) := by
  induction shift using shift_induction w generalizing d size with
  | pass shift ih =>
    have hbits := width_bits w
    rw [fieldSizeLoop]
    by_cases hle : shift ≤ w.bits - 8
    · rw [if_pos hle]
      apply Completes.bind (getByte_completes hf)
      intro r hbyte
      obtain ⟨byte, d'⟩ := r
      have hf' : Fits w d'.data := (getByte_reads hbyte).1 ▸ hf
      dsimp only
      split
      · apply Completes.bind (.shl (by omega))
        intro group _
        have hlt : w.bits < 2 ^ w.bits := Nat.lt_two_pow_self
        apply Completes.add_bind (by omega)
        exact ih hle hf'
      · apply rejectIf_bind
        intro _
        apply Completes.bind (.shl (by omega))
        intro group _
        apply checkFieldSize_bind
        exact .pure _
    · rw [if_neg hle]
      exact .err _

theorem getField_completes (hd : d.Within w) : Completes (d.getField w) := by
  apply Completes.bind (fieldSizeLoop_completes hd.fits)
  intro r hsize
  obtain ⟨size, d'⟩ := r
  obtain ⟨hmax, hread⟩ := getFieldSize_reads hsize
  have hd' := hd.reads hread
  have hindex := hd'.index_le
  have hfits := hd'.fits
  simp only [Fits] at hfits
  apply Completes.add_bind (by omega)
  apply rejectIf_bind
  intro hend
  apply Completes.add_bind (by omega)
  apply Completes.bind (.slice (by omega) (by omega))
  intro field _
  apply Completes.add_bind (by omega)
  exact .pure _

end Deserializer

open Deserializer

theorem readLocatedIdentifier_completes {missing : String} {tag : UInt8} (hd : d.Within w) :
    Completes (readLocatedIdentifier w missing tag d) := by
  unfold readLocatedIdentifier
  split
  · apply Completes.bind (getField_completes hd)
    intro r hfield
    have hd₁ := hd.getField hfield
    apply Completes.bind (strFromUtf8_completes r.1)
    intro location _
    apply Completes.bind (getByte_completes hd₁.fits)
    intro r htag
    have hd₂ := hd₁.getByte htag
    apply rejectIf_bind
    intro _
    apply Completes.bind (getField_completes hd₂)
    intro r _
    exact .pure _
  · split
    · apply Completes.bind (getField_completes hd)
      intro r _
      exact .pure _
    · exact .err _

theorem Deserializer.Within.locatedIdentifier {missing : String} {tag : UInt8}
    {location : Option String} {id : Bytes} (hd : d.Within w)
    (h : readLocatedIdentifier w missing tag d = .ok (location, id, d')) : d'.Within w := by
  obtain ⟨_, _, bytes, _, hread⟩ := readLocatedIdentifier_reads h
  exact hd.reads hread

theorem readHeader_completes (hd : d.Within w) : Completes (readHeader w d) := by
  apply Completes.bind (getByte_completes hd.fits)
  intro r hversion
  have hd₁ := hd.getByte hversion
  apply rejectIf_bind
  intro _
  apply Completes.bind (getByte_completes hd₁.fits)
  intro r htag
  have hd₂ := hd₁.getByte htag
  apply Completes.bind (readLocatedIdentifier_completes hd₂)
  intro r hstart
  have hd₃ := hd₂.locatedIdentifier hstart
  apply Completes.bind (getEos_completes hd₃)
  intro r _
  exact .pure _

theorem readCaveat_completes (tag : UInt8) (builder : MacaroonBuilder) (hd : d.Within w) :
    Completes (readCaveat w tag builder d) := by
  apply Completes.bind (readLocatedIdentifier_completes hd)
  intro r hstart
  have hd₁ := hd.locatedIdentifier hstart
  apply Completes.bind (getByte_completes hd₁.fits)
  intro r htag
  obtain ⟨tag', d₂⟩ := r
  have hd₂ := hd₁.getByte htag
  dsimp only
  split
  · apply Completes.bind (getField_completes hd₂)
    intro r hfield
    have hd₃ := hd₂.getField hfield
    apply Completes.bind (CaveatBuilder.build_completes _)
    intro caveat _
    apply Completes.bind (builder.addCaveat_completes caveat)
    intro builder' _
    apply Completes.bind (getEos_completes hd₃)
    intro r heos
    have hd₄ := hd₃.reads (getEos_reads heos)
    apply Completes.bind (getByte_completes hd₄.fits)
    intro r _
    exact .pure _
  · split
    · apply Completes.bind (CaveatBuilder.build_completes _)
      intro caveat _
      apply Completes.bind (builder.addCaveat_completes caveat)
      intro builder' _
      apply Completes.bind (getByte_completes hd₂.fits)
      intro r _
      exact .pure _
    · exact .err _

theorem caveatLoop_completes {tag : UInt8} {builder : MacaroonBuilder} (hd : d.Within w) :
    Completes (caveatLoop w tag builder d) := by
  fun_induction caveatLoop w tag builder d with
  | case1 => exact .ok _
  | case2 tag builder d htag e he =>
    exact (readCaveat_completes tag builder hd).of_error he
  | case3 tag builder d htag next builder' d' hok ih =>
    obtain ⟨_, bytes, _, _, _, _, hread⟩ := readCaveat_reads hok
    exact ih (hd.reads hread)

theorem readSignature_completes {builder : MacaroonBuilder} (hd : d.Within w) :
    Completes (readSignature w builder d) := by
  apply Completes.bind (getByte_completes hd.fits)
  intro r htag
  obtain ⟨tag, d₁⟩ := r
  have hd₁ := hd.getByte htag
  dsimp only
  split
  · apply Completes.bind (getField_completes hd₁)
    intro r _
    apply rejectIf_bind
    intro hlen
    rw [Decidable.not_not] at hlen
    apply Completes.bind (builder.setSignature_completes hlen)
    intro builder' _
    exact .pure _
  · exact .err _

theorem deserialize_completes {data : Bytes} (h : Fits w data) :
    Completes (deserialize w data) := by
  apply Completes.bind (readHeader_completes (.new h))
  intro r hheader
  obtain ⟨_, hcaveats, _, _, hread₁⟩ := readHeader_reads hheader
  have hd₁ : r.2.Within w := Within.reads (.new h) hread₁
  apply Completes.bind (getByte_completes hd₁.fits)
  intro t htag
  have hd₂ := hd₁.getByte htag
  apply Completes.bind (caveatLoop_completes hd₂)
  intro l hloop
  obtain ⟨_, _, _, _, _, _, hread₂⟩ := caveatLoop_reads hloop (by simp [hcaveats])
  have hd₃ := hd₂.reads hread₂
  apply Completes.bind (readSignature_completes hd₃)
  intro s _
  apply rejectIf_bind
  intro _
  exact s.1.build_completes

end V2

theorem ByteSlice.fits {w : Width} (b : ByteSlice w) : V2.Deserializer.Fits w b.bytes := by
  have hlt := b.length_lt
  simp only [V2.Deserializer.Fits, maxFieldSizeBytes]
  cases w with
  | w32 =>
    simp only [Width.bits] at *
    omega
  | w64 =>
    simp only [Width.bits] at *
    omega

section Base64
variable {E : Base64Crate}

theorem Base64Engine.tryDecode_completes (e : Base64Engine) (b : Bytes) :
    Completes (e.tryDecode b) := by
  unfold Base64Engine.tryDecode
  split
  · exact .ok _
  · exact .err _

theorem base64DecodeFlexible_completes (b : Bytes) : Completes (base64DecodeFlexible E b) := by
  apply rejectIf_bind
  intro _
  split
  · exact E.URL_SAFE.tryDecode_completes b
  · exact E.STANDARD.tryDecode_completes b

end Base64

namespace V2Json
variable {E : Base64Crate}

theorem visitOption_completes (value : Option String) : Completes (visitOption E value) := by
  cases value with
  | none => exact .ok none
  | some value =>
    have hstr : Completes (visitStr E value) := by
      have hdecode := base64DecodeFlexible_completes (E := E) (asBytes value)
      unfold visitStr
      obtain ⟨raw, h⟩ | ⟨e, h⟩ := hdecode
      · rw [h]
        exact .ok raw
      · rw [h]
        exact .err _
    apply Completes.bind hstr
    intro raw _
    exact .pure _

theorem deserializeCaveat_completes (c : CaveatFields String) : Completes (c.deserialize E) := by
  apply Completes.bind (visitOption_completes c.i64)
  intro i64 _
  apply Completes.bind (visitOption_completes c.v64)
  intro v64 _
  exact .pure _

theorem deserializeCaveats_completes (cs : List (CaveatFields String)) :
    Completes (deserializeCaveats E cs) := by
  induction cs with
  | nil => exact .ok []
  | cons c cs ih =>
    apply Completes.bind (deserializeCaveat_completes c)
    intro caveat _
    apply Completes.bind ih
    intro caveats _
    exact .pure _

theorem readSerialization_completes (J : SerdeJson) (data : Bytes) :
    Completes (readSerialization E J data) := by
  unfold readSerialization
  split
  next fields _ =>
    apply Completes.bind (visitOption_completes fields.i64)
    intro i64 _
    apply Completes.bind (deserializeCaveats_completes fields.c)
    intro c _
    exact .pure _
  next => exact .err _

theorem rejectBoth_completes {α β : Type} (a : Option α) (b : Option β) (pair : String) :
    Completes (rejectBoth a b pair) := Completes.failIf _ _

theorem chooseId_completes (i : Option String) (i64 : Option ByteString) (missing : String) :
    Completes (chooseId i i64 missing) := by
  unfold chooseId
  split
  · exact .ok _
  · split
    · exact .ok _
    · exact .err _

theorem chooseLocation_completes (l l64 : Option String) : Completes (chooseLocation E l l64) := by
  unfold chooseLocation
  split
  · exact .ok _
  · split
    · apply Completes.bind (base64DecodeFlexible_completes _)
      intro raw _
      apply Completes.bind (strFromUtf8_completes raw)
      intro loc _
      exact .pure _
    · exact .ok _

theorem chooseSignature_completes (s : Option Bytes) (s64 : Option String) :
    Completes (chooseSignature E s s64) := by
  unfold chooseSignature
  split
  · exact .ok _
  · split
    · exact base64DecodeFlexible_completes _
    · exact .err _

theorem setLocation_completes (builder : MacaroonBuilder) (location : Option String) :
    Completes (setLocation builder location) := by
  cases location with
  | none => exact .ok builder
  | some loc =>
    apply checkFieldSize_bind
    exact .pure _

theorem addCaveatLocation_completes (b : CaveatBuilder) (location : Option String) :
    Completes (addCaveatLocation b location) := by
  cases location with
  | none => exact .ok b
  | some loc =>
    apply checkFieldSize_bind
    exact .pure _

theorem addCaveatVerifierId_completes (b : CaveatBuilder) (vid : Option ByteString) :
    Completes (addCaveatVerifierId b vid) := by
  cases vid with
  | none => exact .ok b
  | some vid =>
    apply checkFieldSize_bind
    exact .pure _

theorem caveatStep_completes (builders : MacaroonBuilder × CaveatBuilder) (c : Caveat) :
    Completes (caveatStep E builders c) := by
  apply Completes.bind (rejectBoth_completes _ _ _)
  intro _ _
  apply Completes.bind (rejectBoth_completes _ _ _)
  intro _ _
  apply Completes.bind (rejectBoth_completes _ _ _)
  intro _ _
  apply Completes.bind (chooseId_completes _ _ _)
  intro caveatId _
  apply checkFieldSize_bind
  apply Completes.bind (chooseLocation_completes _ _)
  intro caveatLocation _
  apply Completes.bind (addCaveatLocation_completes _ _)
  intro b _
  apply Completes.bind (addCaveatVerifierId_completes _ _)
  intro b _
  apply Completes.bind b.build_completes
  intro caveat _
  apply Completes.bind (builders.1.addCaveat_completes caveat)
  intro builder _
  exact .pure _

theorem fromJson_completes (ser : Serialization) : Completes (fromJson E ser) := by
  apply rejectIf_bind
  intro _
  apply Completes.bind (rejectBoth_completes _ _ _)
  intro _ _
  apply Completes.bind (rejectBoth_completes _ _ _)
  intro _ _
  apply Completes.bind (rejectBoth_completes _ _ _)
  intro _ _
  apply Completes.bind (chooseId_completes _ _ _)
  intro identifier _
  apply checkFieldSize_bind
  apply Completes.bind (chooseLocation_completes _ _)
  intro location _
  apply Completes.bind (setLocation_completes _ _)
  intro builder _
  apply Completes.bind (chooseSignature_completes _ _)
  intro rawSig _
  apply rejectIf_bind
  intro hlen
  rw [Decidable.not_not] at hlen
  apply Completes.bind (builder.setSignature_completes hlen)
  intro builder _
  apply Completes.bind (.foldlM caveatStep_completes ser.c (builder, .new))
  intro builders _
  exact builders.1.build_completes

theorem deserialize_completes (J : SerdeJson) (data : Bytes) :
    Completes (deserialize E J data) := by
  apply Completes.bind (readSerialization_completes J data)
  intro v2j _
  exact fromJson_completes v2j

end V2Json

/-- Decoding base64 gives no more bytes than the text has. -/
def Base64Engine.Shrinks (e : Base64Engine) : Prop :=
  ∀ text v, e.decode text = .ok v → v.length ≤ text.length

namespace Macaroon
variable {E : Base64Crate} {J : V2Json.SerdeJson} {w : Width}

theorem deserializeBinary_completes {token : Bytes} (hf : V2.Deserializer.Fits w token) :
    Completes (deserializeBinary w token) := by
  apply rejectIf_bind
  intro hne
  have hpos := List.length_pos_iff.mpr hne
  apply Completes.bind (.indexAt hpos)
  intro first _
  have hmatch : Completes (matchBinary w first token) := by
    unfold matchBinary
    split_ifs
    · exact V2.deserialize_completes hf
    · exact V1.deserialize_completes token
    · exact .err _
  apply Completes.bind hmatch
  intro mac _
  exact mac.validate_completes

theorem base64DecodeFlexible_length {b v : Bytes} (hS : E.STANDARD.Shrinks) (hU : E.URL_SAFE.Shrinks)
    (h : base64DecodeFlexible E b = .ok v) : v.length ≤ b.length := by
  obtain hv | hv := base64DecodeFlexible_eq_ok h
  · exact hS b v hv
  · exact hU b v hv

theorem deserialize_completes {token : Bytes} (hS : E.STANDARD.Shrinks) (hU : E.URL_SAFE.Shrinks)
    (hf : V2.Deserializer.Fits w token) : Completes (deserialize E J w token) := by
  apply rejectIf_bind
  intro hne
  have hpos := List.length_pos_iff.mpr hne
  apply Completes.bind (.indexAt hpos)
  intro first _
  have hmatch : Completes (matchToken E J w first token) := by
    unfold matchToken
    split_ifs
    · exact V2Json.deserialize_completes J token
    · apply Completes.bind (base64DecodeFlexible_completes token)
      intro binary hbinary
      have hle := base64DecodeFlexible_length hS hU hbinary
      simp only [V2.Deserializer.Fits] at hf
      exact deserializeBinary_completes (by simp only [V2.Deserializer.Fits]; omega)
  apply Completes.bind hmatch
  intro mac _
  exact mac.validate_completes

end Macaroon

/-- Decoding untrusted bytes ends with a macaroon or an error. Only the way through base64 rests on
the engines: what they decode is no longer than the token. -/
theorem decoding_completes (E : Base64Crate) (J : V2Json.SerdeJson) (w : Width) (b : ByteSlice w) :
    Completes (Macaroon.deserializeBinary w b.bytes) ∧ Completes (V1.deserialize w b.bytes) ∧
      Completes (V2.deserialize w b.bytes) ∧ Completes (V2Json.deserialize E J b.bytes) ∧
      (E.STANDARD.Shrinks → E.URL_SAFE.Shrinks →
        Completes (Macaroon.deserialize E J w b.bytes)) := by
  refine ⟨Macaroon.deserializeBinary_completes b.fits, V1.deserialize_completes b.bytes,
    V2.deserialize_completes b.fits, V2Json.deserialize_completes J b.bytes, ?_⟩
  intro hS hU
  exact Macaroon.deserialize_completes hS hU b.fits

theorem engine_shrinks (A : Base64.Alphabet) (padded : Bool) :
    (Instances.engine A padded).Shrinks := by
  intro text v h
  simp only [Instances.engine] at h
  split at h
  next b hb =>
    cases h
    exact Base64.decode_length_le hb
  next => cases h

/- A V2 field size with all bits set, cut off in the middle, in base64. -/
def truncated : ByteSlice .w32 := ⟨Base64.encode Base64.standard true [2, 2, 255, 255, 255], by decide⟩

theorem decoding_completes_truncated :
    base64DecodeFlexible Instances.base64 truncated.bytes = .ok [2, 2, 255, 255, 255] ∧
      Completes (Macaroon.deserialize Instances.base64
        (Instances.json ⟨2, none, none, none, none, [], none, none⟩) .w32 truncated.bytes) :=
  ⟨by decide +kernel, (decoding_completes _ _ _ truncated).2.2.2.2
    (engine_shrinks Base64.standard true) (engine_shrinks Base64.urlSafe true)⟩

end Libmacaroon
