import Libmacaroon.V1Packets

/-! How a V1 packet may be spelled. The reader takes any spelling of the size and any last byte; the
writer uses lower-case digits and a newline, and only such packets are reproduced. -/
namespace Libmacaroon.V1
open Checked Utf8
variable {w : Width}

/-- The frame begins with its length in four lower-case hexadecimal digits and ends with a newline. -/
def LowercaseFrame (frame : Bytes) : Prop :=
  ∃ a b c d body, a < 16 ∧ b < 16 ∧ c < 16 ∧ d < 16 ∧
    frame = [hexDigit a, hexDigit b, hexDigit c, hexDigit d] ++ body ++ [10] ∧
    frame.length = ((a * 16 + b) * 16 + c) * 16 + d

/-- The bytes are such frames, one after the other. -/
inductive LowercaseFramed : Bytes → Prop where
  | nil : LowercaseFramed []
  | cons {frame rest : Bytes} (hframe : LowercaseFrame frame) (hrest : LowercaseFramed rest) :
      LowercaseFramed (frame ++ rest)

theorem packetHeader_of_digits {a b c d n : Nat} (ha : a < 16) (hb : b < 16) (hc : c < 16)
    (hd : d < 16) (hn : n = ((a * 16 + b) * 16 + c) * 16 + d) :
    packetHeader n = [hexDigit a, hexDigit b, hexDigit c, hexDigit d] := by
  obtain ⟨a', b', c', d', ha', hb', hc', hd', hheader, hsum⟩ := packetHeader_digits n
  have hsum := hsum (by simp only [maxPacketSize]; omega)
  obtain ⟨rfl, rfl, rfl, rfl⟩ : a' = a ∧ b' = b ∧ c' = c ∧ d' = d := by omega
  exact hheader

theorem encodePacket_lowercase {p : Packet} (h : p.size ≤ maxPacketSize) :
    LowercaseFrame (encodePacket p) := by
  obtain ⟨a, b, c, d, ha, hb, hc, hd, hheader, hsum⟩ := packetHeader_digits p.size
  refine ⟨a, b, c, d, asBytes p.key ++ [32] ++ p.value, ha, hb, hc, hd, ?_, ?_⟩
  · rw [encodePacket, hheader]
    simp
  · rw [encodePacket_length, hsum h]

/-- The reader takes the whole of a lower-case frame, and it is the frame that would be written. -/
theorem IsFrame.eq_encodePacket {frame frame' rest rest' : Bytes} {p : Packet}
    (h : IsFrame w frame p) (hlower : LowercaseFrame frame')
    (heq : frame ++ rest = frame' ++ rest') : frame = encodePacket p ∧ rest = rest' := by
  have hlength := h.length
  obtain ⟨header, hex, last, hspell, hheader, hhex, hparse, _⟩ := h
  obtain ⟨a, b, c, d, body, ha, hb, hc, hd, hspell', hlength'⟩ := hlower
  rw [← packetHeader_of_digits ha hb hc hd rfl, ← hlength'] at hspell'
  have hheads : header = packetHeader frame'.length := by
    have hfour := congrArg (List.take 4) heq
    rw [hspell, hspell'] at hfour
    simp only [List.append_assoc] at hfour
    rwa [List.take_left' hheader, List.take_left' (packetHeader_length _)] at hfour
  have hsize : p.size = frame'.length := by
    have hmax : frame'.length ≤ maxPacketSize := by
      simp only [maxPacketSize]
      omega
    obtain ⟨hex', hhex', hparse'⟩ := read_packetHeader (w := w) hmax
    rw [← hheads, hhex] at hhex'
    cases hhex'
    exact Except.ok.inj (hparse.symm.trans hparse')
  obtain ⟨hframes, hrests⟩ := List.append_inj heq (hlength.trans hsize)
  refine ⟨?_, hrests⟩
  have hlast : last = 10 := by
    have hend := congrArg List.getLast? hframes
    rw [hspell, hspell', List.getLast?_concat, List.getLast?_concat] at hend
    exact Option.some.inj hend
  rw [hspell, hheads, hlast, ← hsize, encodePacket]

theorem lowercaseFramed_flatMap {ps : List Packet} (h : ∀ p ∈ ps, p.size ≤ maxPacketSize) :
    LowercaseFramed (ps.flatMap encodePacket) := by
  induction ps with
  | nil => exact .nil
  | cons p ps ih =>
    obtain ⟨hp, hps⟩ := List.forall_mem_cons.mp h
    exact .cons (encodePacket_lowercase hp) (ih hps)

theorem deserializeAsPackets_flatMap {data : Bytes} {ps : List Packet}
    (h : deserializeAsPackets w data = .ok ps) (hlower : LowercaseFramed data) :
    data = ps.flatMap encodePacket := by
  induction hlower generalizing ps with
  | nil =>
    cases h.symm.trans (deserializeAsPackets_eq_nil.mpr rfl)
    rfl
  | @cons frame rest hframe _ ih =>
    cases ps with
    | nil =>
      obtain ⟨a, b, c, d, body, _, _, _, _, rfl, _⟩ := hframe
      cases deserializeAsPackets_eq_nil.mp h
    | cons p ps =>
      obtain ⟨frame', rest', hsplit, hisFrame, hpackets⟩ := deserializeAsPackets_eq_cons.mp h
      obtain ⟨hencode, hrest⟩ := hisFrame.eq_encodePacket hframe hsplit.symm
      subst hrest
      rw [hsplit, hencode, List.flatMap_cons, ← ih hpackets]

/-- The packets of an accepted token are written back as the token exactly when it is made of
lower-case frames. -/
theorem framing_canonical_iff (w : Width) (data : Bytes) (ps : List Packet)
    (h : deserializeAsPackets w data = .ok ps) :
    serializePackets ps = .ok data ↔ LowercaseFramed data := by
  have hfits := deserializeAsPackets_fits h
  rw [serializePackets_eq_ok]
  constructor
  · intro hdata
    rw [hdata.2]
    exact lowercaseFramed_flatMap hfits
  · intro hlower
    exact ⟨hfits, deserializeAsPackets_flatMap h hlower⟩

/- One packet `cid x` in four spellings: as it is written, with an upper-case digit, with a sign,
   and with another last byte. -/
def written : Bytes := [48, 48, 48, 97, 99, 105, 100, 32, 120, 10]
def upperCase : Bytes := [48, 48, 48, 65, 99, 105, 100, 32, 120, 10]
def signed : Bytes := [43, 48, 48, 97, 99, 105, 100, 32, 120, 10]
def terminated : Bytes := [48, 48, 48, 97, 99, 105, 100, 32, 120, 33]

/-- All four are accepted as the same packet, and only the first is written. -/
theorem framing_has_spellings : serializePackets [⟨CID, [120]⟩] = .ok written ∧
    ∀ data ∈ [upperCase, signed, terminated],
      deserializeAsPackets .w64 data = .ok [⟨CID, [120]⟩] ∧
        serializePackets [⟨CID, [120]⟩] ≠ .ok data := by
  decide +kernel

theorem framing_canonical_iff_upperCase :
    serializePackets [⟨CID, [120]⟩] = .ok upperCase ↔ LowercaseFramed upperCase :=
  framing_canonical_iff .w64 upperCase [⟨CID, [120]⟩] (by decide +kernel)

end Libmacaroon.V1
