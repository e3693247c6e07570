import Libmacaroon.Serialization.V1

/-! The V1 token as a list of packets: `serialize_binary` writes the packets of the macaroon one
after the other, and `deserialize_as_packets` reads them back. -/
namespace Libmacaroon.V1
open Checked Utf8
variable {w : Width}

def Packet.size (p : Packet) : Nat := headerSize + 2 + (asBytes p.key).length + p.value.length

def locationPackets (location : Option String) : List Packet :=
  location.toList.map fun l => ⟨LOCATION, asBytes l⟩

def caveatPackets : Caveat → List Packet
  | .firstParty fp => [⟨CID, fp.predicate⟩]
  | .thirdParty tp => [⟨CID, tp.id⟩, ⟨VID, tp.verifierId⟩, ⟨CL, asBytes tp.location⟩]

/-- The packets of everything but the signature. -/
def contentPackets (m : Macaroon) : List Packet :=
  locationPackets m.location ++ ⟨IDENTIFIER, m.identifier⟩ :: m.caveats.flatMap caveatPackets

/-- The packets that `serialize_binary` emits, in order. -/
def emittedPackets (m : Macaroon) : List Packet :=
  contentPackets m ++ [⟨SIGNATURE, m.signature.bytes⟩]

def encodePacket (p : Packet) : Bytes :=
  packetHeader p.size ++ asBytes p.key ++ [32] ++ p.value ++ [10]

def serializePackets : List Packet → Result Bytes
  | [] => .ok []
  | p :: ps => do
    let bytes ← serializeAsPacket p.key p.value
    let rest ← serializePackets ps
    return bytes ++ rest

theorem serializeAsPacket_fits {p : Packet} (h : p.size ≤ maxPacketSize) :
    serializeAsPacket p.key p.value = .ok (encodePacket p) := by
  have hfail : failIf (headerSize + 2 + (asBytes p.key).length + p.value.length > maxPacketSize)
      (MacaroonError.fieldTooLarge "v1 packet"
        (headerSize + 2 + (asBytes p.key).length + p.value.length)) = .ok () :=
    failIf_eq_ok.mpr (Nat.not_lt.mpr h)
  simp only [serializeAsPacket, hfail, ok_bind]
  rfl

theorem serializeAsPacket_too_large {p : Packet} (h : maxPacketSize < p.size) :
    serializeAsPacket p.key p.value = .err (.fieldTooLarge "v1 packet" p.size) := by
  have hfail : failIf (headerSize + 2 + (asBytes p.key).length + p.value.length > maxPacketSize)
      (MacaroonError.fieldTooLarge "v1 packet"
        (headerSize + 2 + (asBytes p.key).length + p.value.length)) =
      .err (.fieldTooLarge "v1 packet" p.size) := if_pos h
  simp only [serializeAsPacket, hfail, error_bind]

theorem serializePackets_append (ps qs : List Packet) : serializePackets (ps ++ qs) = (do
    let bytes ← serializePackets ps
    let rest ← serializePackets qs
    return bytes ++ rest) := by
  induction ps with
  | nil => simp [serializePackets]
  | cons p ps ih =>
    rw [List.cons_append, serializePackets, ih, serializePackets]
    cases serializeAsPacket p.key p.value with
    | error e => rfl
    | ok bytes =>
      cases serializePackets ps with
      | error e => rfl
      | ok more => cases serializePackets qs <;> simp [pure, Except.pure]

theorem serializePackets_singleton (p : Packet) :
    serializePackets [p] = serializeAsPacket p.key p.value := by
  rw [serializePackets]
  cases serializeAsPacket p.key p.value <;> simp [serializePackets, pure, Except.pure]

theorem serializeLocation_eq (location : Option String) :
    serializeLocation location = serializePackets (locationPackets location) := by
  cases location with
  | none => rfl
  | some l => exact (serializePackets_singleton ⟨LOCATION, asBytes l⟩).symm

theorem serializeCaveat_eq (c : Caveat) :
    serializeCaveat c = serializePackets (caveatPackets c) := by
  cases c with
  | firstParty fp => exact (serializePackets_singleton ⟨CID, fp.predicate⟩).symm
  | thirdParty tp =>
    have hsplit : caveatPackets (.thirdParty tp) =
        [⟨CID, tp.id⟩] ++ ([⟨VID, tp.verifierId⟩] ++ [⟨CL, asBytes tp.location⟩]) := rfl
    rw [hsplit, serializePackets_append, serializePackets_append, serializePackets_singleton,
      serializePackets_singleton, serializePackets_singleton, serializeCaveat]
    simp

theorem serializeCaveats_eq (cs : List Caveat) :
    serializeCaveats cs = serializePackets (cs.flatMap caveatPackets) := by
  induction cs with
  | nil => rfl
  | cons c cs ih =>
    rw [serializeCaveats, serializeCaveat_eq, ih, List.flatMap_cons, serializePackets_append]

theorem serializeBinary_eq (m : Macaroon) :
    serializeBinary m = serializePackets (emittedPackets m) := by
  have hsplit : emittedPackets m = locationPackets m.location ++ ([⟨IDENTIFIER, m.identifier⟩] ++
      (m.caveats.flatMap caveatPackets ++ [⟨SIGNATURE, m.signature.bytes⟩])) := by
    simp [emittedPackets, contentPackets]
  rw [hsplit, serializePackets_append, serializePackets_append, serializePackets_append,
    serializePackets_singleton, serializePackets_singleton, serializeBinary, serializeLocation_eq,
    serializeCaveats_eq]
  simp

/-- The packets are written when each of them fits its header. -/
theorem serializePackets_eq_ok {ps : List Packet} {data : Bytes} :
    serializePackets ps = .ok data ↔
      (∀ p ∈ ps, p.size ≤ maxPacketSize) ∧ data = ps.flatMap encodePacket := by
  induction ps generalizing data with
  | nil => simp [serializePackets, eq_comm]
  | cons p ps ih =>
    by_cases hp : p.size ≤ maxPacketSize
    · simp only [serializePackets, serializeAsPacket_fits hp, ok_bind, bind_eq_ok, pure_eq_ok, ih]
      constructor
      · intro h
        obtain ⟨_, ⟨hps, hrest⟩, hdata⟩ := h
        exact ⟨List.forall_mem_cons.mpr ⟨hp, hps⟩, by rw [← hdata, hrest, List.flatMap_cons]⟩
      · intro h
        obtain ⟨hall, hdata⟩ := h
        exact ⟨_, ⟨(List.forall_mem_cons.mp hall).2, rfl⟩, hdata.symm⟩
    · have hlarge := serializeAsPacket_too_large (Nat.lt_of_not_le hp)
      simp [serializePackets, hlarge, hp]

theorem serializePackets_too_large {ps : List Packet} (h : ¬ ∀ p ∈ ps, p.size ≤ maxPacketSize) :
    ∃ size, serializePackets ps = .err (.fieldTooLarge "v1 packet" size) := by
  induction ps with
  | nil => exact absurd (by simp) h
  | cons p ps ih =>
    by_cases hp : p.size ≤ maxPacketSize
    · obtain ⟨size, hsize⟩ := ih fun hps => h (List.forall_mem_cons.mpr ⟨hp, hps⟩)
      exact ⟨size, by simp [serializePackets, serializeAsPacket_fits hp, hsize]⟩
    · have hlarge := serializeAsPacket_too_large (Nat.lt_of_not_le hp)
      exact ⟨p.size, by simp [serializePackets, hlarge]⟩

theorem digitValue_hexDigit {i : Nat} (h : i < 16) :
    digitValue (hexDigit i) = some i ∧ hexDigit i < 128 ∧ hexDigit i ≠ 43 := by
  have hall : ∀ i : Fin 16, digitValue (hexDigit i) = some i.val ∧ hexDigit i < 128 ∧
      hexDigit i ≠ 43 := by decide
  exact hall ⟨i, h⟩

theorem packetHeader_digits (n : Nat) : ∃ a b c d, a < 16 ∧ b < 16 ∧ c < 16 ∧ d < 16 ∧
    packetHeader n = [hexDigit a, hexDigit b, hexDigit c, hexDigit d] ∧
    (n ≤ maxPacketSize → ((a * 16 + b) * 16 + c) * 16 + d = n) := by
  have hmask (x : Nat) : x &&& 15 = x % 16 := Nat.and_two_pow_sub_one_eq_mod x 4
  refine ⟨n / 4096 % 16, n / 256 % 16, n / 16 % 16, n % 16, by omega, by omega, by omega,
    by omega, ?_, ?_⟩
  · simp only [packetHeader, hmask, Nat.shiftRight_eq_div_pow]
  · intro hn
    simp only [maxPacketSize] at hn
    omega

/-- The header of a packet is read back as its size. -/
theorem read_packetHeader {n : Nat} (h : n ≤ maxPacketSize) :
    ∃ hex, strFromUtf8 (packetHeader n) = .ok hex ∧ parseHex w hex = .ok n := by
  obtain ⟨a, b, c, d, ha, hb, hc, hd, hheader, hsum⟩ := packetHeader_digits n
  obtain ⟨hva, hla, hpa⟩ := digitValue_hexDigit ha
  obtain ⟨hvb, hlb, _⟩ := digitValue_hexDigit hb
  obtain ⟨hvc, hlc, _⟩ := digitValue_hexDigit hc
  obtain ⟨hvd, hld, _⟩ := digitValue_hexDigit hd
  have hascii : ∀ x ∈ packetHeader n, x < 128 := by
    simp [hheader, hla, hlb, hlc, hld]
  refine ⟨ofAscii (packetHeader n), strFromUtf8_eq_ok.mpr (asBytes_ofAscii hascii), ?_⟩
  have hbits : 2 ^ 32 ≤ 2 ^ w.bits :=
    Nat.pow_le_pow_right (by omega) (by cases w <;> simp [Width.bits])
  have hdigits : digitsValue w (packetHeader n) 0 = .ok n := by
    simp only [hheader, digitsValue, hva, hvb, hvc, hvd]
    rw [if_pos (by omega), if_pos (by omega), if_pos (by omega), if_pos (by omega), ← hsum h]
    simp only [Nat.zero_mul, Nat.zero_add]
  have hradix : fromStrRadix16 w (packetHeader n) = .ok n := by
    rw [hheader] at hdigits ⊢
    simp [fromStrRadix16, hpa, hdigits]
  rw [parseHex, asBytes_ofAscii hascii, hradix]

theorem packetHeader_length (n : Nat) : (packetHeader n).length = 4 := rfl

theorem encodePacket_length (p : Packet) : (encodePacket p).length = p.size := by
  simp only [encodePacket, List.length_append, packetHeader_length, List.length_singleton,
    Packet.size, headerSize]
  omega

theorem digitValue_lt {c : UInt8} {d : Nat} (h : digitValue c = some d) : d < 16 := by
  simp only [digitValue] at h
  have hle {a b : UInt8} : a ≤ b ↔ a.toNat ≤ b.toNat := UInt8.le_iff_toNat_le
  simp only [hle] at h
  split at h
  next hc => cases h; have := hc.2; simp at this; omega
  next =>
    split at h
    next hc => cases h; have := hc.2; simp at this; omega
    next =>
      split at h
      next hc => cases h; have := hc.2; simp at this; omega
      next => cases h

theorem digitsValue_lt {cs : Bytes} {acc n : Nat} (h : digitsValue w cs acc = .ok n) :
    n < (acc + 1) * 16 ^ cs.length := by
  induction cs generalizing acc with
  | nil =>
    cases h
    simp
  | cons c cs ih =>
    simp only [digitsValue] at h
    cases hd : digitValue c with
    | none => simp [hd] at h
    | some d =>
      have hlt := digitValue_lt hd
      simp only [hd] at h
      split at h
      · have hn := ih h
        have hle : (acc * 16 + d + 1) * 16 ^ cs.length ≤ (acc + 1) * 16 * 16 ^ cs.length :=
          Nat.mul_le_mul_right _ (by omega)
        rw [List.length_cons, Nat.pow_succ, Nat.mul_comm (16 ^ cs.length), ← Nat.mul_assoc]
        omega
      · cases h

theorem fromStrRadix16_digits {s : Bytes} {n : Nat} (h : fromStrRadix16 w s = .ok n) :
    ∃ cs, digitsValue w cs 0 = .ok n ∧ cs.length ≤ s.length := by
  match s with
  | [] => cases h
  | [c] =>
    simp only [fromStrRadix16] at h
    split at h
    · cases h
    · exact ⟨[c], h, Nat.le_refl _⟩
  | c :: c' :: cs =>
    simp only [fromStrRadix16] at h
    split at h
    · exact ⟨c' :: cs, h, by simp⟩
    · exact ⟨c :: c' :: cs, h, Nat.le_refl _⟩

/-- Four header bytes never promise more than a packet may hold. -/
theorem parseHex_le {header : Bytes} {hex : String} {n : Nat} (hlen : header.length = 4)
    (hhex : strFromUtf8 header = .ok hex) (h : parseHex w hex = .ok n) : n ≤ maxPacketSize := by
  rw [parseHex, strFromUtf8_eq_ok.mp hhex] at h
  split at h
  next n' hn =>
    cases h
    obtain ⟨cs, hcs, hle⟩ := fromStrRadix16_digits hn
    have hlt := digitsValue_lt hcs
    have hpow : 16 ^ cs.length ≤ 16 ^ 4 := Nat.pow_le_pow_right (by omega) (hlen ▸ hle)
    simp only [maxPacketSize]
    omega
  next => cases h

theorem splitIndex_eq_ok {body : Bytes} {index : Nat} : splitIndex body = .ok index ↔
    ∃ key tail, body = key ++ 32 :: tail ∧ 32 ∉ key ∧ index = key.length := by
  constructor
  · intro h
    unfold splitIndex at h
    split at h
    next i hi =>
      cases h
      obtain ⟨hlt, hspace, hbefore⟩ := List.findIdx?_eq_some_iff_getElem.mp hi
      refine ⟨body.take index, body.drop (index + 1), ?_, ?_, ?_⟩
      · have hsplit := List.take_append_drop index body
        rw [List.drop_eq_getElem_cons hlt, eq_of_beq hspace] at hsplit
        exact hsplit.symm
      · intro hmem
        obtain ⟨j, hj, hkey⟩ := List.getElem_of_mem hmem
        rw [List.length_take] at hj
        rw [List.getElem_take] at hkey
        exact hbefore j (by omega) (beq_iff_eq.mpr hkey)
      · rw [List.length_take]
        omega
    next => cases h
  · intro h
    obtain ⟨key, tail, rfl, hkey, rfl⟩ := h
    have hnone : key.findIdx? (· == 32) = none := by
      rw [List.findIdx?_eq_none_iff]
      intro x hx
      simp only [beq_eq_false_iff_ne]
      intro he
      exact hkey (he ▸ hx)
    have hfind : (key ++ 32 :: tail).findIdx? (· == 32) = some key.length := by
      simp [List.findIdx?_append, hnone, List.findIdx?_cons]
    simp only [splitIndex, hfind]

/-- One packet as the reader takes it. The header is any spelling of the size, and the last byte is
skipped. -/
def IsFrame (w : Width) (frame : Bytes) (p : Packet) : Prop :=
  ∃ header hex last, frame = header ++ asBytes p.key ++ [32] ++ p.value ++ [last] ∧
    header.length = 4 ∧ strFromUtf8 header = .ok hex ∧ parseHex w hex = .ok p.size ∧
    32 ∉ asBytes p.key

theorem IsFrame.length {frame : Bytes} {p : Packet} (h : IsFrame w frame p) :
    frame.length = p.size := by
  obtain ⟨header, hex, last, rfl, hheader, _⟩ := h
  simp only [List.length_append, List.length_singleton, Packet.size, headerSize]
  omega

theorem IsFrame.size_le {frame : Bytes} {p : Packet} (h : IsFrame w frame p) :
    p.size ≤ maxPacketSize := by
  obtain ⟨header, hex, last, _, hheader, hhex, hparse, _⟩ := h
  exact parseHex_le hheader hhex hparse

theorem readPacket_isFrame {remaining rest : Bytes} {p : Packet}
    (h : readPacket w remaining = .ok (p, rest)) :
    ∃ frame, remaining = frame ++ rest ∧ IsFrame w frame p := by
  simp only [readPacket, bind_eq_ok, rejectIf_eq_ok, slice_eq_ok, sub_eq_ok, splitIndex_eq_ok,
    pure_eq_ok, Prod.mk.injEq] at h
  obtain ⟨_, hfour, header, ⟨_, _, hheader⟩, hex, hhex, size, hsize, _, hle, _, hlarge, body,
    ⟨_, _, hbody⟩, index, ⟨keyBytes, tail, hsplit, hspace, rfl⟩, keySlice, ⟨_, _, rfl⟩, valueSlice,
    ⟨_, _, hvalueSlice⟩, _, htwo, _, _, _, _, key, hkey, last, ⟨_, rfl⟩, value, ⟨_, _, hvalue⟩, _,
    ⟨_, _, rfl⟩, rfl, rfl⟩ := h
  have hkeyBytes : asBytes key = keyBytes := by
    rw [strFromUtf8_eq_ok.mp hkey, hsplit]
    simp
  have hvalueSlice : valueSlice = 32 :: tail := by
    rw [hvalueSlice, List.take_length, hsplit, List.drop_left]
  obtain rfl | ⟨tail, terminator, rfl⟩ := tail.eq_nil_or_concat
  · simp [hvalueSlice] at htwo
  have hvalue : value = tail := by
    rw [hvalue, hvalueSlice]
    simp
  have hbodyLen : body.length = size - 4 := by
    rw [hbody]
    simp only [List.length_drop, List.length_take]
    omega
  have hsize' : Packet.size ⟨key, value⟩ = size := by
    rw [hsplit, List.concat_eq_append] at hbodyLen
    simp only [List.length_append, List.length_cons, List.length_nil] at hbodyLen
    simp only [Packet.size, headerSize, hkeyBytes, hvalue]
    omega
  refine ⟨remaining.take size, ?_, header, hex, terminator, ?_, ?_, hhex, ?_, ?_⟩
  · rw [List.take_length, List.take_append_drop]
  · have hfront : (remaining.take size).take 4 = header := by
      rw [hheader, List.take_take, List.drop_zero, Nat.min_eq_left (by omega)]
    rw [← List.take_append_drop 4 (remaining.take size), hfront, ← hbody, hsplit, hkeyBytes, hvalue]
    simp
  · rw [hheader, List.drop_zero, List.length_take]
    omega
  · rw [hsize']
    exact hsize
  · rw [hkeyBytes]
    exact hspace

/-- Whatever follows it, a packet is read back. -/
theorem readPacket_of_isFrame {frame rest : Bytes} {p : Packet} (h : IsFrame w frame p) :
    readPacket w (frame ++ rest) = .ok (p, rest) := by
  have hsize := h.size_le
  have hframe := h.length
  obtain ⟨header, hex, last, hspell, hheader, hhex, hparse, hspace⟩ := h
  have hlen : (frame ++ rest).length = p.size + rest.length := by
    rw [List.length_append, hframe]
  have hlarge : 6 ≤ p.size := by
    simp only [Packet.size, headerSize]
    omega
  have htake : (frame ++ rest).take p.size = frame := List.take_left' hframe
  have hfront : (frame ++ rest).take 4 = header := by
    rw [hspell]
    simp only [List.append_assoc]
    exact List.take_left' hheader
  have hbody : ((frame ++ rest).take p.size).drop 4 =
      asBytes p.key ++ 32 :: (p.value ++ [last]) := by
    rw [htake, hspell]
    simp only [List.append_assoc]
    exact List.drop_left' hheader
  have hvalue : (32 :: (p.value ++ [last])).length = p.value.length + 2 := by simp
  have hmax : p.value.length ≤ maxFieldSizeBytes := by
    simp only [Packet.size, headerSize, maxPacketSize, maxFieldSizeBytes] at *
    omega
  simp only [readPacket, bind_eq_ok, rejectIf_eq_ok, slice_eq_ok, sub_eq_ok, checkFieldSize_eq_ok,
    pure_eq_ok, Prod.mk.injEq]
  refine ⟨(), by omega, header, ⟨by omega, by omega, hfront.symm⟩, hex, hhex, p.size, hparse,
    (), by omega, (), by omega, _, ⟨by omega, by omega, hbody.symm⟩, _,
    splitIndex_eq_ok.mpr ⟨asBytes p.key, _, rfl, hspace, rfl⟩,
    asBytes p.key, ⟨by omega, ?_, ?_⟩, 32 :: (p.value ++ [last]), ⟨?_, Nat.le_refl _, ?_⟩, (),
    by omega, p.value.length, ⟨by omega, by omega⟩, (), hmax, p.key, ?_, p.value.length + 1,
    ⟨by omega, by omega⟩, p.value, ⟨by omega, by omega, ?_⟩, rest, ⟨by omega, by omega, ?_⟩,
    rfl, rfl⟩
  · simp
  · simp
  · simp
  · rw [List.take_length, List.drop_left]
  · exact strFromUtf8_eq_ok.mpr rfl
  · simp
  · rw [List.take_length, List.drop_left' hframe]

theorem encodePacket_isFrame {p : Packet} (hsize : p.size ≤ maxPacketSize)
    (hkey : 32 ∉ asBytes p.key) : IsFrame w (encodePacket p) p := by
  obtain ⟨hex, hhex, hparse⟩ := read_packetHeader (w := w) hsize
  exact ⟨packetHeader p.size, hex, 10, rfl, packetHeader_length p.size, hhex, hparse, hkey⟩

theorem deserializeAsPackets_cons {p : Packet} {remaining rest : Bytes}
    (h : readPacket w remaining = .ok (p, rest)) : deserializeAsPackets w remaining = (do
      let packets ← deserializeAsPackets w rest
      return p :: packets) := by
  have hne : remaining ≠ [] := by
    have := readPacket_length h
    intro he
    simp [he] at this
  rw [deserializeAsPackets, if_neg hne]
  split
  next e he => cases he.symm.trans h
  next p' rest' hok =>
    cases hok.symm.trans h
    rfl

theorem deserializeAsPackets_eq_nil {data : Bytes} :
    deserializeAsPackets w data = .ok [] ↔ data = [] := by
  constructor
  · intro h
    by_contra hne
    rw [deserializeAsPackets, if_neg hne] at h
    split at h
    next => cases h
    next =>
      obtain ⟨_, _, h⟩ := bind_eq_ok.mp h
      cases h
  · intro h
    rw [deserializeAsPackets, if_pos h]

/-- The first packet has a frame of its own, and what follows the frame is read as the rest. -/
theorem deserializeAsPackets_eq_cons {data : Bytes} {p : Packet} {ps : List Packet} :
    deserializeAsPackets w data = .ok (p :: ps) ↔
      ∃ frame rest, data = frame ++ rest ∧ IsFrame w frame p ∧
        deserializeAsPackets w rest = .ok ps := by
  constructor
  · intro h
    rw [deserializeAsPackets] at h
    split at h
    next => cases h
    next =>
      split at h
      next => cases h
      next p' rest hp =>
        obtain ⟨packets, hrest, h⟩ := bind_eq_ok.mp h
        cases h
        obtain ⟨frame, hdata, hframe⟩ := readPacket_isFrame hp
        exact ⟨frame, rest, hdata, hframe, hrest⟩
  · intro h
    obtain ⟨frame, rest, rfl, hframe, hrest⟩ := h
    rw [deserializeAsPackets_cons (readPacket_of_isFrame hframe), hrest]
    rfl

/-- Reading a token that was written from packets gives the packets. -/
theorem deserializeAsPackets_of_serialize {ps : List Packet} {data : Bytes}
    (hkeys : ∀ p ∈ ps, 32 ∉ asBytes p.key) (h : serializePackets ps = .ok data) :
    deserializeAsPackets w data = .ok ps := by
  obtain ⟨hfits, rfl⟩ := serializePackets_eq_ok.mp h
  clear h
  induction ps with
  | nil => exact deserializeAsPackets_eq_nil.mpr rfl
  | cons p ps ih =>
    have hhead : IsFrame w (encodePacket p) p :=
      encodePacket_isFrame (hfits p (by simp)) (hkeys p (by simp))
    have htail := ih (fun q hq => hkeys q (by simp [hq])) (fun q hq => hfits q (by simp [hq]))
    exact deserializeAsPackets_eq_cons.mpr
      ⟨encodePacket p, ps.flatMap encodePacket, List.flatMap_cons, hhead, htail⟩

theorem deserializeAsPackets_fits {remaining : Bytes} {ps : List Packet}
    (h : deserializeAsPackets w remaining = .ok ps) : ∀ p ∈ ps, p.size ≤ maxPacketSize := by
  induction ps generalizing remaining with
  | nil => simp
  | cons p ps ih =>
    obtain ⟨frame, rest, _, hframe, hrest⟩ := deserializeAsPackets_eq_cons.mp h
    exact List.forall_mem_cons.mpr ⟨hframe.size_le, ih hrest⟩

end Libmacaroon.V1
