import Libmacaroon.Instances
import Libmacaroon.Token
import Libmacaroon.V1Assembly

/-! The V1 round trip, and the exact size at which V1 refuses to write a macaroon. -/
namespace Libmacaroon.V1
open Checked Utf8
variable {w : Width} {m : Macaroon}

theorem signature_packet_fits (signature : MacaroonKey) :
    (⟨SIGNATURE, signature.bytes⟩ : Packet).size ≤ maxPacketSize := by
  have htag : (asBytes SIGNATURE).length = 9 := by decide +kernel
  simp only [Packet.size, htag, signature.length_eq]
  decide

/-- The packet of the signature always fits, so only the content decides. -/
theorem serializeBinary_eq_ok {data : Bytes} : serializeBinary m = .ok data ↔
    (∀ p ∈ contentPackets m, p.size ≤ maxPacketSize) ∧
      data = (emittedPackets m).flatMap encodePacket := by
  rw [serializeBinary_eq, serializePackets_eq_ok, emittedPackets, List.forall_mem_append]
  simp [signature_packet_fits]

theorem serializeBinary_too_large (h : ¬ ∀ p ∈ contentPackets m, p.size ≤ maxPacketSize) :
    ∃ size, serializeBinary m = .err (.fieldTooLarge "v1 packet" size) := by
  rw [serializeBinary_eq]
  refine serializePackets_too_large fun hall => h fun p hp => hall p ?_
  exact List.mem_append_left _ hp

theorem hexDigit_first {i : Nat} (h : i < 16) :
    hexDigit i ≠ 2 ∧ Macaroon.isHexDigit (hexDigit i) = true := by
  have hall : ∀ i : Fin 16, hexDigit i ≠ 2 ∧ Macaroon.isHexDigit (hexDigit i) = true := by decide
  exact hall ⟨i, h⟩

theorem deserializeBinary_serializeBinary {data : Bytes} (hid : m.identifier ≠ [])
    (hlen : m.caveats.length ≤ maxCaveats) (h : serializeBinary m = .ok data) :
    Macaroon.deserializeBinary w data = .ok m := by
  obtain ⟨first, rest, hdata, htwo, hhex⟩ : ∃ first rest, data = first :: rest ∧ first ≠ 2 ∧
      Macaroon.isHexDigit first = true := by
    have hwritten := (serializeBinary_eq_ok.mp h).2
    obtain ⟨p, ps, hps⟩ : ∃ p ps, emittedPackets m = p :: ps :=
      List.exists_cons_of_ne_nil (by simp [emittedPackets])
    obtain ⟨a, b, c, d, ha, _, _, _, hheader, _⟩ := packetHeader_digits p.size
    rw [hps, List.flatMap_cons, encodePacket, hheader] at hwritten
    exact ⟨hexDigit a, _, hwritten, hexDigit_first ha⟩
  have hmatch : Macaroon.matchBinary w first data = .ok m := by
    rw [Macaroon.matchBinary, if_neg htwo, if_pos hhex, deserialize_serializeBinary hid hlen h]
  simp only [Macaroon.deserializeBinary, bind_eq_ok, rejectIf_eq_ok, indexAt_eq_ok,
    Macaroon.validate_eq_ok]
  exact ⟨(), by simp [hdata], first, by simp [hdata], m, hmatch, hid, rfl⟩

theorem packet_size_le (p : Packet) : p.size ≤ maxPacketSize ↔
    4 + (asBytes p.key).length + 1 + p.value.length + 1 ≤ 0xFFFF := by
  simp only [Packet.size, headerSize, maxPacketSize]
  omega

/-- V1 writes exactly the macaroons whose packets all fit, refuses the others as too large, and
reads back whatever it wrote. -/
theorem v1_round_trip (B : Backend) (E : Base64Crate) (J : V2Json.SerdeJson) (w : Width)
    (m : Macaroon) (hE : E.Lawful) (hm : Constructed B m) :
    ((∃ t, m.serialize E J .V1 = .ok t) ↔ ∀ p ∈ contentPackets m,
        4 + (asBytes p.key).length + 1 + p.value.length + 1 ≤ 0xFFFF) ∧
      ((¬ ∀ p ∈ contentPackets m, 4 + (asBytes p.key).length + 1 + p.value.length + 1 ≤ 0xFFFF) →
        ∃ field size, m.serialize E J .V1 = .err (.fieldTooLarge field size)) ∧
      ∀ t, m.serialize E J .V1 = .ok t → Macaroon.deserialize E J w (asBytes t) = .ok m := by
  have hserialize (t : String) : m.serialize E J .V1 = .ok t ↔
      ∃ data, serializeBinary m = .ok data ∧ E.URL_SAFE.encode data = t := by
    simp only [Macaroon.serialize, bind_eq_ok, pure_eq_ok]
  simp only [← packet_size_le]
  refine ⟨?_, ?_, ?_⟩
  · constructor
    · intro h
      obtain ⟨t, ht⟩ := h
      obtain ⟨data, hdata, _⟩ := (hserialize t).mp ht
      exact (serializeBinary_eq_ok.mp hdata).1
    · intro hfits
      exact ⟨_, (hserialize _).mpr ⟨_, serializeBinary_eq_ok.mpr ⟨hfits, rfl⟩, rfl⟩⟩
  · intro hlarge
    obtain ⟨size, hsize⟩ := serializeBinary_too_large hlarge
    exact ⟨"v1 packet", size, by simp [Macaroon.serialize, hsize]⟩
  · intro t ht
    obtain ⟨data, hdata, rfl⟩ := (hserialize t).mp ht
    have hid := hm.identifier_ne_nil
    have hbinary := deserializeBinary_serializeBinary (w := w) hid hm.caveats_le hdata
    have hne : data ≠ [] := by
      intro he
      simp [he, Macaroon.deserializeBinary, rejectIf, failIf] at hbinary
    rw [Macaroon.deserialize_encode hE hne, hbinary, ok_bind]
    exact Macaroon.validate_eq_ok.mpr ⟨hid, rfl⟩

theorem v1_round_trip_delegated :
    ((∃ t, Instances.delegated.serialize Instances.base64 ⟨fun _ => .error "", fun _ => .error ""⟩
        .V1 = .ok t) ↔ ∀ p ∈ contentPackets Instances.delegated,
        4 + (asBytes p.key).length + 1 + p.value.length + 1 ≤ 0xFFFF) ∧
      ((¬ ∀ p ∈ contentPackets Instances.delegated,
          4 + (asBytes p.key).length + 1 + p.value.length + 1 ≤ 0xFFFF) →
        ∃ field size, Instances.delegated.serialize Instances.base64
          ⟨fun _ => .error "", fun _ => .error ""⟩ .V1 = .err (.fieldTooLarge field size)) ∧
      ∀ t, Instances.delegated.serialize Instances.base64
          ⟨fun _ => .error "", fun _ => .error ""⟩ .V1 = .ok t →
        Macaroon.deserialize Instances.base64 ⟨fun _ => .error "", fun _ => .error ""⟩ .w64
          (asBytes t) = .ok Instances.delegated :=
  v1_round_trip Instances.backend _ _ _ _ Instances.base64_lawful Instances.delegated_minted.constructed

end Libmacaroon.V1
