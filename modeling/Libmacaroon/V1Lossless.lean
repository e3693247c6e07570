import Libmacaroon.V1Accounting
import Libmacaroon.V1RoundTrip

/-! When V1 decoding keeps every packet of the token, and the limits of what it accepts. -/
namespace Libmacaroon.V1
open Checked Utf8
variable {w : Width} {data : Bytes} {m : Macaroon}

/- In what is emitted, a `vid` or `cl` packet never stands without a `cid`. -/
theorem exists_cid_of_vid_cl {p : Packet} (hp : p ∈ emittedPackets m)
    (hkey : p.key = VID ∨ p.key = CL) : ∃ q ∈ emittedPackets m, q.key = CID := by
  simp only [emittedPackets, contentPackets, locationPackets, List.mem_append, List.mem_map,
    List.mem_cons, List.not_mem_nil, or_false, List.mem_flatMap] at hp
  obtain (⟨l, _, rfl⟩ | rfl | ⟨c, hc, hpc⟩) | rfl := hp
  · simp [LOCATION, VID, CL] at hkey
  · simp [IDENTIFIER, VID, CL] at hkey
  · obtain ⟨q, hq, hcid⟩ : ∃ q ∈ caveatPackets c, q.key = CID := by
      cases c with
      | firstParty fp => exact ⟨⟨CID, fp.predicate⟩, by simp [caveatPackets], rfl⟩
      | thirdParty tp => exact ⟨⟨CID, tp.id⟩, by simp [caveatPackets], rfl⟩
    refine ⟨q, ?_, hcid⟩
    simp only [emittedPackets, contentPackets, List.mem_append, List.mem_cons, List.mem_flatMap]
    exact .inl (.inr (.inr ⟨c, hc, hq⟩))
  · simp [SIGNATURE, VID, CL] at hkey

/-- An accepted token can be written again: no packet grows. -/
theorem serializeBinary_of_deserialize (h : deserialize w data = .ok m) :
    serializeBinary m = .ok ((emittedPackets m).flatMap encodePacket) := by
  obtain ⟨ps, b, hps, hpackets, _⟩ := deserialize_accounts h
  refine serializeBinary_eq_ok.mpr ⟨?_, rfl⟩
  intro p hp
  have hmem : p ∈ (ps : Multiset Packet) := by
    rw [hpackets]
    refine Multiset.mem_add.mpr (.inl ?_)
    exact List.mem_append_left _ hp
  exact deserializeAsPackets_fits hps p hmem

/-- A packet is smaller than the largest field, so V1 accepts no macaroon beyond the limits. -/
theorem deserialize_withinLimits (h : deserialize w data = .ok m) : m.WithinLimits := by
  obtain ⟨_, _, _, _, _, _, hne, hlen⟩ := deserialize_accounts h
  have hfits := (serializeBinary_eq_ok.mp (serializeBinary_of_deserialize h)).1
  have hvalue : ∀ p ∈ contentPackets m, p.value.length ≤ maxFieldSizeBytes := by
    intro p hp
    have hsize := hfits p hp
    simp only [Packet.size, maxPacketSize] at hsize
    simp only [maxFieldSizeBytes]
    omega
  simp only [contentPackets, List.forall_mem_append, List.forall_mem_cons] at hvalue
  obtain ⟨hloc, hid, hcaveats⟩ := hvalue
  refine ⟨List.length_pos_iff.mpr hne, hid, ?_, hlen, ?_⟩
  · intro l hl
    exact hloc ⟨LOCATION, asBytes l⟩ (List.mem_map.mpr ⟨l, Option.mem_toList.mpr hl, rfl⟩)
  · intro c hc
    have hpackets : ∀ p ∈ caveatPackets c, p.value.length ≤ maxFieldSizeBytes := fun p hp =>
      hcaveats p (List.mem_flatMap.mpr ⟨c, hc, hp⟩)
    cases c with
    | firstParty fp => simpa [caveatPackets, Caveat.WithinLimits] using hpackets
    | thirdParty tp => simpa [caveatPackets, Caveat.WithinLimits] using hpackets

/-- The packets of an accepted token are those that are emitted for the decoded macaroon exactly
when the token has a `cid` packet or has neither a `vid` nor a `cl` packet. -/
theorem v1_lossless_iff (w : Width) (data : Bytes) (m : Macaroon) (ps : List Packet)
    (h : deserialize w data = .ok m) (hps : deserializeAsPackets w data = .ok ps) :
    (∃ out, serializeBinary m = .ok out ∧
        deserializeAsPackets w out = .ok (emittedPackets m)) ∧
      ((ps : Multiset Packet) = emittedPackets m ↔
        (∃ p ∈ ps, p.key = CID) ∨ ∀ p ∈ ps, p.key ≠ VID ∧ p.key ≠ CL) := by
  have hwrite := serializeBinary_of_deserialize h
  obtain ⟨ps', b, hps', hpackets, hid, hnew, _⟩ := deserialize_accounts h
  obtain rfl : ps' = ps := Except.ok.inj (hps'.symm.trans hps)
  constructor
  · refine ⟨_, hwrite, deserializeAsPackets_of_serialize ?_ (serializeBinary_eq m ▸ hwrite)⟩
    intro p hp
    exact space_not_mem_tags p.key (emittedPackets_key hp)
  · constructor
    · intro heq
      by_cases hvid : ∀ p ∈ ps', p.key ≠ VID ∧ p.key ≠ CL
      · exact .inr hvid
      · left
        push Not at hvid
        obtain ⟨p, hp, hkey⟩ := hvid
        have hvidcl : p.key = VID ∨ p.key = CL := by
          by_cases hv : p.key = VID
          · exact .inl hv
          · exact .inr (hkey hv)
        have hmem : p ∈ (emittedPackets m : Multiset Packet) := heq ▸ hp
        obtain ⟨q, hq, hcid⟩ := exists_cid_of_vid_cl hmem hvidcl
        have hmem' : q ∈ (ps' : Multiset Packet) := heq ▸ hq
        exact ⟨q, hmem', hcid⟩
    · intro hcond
      have hnone : pendingPackets b = [] := by
        obtain hcid | hvid := hcond
        · rw [hnew hcid]
          rfl
        · refine List.eq_nil_iff_forall_not_mem.mpr fun p hp => ?_
          have hmem : p ∈ (ps' : Multiset Packet) := by
            rw [hpackets]
            exact Multiset.mem_add.mpr (.inr hp)
          obtain hkey | hkey := pendingPackets_key hid hp
          · exact (hvid p hmem).1 hkey
          · exact (hvid p hmem).2 hkey
      simpa [hnone] using hpackets

/- The token of an identifier, a `vid` with no `cid`, and a signature. -/
def orphanPackets : List Packet :=
  [⟨IDENTIFIER, [65]⟩, ⟨VID, [66]⟩, ⟨SIGNATURE, zeroKey.bytes⟩]

theorem v1_lossless_iff_orphan :
    (∃ out, serializeBinary ⟨[65], none, zeroKey, []⟩ = .ok out ∧
        deserializeAsPackets .w64 out = .ok (emittedPackets ⟨[65], none, zeroKey, []⟩)) ∧
      ((orphanPackets : Multiset Packet) = emittedPackets ⟨[65], none, zeroKey, []⟩ ↔
        (∃ p ∈ orphanPackets, p.key = CID) ∨ ∀ p ∈ orphanPackets, p.key ≠ VID ∧ p.key ≠ CL) :=
  v1_lossless_iff .w64 (orphanPackets.flatMap encodePacket) _ _ (by decide +kernel)
    (by decide +kernel)

/-- The `vid` packet is read, accepted and dropped. -/
theorem v1_drops_orphan_vid :
    deserialize .w64 (orphanPackets.flatMap encodePacket) = .ok ⟨[65], none, zeroKey, []⟩ ∧
      deserializeAsPackets .w64 (orphanPackets.flatMap encodePacket) = .ok orphanPackets ∧
      (orphanPackets : Multiset Packet) ≠ emittedPackets ⟨[65], none, zeroKey, []⟩ := by
  refine ⟨by decide +kernel, by decide +kernel, ?_⟩
  decide +kernel

end Libmacaroon.V1
