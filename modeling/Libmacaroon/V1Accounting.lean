import Libmacaroon.V1Assembly
import Mathlib.Algebra.Order.Group.Multiset
import Mathlib.Tactic.Abel

/-! Where every packet of an accepted token went: at each point of the assembly loop the packets
read so far are those of the builder together with those of the open caveat. -/
namespace Libmacaroon.V1
open Checked Utf8

/-- The packets an open caveat was filled in from. -/
def pendingPackets (b : CaveatBuilder) : List Packet :=
  b.id.toList.map (fun id => ⟨CID, id⟩) ++ (b.verifierId.toList.map (fun vid => ⟨VID, vid⟩) ++
    b.location.toList.map fun l => ⟨CL, asBytes l⟩)

/-- A caveat is built from exactly its own packets. -/
theorem caveatPackets_build {b : CaveatBuilder} {c : Caveat} (h : b.build = .ok c) :
    caveatPackets c = pendingPackets b := by
  obtain ⟨id, vid, location⟩ := b
  cases id with
  | none => cases h
  | some id =>
    cases vid with
    | none =>
      cases location with
      | none =>
        cases h
        rfl
      | some l => cases h
    | some vid =>
      cases location with
      | none => cases h
      | some l =>
        cases h
        rfl

/- Without an identifier only `vid` and `cl` packets are pending. -/
theorem pendingPackets_key {b : CaveatBuilder} (hid : b.hasId = false) {p : Packet}
    (hp : p ∈ pendingPackets b) : p.key = VID ∨ p.key = CL := by
  have hnone : b.id = none := by simpa [CaveatBuilder.hasId] using hid
  simp only [pendingPackets, hnone, Option.toList_none, List.map_nil, List.nil_append,
    List.mem_append, List.mem_map] at hp
  obtain ⟨_, _, rfl⟩ | ⟨_, _, rfl⟩ := hp
  · exact .inl rfl
  · exact .inr rfl

namespace Assembly

def identifierPackets (a : Assembly) : List Packet :=
  if a.seenIdentifier then [⟨IDENTIFIER, a.builder.identifier⟩] else []

def signaturePackets (a : Assembly) : List Packet :=
  a.builder.signature.toList.map fun s => ⟨SIGNATURE, s.bytes⟩

/-- The packets that the builder was filled in from. -/
def builtPackets (a : Assembly) : Multiset Packet :=
  (locationPackets a.builder.location : Multiset Packet) + a.identifierPackets +
    a.builder.caveats.flatMap caveatPackets + a.signaturePackets

/-- What holds of the loop's variables after the packets `read`. -/
structure Accounts (a : Assembly) (read : List Packet) : Prop where
  packets : (read : Multiset Packet) = a.builtPackets + pendingPackets a.caveatBuilder
  location : a.seenLocation = a.builder.location.isSome
  identifier : a.seenIdentifier = false → a.builder.identifier = []
  signature : a.seenSignature = a.builder.signature.isSome
  caveats_le : a.builder.caveats.length ≤ maxCaveats
  /-- Once a `cid` was read a caveat stays open until the signature closes it. -/
  opened : (∃ p ∈ read, p.key = CID) →
    if a.seenSignature then a.caveatBuilder = .new else a.caveatBuilder.hasId
  closed : a.seenSignature → a.caveatBuilder.hasId = false

theorem accounts_new : Accounts new [] := by
  constructor <;> simp [new, builtPackets, identifierPackets, signaturePackets, locationPackets,
    pendingPackets, CaveatBuilder.new, MacaroonBuilder.new]

variable {a a' b : Assembly} {read : List Packet} {value : Bytes}

/-- Flushing moves the packets of the open caveat to the builder and touches nothing else. -/
theorem flushCaveat_moves (h : a.flushCaveat = .ok b) : ∃ caveats caveatBuilder,
    b = { a with builder := { a.builder with caveats := caveats },
                 caveatBuilder := caveatBuilder } ∧
      (caveats.flatMap caveatPackets : Multiset Packet) + pendingPackets caveatBuilder =
        a.builder.caveats.flatMap caveatPackets + pendingPackets a.caveatBuilder ∧
      caveatBuilder.hasId = false ∧ (a.caveatBuilder.hasId → caveatBuilder = .new) ∧
      (a.builder.caveats.length ≤ maxCaveats → caveats.length ≤ maxCaveats) := by
  obtain ⟨hid, rfl⟩ | ⟨caveat, _, hbuild, hlt, rfl⟩ := flushCaveat_eq_ok.mp h
  · exact ⟨b.builder.caveats, b.caveatBuilder, rfl, rfl, by simp [CaveatBuilder.hasId, hid],
      by simp [CaveatBuilder.hasId, hid], id⟩
  · refine ⟨a.builder.caveats ++ [caveat], .new, rfl, ?_, rfl, fun _ => rfl, ?_⟩
    · have hnew : pendingPackets CaveatBuilder.new = [] := rfl
      simp only [List.flatMap_append, List.flatMap_singleton, caveatPackets_build hbuild, hnew,
        Multiset.coe_nil, add_zero, ← Multiset.coe_add]
    · intro _
      simp only [List.length_append, List.length_singleton]
      omega

theorem exists_cid_append {p : Packet} (hp : p.key ≠ CID) :
    (∃ q ∈ read ++ [p], q.key = CID) ↔ ∃ q ∈ read, q.key = CID := by
  constructor
  · intro h
    obtain ⟨q, hq, hkey⟩ := h
    obtain hq | hq := List.mem_append.mp hq
    · exact ⟨q, hq, hkey⟩
    · exact absurd (List.mem_singleton.mp hq ▸ hkey) hp
  · intro h
    obtain ⟨q, hq, hkey⟩ := h
    exact ⟨q, List.mem_append_left _ hq, hkey⟩

namespace Accounts

theorem onLocation (h : Accounts a read) (hstep : a.onLocation value = .ok a') :
    Accounts a' (read ++ [⟨LOCATION, value⟩]) := by
  simp only [Assembly.onLocation, bind_eq_ok, rejectIf_eq_ok, pure_eq_ok] at hstep
  obtain ⟨_, hseen, location, hlocation, rfl⟩ := hstep
  have hnone : a.builder.location = none := by simpa [h.location] using hseen
  rw [strFromUtf8_eq_ok] at hlocation
  refine ⟨?_, rfl, h.identifier, h.signature, h.caveats_le, ?_, h.closed⟩
  · have hp := h.packets
    simp only [builtPackets, identifierPackets, signaturePackets, locationPackets, hnone,
      MacaroonBuilder.setLocation, Option.toList_none, Option.toList_some, List.map_nil,
      List.map_cons, hlocation, ← Multiset.coe_add, Multiset.coe_nil] at hp ⊢
    rw [hp]
    abel
  · rw [exists_cid_append (by simp [LOCATION, CID])]
    exact h.opened

theorem onIdentifier (h : Accounts a read) (hstep : a.onIdentifier value = .ok a') :
    Accounts a' (read ++ [⟨IDENTIFIER, value⟩]) := by
  simp only [Assembly.onIdentifier, bind_eq_ok, rejectIf_eq_ok, pure_eq_ok] at hstep
  obtain ⟨_, hseen, rfl⟩ := hstep
  refine ⟨?_, h.location, by simp, h.signature, h.caveats_le, ?_, h.closed⟩
  · have hp := h.packets
    simp only [builtPackets, identifierPackets, signaturePackets, hseen,
      MacaroonBuilder.setIdentifier, ← Multiset.coe_add, Multiset.coe_nil, if_true, if_false,
      Bool.false_eq_true] at hp ⊢
    rw [hp]
    abel
  · rw [exists_cid_append (by simp [IDENTIFIER, CID])]
    exact h.opened

theorem onSignature (h : Accounts a read) (hsig : a.seenSignature = false)
    (hstep : a.onSignature value = .ok a') : Accounts a' (read ++ [⟨SIGNATURE, value⟩]) := by
  simp only [Assembly.onSignature, bind_eq_ok, rejectIf_eq_ok, pure_eq_ok,
    Decidable.not_not] at hstep
  obtain ⟨b, hflush, _, hlen, builder, hbuilder, rfl⟩ := hstep
  obtain ⟨caveats, caveatBuilder, rfl, hmoved, hid, hnew, hle⟩ := flushCaveat_moves hflush
  rw [MacaroonBuilder.setSignature, dif_pos hlen] at hbuilder
  cases hbuilder
  have hnone : a.builder.signature = none := by simpa [h.signature] using hsig
  refine ⟨?_, h.location, h.identifier, rfl, hle h.caveats_le, ?_, fun _ => hid⟩
  · have hp := h.packets
    simp only [builtPackets, identifierPackets, signaturePackets, hnone, Option.toList_none,
      Option.toList_some, List.map_nil, List.map_cons, ← Multiset.coe_add,
      Multiset.coe_nil] at hp hmoved ⊢
    rw [hp]
    calc _ = ((locationPackets a.builder.location : Multiset Packet) + identifierPackets a +
          (a.builder.caveats.flatMap caveatPackets + pendingPackets a.caveatBuilder)) +
          ([⟨SIGNATURE, value⟩] : List Packet) := by simp only [identifierPackets]; abel
      _ = _ := by rw [← hmoved]; simp only [identifierPackets]; abel
  · rw [exists_cid_append (by simp [SIGNATURE, CID])]
    intro hcid
    have hopen := h.opened hcid
    simp only [hsig, Bool.false_eq_true, if_false] at hopen
    exact hnew hopen

theorem onCid (h : Accounts a read) (hsig : a.seenSignature = false)
    (hstep : a.onCid value = .ok a') : Accounts a' (read ++ [⟨CID, value⟩]) := by
  simp only [Assembly.onCid, bind_eq_ok, pure_eq_ok] at hstep
  obtain ⟨b, hflush, rfl⟩ := hstep
  obtain ⟨caveats, caveatBuilder, rfl, hmoved, hid, hnew, hle⟩ := flushCaveat_moves hflush
  have hnone : caveatBuilder.id = none := by simpa [CaveatBuilder.hasId] using hid
  refine ⟨?_, h.location, h.identifier, h.signature, hle h.caveats_le, ?_, by simp [hsig]⟩
  · have hadd : (pendingPackets (caveatBuilder.addId value) : Multiset Packet) =
        pendingPackets caveatBuilder + ([⟨CID, value⟩] : List Packet) := by
      simp only [pendingPackets, CaveatBuilder.addId, hnone, Option.toList_none,
        Option.toList_some, List.map_nil, List.map_cons, ← Multiset.coe_add, Multiset.coe_nil]
      abel
    have hp := h.packets
    simp only [builtPackets, identifierPackets, signaturePackets, hadd,
      ← Multiset.coe_add] at hp hmoved ⊢
    rw [hp]
    calc _ = ((locationPackets a.builder.location : Multiset Packet) + identifierPackets a +
          (a.builder.caveats.flatMap caveatPackets + pendingPackets a.caveatBuilder)) +
          signaturePackets a + ([⟨CID, value⟩] : List Packet) := by
          simp only [identifierPackets, signaturePackets]; abel
      _ = _ := by rw [← hmoved]; simp only [identifierPackets, signaturePackets]; abel
  · intro _
    simp [hsig, CaveatBuilder.addId, CaveatBuilder.hasId]

theorem onVid (h : Accounts a read) (hsig : a.seenSignature = false)
    (hstep : a.onVid value = .ok a') : Accounts a' (read ++ [⟨VID, value⟩]) := by
  simp only [Assembly.onVid, bind_eq_ok, rejectIf_eq_ok, pure_eq_ok] at hstep
  obtain ⟨_, hvid, rfl⟩ := hstep
  have hnone : a.caveatBuilder.verifierId = none := by
    simpa [CaveatBuilder.hasVerifierId] using hvid
  refine ⟨?_, h.location, h.identifier, h.signature, h.caveats_le, ?_, by simp [hsig]⟩
  · have hadd : (pendingPackets (a.caveatBuilder.addVerifierId value) : Multiset Packet) =
        pendingPackets a.caveatBuilder + ([⟨VID, value⟩] : List Packet) := by
      simp only [pendingPackets, CaveatBuilder.addVerifierId, hnone, Option.toList_none,
        Option.toList_some, List.map_nil, List.map_cons, ← Multiset.coe_add, Multiset.coe_nil]
      abel
    rw [← Multiset.coe_add, h.packets, hadd, builtPackets, builtPackets]
    simp only [identifierPackets, signaturePackets]
    abel
  · rw [exists_cid_append (by simp [VID, CID])]
    intro hcid
    simpa [hsig, CaveatBuilder.addVerifierId, CaveatBuilder.hasId] using h.opened hcid

theorem onCl (h : Accounts a read) (hsig : a.seenSignature = false)
    (hstep : a.onCl value = .ok a') : Accounts a' (read ++ [⟨CL, value⟩]) := by
  simp only [Assembly.onCl, bind_eq_ok, rejectIf_eq_ok, pure_eq_ok] at hstep
  obtain ⟨_, hcl, location, hlocation, rfl⟩ := hstep
  have hnone : a.caveatBuilder.location = none := by simpa [CaveatBuilder.hasLocation] using hcl
  rw [strFromUtf8_eq_ok] at hlocation
  refine ⟨?_, h.location, h.identifier, h.signature, h.caveats_le, ?_, by simp [hsig]⟩
  · have hadd : (pendingPackets (a.caveatBuilder.addLocation location) : Multiset Packet) =
        pendingPackets a.caveatBuilder + ([⟨CL, value⟩] : List Packet) := by
      simp only [pendingPackets, CaveatBuilder.addLocation, hnone, hlocation, Option.toList_none,
        Option.toList_some, List.map_nil, List.map_cons, ← Multiset.coe_add, Multiset.coe_nil]
      abel
    rw [← Multiset.coe_add, h.packets, hadd, builtPackets, builtPackets]
    simp only [identifierPackets, signaturePackets]
    abel
  · rw [exists_cid_append (by simp [CL, CID])]
    intro hcid
    simpa [hsig, CaveatBuilder.addLocation, CaveatBuilder.hasId] using h.opened hcid

/-- No packet is lost in one pass of the loop. -/
theorem step {p : Packet} (h : Accounts a read) (hstep : a.step p = .ok a') :
    Accounts a' (read ++ [p]) := by
  obtain ⟨key, value⟩ := p
  simp only [Assembly.step, bind_eq_ok, rejectIf_eq_ok, Bool.not_eq_true] at hstep
  obtain ⟨_, hsig, hstep⟩ := hstep
  split_ifs at hstep with hkey hkey hkey hkey hkey hkey
  · exact hkey ▸ h.onLocation hstep
  · exact hkey ▸ h.onIdentifier hstep
  · exact hkey ▸ h.onSignature hsig hstep
  · exact hkey ▸ h.onCid hsig hstep
  · exact hkey ▸ h.onVid hsig hstep
  · exact hkey ▸ h.onCl hsig hstep

theorem run {ps : List Packet} (h : Accounts a read) (hrun : ps.foldlM Assembly.step a = .ok a') :
    Accounts a' (read ++ ps) := by
  induction ps generalizing a read with
  | nil =>
    cases hrun
    simpa using h
  | cons p ps ih =>
    rw [List.foldlM_cons] at hrun
    obtain ⟨b, hstep, hrun⟩ := bind_eq_ok.mp hrun
    have hall := ih (h.step hstep) hrun
    rwa [List.append_assoc, List.singleton_append] at hall

end Accounts

end Assembly

theorem emittedPackets_coe (m : Macaroon) : (emittedPackets m : Multiset Packet) =
    (locationPackets m.location : Multiset Packet) +
      ([⟨IDENTIFIER, m.identifier⟩] : List Packet) + m.caveats.flatMap caveatPackets +
      ([⟨SIGNATURE, m.signature.bytes⟩] : List Packet) := by
  simp only [emittedPackets, contentPackets, Multiset.coe_add]
  simp

/-- The packets of an accepted token are those of the macaroon it decodes to, and those of a
caveat that was never opened. -/
theorem deserialize_accounts {w : Width} {data : Bytes} {m : Macaroon}
    (h : deserialize w data = .ok m) : ∃ ps b, deserializeAsPackets w data = .ok ps ∧
      (ps : Multiset Packet) = emittedPackets m + pendingPackets b ∧ b.hasId = false ∧
      ((∃ p ∈ ps, p.key = CID) → b = .new) ∧ m.identifier ≠ [] ∧
      m.caveats.length ≤ maxCaveats := by
  simp only [deserialize, bind_eq_ok] at h
  obtain ⟨ps, hps, a, hrun, hbuild⟩ := h
  have haccounts : a.Accounts ps := Assembly.accounts_new.run hrun
  obtain ⟨hne, signature, hsome, rfl⟩ := MacaroonBuilder.build_eq_ok.mp hbuild
  have hsig : a.seenSignature = true := by rw [haccounts.signature, hsome]; rfl
  have hid : a.seenIdentifier = true := by
    by_contra hnot
    exact hne (haccounts.identifier (by simpa using hnot))
  refine ⟨ps, a.caveatBuilder, hps, ?_, haccounts.closed hsig, ?_, hne, haccounts.caveats_le⟩
  · rw [haccounts.packets]
    simp only [Assembly.builtPackets, Assembly.identifierPackets, Assembly.signaturePackets,
      emittedPackets_coe, hid, hsome, if_true, Option.toList_some, List.map_cons, List.map_nil]
  · intro hcid
    simpa [hsig] using haccounts.opened hcid

end Libmacaroon.V1
