import Libmacaroon.V1Accounting

/-! The V1 language: the sequences of packets that the assembly loop accepts, and the macaroon that
each of them spells. -/
namespace Libmacaroon.V1
open Checked Utf8

/-- Caveats one after the other, each from its `cid` on; its `vid` and `cl` stand in either order. -/
inductive CaveatGroups : List Packet → List Caveat → Prop where
  | nil : CaveatGroups [] []
  | cons {cid : Bytes} {fields ps : List Packet} {c : Caveat} {cs : List Caveat}
      (hgroup : (⟨CID, cid⟩ :: fields).Perm (caveatPackets c)) (hrest : CaveatGroups ps cs) :
      CaveatGroups (⟨CID, cid⟩ :: (fields ++ ps)) (c :: cs)

/-- The caveat packets of a token. The first caveat may also have its `vid` and `cl` before its
`cid`; a token without a `cid` may have one of each, and they are dropped. -/
inductive CaveatSequence : List Packet → List Caveat → Prop where
  | orphans {ps : List Packet} {b : CaveatBuilder} (hid : b.hasId = false)
      (hps : ps.Perm (pendingPackets b)) : CaveatSequence ps []
  | caveats {group ps : List Packet} {c : Caveat} {cs : List Caveat}
      (hgroup : group.Perm (caveatPackets c)) (hrest : CaveatGroups ps cs) :
      CaveatSequence (group ++ ps) (c :: cs)

/-- The same, after the packets that filled in `b`. -/
inductive Residual (b : CaveatBuilder) : List Packet → List Caveat → Prop where
  | orphans {ps : List Packet} {b' : CaveatBuilder} (hid : b'.hasId = false)
      (hps : (pendingPackets b ++ ps).Perm (pendingPackets b')) : Residual b ps []
  | caveats {group ps : List Packet} {c : Caveat} {cs : List Caveat}
      (hgroup : (pendingPackets b ++ group).Perm (caveatPackets c)) (hrest : CaveatGroups ps cs) :
      Residual b (group ++ ps) (c :: cs)

theorem residual_new {ps : List Packet} {cs : List Caveat} :
    Residual .new ps cs ↔ CaveatSequence ps cs := by
  constructor
  · intro h
    cases h with
    | orphans hid hps => exact .orphans hid hps
    | caveats hgroup hrest => exact .caveats hgroup hrest
  · intro h
    cases h with
    | orphans hid hps => exact .orphans hid hps
    | caveats hgroup hrest => exact .caveats hgroup hrest

section Pending
variable {b b' : CaveatBuilder} {p : Packet} {ps group : List Packet} {c : Caveat}
  {cs : List Caveat} {v : Bytes}

/- A field is pending once at most, and a caveat has one packet of a kind. -/
theorem pendingPackets_nodup (b : CaveatBuilder) :
    ((pendingPackets b).map Packet.key).Nodup := by
  obtain ⟨id, vid, l⟩ := b
  cases id <;> cases vid <;> cases l <;> simp [pendingPackets, CID, VID, CL]

theorem caveatPackets_pending (c : Caveat) : ∃ b, caveatPackets c = pendingPackets b := by
  cases c with
  | firstParty fp => exact ⟨⟨some fp.predicate, none, none⟩, rfl⟩
  | thirdParty tp => exact ⟨⟨some tp.id, some tp.verifierId, some tp.location⟩, rfl⟩

theorem caveatPackets_nodup (c : Caveat) : ((caveatPackets c).map Packet.key).Nodup := by
  obtain ⟨b, hb⟩ := caveatPackets_pending c
  exact hb ▸ pendingPackets_nodup b

theorem cid_mem_caveatPackets (c : Caveat) : CID ∈ (caveatPackets c).map Packet.key := by
  cases c <;> simp [caveatPackets]

theorem cid_mem_pendingPackets : CID ∈ (pendingPackets b).map Packet.key ↔ b.hasId := by
  obtain ⟨id, vid, l⟩ := b
  cases id <;> cases vid <;> cases l <;> simp [pendingPackets, CaveatBuilder.hasId, CID, VID, CL]

theorem vid_mem_pendingPackets : VID ∈ (pendingPackets b).map Packet.key ↔ b.hasVerifierId := by
  obtain ⟨id, vid, l⟩ := b
  cases id <;> cases vid <;> cases l <;>
    simp [pendingPackets, CaveatBuilder.hasVerifierId, CID, VID, CL]

theorem cl_mem_pendingPackets : CL ∈ (pendingPackets b).map Packet.key ↔ b.hasLocation := by
  obtain ⟨id, vid, l⟩ := b
  cases id <;> cases vid <;> cases l <;>
    simp [pendingPackets, CaveatBuilder.hasLocation, CID, VID, CL]

theorem pendingPackets_addId (h : b.hasId = false) :
    (pendingPackets (b.addId v)).Perm (⟨CID, v⟩ :: pendingPackets b) := by
  obtain ⟨id, vid, l⟩ := b
  cases id with
  | none => exact .refl _
  | some id => cases h

theorem pendingPackets_addVerifierId (h : b.hasVerifierId = false) :
    (pendingPackets (b.addVerifierId v)).Perm (⟨VID, v⟩ :: pendingPackets b) := by
  obtain ⟨id, vid, l⟩ := b
  cases vid with
  | none => simp [pendingPackets, CaveatBuilder.addVerifierId]
  | some vid => cases h

theorem pendingPackets_addLocation {l : String} (h : b.hasLocation = false) :
    (pendingPackets (b.addLocation l)).Perm (⟨CL, asBytes l⟩ :: pendingPackets b) := by
  obtain ⟨id, vid, l'⟩ := b
  cases l' with
  | none =>
    simp only [pendingPackets, CaveatBuilder.addLocation, Option.toList_some, Option.toList_none,
      List.map_cons, List.map_nil, List.append_nil, ← List.append_assoc]
    exact List.perm_append_singleton _ _
  | some l' => cases h

/-- The converse of `caveatPackets_build`. -/
theorem build_of_perm (h : (pendingPackets b).Perm (caveatPackets c)) : b.build = .ok c := by
  obtain ⟨id, vid, l⟩ := b
  have hlength := h.length_eq
  cases c with
  | firstParty fp =>
    have heq := List.perm_singleton.mp h
    cases id <;> cases vid <;> cases l <;> simp [pendingPackets, CID, VID, CL] at heq
    subst heq
    rfl
  | thirdParty tp =>
    have hid : (⟨CID, tp.id⟩ : Packet) ∈ pendingPackets ⟨id, vid, l⟩ :=
      h.mem_iff.mpr (by simp [caveatPackets])
    have hvid : (⟨VID, tp.verifierId⟩ : Packet) ∈ pendingPackets ⟨id, vid, l⟩ :=
      h.mem_iff.mpr (by simp [caveatPackets])
    have hl : (⟨CL, asBytes tp.location⟩ : Packet) ∈ pendingPackets ⟨id, vid, l⟩ :=
      h.mem_iff.mpr (by simp [caveatPackets])
    simp [pendingPackets, CID, VID, CL] at hid hvid hl
    obtain ⟨l', rfl, hl⟩ := hl
    obtain rfl : l' = tp.location := asBytes_inj.mp hl
    rw [hid, hvid]
    rfl

/-- A packet that is read next is not a second one of its kind. -/
theorem key_fresh {qs : List Packet} (hqs : (qs.map Packet.key).Nodup)
    (h : (pendingPackets b ++ p :: group).Perm qs) :
    p.key ∉ (pendingPackets b).map Packet.key := by
  have hnodup := ((h.map Packet.key).nodup_iff).mpr hqs
  rw [List.map_append, List.map_cons] at hnodup
  intro hmem
  exact (List.nodup_append.mp hnodup).2.2 p.key hmem p.key List.mem_cons_self rfl

theorem perm_pending {qs : List Packet} (hb : (pendingPackets b').Perm (p :: pendingPackets b)) :
    (pendingPackets b ++ p :: group).Perm qs ↔ (pendingPackets b' ++ group).Perm qs := by
  have hmove : (pendingPackets b ++ p :: group).Perm (pendingPackets b' ++ group) :=
    List.perm_middle.trans (hb.symm.append_right group)
  exact ⟨hmove.symm.trans, hmove.trans⟩

theorem CaveatGroups.head_eq (h : CaveatGroups (p :: ps) cs) : p.key = CID := by
  generalize hqs : p :: ps = qs at h
  cases h with
  | nil => cases hqs
  | cons hgroup hrest =>
    obtain ⟨rfl, _⟩ := List.cons.inj hqs
    rfl

/- A `vid` or `cl` packet, if it is read at all, becomes pending beside what is pending. -/
theorem residual_head (hp : p.key ≠ CID) (h : Residual b (p :: ps) cs) :
    ∃ group b', (pendingPackets b ++ p :: group).Perm (pendingPackets b') := by
  generalize hqs : p :: ps = qs at h
  cases h with
  | orphans hid hps =>
    subst hqs
    exact ⟨ps, _, hps⟩
  | @caveats group ps' c cs hgroup hrest =>
    cases group with
    | nil =>
      rw [List.nil_append] at hqs
      subst hqs
      exact absurd hrest.head_eq hp
    | cons q group =>
      obtain ⟨rfl, _⟩ := List.cons.inj hqs
      obtain ⟨b', hb'⟩ := caveatPackets_pending c
      exact ⟨group, b', hb' ▸ hgroup⟩

theorem residual_fresh (hp : p.key ≠ CID) (h : Residual b (p :: ps) cs) :
    p.key ∉ (pendingPackets b).map Packet.key := by
  obtain ⟨group, b', hgroup⟩ := residual_head hp h
  exact key_fresh (pendingPackets_nodup b') hgroup

/-- The value of a `cl` packet is a text. -/
theorem residual_cl (h : Residual b (⟨CL, v⟩ :: ps) cs) : ∃ l, asBytes l = v := by
  obtain ⟨group, b', hgroup⟩ := residual_head (by simp [CL, CID]) h
  have hmem : (⟨CL, v⟩ : Packet) ∈ pendingPackets b' := hgroup.mem_iff.mp (by simp)
  simp only [pendingPackets, List.mem_append, List.mem_map, Packet.mk.injEq] at hmem
  obtain ⟨_, _, hkey, _⟩ | ⟨_, _, hkey, _⟩ | ⟨l, _, _, hl⟩ := hmem
  · simp [CL, CID] at hkey
  · simp [CL, VID] at hkey
  · exact ⟨l, hl⟩

theorem residual_field (hp : p.key ≠ CID)
    (hb : (pendingPackets b').Perm (p :: pendingPackets b)) :
    Residual b (p :: ps) cs ↔ Residual b' ps cs := by
  constructor
  · intro h
    generalize hqs : p :: ps = qs at h
    cases h with
    | orphans hid hps =>
      subst hqs
      exact .orphans hid ((perm_pending hb).mp hps)
    | @caveats group ps' c cs hgroup hrest =>
      cases group with
      | nil =>
        rw [List.nil_append] at hqs
        subst hqs
        exact absurd hrest.head_eq hp
      | cons q group =>
        obtain ⟨rfl, rfl⟩ := List.cons.inj hqs
        exact .caveats ((perm_pending hb).mp hgroup) hrest
  · intro h
    cases h with
    | orphans hid hps => exact .orphans hid ((perm_pending hb).mpr hps)
    | @caveats group ps' c cs hgroup hrest =>
      exact @Residual.caveats b (p :: group) ps' c cs ((perm_pending hb).mpr hgroup) hrest

/- Once an identifier is pending, a caveat is under way. -/
theorem residual_opened (hid : b.hasId) :
    Residual b ps cs ↔ ∃ group rest c cs', ps = group ++ rest ∧ cs = c :: cs' ∧
      (pendingPackets b ++ group).Perm (caveatPackets c) ∧ CaveatGroups rest cs' := by
  constructor
  · intro h
    cases h with
    | @orphans _ b' hid' hps =>
      have hmem : CID ∈ (pendingPackets b').map Packet.key := by
        refine (hps.map Packet.key).mem_iff.mp ?_
        rw [List.map_append]
        exact List.mem_append_left _ (cid_mem_pendingPackets.mpr hid)
      rw [cid_mem_pendingPackets, hid'] at hmem
      cases hmem
    | caveats hgroup hrest => exact ⟨_, _, _, _, rfl, rfl, hgroup, hrest⟩
  · intro h
    obtain ⟨group, rest, c, cs', rfl, rfl, hgroup, hrest⟩ := h
    exact .caveats hgroup hrest

theorem residual_cid_first (hid : b.hasId = false) :
    Residual b (⟨CID, v⟩ :: ps) cs ↔ Residual (b.addId v) ps cs := by
  have hb : (pendingPackets (b.addId v)).Perm (⟨CID, v⟩ :: pendingPackets b) :=
    pendingPackets_addId hid
  rw [residual_opened (b := b.addId v) rfl]
  constructor
  · intro h
    generalize hqs : (⟨CID, v⟩ :: ps : List Packet) = qs at h
    cases h with
    | @orphans _ b' hid' hps =>
      subst hqs
      have hmem : CID ∈ (pendingPackets b').map Packet.key :=
        (hps.map Packet.key).mem_iff.mp (by simp)
      rw [cid_mem_pendingPackets, hid'] at hmem
      cases hmem
    | @caveats group ps' c cs hgroup hrest =>
      cases group with
      | nil =>
        rw [List.append_nil] at hgroup
        have hmem := (hgroup.map Packet.key).mem_iff.mpr (cid_mem_caveatPackets c)
        rw [cid_mem_pendingPackets, hid] at hmem
        cases hmem
      | cons q group =>
        obtain ⟨rfl, rfl⟩ := List.cons.inj hqs
        exact ⟨group, ps', c, cs, rfl, rfl, (perm_pending hb).mp hgroup, hrest⟩
  · intro h
    obtain ⟨group, rest, c, cs', rfl, rfl, hgroup, hrest⟩ := h
    exact @Residual.caveats b (⟨CID, v⟩ :: group) rest c cs' ((perm_pending hb).mpr hgroup) hrest

/-- A further `cid` closes the caveat that is under way. -/
theorem residual_cid_next (hid : b.hasId) :
    Residual b (⟨CID, v⟩ :: ps) cs ↔ ∃ c cs', b.build = .ok c ∧ cs = c :: cs' ∧
      Residual (CaveatBuilder.new.addId v) ps cs' := by
  rw [residual_opened hid]
  constructor
  · intro h
    obtain ⟨group, rest, c, cs', hsplit, rfl, hgroup, hrest⟩ := h
    cases group with
    | nil =>
      rw [List.append_nil] at hgroup
      rw [List.nil_append] at hsplit
      refine ⟨c, cs', build_of_perm hgroup, rfl, ?_⟩
      subst hsplit
      generalize hqs : (⟨CID, v⟩ :: ps : List Packet) = qs at hrest
      cases hrest with
      | nil => cases hqs
      | @cons cid fields ps' c' cs'' hgroup' hrest' =>
        cases hqs
        exact .caveats hgroup' hrest'
    | cons q group =>
      obtain ⟨rfl, rfl⟩ := List.cons.inj hsplit
      exact absurd (cid_mem_pendingPackets.mpr hid) (key_fresh (caveatPackets_nodup c) hgroup)
  · intro h
    obtain ⟨c, cs', hbuild, rfl, hres⟩ := h
    obtain ⟨group, rest, c', cs'', rfl, rfl, hgroup, hrest⟩ :=
      (residual_opened (b := CaveatBuilder.new.addId v) rfl).mp hres
    refine ⟨[], ⟨CID, v⟩ :: (group ++ rest), c, c' :: cs'', rfl, rfl, ?_, .cons hgroup hrest⟩
    rw [List.append_nil, caveatPackets_build hbuild]

theorem residual_nil : Residual b [] cs ↔
    (b.hasId = false ∧ cs = []) ∨ ∃ c, b.build = .ok c ∧ cs = [c] := by
  constructor
  · intro h
    generalize hqs : ([] : List Packet) = qs at h
    cases h with
    | @orphans _ b' hid hps =>
      subst hqs
      rw [List.append_nil] at hps
      refine .inl ⟨?_, rfl⟩
      by_contra hnot
      have hmem := (hps.map Packet.key).mem_iff.mp
        (cid_mem_pendingPackets.mpr (by simpa using hnot))
      rw [cid_mem_pendingPackets, hid] at hmem
      cases hmem
    | @caveats group ps' c cs hgroup hrest =>
      obtain ⟨rfl, rfl⟩ := List.append_eq_nil_iff.mp hqs.symm
      rw [List.append_nil] at hgroup
      refine .inr ⟨c, build_of_perm hgroup, ?_⟩
      cases hrest
      rfl
  · intro h
    obtain ⟨hid, rfl⟩ | ⟨c, hbuild, rfl⟩ := h
    · exact .orphans hid (by rw [List.append_nil])
    · refine @Residual.caveats b [] [] c [] ?_ .nil
      rw [List.append_nil, caveatPackets_build hbuild]

end Pending

def isCaveatPacket (p : Packet) : Bool := p.key ∈ [CID, VID, CL]

/-- What the packets before the signature are, for the macaroon `m`. -/
structure Body (body : List Packet) (m : Macaroon) : Prop where
  keys : ∀ p ∈ body, p.key ∈ [LOCATION, IDENTIFIER, CID, VID, CL]
  location : body.filter (·.key = LOCATION) = locationPackets m.location
  identifier : body.filter (·.key = IDENTIFIER) = [⟨IDENTIFIER, m.identifier⟩]
  identifier_ne : m.identifier ≠ []
  caveats : CaveatSequence (body.filter isCaveatPacket) m.caveats
  caveats_le : m.caveats.length ≤ maxCaveats

namespace Assembly
variable {a b : Assembly} {body : List Packet} {m : Macaroon} {value : Bytes}

/-- The loop before the signature. -/
structure Unsigned (a : Assembly) : Prop where
  location : a.seenLocation = a.builder.location.isSome
  identifier : a.seenIdentifier = false → a.builder.identifier = []
  signature : a.seenSignature = false
  unset : a.builder.signature = none
  caveats_le : a.builder.caveats.length ≤ maxCaveats

theorem unsigned_new : Unsigned new := ⟨rfl, fun _ => rfl, rfl, rfl, Nat.zero_le _⟩

/-- The header packets that are still to come for the name and the location of `m`. -/
structure Names (a : Assembly) (body : List Packet) (m : Macaroon) : Prop where
  keys : ∀ p ∈ body, p.key ∈ [LOCATION, IDENTIFIER, CID, VID, CL]
  location : locationPackets a.builder.location ++ body.filter (·.key = LOCATION) =
    locationPackets m.location
  identifier : a.identifierPackets ++ body.filter (·.key = IDENTIFIER) =
    [⟨IDENTIFIER, m.identifier⟩]

/-- What the packets up to the signature are, for the loop to end with `m`. -/
structure Awaits (a : Assembly) (body : List Packet) (m : Macaroon) : Prop where
  names : a.Names body m
  caveats : ∃ cs, m.caveats = a.builder.caveats ++ cs ∧
    Residual a.caveatBuilder (body.filter isCaveatPacket) cs

/- The steps, on the loop's variables. -/
theorem step_location_eq_ok (ha : a.Unsigned) : a.step ⟨LOCATION, value⟩ = .ok b ↔
    a.builder.location = none ∧ ∃ l, asBytes l = value ∧
      b = { a with builder := a.builder.setLocation l, seenLocation := true } := by
  simp only [step_location, onLocation, ha.signature, ha.location, bind_eq_ok, rejectIf_eq_ok,
    strFromUtf8_eq_ok, pure_eq_ok, @eq_comm _ _ b]
  simp

theorem step_identifier_eq_ok (ha : a.Unsigned) : a.step ⟨IDENTIFIER, value⟩ = .ok b ↔
    a.seenIdentifier = false ∧
      b = { a with builder := a.builder.setIdentifier value, seenIdentifier := true } := by
  simp only [step_identifier, onIdentifier, ha.signature, bind_eq_ok, rejectIf_eq_ok, pure_eq_ok,
    @eq_comm _ _ b]
  simp

theorem step_vid_eq_ok (ha : a.Unsigned) : a.step ⟨VID, value⟩ = .ok b ↔
    a.caveatBuilder.hasVerifierId = false ∧
      b = { a with caveatBuilder := a.caveatBuilder.addVerifierId value } := by
  simp only [step_vid, onVid, ha.signature, bind_eq_ok, rejectIf_eq_ok, pure_eq_ok,
    @eq_comm _ _ b]
  simp

theorem step_cl_eq_ok (ha : a.Unsigned) : a.step ⟨CL, value⟩ = .ok b ↔
    a.caveatBuilder.hasLocation = false ∧ ∃ l, asBytes l = value ∧
      b = { a with caveatBuilder := a.caveatBuilder.addLocation l } := by
  simp only [step_cl, onCl, ha.signature, bind_eq_ok, rejectIf_eq_ok, strFromUtf8_eq_ok,
    pure_eq_ok, @eq_comm _ _ b]
  simp

theorem step_cid_eq_ok (ha : a.Unsigned) : a.step ⟨CID, value⟩ = .ok b ↔
    ∃ c, a.flushCaveat = .ok c ∧
      b = { c with caveatBuilder := c.caveatBuilder.addId value } := by
  simp only [step_cid, onCid, ha.signature, bind_eq_ok, rejectIf_eq_ok, pure_eq_ok,
    @eq_comm _ _ b]
  simp

theorem locationPackets_cons {location location' : Option String} {ps : List Packet} :
    locationPackets location ++ ⟨LOCATION, value⟩ :: ps = locationPackets location' ↔
      location = none ∧ ∃ l, asBytes l = value ∧
        locationPackets (some l) ++ ps = locationPackets location' := by
  cases location with
  | none =>
    cases location' with
    | none => simp [locationPackets]
    | some l' =>
      simp only [locationPackets, Option.toList_none, Option.toList_some, List.map_nil,
        List.map_cons, List.nil_append, List.cons_append, List.cons.injEq, Packet.mk.injEq,
        true_and]
      constructor
      · intro h
        exact ⟨l', h.1.symm, rfl, h.2⟩
      · intro h
        obtain ⟨l, hl, hl', hps⟩ := h
        exact ⟨hl.symm.trans hl', hps⟩
  | some l => cases location' <;> simp [locationPackets]

theorem identifierPackets_cons {identifier : Bytes} {ps : List Packet} :
    a.identifierPackets ++ ⟨IDENTIFIER, value⟩ :: ps = [⟨IDENTIFIER, identifier⟩] ↔
      a.seenIdentifier = false ∧
        ⟨IDENTIFIER, value⟩ :: ps = ([⟨IDENTIFIER, identifier⟩] : List Packet) := by
  cases h : a.seenIdentifier <;> simp [identifierPackets, h]

theorem filter_key_cons {p : Packet} {key : String} (hp : p.key ≠ key) :
    (p :: body).filter (·.key = key) = body.filter (·.key = key) :=
  List.filter_cons_of_neg (by simpa using hp)

/- What one packet changes in what is awaited. -/
theorem awaits_location : Awaits a (⟨LOCATION, value⟩ :: body) m ↔
    a.builder.location = none ∧ ∃ l, asBytes l = value ∧
      Awaits { a with builder := a.builder.setLocation l, seenLocation := true } body m := by
  have hlocation : (⟨LOCATION, value⟩ :: body).filter (·.key = LOCATION) =
      ⟨LOCATION, value⟩ :: body.filter (·.key = LOCATION) := List.filter_cons_of_pos (by simp)
  have hidentifier : (⟨LOCATION, value⟩ :: body).filter (·.key = IDENTIFIER) =
      body.filter (·.key = IDENTIFIER) := filter_key_cons (by simp [LOCATION, IDENTIFIER])
  have hcaveats : (⟨LOCATION, value⟩ :: body).filter isCaveatPacket = body.filter isCaveatPacket :=
    List.filter_cons_of_neg (by simp [isCaveatPacket, LOCATION, CID, VID, CL])
  constructor
  · intro h
    obtain ⟨⟨hkeys, hl, hid⟩, hcs⟩ := h
    rw [hlocation, locationPackets_cons] at hl
    obtain ⟨hnone, l, rfl, hl⟩ := hl
    rw [hidentifier] at hid
    rw [hcaveats] at hcs
    exact ⟨hnone, l, rfl, ⟨(List.forall_mem_cons.mp hkeys).2, hl, hid⟩, hcs⟩
  · intro h
    obtain ⟨hnone, l, rfl, ⟨hkeys, hl, hid⟩, hcs⟩ := h
    refine ⟨⟨List.forall_mem_cons.mpr ⟨by simp, hkeys⟩, ?_, ?_⟩, ?_⟩
    · rw [hlocation, locationPackets_cons]
      exact ⟨hnone, l, rfl, hl⟩
    · rwa [hidentifier]
    · rwa [hcaveats]

theorem awaits_identifier : Awaits a (⟨IDENTIFIER, value⟩ :: body) m ↔
    a.seenIdentifier = false ∧
      Awaits { a with builder := a.builder.setIdentifier value, seenIdentifier := true } body m := by
  have hlocation : (⟨IDENTIFIER, value⟩ :: body).filter (·.key = LOCATION) =
      body.filter (·.key = LOCATION) := filter_key_cons (by simp [LOCATION, IDENTIFIER])
  have hidentifier : (⟨IDENTIFIER, value⟩ :: body).filter (·.key = IDENTIFIER) =
      ⟨IDENTIFIER, value⟩ :: body.filter (·.key = IDENTIFIER) := List.filter_cons_of_pos (by simp)
  have hcaveats : (⟨IDENTIFIER, value⟩ :: body).filter isCaveatPacket =
      body.filter isCaveatPacket :=
    List.filter_cons_of_neg (by simp [isCaveatPacket, IDENTIFIER, CID, VID, CL])
  constructor
  · intro h
    obtain ⟨⟨hkeys, hl, hid⟩, hcs⟩ := h
    rw [hidentifier, identifierPackets_cons] at hid
    rw [hlocation] at hl
    rw [hcaveats] at hcs
    exact ⟨hid.1, ⟨(List.forall_mem_cons.mp hkeys).2, hl, hid.2⟩, hcs⟩
  · intro h
    obtain ⟨hseen, ⟨hkeys, hl, hid⟩, hcs⟩ := h
    refine ⟨⟨List.forall_mem_cons.mpr ⟨by simp, hkeys⟩, ?_, ?_⟩, ?_⟩
    · rwa [hlocation]
    · rw [hidentifier, identifierPackets_cons]
      exact ⟨hseen, hid⟩
    · rwa [hcaveats]

theorem names_cons {p : Packet} (hp : p.key ∈ [CID, VID, CL]) :
    Names a (p :: body) m ↔ Names a body m := by
  have hkey : p.key ∈ [LOCATION, IDENTIFIER, CID, VID, CL] :=
    List.mem_cons_of_mem _ (List.mem_cons_of_mem _ hp)
  have hlocation : (p :: body).filter (·.key = LOCATION) = body.filter (·.key = LOCATION) := by
    refine filter_key_cons fun he => ?_
    simp [he, LOCATION, CID, VID, CL] at hp
  have hidentifier : (p :: body).filter (·.key = IDENTIFIER) =
      body.filter (·.key = IDENTIFIER) := by
    refine filter_key_cons fun he => ?_
    simp [he, IDENTIFIER, CID, VID, CL] at hp
  constructor
  · intro h
    exact ⟨(List.forall_mem_cons.mp h.keys).2, hlocation ▸ h.location,
      hidentifier ▸ h.identifier⟩
  · intro h
    exact ⟨List.forall_mem_cons.mpr ⟨hkey, h.keys⟩, hlocation.symm ▸ h.location,
      hidentifier.symm ▸ h.identifier⟩

/-- A caveat packet leaves the name and the location to be awaited as before. -/
theorem awaits_caveat {p : Packet} (hp : p.key ∈ [CID, VID, CL]) : Awaits a (p :: body) m ↔
    Names a body m ∧ ∃ cs, m.caveats = a.builder.caveats ++ cs ∧
      Residual a.caveatBuilder (p :: body.filter isCaveatPacket) cs := by
  have hcaveats : (p :: body).filter isCaveatPacket = p :: body.filter isCaveatPacket :=
    List.filter_cons_of_pos (decide_eq_true hp)
  rw [← hcaveats, ← names_cons hp]
  exact ⟨fun h => ⟨h.names, h.caveats⟩, fun h => ⟨h.1, h.2⟩⟩

theorem awaits_vid : Awaits a (⟨VID, value⟩ :: body) m ↔
    a.caveatBuilder.hasVerifierId = false ∧
      Awaits { a with caveatBuilder := a.caveatBuilder.addVerifierId value } body m := by
  rw [awaits_caveat (by simp)]
  constructor
  · intro h
    obtain ⟨hnames, cs, hcs, hres⟩ := h
    have hfresh := residual_fresh (by simp [VID, CID]) hres
    rw [vid_mem_pendingPackets, Bool.not_eq_true] at hfresh
    rw [residual_field (by simp [VID, CID]) (pendingPackets_addVerifierId hfresh)] at hres
    exact ⟨hfresh, ⟨hnames.keys, hnames.location, hnames.identifier⟩, cs, hcs, hres⟩
  · intro h
    obtain ⟨hfresh, ⟨hkeys, hl, hid⟩, cs, hcs, hres⟩ := h
    refine ⟨⟨hkeys, hl, hid⟩, cs, hcs, ?_⟩
    rwa [residual_field (by simp [VID, CID]) (pendingPackets_addVerifierId hfresh)]

theorem awaits_cl : Awaits a (⟨CL, value⟩ :: body) m ↔
    a.caveatBuilder.hasLocation = false ∧ ∃ l, asBytes l = value ∧
      Awaits { a with caveatBuilder := a.caveatBuilder.addLocation l } body m := by
  rw [awaits_caveat (by simp)]
  constructor
  · intro h
    obtain ⟨hnames, cs, hcs, hres⟩ := h
    have hfresh := residual_fresh (by simp [CL, CID]) hres
    rw [cl_mem_pendingPackets, Bool.not_eq_true] at hfresh
    obtain ⟨l, rfl⟩ := residual_cl hres
    rw [residual_field (by simp [CL, CID]) (pendingPackets_addLocation hfresh)] at hres
    exact ⟨hfresh, l, rfl, ⟨hnames.keys, hnames.location, hnames.identifier⟩, cs, hcs, hres⟩
  · intro h
    obtain ⟨hfresh, l, rfl, ⟨hkeys, hl, hid⟩, cs, hcs, hres⟩ := h
    refine ⟨⟨hkeys, hl, hid⟩, cs, hcs, ?_⟩
    rwa [residual_field (by simp [CL, CID]) (pendingPackets_addLocation hfresh)]

/- A `cid` packet first hands the caveat under way to the builder, which must have room for it. -/
theorem awaits_cid (hlen : m.caveats.length ≤ maxCaveats) : Awaits a (⟨CID, value⟩ :: body) m ↔
    ∃ c, a.flushCaveat = .ok c ∧
      Awaits { c with caveatBuilder := c.caveatBuilder.addId value } body m := by
  rw [awaits_caveat (by simp)]
  by_cases hid : a.caveatBuilder.hasId
  · constructor
    · intro h
      obtain ⟨hnames, cs, hcs, hres⟩ := h
      obtain ⟨c, cs', hbuild, rfl, hnext⟩ := (residual_cid_next hid).mp hres
      have hlt : a.builder.caveats.length < maxCaveats := by
        rw [hcs] at hlen
        simp only [List.length_append, List.length_cons] at hlen
        omega
      refine ⟨_, flushCaveat_eq_ok.mpr (.inr ⟨c, hid, hbuild, hlt, rfl⟩),
        ⟨hnames.keys, hnames.location, hnames.identifier⟩, cs', ?_, hnext⟩
      rw [hcs, List.append_assoc, List.singleton_append]
    · intro h
      obtain ⟨c, hflush, ⟨hkeys, hl, hident⟩, cs, hcs, hres⟩ := h
      obtain ⟨hnone, rfl⟩ | ⟨caveat, _, hbuild, hlt, rfl⟩ := flushCaveat_eq_ok.mp hflush
      · simp [CaveatBuilder.hasId, hnone] at hid
      · refine ⟨⟨hkeys, hl, hident⟩, caveat :: cs, ?_,
          (residual_cid_next hid).mpr ⟨caveat, cs, hbuild, rfl, hres⟩⟩
        rw [hcs, List.append_assoc, List.singleton_append]
  · have hfalse : a.caveatBuilder.hasId = false := by simpa using hid
    have hnone : a.caveatBuilder.id = none := by simpa [CaveatBuilder.hasId] using hfalse
    constructor
    · intro h
      obtain ⟨hnames, cs, hcs, hres⟩ := h
      exact ⟨a, flushCaveat_eq_ok.mpr (.inl ⟨hnone, rfl⟩),
        ⟨hnames.keys, hnames.location, hnames.identifier⟩, cs, hcs,
        (residual_cid_first hfalse).mp hres⟩
    · intro h
      obtain ⟨c, hflush, ⟨hkeys, hl, hident⟩, cs, hcs, hres⟩ := h
      obtain ⟨_, rfl⟩ | ⟨caveat, hopen, _⟩ := flushCaveat_eq_ok.mp hflush
      · exact ⟨⟨hkeys, hl, hident⟩, cs, hcs, (residual_cid_first hfalse).mpr hres⟩
      · exact absurd hopen hid

/-- No other packet is read. -/
theorem key_of_step {p : Packet} (hp : p.key ≠ SIGNATURE) (hstep : a.step p = .ok b) :
    p.key ∈ [LOCATION, IDENTIFIER, CID, VID, CL] := by
  by_contra hkey
  simp only [List.mem_cons, List.not_mem_nil, or_false, not_or] at hkey
  obtain ⟨hlocation, hidentifier, hcid, hvid, hcl⟩ := hkey
  simp [step, hlocation, hidentifier, hp, hcid, hvid, hcl, bind_eq_ok,
    deserializationError] at hstep

theorem awaits_cons {p : Packet} (ha : a.Unsigned) (hlen : m.caveats.length ≤ maxCaveats)
    (hp : p.key ≠ SIGNATURE) :
    Awaits a (p :: body) m ↔ ∃ b, a.step p = .ok b ∧ Awaits b body m := by
  obtain ⟨key, value⟩ := p
  by_cases hkey : key ∈ [LOCATION, IDENTIFIER, CID, VID, CL]
  · simp only [List.mem_cons, List.not_mem_nil, or_false] at hkey
    obtain rfl | rfl | rfl | rfl | rfl := hkey
    · simp only [awaits_location, step_location_eq_ok ha]
      constructor
      · intro h
        obtain ⟨hnone, l, hl, hrest⟩ := h
        exact ⟨_, ⟨hnone, l, hl, rfl⟩, hrest⟩
      · intro h
        obtain ⟨_, ⟨hnone, l, hl, rfl⟩, hrest⟩ := h
        exact ⟨hnone, l, hl, hrest⟩
    · simp only [awaits_identifier, step_identifier_eq_ok ha, and_assoc, exists_and_left,
        exists_eq_left]
    · simp only [awaits_cid hlen, step_cid_eq_ok ha]
      constructor
      · intro h
        obtain ⟨c, hflush, hrest⟩ := h
        exact ⟨_, ⟨c, hflush, rfl⟩, hrest⟩
      · intro h
        obtain ⟨_, ⟨c, hflush, rfl⟩, hrest⟩ := h
        exact ⟨c, hflush, hrest⟩
    · simp only [awaits_vid, step_vid_eq_ok ha, and_assoc, exists_and_left, exists_eq_left]
    · simp only [awaits_cl, step_cl_eq_ok ha]
      constructor
      · intro h
        obtain ⟨hnone, l, hl, hrest⟩ := h
        exact ⟨_, ⟨hnone, l, hl, rfl⟩, hrest⟩
      · intro h
        obtain ⟨_, ⟨hnone, l, hl, rfl⟩, hrest⟩ := h
        exact ⟨hnone, l, hl, hrest⟩
  · constructor
    · intro h
      exact absurd (List.forall_mem_cons.mp h.names.keys).1 hkey
    · intro h
      obtain ⟨b, hstep, _⟩ := h
      exact absurd (key_of_step hp hstep) hkey

theorem Unsigned.step {p : Packet} (ha : a.Unsigned) (hp : p.key ≠ SIGNATURE)
    (hstep : a.step p = .ok b) : b.Unsigned := by
  have hkey := key_of_step hp hstep
  obtain ⟨key, value⟩ := p
  simp only [List.mem_cons, List.not_mem_nil, or_false] at hkey
  obtain rfl | rfl | rfl | rfl | rfl := hkey
  · obtain ⟨_, l, _, rfl⟩ := (step_location_eq_ok ha).mp hstep
    exact ⟨rfl, ha.identifier, ha.signature, ha.unset, ha.caveats_le⟩
  · obtain ⟨_, rfl⟩ := (step_identifier_eq_ok ha).mp hstep
    exact ⟨ha.location, by simp, ha.signature, ha.unset, ha.caveats_le⟩
  · obtain ⟨c, hflush, rfl⟩ := (step_cid_eq_ok ha).mp hstep
    obtain ⟨_, rfl⟩ | ⟨caveat, _, _, hlt, rfl⟩ := flushCaveat_eq_ok.mp hflush
    · exact ⟨ha.location, ha.identifier, ha.signature, ha.unset, ha.caveats_le⟩
    · refine ⟨ha.location, ha.identifier, ha.signature, ha.unset, ?_⟩
      simp only [List.length_append, List.length_singleton]
      omega
  · obtain ⟨_, rfl⟩ := (step_vid_eq_ok ha).mp hstep
    exact ⟨ha.location, ha.identifier, ha.signature, ha.unset, ha.caveats_le⟩
  · obtain ⟨_, l, _, rfl⟩ := (step_cl_eq_ok ha).mp hstep
    exact ⟨ha.location, ha.identifier, ha.signature, ha.unset, ha.caveats_le⟩

/- The signature packet ends the loop: no packet is read after it. -/
theorem step_signature_signed (h : a.step ⟨SIGNATURE, value⟩ = .ok b) :
    b.seenSignature = true := by
  simp only [step_signature, onSignature, bind_eq_ok, rejectIf_eq_ok, pure_eq_ok] at h
  obtain ⟨_, _, c, hflush, _, _, builder, _, rfl⟩ := h
  obtain ⟨_, rfl⟩ | ⟨_, _, _, _, rfl⟩ := flushCaveat_eq_ok.mp hflush
  · rfl
  · rfl

theorem signature_bytes (h : a.step ⟨SIGNATURE, value⟩ = .ok b) :
    ∃ signature : MacaroonKey, value = signature.bytes := by
  simp only [step_signature, onSignature, bind_eq_ok, rejectIf_eq_ok, Decidable.not_not] at h
  obtain ⟨_, _, _, _, _, hlen, _⟩ := h
  exact ⟨⟨value, hlen⟩, rfl⟩

theorem foldlM_signed {ps : List Packet} (ha : a.seenSignature = true)
    (h : ps.foldlM step a = .ok b) : ps = [] := by
  cases ps with
  | nil => rfl
  | cons p ps =>
    simp [List.foldlM_cons, step, ha, rejectIf, failIf] at h

/-- The loop over the packets and a signature ends, and `build` then gives `m`. -/
def Ends (a : Assembly) (body : List Packet) (m : Macaroon) : Prop :=
  ∃ b, (body ++ [(⟨SIGNATURE, m.signature.bytes⟩ : Packet)]).foldlM step a = .ok b ∧
    b.builder.build = .ok m

theorem step_signature_eq_ok {signature : MacaroonKey} (ha : a.Unsigned) :
    a.step ⟨SIGNATURE, signature.bytes⟩ = .ok b ↔ ∃ c, a.flushCaveat = .ok c ∧
      b = { c with builder := { c.builder with signature := some signature },
                   seenSignature := true } := by
  constructor
  · intro h
    have hstep := h
    simp only [step_signature, onSignature, bind_eq_ok] at hstep
    obtain ⟨_, _, c, hflush, _⟩ := hstep
    obtain ⟨c', hc'⟩ : ∃ c', a.flushCaveat = .ok c' := by
      obtain ⟨hid, _⟩ | ⟨caveat, hid, hbuild, hlt, _⟩ := flushCaveat_eq_ok.mp hflush
      · exact ⟨a, flushCaveat_eq_ok.mpr (.inl ⟨hid, rfl⟩)⟩
      · exact ⟨_, flushCaveat_eq_ok.mpr (.inr ⟨caveat, hid, hbuild, hlt, rfl⟩)⟩
    rw [step_signature_of_flush hc' ha.signature] at h
    exact ⟨c', hc', (Except.ok.inj h).symm⟩
  · intro h
    obtain ⟨c, hflush, rfl⟩ := h
    exact step_signature_of_flush hflush ha.signature

theorem locationPackets_inj {location location' : Option String} :
    locationPackets location = locationPackets location' ↔ location = location' := by
  refine ⟨fun h => ?_, congrArg locationPackets⟩
  cases location with
  | none => cases location' <;> simp [locationPackets] at h ⊢
  | some l =>
    cases location' with
    | none => simp [locationPackets] at h
    | some l' =>
      have hbytes : asBytes l = asBytes l' := by simpa [locationPackets] using h
      exact congrArg some (asBytes_inj.mp hbytes)

/-- What the builder holds once the signature has closed the last caveat. -/
theorem ends_nil_iff (ha : a.Unsigned) : Ends a [] m ↔ ∃ c, a.flushCaveat = .ok c ∧
    c.builder.identifier ≠ [] ∧
      ⟨c.builder.identifier, c.builder.location, m.signature, c.builder.caveats⟩ = m := by
  simp only [Ends, List.nil_append, List.foldlM_cons, List.foldlM_nil, bind_eq_ok, pure_eq_ok,
    MacaroonBuilder.build_eq_ok]
  constructor
  · intro h
    obtain ⟨_, ⟨b, hstep, rfl⟩, hne, signature, hsignature, hm⟩ := h
    obtain ⟨c, hflush, rfl⟩ := (step_signature_eq_ok ha).mp hstep
    obtain rfl := Option.some.inj hsignature
    exact ⟨c, hflush, hne, hm⟩
  · intro h
    obtain ⟨c, hflush, hne, hm⟩ := h
    exact ⟨_, ⟨_, (step_signature_eq_ok ha).mpr ⟨c, hflush, rfl⟩, rfl⟩, hne, _, rfl, hm⟩

theorem awaits_nil (ha : a.Unsigned) (hne : m.identifier ≠ []) : Awaits a [] m ↔
    a.builder.identifier = m.identifier ∧ a.builder.location = m.location ∧
      ∃ cs, m.caveats = a.builder.caveats ++ cs ∧ Residual a.caveatBuilder [] cs := by
  constructor
  · intro h
    obtain ⟨⟨_, hl, hid⟩, hcs⟩ := h
    rw [List.filter_nil, List.append_nil] at hl hid
    refine ⟨?_, locationPackets_inj.mp hl, hcs⟩
    cases hseen : a.seenIdentifier <;> simp [identifierPackets, hseen] at hid
    exact hid
  · intro h
    obtain ⟨hid, hl, hcs⟩ := h
    refine ⟨⟨by simp, ?_, ?_⟩, hcs⟩
    · rw [hl, List.filter_nil, List.append_nil]
    · have hseen : a.seenIdentifier = true := by
        by_contra hnot
        exact hne (hid.symm.trans (ha.identifier (by simpa using hnot)))
      simp [identifierPackets, hseen, hid]

theorem ends_nil (ha : a.Unsigned) :
    Ends a [] m ↔ Awaits a [] m ∧ m.identifier ≠ [] ∧ m.caveats.length ≤ maxCaveats := by
  rw [ends_nil_iff ha]
  constructor
  · intro h
    obtain ⟨c, hflush, hne, hm⟩ := h
    generalize m.signature = signature at hm
    subst hm
    obtain ⟨hid, rfl⟩ | ⟨caveat, _, hbuild, hlt, rfl⟩ := flushCaveat_eq_ok.mp hflush
    · refine ⟨(awaits_nil ha hne).mpr ⟨rfl, rfl, [], by simp, residual_nil.mpr (.inl ⟨?_, rfl⟩)⟩,
        hne, ha.caveats_le⟩
      simp [CaveatBuilder.hasId, hid]
    · refine ⟨(awaits_nil ha hne).mpr ⟨rfl, rfl, [caveat], rfl,
        residual_nil.mpr (.inr ⟨caveat, hbuild, rfl⟩)⟩, hne, ?_⟩
      simp only [List.length_append, List.length_singleton]
      omega
  · intro h
    obtain ⟨hawaits, hne, hlen⟩ := h
    obtain ⟨hid, hl, cs, hcs, hres⟩ := (awaits_nil ha hne).mp hawaits
    obtain ⟨hclosed, rfl⟩ | ⟨caveat, hbuild, rfl⟩ := residual_nil.mp hres
    · refine ⟨a, flushCaveat_eq_ok.mpr (.inl ⟨?_, rfl⟩), hid ▸ hne, ?_⟩
      · simpa [CaveatBuilder.hasId] using hclosed
      · rw [hid, hl, ← List.append_nil a.builder.caveats, ← hcs]
    · have hlt : a.builder.caveats.length < maxCaveats := by
        rw [hcs, List.length_append, List.length_singleton] at hlen
        omega
      obtain ⟨id, hsome, _⟩ := CaveatBuilder.build_eq_ok.mp hbuild
      refine ⟨_, flushCaveat_eq_ok.mpr (.inr ⟨caveat, ?_, hbuild, hlt, rfl⟩), hid ▸ hne, ?_⟩
      · simp [CaveatBuilder.hasId, hsome]
      · simp only [hid, hl, ← hcs]

theorem ends_iff (ha : a.Unsigned) :
    Ends a body m ↔ Awaits a body m ∧ m.identifier ≠ [] ∧ m.caveats.length ≤ maxCaveats := by
  induction body generalizing a with
  | nil => exact ends_nil ha
  | cons p body ih =>
    have hcons : Ends a (p :: body) m ↔ ∃ b, a.step p = .ok b ∧ Ends b body m := by
      simp only [Ends, List.cons_append, List.foldlM_cons, bind_eq_ok]
      constructor
      · intro h
        obtain ⟨b, ⟨c, hstep, hrun⟩, hbuild⟩ := h
        exact ⟨c, hstep, b, hrun, hbuild⟩
      · intro h
        obtain ⟨c, hstep, b, hrun, hbuild⟩ := h
        exact ⟨b, ⟨c, hstep, hrun⟩, hbuild⟩
    rw [hcons]
    by_cases hp : p.key = SIGNATURE
    · constructor
      · intro h
        obtain ⟨b, hstep, c, hrun, _⟩ := h
        have hsigned : b.seenSignature = true := by
          obtain ⟨key, value⟩ := p
          obtain rfl := hp
          exact step_signature_signed hstep
        simpa using foldlM_signed hsigned hrun
      · intro h
        have hkey := (List.forall_mem_cons.mp h.1.names.keys).1
        simp [hp, SIGNATURE, LOCATION, IDENTIFIER, CID, VID, CL] at hkey
    · constructor
      · intro h
        obtain ⟨b, hstep, hends⟩ := h
        obtain ⟨hawaits, hid, hlen⟩ := (ih (ha.step hp hstep)).mp hends
        exact ⟨(awaits_cons ha hlen hp).mpr ⟨b, hstep, hawaits⟩, hid, hlen⟩
      · intro h
        obtain ⟨hawaits, hid, hlen⟩ := h
        obtain ⟨b, hstep, hrest⟩ := (awaits_cons ha hlen hp).mp hawaits
        exact ⟨b, hstep, (ih (ha.step hp hstep)).mpr ⟨hrest, hid, hlen⟩⟩

/-- The builder has a signature only from the last packet. -/
theorem signature_last {ps : List Packet} {signature : MacaroonKey} (ha : a.Unsigned)
    (h : ps.foldlM step a = .ok b) (hsignature : b.builder.signature = some signature) :
    ∃ body, ps = body ++ [⟨SIGNATURE, signature.bytes⟩] := by
  induction ps generalizing a with
  | nil =>
    cases h
    rw [ha.unset] at hsignature
    cases hsignature
  | cons p ps ih =>
    rw [List.foldlM_cons] at h
    obtain ⟨c, hstep, hrun⟩ := bind_eq_ok.mp h
    by_cases hp : p.key = SIGNATURE
    · obtain ⟨key, value⟩ := p
      obtain rfl := hp
      obtain ⟨key, rfl⟩ := signature_bytes hstep
      obtain rfl := foldlM_signed (step_signature_signed hstep) hrun
      cases hrun
      obtain ⟨c', _, rfl⟩ := (step_signature_eq_ok ha).mp hstep
      cases hsignature
      exact ⟨[], rfl⟩
    · obtain ⟨body, rfl⟩ := ih (ha.step hp hstep) hrun
      exact ⟨p :: body, rfl⟩

end Assembly

/-- The packets have frames of their own, and the token is these frames. -/
theorem deserializeAsPackets_eq_ok {w : Width} {data : Bytes} {ps : List Packet} :
    deserializeAsPackets w data = .ok ps ↔
      ∃ frames, data = frames.flatten ∧ List.Forall₂ (IsFrame w) frames ps := by
  induction ps generalizing data with
  | nil => simp [deserializeAsPackets_eq_nil]
  | cons p ps ih =>
    rw [deserializeAsPackets_eq_cons]
    constructor
    · intro h
      obtain ⟨frame, rest, rfl, hframe, hrest⟩ := h
      obtain ⟨frames, rfl, hall⟩ := ih.mp hrest
      exact ⟨frame :: frames, rfl, .cons hframe hall⟩
    · intro h
      obtain ⟨_, rfl, hall⟩ := h
      cases hall with
      | @cons frame _ frames _ hframe hall =>
        exact ⟨frame, frames.flatten, rfl, hframe, ih.mpr ⟨frames, rfl, hall⟩⟩

/-- The V1 language. A token decodes to `m` exactly when it is a sequence of frames, the last one of
the signature and the others of the body of `m`. -/
theorem v1_language (w : Width) (data : Bytes) (m : Macaroon) : deserialize w data = .ok m ↔
    ∃ frames body, data = frames.flatten ∧
      List.Forall₂ (IsFrame w) frames (body ++ [⟨SIGNATURE, m.signature.bytes⟩]) ∧ Body body m := by
  have hbody (body : List Packet) : Assembly.new.Ends body m ↔ Body body m := by
    rw [Assembly.ends_iff Assembly.unsigned_new]
    constructor
    · intro h
      obtain ⟨⟨⟨hkeys, hl, hid⟩, cs, hcs, hres⟩, hne, hlen⟩ := h
      refine ⟨hkeys, hl, hid, hne, ?_, hlen⟩
      rw [hcs]
      exact residual_new.mp hres
    · intro h
      exact ⟨⟨⟨h.keys, h.location, h.identifier⟩, m.caveats, rfl, residual_new.mpr h.caveats⟩,
        h.identifier_ne, h.caveats_le⟩
  simp only [deserialize, bind_eq_ok]
  constructor
  · intro h
    obtain ⟨ps, hps, a, hrun, hbuild⟩ := h
    obtain ⟨_, signature, hsignature, hm⟩ := MacaroonBuilder.build_eq_ok.mp hbuild
    obtain ⟨body, rfl⟩ := Assembly.signature_last Assembly.unsigned_new hrun hsignature
    obtain rfl : signature = m.signature := by rw [← hm]
    obtain ⟨frames, hdata, hframes⟩ := deserializeAsPackets_eq_ok.mp hps
    exact ⟨frames, body, hdata, hframes, (hbody body).mp ⟨a, hrun, hbuild⟩⟩
  · intro h
    obtain ⟨frames, body, hdata, hframes, h⟩ := h
    obtain ⟨a, hrun, hbuild⟩ := (hbody body).mpr h
    exact ⟨_, deserializeAsPackets_eq_ok.mpr ⟨frames, hdata, hframes⟩, a, hrun, hbuild⟩

end Libmacaroon.V1
