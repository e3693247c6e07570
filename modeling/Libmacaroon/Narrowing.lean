import Libmacaroon.Attenuation
import Libmacaroon.DischargeSingleUse

/-! What attenuation does to authority. Whoever can get an attenuated macaroon accepted could get the
macaroon itself accepted, with a part of the same discharges bound to it instead; a run that adds
predicates only takes away exactly what the predicates refuse. -/
namespace Libmacaroon
open Checked

/-- Some discharges make the verifier accept. -/
def Verifier.Authorizes (B : Backend) (v : Verifier) (m : Macaroon) (key : MacaroonKey) : Prop :=
  ∃ ds, v.verify B m key ds = .ok ()

/-- The discharge at a node, bound to `root` as `Macaroon::bind` binds it when its signature is the
chain over it. -/
def rebind (B : Backend) (root : Macaroon) (x : Node) : Macaroon :=
  root.bind B (x.1.resign (chain B x.2 x.1))

namespace Verifier

section Support
variable (B : Backend) (v : Verifier)

/-- The conditions on a node that do not read its signature. -/
structure Holds (x : Node) (children : List Node) : Prop where
  discharged : Discharged B x children
  satisfied : ∀ fp, Caveat.firstParty fp ∈ x.1.caveats → v.Satisfies fp.predicate

/-- The forest `F` of discharges bears out the node `x`, which stands `depth` levels below a root. -/
structure Supports (depth : Nat) (x : Node) (F : Forest Node) : Prop where
  levels : F.height + depth ≤ maxVerificationDepth
  root : Holds B v x F.roots
  nodes : F.All (Holds B v)
  distinct : (F.labels.map fun x => x.1.identifier).Nodup

/-- The run of `verify` on a macaroon that stands `depth` levels below the root. -/
def AcceptsAt (depth : Nat) (m : Macaroon) (key : MacaroonKey) (ds : List Macaroon) : Prop :=
  ∃ σ τ : DischargeSet, collectDischarges ∅ ds = .ok σ ∧
    (verifyWithSig B v m.signature m key depth).call σ = (.ok (), τ) ∧ τ.contents = 0

end Support

variable {B : Backend} {v : Verifier} {key : MacaroonKey} {m : Macaroon} {F : Forest Node}
  {ds : List Macaroon} {depth : Nat}

theorem acceptsAt_zero : AcceptsAt B v 0 m key ds ↔ v.verify B m key ds = .ok () :=
  verify_call.symm

theorem AcceptsAt.supports (h : AcceptsAt B v depth m key ds) :
    ∃ F, Supports B v depth (m, key) F ∧ (F.labels.map Prod.fst).Perm ds := by
  obtain ⟨σ, τ, hcollect, hcall, hleft⟩ := h
  obtain ⟨hσ, hcontents, hnodup, _⟩ := DischargeSet.collectDischarges_eq_ok wellKeyed_empty hcollect
  obtain ⟨_, F, hlevels, hroot, hF⟩ := verifyWithSig_sound hσ hcall
  have huses := hF.contents
  rw [hcontents, contents_empty, hleft, Multiset.zero_add, Multiset.add_zero] at huses
  have hperm : (F.labels.map Prod.fst).Perm ds := (Multiset.coe_eq_coe.mp huses).symm
  have hdistinct := (hperm.map Macaroon.identifier).nodup_iff.mpr hnodup
  rw [List.map_map] at hdistinct
  refine ⟨F, ⟨hlevels, ⟨hroot.discharged, hroot.satisfied⟩, ?_, hdistinct⟩, hperm⟩
  exact hF.nodes.imp fun _ _ _ hnode => ⟨hnode.discharged, hnode.satisfied⟩

theorem resigned_rebind (root : Macaroon) (x : Node) : Resigned x.1 (rebind B root x) :=
  ⟨hmac2 B zeroKey root.signature.bytes (chain B x.2 x.1).bytes, rfl⟩

theorem discharged_rebind {caveats : List (ThirdParty × MacaroonKey)} {children : List Node}
    (h : List.Forall₂ (Discharges B) caveats children) (root : Macaroon) :
    List.Forall₂ (Discharges B) caveats (children.map fun x => (rebind B root x, x.2)) := by
  rw [List.forall₂_map_right_iff]
  exact h.imp fun _ x hx => hx.resigned (resigned_rebind root x)

/-- The nodes of a forest, rebound to `root`, are signed for it. -/
theorem nodes_rebind (hF : F.All (Holds B v)) (root : Macaroon) :
    (F.map fun x => (rebind B root x, x.2)).All (NodeOk B v root.signature) := by
  apply Forest.All.map
  apply hF.imp
  intro x _ children hnode
  have hre := resigned_rebind (B := B) root x
  refine ⟨?_, ?_, .inr ?_⟩
  · simpa only [hre.caveats, hre.identifier] using discharged_rebind hnode.discharged root
  · simpa only [hre.caveats] using hnode.satisfied
  · rw [hre.chain]
    rfl

/-- The discharges of a forest that bears out `m` make the verifier accept it, once they are bound
to it. -/
theorem Supports.acceptsAt (h : Supports B v depth (m, key) F)
    (hsigned : m.signature = chain B key m) :
    AcceptsAt B v depth m key (F.labels.map (rebind B m)) := by
  have hids : (F.labels.map (rebind B m)).map Macaroon.identifier =
      F.labels.map fun x => x.1.identifier := by
    rw [List.map_map]
    exact List.map_congr_left fun x _ => (resigned_rebind m x).identifier
  obtain ⟨σ, hcollect⟩ := DischargeSet.collectDischarges_empty.mpr (hids ▸ h.distinct)
  obtain ⟨hσ, hcontents, _⟩ := DischargeSet.collectDischarges_eq_ok wellKeyed_empty hcollect
  have huses : σ.contents = macaroons (F.map fun x => (rebind B m x, x.2)) + 0 := by
    rw [hcontents, contents_empty, Multiset.zero_add, Multiset.add_zero, macaroons,
      Forest.labels_map, List.map_map]
    rfl
  have hroot : NodeOk B v m.signature (m, key) (F.map fun x => (rebind B m x, x.2)).roots := by
    refine ⟨?_, h.root.satisfied, .inl hsigned.symm⟩
    rw [Forest.roots_map]
    exact discharged_rebind h.root.discharged m
  obtain ⟨τ, hcall, _, hleft⟩ := verifyWithSig_complete hσ
    (by rw [Forest.height_map]; exact h.levels) hroot (nodes_rebind h.nodes m) huses
  exact ⟨σ, τ, hcollect, hcall, hleft⟩

theorem authorizes_iff_supports (hsigned : m.signature = chain B key m) :
    v.Authorizes B m key ↔ ∃ F, Supports B v 0 (m, key) F := by
  constructor
  · intro h
    obtain ⟨ds, hok⟩ := h
    obtain ⟨F, hF, _⟩ := (acceptsAt_zero.mpr hok).supports
    exact ⟨F, hF⟩
  · intro h
    obtain ⟨F, hF⟩ := h
    exact ⟨_, acceptsAt_zero.mp (hF.acceptsAt hsigned)⟩

/-- Below a macaroon with more caveats the first trees belong to the caveats that were there before. -/
theorem supports_append {added : List Caveat} {s : MacaroonKey} :
    Supports B v depth ({ m with signature := s, caveats := m.caveats ++ added }, key) F ↔
      ∃ G H : Forest Node, F = G.append H ∧ Supports B v depth (m, key) G ∧
      List.Forall₂ (Discharges B) (thirdPartyCaveats B added (chain B key m)) H.roots ∧
      (∀ fp, Caveat.firstParty fp ∈ added → v.Satisfies fp.predicate) ∧
      H.height + depth ≤ maxVerificationDepth ∧ H.All (Holds B v) ∧
      (F.labels.map fun x => x.1.identifier).Nodup := by
  constructor
  · intro h
    have hroots := h.root.discharged
    have hsatisfied := h.root.satisfied
    simp only [Discharged, thirdPartyCaveats_append] at hroots hsatisfied
    have hold := List.forall₂_take
      (thirdPartyCaveats B m.caveats (hmac B key m.identifier)).length hroots
    have hnew := List.forall₂_drop
      (thirdPartyCaveats B m.caveats (hmac B key m.identifier)).length hroots
    rw [List.take_left] at hold
    rw [List.drop_left] at hnew
    obtain ⟨G, H, hsplit, hG, hH⟩ := Forest.exists_append_of_roots (List.take_append_drop
      (thirdPartyCaveats B m.caveats (hmac B key m.identifier)).length F.roots).symm
    have hdistinct := h.distinct
    obtain ⟨hlevels, _, hnodes, hnodup⟩ := h
    rw [hsplit, Forest.height_append] at hlevels
    rw [hsplit] at hnodes
    rw [hsplit, Forest.labels_append, List.map_append] at hnodup
    obtain ⟨hGnodes, hHnodes⟩ := Forest.all_append.mp hnodes
    refine ⟨G, H, hsplit, ⟨by omega, ⟨?_, ?_⟩, hGnodes, hnodup.of_append_left⟩, ?_, ?_, by omega,
      hHnodes, hdistinct⟩
    · rwa [Discharged, hG]
    · intro fp hfp
      exact hsatisfied fp (List.mem_append_left _ hfp)
    · rwa [hH]
    · intro fp hfp
      exact hsatisfied fp (List.mem_append_right _ hfp)
  · intro h
    obtain ⟨G, H, rfl, hG, hH, hsatisfied, hlevels, hnodes, hdistinct⟩ := h
    refine ⟨?_, ⟨?_, ?_⟩, Forest.all_append.mpr ⟨hG.nodes, hnodes⟩, hdistinct⟩
    · have hGlevels := hG.levels
      rw [Forest.height_append]
      omega
    · simp only [Discharged, thirdPartyCaveats_append, Forest.roots_append]
      exact List.rel_append hG.root.discharged hH
    · intro fp hfp
      obtain hold | hnew := List.mem_append.mp hfp
      · exact hG.root.satisfied fp hold
      · exact hsatisfied fp hnew

end Verifier

/-- Of the forest below an attenuated macaroon the first trees, rebound, are enough for the macaroon
itself. -/
theorem Verifier.verify_attenuated {B : Backend} {v : Verifier} {m : Macaroon} {key : MacaroonKey}
    {calls : List AddCall} {ds : List Macaroon} (hsigned : m.signature = chain B key m)
    (hok : v.verify B (attenuate B m calls) key ds = .ok ()) :
    ∃ G : Forest Node, List.Subperm (G.labels.map Prod.fst) ds ∧
      v.verify B m key (G.labels.map (rebind B m)) = .ok () := by
  obtain ⟨F, hF, huses⟩ := (acceptsAt_zero.mpr hok).supports
  obtain ⟨added, _, hlast⟩ := attenuate_appends (B := B) m calls
  rw [hlast] at hF
  obtain ⟨G, H, rfl, hG, _⟩ := supports_append.mp hF
  rw [Forest.labels_append, List.map_append] at huses
  exact ⟨G, (List.sublist_append_left _ _).subperm.trans huses.subperm,
    acceptsAt_zero.mp (hG.acceptsAt hsigned)⟩

open Verifier in
/-- Attenuation gives nothing: where the attenuated macaroon is accepted, the macaroon itself is, with
some of the same discharges, each with another signature. -/
theorem attenuation_narrows (B : Backend) (v : Verifier) (m : Macaroon) (key : MacaroonKey)
    (calls : List AddCall) (ds : List Macaroon) (hsigned : m.signature = chain B key m)
    (hok : v.verify B (attenuate B m calls) key ds = .ok ()) :
    ∃ kept ds', List.Subperm kept ds ∧ List.Forall₂ Resigned kept ds' ∧
      v.verify B m key ds' = .ok () := by
  obtain ⟨G, hkept, hok'⟩ := verify_attenuated hsigned hok
  refine ⟨G.labels.map Prod.fst, G.labels.map (rebind B m), hkept, ?_, hok'⟩
  rw [List.forall₂_map_left_iff, List.forall₂_map_right_iff, List.forall₂_same]
  intro x _
  exact resigned_rebind m x

section Visit
open Instances

def guarded : Macaroon := attenuate backend visiting [.firstParty [112]]

def guard : Verifier := Verifier.default.satisfyExact [112]

theorem attenuation_narrows_visiting : ∃ kept ds',
    List.Subperm kept [guarded.bind backend ticket] ∧ List.Forall₂ Resigned kept ds' ∧
      guard.verify backend visiting (ofNat 1) ds' = .ok () :=
  attenuation_narrows backend guard visiting (ofNat 1) [.firstParty [112]]
    [guarded.bind backend ticket] (by decide +kernel) (by decide +kernel)

end Visit

theorem thirdPartyCaveats_firstParty {B : Backend} {cs : List Caveat}
    (hcs : ∀ c ∈ cs, ∃ fp, c = .firstParty fp) (sig : MacaroonKey) :
    thirdPartyCaveats B cs sig = [] := by
  induction cs generalizing sig with
  | nil => rfl
  | cons c cs ih =>
    rw [List.forall_mem_cons] at hcs
    obtain ⟨⟨fp, rfl⟩, hcs⟩ := hcs
    exact ih hcs _

theorem succeeded_sublist {B : Backend} (m : Macaroon) (calls : List AddCall) :
    (succeeded B m calls).Sublist calls := by
  induction calls generalizing m with
  | nil => exact .slnil
  | cons call calls ih =>
    rw [succeeded]
    split
    next m' _ => exact (ih m').cons_cons call
    next e m' _ => exact (ih m').cons call

/-- The caveats that calls of `add_first_party_caveat` append are their predicates. -/
theorem AppendsAll.firstParty {B : Backend} {sig : MacaroonKey} {predicates : List Bytes}
    {caveats : List Caveat} (h : AppendsAll B sig (predicates.map .firstParty) caveats) :
    caveats = predicates.map newFirstParty := by
  induction predicates generalizing sig caveats with
  | nil =>
    cases h
    rfl
  | cons predicate predicates ih =>
    obtain _ | ⟨hcaveat, hrest⟩ := h
    cases hcaveat
    rw [List.map_cons, ih hrest]

/-- Attenuation keeps a signature that is the chain. -/
theorem signed_attenuate {B : Backend} {m : Macaroon} {key : MacaroonKey}
    (hsigned : m.signature = chain B key m) (calls : List AddCall) :
    (attenuate B m calls).signature = chain B key (attenuate B m calls) := by
  obtain ⟨caveats, _, hlast⟩ := attenuate_appends (B := B) m calls
  rw [hlast]
  simp only [chain, runningSignature, List.foldl_append]
  rw [hsigned]
  rfl

open Verifier in
/-- Predicates narrow a macaroon's authority to exactly where they hold: the attenuated macaroon can
be accepted just when the macaroon can and every predicate that was added is satisfied. -/
theorem predicates_meet_authority (B : Backend) (v : Verifier) (m : Macaroon) (key : MacaroonKey)
    (predicates : List Bytes) (hsigned : m.signature = chain B key m) :
    v.Authorizes B (attenuate B m (predicates.map .firstParty)) key ↔
      v.Authorizes B m key ∧ ∀ predicate,
        AddCall.firstParty predicate ∈ succeeded B m (predicates.map .firstParty) →
          v.Satisfies predicate := by
  obtain ⟨caveats, hcaveats, hlast⟩ := attenuate_appends (B := B) m (predicates.map .firstParty)
  obtain ⟨added, _, hadded⟩ := List.sublist_map_iff.mp
    (succeeded_sublist (B := B) m (predicates.map .firstParty))
  rw [hadded] at hcaveats
  obtain rfl := hcaveats.firstParty
  rw [authorizes_iff_supports hsigned, authorizes_iff_supports (signed_attenuate hsigned _), hlast]
  constructor
  · intro h
    obtain ⟨F, hF⟩ := h
    obtain ⟨G, _, _, hG, _, hsatisfied, _⟩ := supports_append.mp hF
    refine ⟨⟨G, hG⟩, ?_⟩
    intro predicate hmem
    rw [hadded, List.mem_map] at hmem
    obtain ⟨p, hp, heq⟩ := hmem
    cases heq
    exact hsatisfied ⟨predicate⟩ (List.mem_map.mpr ⟨predicate, hp, rfl⟩)
  · intro h
    obtain ⟨⟨F, hF⟩, hpredicates⟩ := h
    -- the same forest, as no discharge is needed for the predicates
    refine ⟨F, supports_append.mpr
      ⟨F, .nil, F.append_nil.symm, hF, ?_, ?_, ?_, trivial, hF.distinct⟩⟩
    · rw [thirdPartyCaveats_firstParty (by simp [newFirstParty])]
      exact .nil
    · intro fp hfp
      obtain ⟨p, hp, heq⟩ := List.mem_map.mp hfp
      cases heq
      apply hpredicates
      rw [hadded]
      exact List.mem_map_of_mem hp
    · have hlevels := hF.levels
      rw [Forest.height]
      omega

theorem predicates_meet_authority_visiting :
    guard.Authorizes Instances.backend
        (attenuate Instances.backend visiting ([[112], [113]].map .firstParty))
        (Instances.ofNat 1) ↔
      guard.Authorizes Instances.backend visiting (Instances.ofNat 1) ∧ ∀ predicate,
        AddCall.firstParty predicate ∈ succeeded Instances.backend visiting
          ([[112], [113]].map .firstParty) → guard.Satisfies predicate :=
  predicates_meet_authority Instances.backend guard visiting (Instances.ofNat 1) [[112], [113]]
    (by decide +kernel)

end Libmacaroon
