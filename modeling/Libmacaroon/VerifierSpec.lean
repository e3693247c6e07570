import Libmacaroon.DischargeSet
import Libmacaroon.Library.Forest
import Libmacaroon.Signature

/-! What verification means, without the map and its mutation: a tree of discharges below the root
macaroon in which every node is discharged by its children, satisfied and signed. -/
namespace Libmacaroon
open Checked

/-- A macaroon with the key it is verified under. -/
abbrev Node := Macaroon × MacaroonKey

namespace Verifier

/-- `predicate` is an exact member or accepted by a general closure. -/
def Satisfies (v : Verifier) (predicate : Bytes) : Prop :=
  predicate ∈ v.exact ∨ ∃ f ∈ v.general, f predicate = true

instance (v : Verifier) (predicate : Bytes) : Decidable (v.Satisfies predicate) :=
  inferInstanceAs (Decidable (_ ∨ _))

/-- The node discharges the third-party caveat: its name is the caveat's, its key was sealed in the
caveat under the signature before it. -/
def Discharges (B : Backend) (caveat : ThirdParty × MacaroonKey) (d : Node) : Prop :=
  d.1.identifier = caveat.1.id ∧ decryptKey B caveat.2 caveat.1.verifierId = .ok d.2

/-- The conditions on a node and its children. -/
structure NodeOk (B : Backend) (v : Verifier) (rootSig : MacaroonKey) (x : Node)
    (children : List Node) : Prop where
  discharged : List.Forall₂ (Discharges B)
    (thirdPartyCaveats B x.1.caveats (hmac B x.2 x.1.identifier)) children
  satisfied : ∀ fp, Caveat.firstParty fp ∈ x.1.caveats → v.Satisfies fp.predicate
  signed : chain B x.2 x.1 = rootSig ∨
    hmac2 B zeroKey rootSig.bytes (chain B x.2 x.1).bytes = x.1.signature

/-- The forest `F` below the root macaroon makes a tree that uses every discharge once. -/
structure VerificationTree (B : Backend) (v : Verifier) (m : Macaroon) (key : MacaroonKey)
    (ds : List Macaroon) (F : Forest Node) : Prop where
  uses : (F.labels.map Prod.fst).Perm ds
  depth : F.height ≤ maxVerificationDepth
  root : NodeOk B v m.signature (m, key) F.roots
  nodes : F.All (NodeOk B v m.signature)

end Verifier

namespace Verifier
variable {B : Backend} {v : Verifier} {rootSig sig sig' : MacaroonKey} {σ τ : DischargeSet}
  {recurse : Macaroon → MacaroonKey → Stateful DischargeSet MacaroonError Unit}

theorem rejects_iff {p : Bytes} : (!(p ∈ v.exact || v.verifyGeneral p)) = true ↔ ¬ v.Satisfies p := by
  simp [Satisfies, verifyGeneral]

/- What a successful pass over the caveats has done with the first of them. -/
theorem verifyCaveats_firstParty {fp : FirstParty} {cs : List Caveat} :
    (verifyCaveats B v recurse (.firstParty fp :: cs) sig).call σ = (.ok sig', τ) ↔
      v.Satisfies fp.predicate ∧
        (verifyCaveats B v recurse cs (Caveat.sign B (.firstParty fp) sig)).call σ =
          (.ok sig', τ) := by
  simp only [verifyCaveats, verifyCaveat, Stateful.bind_eq_ok, Stateful.call_lift,
    Stateful.call_pure, Prod.mk.injEq, failIf_eq_ok, rejects_iff, Classical.not_not]
  constructor
  · intro h
    obtain ⟨_, _, ⟨_, _, ⟨hsat, rfl⟩, hsig, rfl⟩, hrest⟩ := h
    cases hsig
    exact ⟨hsat, hrest⟩
  · intro h
    obtain ⟨hsat, hrest⟩ := h
    exact ⟨_, σ, ⟨(), σ, ⟨hsat, rfl⟩, rfl, rfl⟩, hrest⟩

theorem verifyCaveats_thirdParty {tp : ThirdParty} {cs : List Caveat} :
    (verifyCaveats B v recurse (.thirdParty tp :: cs) sig).call σ = (.ok sig', τ) ↔
      ∃ k d υ, decryptKey B sig tp.verifierId = .ok k ∧ σ.lookup tp.id = some d ∧
        (recurse d k).call (σ.erase tp.id) = (.ok (), υ) ∧
        (verifyCaveats B v recurse cs (Caveat.sign B (.thirdParty tp) sig)).call υ =
          (.ok sig', τ) := by
  simp only [verifyCaveats, verifyCaveat, Stateful.bind_eq_ok, Stateful.call_lift,
    Stateful.call_pure, Prod.mk.injEq, DischargeSet.removeDischarge_eq_ok]
  constructor
  · intro h
    obtain ⟨_, _, ⟨k, _, ⟨hk, rfl⟩, d, _, ⟨hd, rfl⟩, _, υ, hrec, hsig, rfl⟩, hrest⟩ := h
    cases hsig
    exact ⟨k, d, υ, hk, hd, hrec, hrest⟩
  · intro h
    obtain ⟨k, d, υ, hk, hd, hrec, hrest⟩ := h
    exact ⟨_, υ, ⟨k, σ, ⟨hk, rfl⟩, d, _, ⟨hd, rfl⟩, (), υ, hrec, rfl, rfl⟩, hrest⟩

/-- The macaroons at the nodes of `F`. -/
def macaroons (F : Forest Node) : Multiset Macaroon := (F.labels.map Prod.fst : List Macaroon)

@[simp] theorem macaroons_nil : macaroons .nil = 0 := rfl

@[simp] theorem macaroons_cons (d : Macaroon) (k : MacaroonKey) (F G : Forest Node) :
    macaroons (.cons (d, k) F G) = d ::ₘ (macaroons F + macaroons G) := by
  simp [macaroons, Forest.labels]

/-- The forest `F` accounts for what a call has taken out of `σ`. -/
structure Consumed (B : Backend) (v : Verifier) (rootSig : MacaroonKey) (σ τ : DischargeSet)
    (F : Forest Node) : Prop where
  nodes : F.All (NodeOk B v rootSig)
  contents : σ.contents = macaroons F + τ.contents

/-- The loop over the caveats consumes a forest whose roots discharge them in order. -/
theorem verifyCaveats_sound {n : Nat} {cs : List Caveat}
    (hrec : ∀ d k (σ τ : DischargeSet), σ.WellKeyed → (recurse d k).call σ = (.ok (), τ) →
      τ.WellKeyed ∧ ∃ F, F.height + 1 ≤ n ∧ NodeOk B v rootSig (d, k) F.roots ∧
        Consumed B v rootSig σ τ F)
    (hσ : σ.WellKeyed) (h : (verifyCaveats B v recurse cs sig).call σ = (.ok sig', τ)) :
    τ.WellKeyed ∧ sig' = runningSignature B cs sig ∧
      (∀ fp, Caveat.firstParty fp ∈ cs → v.Satisfies fp.predicate) ∧
      ∃ F, F.height ≤ n ∧ List.Forall₂ (Discharges B) (thirdPartyCaveats B cs sig) F.roots ∧
        Consumed B v rootSig σ τ F := by
  induction cs generalizing sig σ with
  | nil =>
    cases h
    exact ⟨hσ, rfl, by simp, .nil, Nat.zero_le n, .nil, trivial, by simp⟩
  | cons c cs ih =>
    cases c with
    | firstParty fp =>
      obtain ⟨hsat, hrest⟩ := verifyCaveats_firstParty.mp h
      obtain ⟨hτ, hsig, hsats, F, hheight, hroots, hF⟩ := ih hσ hrest
      refine ⟨hτ, hsig, ?_, F, hheight, hroots, hF⟩
      intro fp' hfp'
      obtain heq | hfp' := List.mem_cons.mp hfp'
      · cases heq
        exact hsat
      · exact hsats fp' hfp'
    | thirdParty tp =>
      obtain ⟨k, d, υ, hk, hd, hcall, hrest⟩ := verifyCaveats_thirdParty.mp h
      obtain ⟨hυ, children, hdeep, hnode, hchildren⟩ := hrec d k _ _ (hσ.erase tp.id) hcall
      obtain ⟨hτ, hsig, hsats, siblings, hheight, hroots, hsiblings⟩ := ih hυ hrest
      refine ⟨hτ, hsig, ?_, .cons (d, k) children siblings, max_le hdeep hheight,
        .cons ⟨hσ.identifier hd, hk⟩ hroots, ⟨hnode, hchildren.nodes, hsiblings.nodes⟩, ?_⟩
      · intro fp' hfp'
        obtain heq | hfp' := List.mem_cons.mp hfp'
        · cases heq
        · exact hsats fp' hfp'
      · rw [DischargeSet.contents_erase hd, hchildren.contents, hsiblings.contents, macaroons_cons,
          Multiset.cons_add, Multiset.add_assoc]

/-- A forest whose roots discharge the caveats in order is consumed by the loop. -/
theorem verifyCaveats_complete {n : Nat} {cs : List Caveat} {F : Forest Node}
    {R : Multiset Macaroon}
    (hrec : ∀ d k (σ : DischargeSet) (F : Forest Node) (R : Multiset Macaroon), σ.WellKeyed →
      F.height + 1 ≤ n → NodeOk B v rootSig (d, k) F.roots → F.All (NodeOk B v rootSig) →
      σ.contents = macaroons F + R →
      ∃ τ : DischargeSet, (recurse d k).call σ = (.ok (), τ) ∧ τ.WellKeyed ∧ τ.contents = R)
    (hσ : σ.WellKeyed) (hsat : ∀ fp, Caveat.firstParty fp ∈ cs → v.Satisfies fp.predicate)
    (hheight : F.height ≤ n)
    (hroots : List.Forall₂ (Discharges B) (thirdPartyCaveats B cs sig) F.roots)
    (hF : F.All (NodeOk B v rootSig)) (hcontents : σ.contents = macaroons F + R) :
    ∃ τ : DischargeSet, (verifyCaveats B v recurse cs sig).call σ =
      (.ok (runningSignature B cs sig), τ) ∧ τ.WellKeyed ∧ τ.contents = R := by
  induction cs generalizing sig σ F with
  | nil =>
    cases F with
    | nil => exact ⟨σ, rfl, hσ, by simpa using hcontents⟩
    | cons label children siblings => cases hroots
  | cons c cs ih =>
    have hsats : ∀ fp, Caveat.firstParty fp ∈ cs → v.Satisfies fp.predicate :=
      fun fp hfp => hsat fp (List.mem_cons_of_mem c hfp)
    cases c with
    | firstParty fp =>
      obtain ⟨τ, hcall, hτ⟩ := ih hσ hsats hheight hroots hF hcontents
      exact ⟨τ, verifyCaveats_firstParty.mpr ⟨hsat fp List.mem_cons_self, hcall⟩, hτ⟩
    | thirdParty tp =>
      cases F with
      | nil => cases hroots
      | cons label children siblings =>
        obtain ⟨d, k⟩ := label
        obtain _ | ⟨⟨hid, hk⟩, hroots⟩ := hroots
        obtain ⟨hnode, hchildren, hsiblings⟩ := hF
        simp only at hid hk hnode
        rw [macaroons_cons, Multiset.cons_add, Multiset.add_assoc] at hcontents
        have hd : σ.lookup tp.id = some d := by
          rw [← hid]
          exact hσ.lookup (hcontents ▸ Multiset.mem_cons_self d _)
        have hrest : DischargeSet.contents (σ.erase tp.id) =
            macaroons children + (macaroons siblings + R) := by
          rw [← hid]
          exact DischargeSet.contents_erase_of_cons hσ hcontents
        obtain ⟨υ, hcall, hυ, hυR⟩ := hrec d k _ children _ (hσ.erase tp.id)
          (le_trans (le_max_left _ _) hheight) hnode hchildren hrest
        obtain ⟨τ, hloop, hτ⟩ :=
          ih hυ hsats (le_trans (le_max_right _ _) hheight) hroots hsiblings hυR
        exact ⟨τ, verifyCaveats_thirdParty.mpr ⟨k, d, υ, hk, hd, hcall, hloop⟩, hτ⟩

/-- The last check of `verify_with_sig`, on the signature the caveats end with. -/
theorem verifyWithSig_eq_ok {m : Macaroon} {key : MacaroonKey} {depth : Nat} :
    (verifyWithSig B v rootSig m key depth).call σ = (.ok (), τ) ↔
      depth ≤ maxVerificationDepth ∧ ∃ s, (verifyCaveats B v
        (fun d k => verifyWithSig B v rootSig d k (depth + 1)) m.caveats
        (hmac B key m.identifier)).call σ = (.ok s, τ) ∧
        (s = rootSig ∨ hmac2 B zeroKey rootSig.bytes s.bytes = m.signature) := by
  rw [verifyWithSig]
  by_cases hdepth : depth > maxVerificationDepth
  · rw [if_pos hdepth]
    simp only [Stateful.call_lift, Prod.mk.injEq, reduceCtorEq, false_and, false_iff, not_and]
    intro hle
    omega
  · rw [if_neg hdepth]
    simp only [Stateful.bind_eq_ok, Nat.le_of_not_lt hdepth, true_and]
    constructor
    · intro h
      obtain ⟨s, υ, hloop, hlast⟩ := h
      by_cases hroot : rootSig = s
      · rw [if_pos hroot] at hlast
        cases hlast
        exact ⟨s, hloop, .inl hroot.symm⟩
      · simp only [if_neg hroot, Stateful.call_lift, Prod.mk.injEq, failIf_eq_ok,
          Decidable.not_not] at hlast
        obtain ⟨hbound, rfl⟩ := hlast
        exact ⟨s, hloop, .inr hbound⟩
    · intro h
      obtain ⟨s, hloop, hlast⟩ := h
      refine ⟨s, τ, hloop, ?_⟩
      by_cases hroot : rootSig = s
      · rw [if_pos hroot]
        rfl
      · obtain hlast | hlast := hlast
        · exact absurd hlast.symm hroot
        · simp only [if_neg hroot, Stateful.call_lift, Prod.mk.injEq, failIf_eq_ok,
            Decidable.not_not]
          exact ⟨hlast, trivial⟩

/-- A successful call consumes the forest below its macaroon; the levels left bound its height. -/
theorem verifyWithSig_sound {m : Macaroon} {key : MacaroonKey} {depth : Nat} (hσ : σ.WellKeyed)
    (h : (verifyWithSig B v rootSig m key depth).call σ = (.ok (), τ)) :
    τ.WellKeyed ∧ ∃ F, F.height + depth ≤ maxVerificationDepth ∧
      NodeOk B v rootSig (m, key) F.roots ∧ Consumed B v rootSig σ τ F := by
  induction depth using level_induction generalizing m key σ τ with
  | level depth ih =>
    obtain ⟨hdepth, s, hloop, hlast⟩ := verifyWithSig_eq_ok.mp h
    have hrec (d : Macaroon) (k : MacaroonKey) (σ τ : DischargeSet) (hσ : σ.WellKeyed)
        (hcall : (verifyWithSig B v rootSig d k (depth + 1)).call σ = (.ok (), τ)) :
        τ.WellKeyed ∧ ∃ F, F.height + 1 ≤ maxVerificationDepth - depth ∧
          NodeOk B v rootSig (d, k) F.roots ∧ Consumed B v rootSig σ τ F := by
      obtain ⟨hτ, F, hheight, hF⟩ := ih hdepth hσ hcall
      exact ⟨hτ, F, by omega, hF⟩
    obtain ⟨hτ, rfl, hsats, F, hheight, hroots, hF⟩ := verifyCaveats_sound hrec hσ hloop
    exact ⟨hτ, F, by omega, ⟨hroots, hsats, hlast⟩, hF⟩

theorem verifyWithSig_complete {m : Macaroon} {key : MacaroonKey} {depth : Nat} {F : Forest Node}
    {R : Multiset Macaroon} (hσ : σ.WellKeyed) (hheight : F.height + depth ≤ maxVerificationDepth)
    (hnode : NodeOk B v rootSig (m, key) F.roots) (hF : F.All (NodeOk B v rootSig))
    (hcontents : σ.contents = macaroons F + R) : ∃ τ : DischargeSet,
      (verifyWithSig B v rootSig m key depth).call σ = (.ok (), τ) ∧ τ.WellKeyed ∧
        τ.contents = R := by
  induction depth using level_induction generalizing m key σ F R with
  | level depth ih =>
    have hrec (d : Macaroon) (k : MacaroonKey) (σ : DischargeSet) (F : Forest Node)
        (R : Multiset Macaroon) (hσ : σ.WellKeyed) (hheight : F.height + 1 ≤
          maxVerificationDepth - depth) (hnode : NodeOk B v rootSig (d, k) F.roots)
        (hF : F.All (NodeOk B v rootSig)) (hcontents : σ.contents = macaroons F + R) :
        ∃ τ : DischargeSet, (verifyWithSig B v rootSig d k (depth + 1)).call σ = (.ok (), τ) ∧
          τ.WellKeyed ∧ τ.contents = R :=
      ih (by omega) hσ (by omega) hnode hF hcontents
    obtain ⟨τ, hloop, hτ⟩ := verifyCaveats_complete hrec hσ hnode.satisfied (by omega)
      hnode.discharged hF hcontents
    exact ⟨τ, verifyWithSig_eq_ok.mpr ⟨by omega, _, hloop, hnode.signed⟩, hτ⟩

theorem verify_call {m : Macaroon} {key : MacaroonKey} {ds : List Macaroon} :
    verify B v m key ds = .ok () ↔ ∃ σ τ : DischargeSet, collectDischarges ∅ ds = .ok σ ∧
      (verifyWithSig B v m.signature m key 0).call σ = (.ok (), τ) ∧ τ.contents = 0 := by
  simp only [verify, bind_eq_ok, failIf_eq_ok, Classical.not_not, DischargeSet.entries_eq_nil]
  constructor
  · intro h
    obtain ⟨σ, hσ, _, hcall, hempty⟩ := h
    exact ⟨σ, _, hσ, Prod.ext hcall rfl, hempty⟩
  · intro h
    obtain ⟨σ, τ, hσ, hcall, hempty⟩ := h
    refine ⟨σ, hσ, (), ?_, ?_⟩
    · rw [hcall]
    · rw [hcall]
      exact hempty

theorem wellKeyed_empty : DischargeSet.WellKeyed ∅ := by simp [DischargeSet.WellKeyed]

theorem contents_empty : DischargeSet.contents ∅ = 0 := rfl

variable {m : Macaroon} {key : MacaroonKey} {ds : List Macaroon} {F : Forest Node}

theorem verify_sound (h : verify B v m key ds = .ok ()) :
    (ds.map Macaroon.identifier).Nodup ∧ ∃ F, VerificationTree B v m key ds F := by
  obtain ⟨σ, τ, hcollect, hcall, hleft⟩ := verify_call.mp h
  obtain ⟨hσ, hcontents, hnodup, _⟩ := DischargeSet.collectDischarges_eq_ok wellKeyed_empty hcollect
  obtain ⟨_, F, hheight, hroot, hF⟩ := verifyWithSig_sound hσ hcall
  refine ⟨hnodup, F, ?_, by omega, hroot, hF.nodes⟩
  have huses := hF.contents
  rw [hcontents, contents_empty, hleft, Multiset.zero_add, Multiset.add_zero] at huses
  exact (Multiset.coe_eq_coe.mp huses).symm

theorem verify_complete (hnodup : (ds.map Macaroon.identifier).Nodup)
    (hF : VerificationTree B v m key ds F) : verify B v m key ds = .ok () := by
  obtain ⟨σ, hcollect⟩ := DischargeSet.collectDischarges_empty.mpr hnodup
  obtain ⟨hσ, hcontents, _⟩ := DischargeSet.collectDischarges_eq_ok wellKeyed_empty hcollect
  have huses : σ.contents = macaroons F + 0 := by
    rw [hcontents, contents_empty, Multiset.zero_add, Multiset.add_zero]
    exact (Multiset.coe_eq_coe.mpr hF.uses).symm
  obtain ⟨τ, hcall, _, hleft⟩ := verifyWithSig_complete hσ
    (show F.height + 0 ≤ maxVerificationDepth from hF.depth) hF.root hF.nodes huses
  exact verify_call.mpr ⟨σ, τ, hcollect, hcall, hleft⟩

/-- Discharges with one identifier are refused before anything is checked. -/
theorem verify_duplicate (m : Macaroon) (key : MacaroonKey)
    (h : ¬ (ds.map Macaroon.identifier).Nodup) :
    ∃ id, List.Duplicate id (ds.map Macaroon.identifier) ∧
      verify B v m key ds = .err (.caveatNotSatisfied
        (.lossyDebug "duplicate discharge macaroons with identifier " id)) := by
  obtain ⟨id, htwice, herror⟩ := DischargeSet.collectDischarges_duplicate h
  exact ⟨id, htwice, by rw [verify, herror, error_bind]⟩

/-- The verifier accepts exactly when the discharges have distinct identifiers and can be arranged,
each used once, in a tree below the root macaroon whose nodes are all discharged, satisfied and
signed. -/
theorem verify_iff_tree (B : Backend) (v : Verifier) (m : Macaroon) (key : MacaroonKey)
    (ds : List Macaroon) : verify B v m key ds = .ok () ↔
      (ds.map Macaroon.identifier).Nodup ∧ ∃ F, VerificationTree B v m key ds F := by
  constructor
  · exact verify_sound
  · intro h
    obtain ⟨hnodup, F, hF⟩ := h
    exact verify_complete hnodup hF

/- The part of a node's conditions that fixes its children. -/
def Discharged (B : Backend) (x : Node) (children : List Node) : Prop :=
  List.Forall₂ (Discharges B) (thirdPartyCaveats B x.1.caveats (hmac B x.2 x.1.identifier)) children

theorem discharges_unique (hnodup : (ds.map Macaroon.identifier).Nodup)
    {caveats : List (ThirdParty × MacaroonKey)} {cs cs' : List Node}
    (h : List.Forall₂ (Discharges B) caveats cs) (h' : List.Forall₂ (Discharges B) caveats cs')
    (hcs : ∀ x ∈ cs, x.1 ∈ ds) (hcs' : ∀ x ∈ cs', x.1 ∈ ds) : cs = cs' := by
  induction h generalizing cs' with
  | nil =>
    cases h'
    rfl
  | cons hd _ ih =>
    obtain _ | ⟨hd', htail⟩ := h'
    simp only [List.forall_mem_cons] at hcs hcs'
    have hname := List.inj_on_of_nodup_map hnodup hcs.1 hcs'.1 (hd.1.trans hd'.1.symm)
    have hkey := Except.ok.inj (hd.2.symm.trans hd'.2)
    rw [ih htail hcs.2 hcs'.2, Prod.ext hname hkey]

/-- The forest below a root is determined by the discharges it is made of. -/
theorem forest_unique {G : Forest Node} (hnodup : (ds.map Macaroon.identifier).Nodup) {x : Node}
    (hFroot : Discharged B x F.roots) (hGroot : Discharged B x G.roots)
    (hF : F.All (Discharged B)) (hG : G.All (Discharged B))
    (hFds : ∀ y ∈ F.labels, y.1 ∈ ds) (hGds : ∀ y ∈ G.labels, y.1 ∈ ds) : F = G := by
  refine Forest.eq_of_roots_eq (fun y => y.1 ∈ ds) ?_ hF hG hFds hGds ?_
  · intro y cs cs' hcs hcs' hmem hmem'
    exact discharges_unique hnodup hcs hcs' hmem hmem'
  · exact discharges_unique hnodup hFroot hGroot
      (fun y hy => hFds y (Forest.mem_labels_of_mem_roots hy))
      fun y hy => hGds y (Forest.mem_labels_of_mem_roots hy)

theorem VerificationTree.mem (hF : VerificationTree B v m key ds F) {y : Node}
    (hy : y ∈ F.labels) : y.1 ∈ ds :=
  hF.uses.subset (List.mem_map_of_mem hy)

theorem VerificationTree.discharged (hF : VerificationTree B v m key ds F) :
    F.All (Discharged B) :=
  hF.nodes.imp fun _ _ _ h => h.discharged

end Verifier

end Libmacaroon
