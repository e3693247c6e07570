import Libmacaroon.MintVerify

/-! Why a family of macaroons that are made as the API asks is refused. Nothing is missing or left over
and every signature fits, so the error is about an identifier given twice, about the depth or about a
predicate, and it says which. -/
namespace Libmacaroon
open Checked

namespace Verifier

/-- A reason to refuse the nodes, with the text it is reported in. -/
inductive Cause (v : Verifier) (nodes : List Node) (levels : Nat) : Message → Prop where
  | tooDeep (h : maxVerificationDepth < levels) :
      Cause v nodes levels (.text "discharge verification exceeded maximum depth")
  | unsatisfied {x : Node} {fp : FirstParty} (hx : x ∈ nodes)
      (hfp : Caveat.firstParty fp ∈ x.1.caveats) (h : ¬ v.Satisfies fp.predicate) :
      Cause v nodes levels (.lossy "first party caveat not satisfied: " fp.predicate)

/-- The node's children discharge it, and its signature passes the last check. -/
structure Ready (B : Backend) (rootSig : MacaroonKey) (x : Node) (children : List Node) : Prop where
  discharged : Discharged B x children
  signed : chain B x.2 x.1 = rootSig ∨
    hmac2 B zeroKey rootSig.bytes (chain B x.2 x.1).bytes = x.1.signature

/-- The run returns `a` and leaves the macaroons `R` in the map, or it reports a cause. -/
def Reports {α : Type} (C : Message → Prop) (R : Multiset Macaroon) (a : α)
    (run : Result α × DischargeSet) : Prop :=
  (∃ τ : DischargeSet, run = (.ok a, τ) ∧ τ.WellKeyed ∧ τ.contents = R) ∨
    ∃ s, C s ∧ run.1 = .err (.caveatNotSatisfied s)

variable {B : Backend} {v : Verifier} {rootSig sig : MacaroonKey} {σ τ : DischargeSet}
  {recurse : Macaroon → MacaroonKey → Stateful DischargeSet MacaroonError Unit}
  {C : Message → Prop} {R R' : Multiset Macaroon}

namespace Reports
variable {α β : Type} {x : Stateful DischargeSet MacaroonError α}
  {f : α → Stateful DischargeSet MacaroonError β} {a : α} {b : β}

theorem bind (hx : Reports C R' a (x.call σ))
    (hf : ∀ τ : DischargeSet, τ.WellKeyed → τ.contents = R' → Reports C R b ((f a).call τ)) :
    Reports C R b ((x >>= f).call σ) := by
  rw [Stateful.call_bind]
  obtain ⟨τ, hcall, hτ, hcontents⟩ | ⟨s, hs, hcall⟩ := hx
  · rw [hcall]
    exact hf τ hτ hcontents
  · generalize x.call σ = run at hcall
    obtain ⟨r, τ⟩ := run
    obtain rfl : r = .err (.caveatNotSatisfied s) := hcall
    exact .inr ⟨s, hs, rfl⟩

theorem imp {C' : Message → Prop} {run : Result α × DischargeSet} (h : Reports C R a run)
    (hC : ∀ s, C s → C' s) : Reports C' R a run :=
  h.imp_right fun ⟨s, hs, hrun⟩ => ⟨s, hC s hs, hrun⟩

/-- A part that succeeds for sure can be passed over. -/
theorem of_ok (hx : x.call σ = (.ok a, τ)) (hf : Reports C R b ((f a).call τ)) :
    Reports C R b ((x >>= f).call σ) := by
  rw [Stateful.call_bind, hx]
  exact hf

end Reports

/-- A predicate that is not satisfied is the cause itself. -/
theorem verifyCaveat_firstParty_reports {fp : FirstParty} (hσ : σ.WellKeyed)
    (hcontents : σ.contents = R) (hcause : ¬ v.Satisfies fp.predicate →
      C (.lossy "first party caveat not satisfied: " fp.predicate)) :
    Reports C R (Caveat.sign B (.firstParty fp) sig)
      ((verifyCaveat B v recurse (.firstParty fp) sig).call σ) := by
  rw [verifyCaveat, Stateful.call_bind, Stateful.call_lift]
  by_cases hsat : v.Satisfies fp.predicate
  · rw [failIf, if_neg fun h => rejects_iff.mp h hsat]
    exact .inl ⟨σ, rfl, hσ, hcontents⟩
  · rw [failIf, if_pos (rejects_iff.mpr hsat)]
    exact .inr ⟨_, hcause hsat, rfl⟩

/-- A discharge that is there and opens leaves the verdict to the call on it. -/
theorem verifyCaveat_thirdParty_reports {tp : ThirdParty} {d : Macaroon} {k : MacaroonKey}
    (hσ : σ.WellKeyed) (hd : Discharges B (tp, sig) (d, k)) (hcontents : σ.contents = d ::ₘ R')
    (hrec : ∀ τ : DischargeSet, τ.WellKeyed → τ.contents = R' → Reports C R () ((recurse d k).call τ)) :
    Reports C R (Caveat.sign B (.thirdParty tp) sig)
      ((verifyCaveat B v recurse (.thirdParty tp) sig).call σ) := by
  obtain ⟨hid, hkey⟩ := hd
  simp only at hid hkey
  have hlookup : σ.lookup tp.id = some d := by
    rw [← hid]
    exact hσ.lookup (hcontents ▸ Multiset.mem_cons_self d _)
  have hrest : DischargeSet.contents (σ.erase tp.id) = R' := by
    rw [← hid]
    exact DischargeSet.contents_erase_of_cons hσ hcontents
  rw [verifyCaveat]
  apply Reports.of_ok (a := k) (τ := σ)
  · rw [Stateful.call_lift, hkey]
  apply Reports.of_ok (DischargeSet.removeDischarge_of_some hlookup)
  apply Reports.bind (hrec _ (hσ.erase tp.id) hrest)
  intro τ hτ hleft
  exact .inl ⟨τ, rfl, hτ, hleft⟩

/-- The loop over the caveats of a node whose children discharge them in order. -/
theorem verifyCaveats_reports {n : Nat} {nodes : List Node} {cs : List Caveat} {F : Forest Node}
    (hrec : ∀ d k (children : Forest Node) (R : Multiset Macaroon) (σ : DischargeSet),
      σ.WellKeyed → children.height + 1 ≤ n → (d, k) :: children.labels ⊆ nodes →
      Ready B rootSig (d, k) children.roots → children.All (Ready B rootSig) →
      σ.contents = macaroons children + R → Reports C R () ((recurse d k).call σ))
    (hcause : ∀ fp, Caveat.firstParty fp ∈ cs → ¬ v.Satisfies fp.predicate →
      C (.lossy "first party caveat not satisfied: " fp.predicate))
    (hσ : σ.WellKeyed) (hheight : F.height ≤ n) (hnodes : F.labels ⊆ nodes)
    (hroots : List.Forall₂ (Discharges B) (thirdPartyCaveats B cs sig) F.roots)
    (hF : F.All (Ready B rootSig)) (hcontents : σ.contents = macaroons F + R) :
    Reports C R (runningSignature B cs sig) ((verifyCaveats B v recurse cs sig).call σ) := by
  induction cs generalizing sig σ F with
  | nil =>
    cases F with
    | nil => exact .inl ⟨σ, rfl, hσ, by simpa using hcontents⟩
    | cons label children siblings => cases hroots
  | cons c cs ih =>
    have hrest : ∀ fp, Caveat.firstParty fp ∈ cs → ¬ v.Satisfies fp.predicate →
        C (.lossy "first party caveat not satisfied: " fp.predicate) :=
      fun fp hfp => hcause fp (List.mem_cons_of_mem c hfp)
    rw [verifyCaveats]
    cases c with
    | firstParty fp =>
      apply Reports.bind (verifyCaveat_firstParty_reports hσ hcontents (hcause fp List.mem_cons_self))
      intro τ hτ hleft
      exact ih hrest hτ hheight hnodes hroots hF hleft
    | thirdParty tp =>
      cases F with
      | nil => cases hroots
      | cons label children siblings =>
        obtain ⟨d, k⟩ := label
        obtain _ | ⟨hd, hroots⟩ := hroots
        obtain ⟨hready, hchildren, hsiblings⟩ := hF
        rw [macaroons_cons, Multiset.cons_add, Multiset.add_assoc] at hcontents
        have hbelow : (d, k) :: children.labels ⊆ nodes := fun x hx =>
          hnodes (List.mem_append_left siblings.labels hx)
        have hbeside : siblings.labels ⊆ nodes := fun x hx =>
          hnodes (List.mem_append_right ((d, k) :: children.labels) hx)
        apply Reports.bind (verifyCaveat_thirdParty_reports (R := macaroons siblings + R) hσ hd
          hcontents fun τ hτ hleft => hrec d k children _ τ hτ
            (le_trans (le_max_left _ _) hheight) hbelow hready hchildren hleft)
        intro τ hτ hleft
        exact ih hrest hτ (le_trans (le_max_right _ _) hheight) hbeside hroots hsiblings hleft

/-- A node with its forest is accepted and used up, or refused for a cause among these nodes. -/
theorem verifyWithSig_reports {nodes : List Node} {levels depth : Nat} {m : Macaroon}
    {key : MacaroonKey} {F : Forest Node} (hσ : σ.WellKeyed) (hheight : F.height + depth ≤ levels)
    (hnodes : (m, key) :: F.labels ⊆ nodes) (hready : Ready B rootSig (m, key) F.roots)
    (hF : F.All (Ready B rootSig)) (hcontents : σ.contents = macaroons F + R) :
    Reports (Cause v nodes levels) R () ((verifyWithSig B v rootSig m key depth).call σ) := by
  induction depth using level_induction generalizing m key F R σ with
  | level depth ih =>
    rw [verifyWithSig]
    by_cases hdepth : depth > maxVerificationDepth
    · rw [if_pos hdepth, Stateful.call_lift]
      exact .inr ⟨_, .tooDeep (by omega), rfl⟩
    · rw [if_neg hdepth]
      refine Reports.bind (verifyCaveats_reports (n := levels - depth) ?_ ?_ hσ (by omega)
        (fun x hx => hnodes (List.mem_cons_of_mem _ hx)) hready.discharged hF hcontents) ?_
      · intro d k children R σ hσ hheight hnodes hready hchildren hcontents
        exact ih (by omega) hσ (by omega) hnodes hready hchildren hcontents
      · intro fp hfp hunsatisfied
        exact .unsatisfied (hnodes List.mem_cons_self) hfp hunsatisfied
      · intro τ hτ hleft
        have hsigned : chain B key m = rootSig ∨
            hmac2 B zeroKey rootSig.bytes (chain B key m).bytes = m.signature := hready.signed
        rw [chain] at hsigned
        generalize runningSignature B m.caveats (hmac B key m.identifier) = sig at hsigned ⊢
        by_cases hroot : rootSig = sig
        · rw [if_pos hroot]
          exact .inl ⟨τ, rfl, hτ, hleft⟩
        · have hbound := hsigned.resolve_left fun h => hroot h.symm
          rw [if_neg hroot, Stateful.call_lift, failIf, if_neg (not_not_intro hbound)]
          exact .inl ⟨τ, rfl, hτ, hleft⟩

end Verifier

/-- Why a family can be refused: two discharges have one identifier, or they nest too deep, or a
predicate that was given for a member is not satisfied. The text is that of the error. -/
inductive Refusal {B : Backend} (v : Verifier) (root : Issued B) (F : Forest (Issued B)) :
    Message → Prop where
  | duplicate {id : Bytes} (h : List.Duplicate id (F.labels.map fun x => x.macaroon.identifier)) :
      Refusal v root F (.lossyDebug "duplicate discharge macaroons with identifier " id)
  | tooDeep (h : maxVerificationDepth < F.height) :
      Refusal v root F (.text "discharge verification exceeded maximum depth")
  | unsatisfied {x : Issued B} {p : Bytes} (hx : x ∈ root :: F.labels) (hp : p ∈ x.predicates)
      (h : ¬ v.Satisfies p) :
      Refusal v root F (.lossy "first party caveat not satisfied: " p)

theorem duplicate_of_perm {α : Type} [DecidableEq α] {xs ys : List α} {x : α} (hperm : xs.Perm ys)
    (h : List.Duplicate x xs) : List.Duplicate x ys := by
  rw [List.duplicate_iff_two_le_count] at h ⊢
  rwa [← hperm.count_eq]

section Families
variable {B : Backend} {v : Verifier} {root : Issued B} {F : Forest (Issued B)} {ds : List Macaroon}

namespace Refusal

theorem of_member {x : Issued B} {fp : FirstParty} (hx : x ∈ root :: F.labels)
    (hfp : Caveat.firstParty fp ∈ x.macaroon.caveats) (h : ¬ v.Satisfies fp.predicate) :
    Refusal v root F (.lossy "first party caveat not satisfied: " fp.predicate) := by
  have hgiven : fp.predicate ∈ x.predicates :=
    x.minted.forall_predicates.mp (fun _ hp => hp) fp hfp
  exact .unsatisfied hx hgiven h

/- Binding leaves the caveats of a discharge alone, and the root is not bound. -/
theorem of_cause {s : Message} (h : Verifier.Cause v ((root.macaroon, root.key) ::
      (F.map (Issued.bound root.macaroon)).labels) F.height s) : Refusal v root F s := by
  cases h with
  | tooDeep hdepth => exact .tooDeep hdepth
  | unsatisfied hx hfp hunsatisfied =>
    obtain rfl | hx := List.mem_cons.mp hx
    · exact of_member List.mem_cons_self hfp hunsatisfied
    · rw [Forest.labels_map] at hx
      obtain ⟨x, hmember, rfl⟩ := List.mem_map.mp hx
      exact of_member (List.mem_cons_of_mem root hmember) hfp hunsatisfied

end Refusal

namespace Answered

/- The discharges carry the identifiers of the family, in another order. -/
theorem duplicate (hds : ds.Perm (F.labels.map fun x => root.macaroon.bind B x.macaroon))
    {id : Bytes} (h : List.Duplicate id (ds.map Macaroon.identifier)) :
    List.Duplicate id (F.labels.map fun x => x.macaroon.identifier) := by
  have hsame := duplicate_of_perm (hds.map Macaroon.identifier) h
  rw [List.map_map] at hsame
  exact hsame

/-- A family whose discharges are collected is accepted, or refused for a cause. -/
theorem reports (hB : B.OpensWhatItSeals) (hF : Answered B root F)
    (hds : ds.Perm (F.labels.map fun x => root.macaroon.bind B x.macaroon)) {σ : DischargeSet}
    (hcollect : Verifier.collectDischarges ∅ ds = .ok σ) :
    Verifier.Reports (Refusal v root F) 0 ()
      ((Verifier.verifyWithSig B v root.macaroon.signature root.macaroon root.key 0).call σ) := by
  obtain ⟨hσ, hcontents, _⟩ :=
    DischargeSet.collectDischarges_eq_ok Verifier.wellKeyed_empty hcollect
  have huses : σ.contents = Verifier.macaroons (F.map (Issued.bound root.macaroon)) + 0 := by
    rw [hcontents, Verifier.contents_empty, Multiset.zero_add, Multiset.add_zero,
      Verifier.macaroons, Forest.labels_map, List.map_map]
    exact Multiset.coe_eq_coe.mpr hds
  have hroot : Verifier.Ready B root.macaroon.signature (root.macaroon, root.key)
      (F.map (Issued.bound root.macaroon)).roots :=
    ⟨hF.root_discharged hB, .inl root.minted.signature.symm⟩
  have hnodes : (F.map (Issued.bound root.macaroon)).All
      (Verifier.Ready B root.macaroon.signature) := by
    refine .map (hF.nodes.imp fun x _ _ hchildren => ⟨?_, .inr ?_⟩)
    · exact x.minted.discharged hB hchildren
    · exact x.bound_signed root.macaroon
  have hheight : (F.map (Issued.bound root.macaroon)).height + 0 ≤ F.height := by
    rw [Forest.height_map, Nat.add_zero]
  exact (Verifier.verifyWithSig_reports (v := v) hσ hheight (List.Subset.refl _) hroot hnodes
    huses).imp fun _ => .of_cause

end Answered

end Families

/-- A root macaroon and its family of bound discharges, given in any order, are accepted, or refused
as not satisfied for a reason that holds of them and that the text gives: no other error arises. -/
theorem minted_family_refusal (B : Backend) (v : Verifier) (root : Issued B)
    (F : Forest (Issued B)) (ds : List Macaroon) (hB : B.OpensWhatItSeals)
    (hF : Answered B root F)
    (hds : ds.Perm (F.labels.map fun x => root.macaroon.bind B x.macaroon)) :
    v.verify B root.macaroon root.key ds = .ok () ∨
      ∃ s, Refusal v root F s ∧
        v.verify B root.macaroon root.key ds = .err (.caveatNotSatisfied s) := by
  by_cases hnodup : (ds.map Macaroon.identifier).Nodup
  · obtain ⟨σ, hcollect⟩ := DischargeSet.collectDischarges_empty.mpr hnodup
    obtain ⟨τ, hrun, _, hleft⟩ | ⟨s, hs, hrun⟩ := hF.reports (v := v) hB hds hcollect
    · left
      have hnone : τ.entries = [] := DischargeSet.entries_eq_nil.mpr hleft
      rw [Verifier.verify, hcollect, ok_bind, hrun]
      simp only [ok_bind, failIf, hnone, ne_eq, not_true_eq_false, if_false]
    · right
      refine ⟨s, hs, ?_⟩
      rw [Verifier.verify, hcollect, ok_bind]
      generalize (Verifier.verifyWithSig B v root.macaroon.signature root.macaroon root.key 0).call
        σ = run at hrun
      obtain ⟨r, τ⟩ := run
      obtain rfl : r = .err (.caveatNotSatisfied s) := hrun
      rfl
  · right
    obtain ⟨id, htwice, herror⟩ :=
      Verifier.verify_duplicate (B := B) (v := v) root.macaroon root.key hnodup
    exact ⟨_, .duplicate (Answered.duplicate hds htwice), herror⟩

theorem minted_family_refusal_nested :
    delegatedVerifier.verify Instances.backend issuedRoot.macaroon issuedRoot.key
        (nestedFamily.labels.map fun x => issuedRoot.macaroon.bind Instances.backend x.macaroon) =
          .ok () ∨
      ∃ s, Refusal delegatedVerifier issuedRoot nestedFamily s ∧
        delegatedVerifier.verify Instances.backend issuedRoot.macaroon issuedRoot.key
          (nestedFamily.labels.map fun x => issuedRoot.macaroon.bind Instances.backend x.macaroon) =
            .err (.caveatNotSatisfied s) :=
  minted_family_refusal _ _ _ _ _ backend_opensWhatItSeals nestedFamily_family.toAnswered
    (List.Perm.refl _)

end Libmacaroon
