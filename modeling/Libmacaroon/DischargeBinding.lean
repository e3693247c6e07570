import Libmacaroon.MintVerify
import Libmacaroon.Resigned
import Libmacaroon.SignedContent

/-! What holds a discharge to its root. The last check of `verify_with_sig` accepts a macaroon whose
chain ends in the root's signature before it looks at the macaroon's own; a discharge with such a
chain is accepted under any signature, every other one only under its own. -/
namespace Libmacaroon
open Checked

/-- No two of the evaluations have different inputs and the same output. -/
def CollisionFree (B : Backend) (es : List Evaluation) : Prop :=
  ¬ KeyedChain.Collide B.hmacSha256 es

instance (B : Backend) (es : List Evaluation) : Decidable (CollisionFree B es) :=
  inferInstanceAs (Decidable (¬ KeyedChain.Collide B.hmacSha256 es))

namespace Verifier

/-- A member of `ds` with the key that a third-party caveat opens to, of the root macaroon or of
another discharge that is itself discharged under a key. -/
inductive DischargedUnder (B : Backend) (m : Macaroon) (key : MacaroonKey) (ds : List Macaroon) :
    Node → Prop where
  | root {c : ThirdParty × MacaroonKey} {y : Node}
      (hc : c ∈ thirdPartyCaveats B m.caveats (hmac B key m.identifier)) (hy : y.1 ∈ ds)
      (h : Discharges B c y) : DischargedUnder B m key ds y
  | nested {x : Node} {c : ThirdParty × MacaroonKey} {y : Node} (hx : DischargedUnder B m key ds x)
      (hc : c ∈ thirdPartyCaveats B x.1.caveats (hmac B x.2 x.1.identifier)) (hy : y.1 ∈ ds)
      (h : Discharges B c y) : DischargedUnder B m key ds y

variable {B : Backend} {v : Verifier} {m d : Macaroon} {key k k' s : MacaroonKey}
  {ds ds' : List Macaroon} {x y : Node} {children : List Node} {T : Forest Node}

theorem Discharges.resigned {c : ThirdParty × MacaroonKey} {d' : Macaroon} (hd : Resigned y.1 d')
    (h : Discharges B c y) : Discharges B c (d', y.2) :=
  ⟨hd.identifier.trans h.1, h.2⟩

/-- The keys do not depend on the signatures. -/
theorem DischargedUnder.resigned (hds : ∀ d ∈ ds, ∃ d' ∈ ds', Resigned d d')
    (hy : DischargedUnder B m key ds y) :
    ∃ d' ∈ ds', Resigned y.1 d' ∧ DischargedUnder B m key ds' (d', y.2) := by
  induction hy with
  | root hc hy h =>
    obtain ⟨d', hd', hre⟩ := hds _ hy
    exact ⟨d', hd', hre, .root hc hd' (h.resigned hre)⟩
  | nested _ hc hy h ih =>
    obtain ⟨x', _, hx, hunder⟩ := ih
    obtain ⟨d', hd', hre⟩ := hds _ hy
    refine ⟨d', hd', hre, .nested hunder ?_ hd' (h.resigned hre)⟩
    rw [hx.caveats, hx.identifier]
    exact hc

/- Among discharges with distinct identifiers a caveat has one discharge. -/
theorem mem_children {c : ThirdParty × MacaroonKey} {caveats : List (ThirdParty × MacaroonKey)}
    (hnodup : (ds.map Macaroon.identifier).Nodup)
    (hchildren : List.Forall₂ (Discharges B) caveats children) (hmem : ∀ x ∈ children, x.1 ∈ ds)
    (hc : c ∈ caveats) (hy : y.1 ∈ ds) (h : Discharges B c y) : y ∈ children := by
  induction hchildren with
  | nil => cases hc
  | @cons c' x _ _ hx _ ih =>
    rw [List.forall_mem_cons] at hmem
    obtain rfl | hc := List.mem_cons.mp hc
    · have hname := List.inj_on_of_nodup_map hnodup hy hmem.1 (h.1.trans hx.1.symm)
      have hkey := Except.ok.inj (h.2.symm.trans hx.2)
      rw [Prod.ext hname hkey]
      exact List.mem_cons_self
    · exact List.mem_cons_of_mem _ (ih hmem.2 hc)

theorem exists_caveat {caveats : List (ThirdParty × MacaroonKey)}
    (hchildren : List.Forall₂ (Discharges B) caveats children) (hy : y ∈ children) :
    ∃ c ∈ caveats, Discharges B c y := by
  induction hchildren with
  | nil => cases hy
  | cons h _ ih =>
    obtain rfl | hy := List.mem_cons.mp hy
    · exact ⟨_, List.mem_cons_self, h⟩
    · obtain ⟨c, hc, hcy⟩ := ih hy
      exact ⟨c, List.mem_cons_of_mem _ hc, hcy⟩

namespace VerificationTree

/-- The nodes of the tree are the discharges under their keys. -/
theorem mem_labels_iff (hnodup : (ds.map Macaroon.identifier).Nodup)
    (hT : VerificationTree B v m key ds T) : y ∈ T.labels ↔ DischargedUnder B m key ds y := by
  constructor
  · intro hy
    apply Forest.forall_labels hT.nodes (fun z hz => hT.mem hz) _ _ y hy
    · intro z hz
      obtain ⟨c, hc, hcz⟩ := exists_caveat hT.root.discharged hz
      exact .root hc (hT.mem (Forest.mem_labels_of_mem_roots hz)) hcz
    · intro x children hx hunder z hz hzds
      obtain ⟨c, hc, hcz⟩ := exists_caveat hx.discharged hz
      exact .nested hunder hc hzds hcz
  · intro hy
    induction hy with
    | root hc hy h =>
      apply Forest.mem_labels_of_mem_roots
      exact mem_children hnodup hT.root.discharged
        (fun x hx => hT.mem (Forest.mem_labels_of_mem_roots hx)) hc hy h
    | nested _ hc hy h ih =>
      obtain ⟨children, hnode, hbelow⟩ := hT.nodes.exists_children ih
      apply hbelow
      exact mem_children hnodup hnode.discharged (fun x hx => hT.mem (hbelow x hx)) hc hy h

theorem key_unique (hnodup : (ds.map Macaroon.identifier).Nodup)
    (hT : VerificationTree B v m key ds T) (h : (d, k) ∈ T.labels) (h' : (d, k') ∈ T.labels) :
    k = k' := by
  have hlabels : (T.labels.map Prod.fst).Nodup := hT.uses.nodup_iff.mpr hnodup.of_map
  exact congrArg Prod.snd (List.inj_on_of_nodup_map hlabels h h' rfl)

theorem exists_label (hT : VerificationTree B v m key ds T) (hd : d ∈ ds) :
    ∃ k, (d, k) ∈ T.labels := by
  obtain ⟨⟨_, k⟩, hmem, rfl⟩ := List.mem_map.mp (hT.uses.symm.subset hd)
  exact ⟨k, hmem⟩

theorem signed (hT : VerificationTree B v m key ds T) (hy : y ∈ T.labels) :
    chain B y.2 y.1 = m.signature ∨
      hmac2 B zeroKey m.signature.bytes (chain B y.2 y.1).bytes = y.1.signature := by
  obtain ⟨_, hnode, _⟩ := hT.nodes.exists_children hy
  exact hnode.signed

end VerificationTree

/-- `d` with the signature `s`, and every other macaroon as it is. -/
def resigning (d : Macaroon) (s : MacaroonKey) (x : Macaroon) : Macaroon :=
  if x = d then x.resign s else x

theorem resigned_resigning (d : Macaroon) (s : MacaroonKey) (x : Macaroon) :
    Resigned x (resigning d s x) := by
  by_cases h : x = d
  · exact ⟨s, if_pos h⟩
  · exact ⟨x.signature, if_neg h⟩

theorem set_eq_map (hnodup : ds.Nodup) {i : Nat} (hi : i < ds.length) (s : MacaroonKey) :
    ds.set i (ds[i].resign s) = ds.map (resigning ds[i] s) := by
  apply List.ext_getElem (by simp)
  intro j hj _
  rw [List.length_set] at hj
  rw [List.getElem_set, List.getElem_map, resigning]
  by_cases hij : i = j
  · subst hij
    rw [if_pos rfl, if_pos rfl]
  · have hne : ds[j] ≠ ds[i] := fun h => hij (hnodup.getElem_inj_iff.mp h).symm
    rw [if_neg hij, if_neg hne]

theorem identifiers_resigning (d : Macaroon) (s : MacaroonKey) :
    (ds.map (resigning d s)).map Macaroon.identifier = ds.map Macaroon.identifier := by
  rw [List.map_map]
  exact List.map_congr_left fun x _ => (resigned_resigning d s x).identifier

theorem discharged_resigning {caveats : List (ThirdParty × MacaroonKey)}
    (h : List.Forall₂ (Discharges B) caveats children) (d : Macaroon) (s : MacaroonKey) :
    List.Forall₂ (Discharges B) caveats (children.map fun y => (resigning d s y.1, y.2)) := by
  rw [List.forall₂_map_right_iff]
  exact h.imp fun _ y hy => hy.resigned (resigned_resigning d s y.1)

/-- Where the chain of `d` ends in the root's signature, the tree stands with any signature on `d`. -/
theorem VerificationTree.resign (hnodup : (ds.map Macaroon.identifier).Nodup)
    (hT : VerificationTree B v m key ds T) (hd : (d, k) ∈ T.labels)
    (hchain : chain B k d = m.signature) (s : MacaroonKey) :
    VerificationTree B v m key (ds.map (resigning d s))
      (T.map fun y => (resigning d s y.1, y.2)) where
  uses := by
    have huses := hT.uses.map (resigning d s)
    rw [List.map_map] at huses
    rwa [Forest.labels_map, List.map_map]
  depth := by
    rw [Forest.height_map]
    exact hT.depth
  root := by
    rw [Forest.roots_map]
    exact ⟨discharged_resigning hT.root.discharged d s, hT.root.satisfied, hT.root.signed⟩
  nodes := by
    apply Forest.All.map
    apply hT.nodes.imp
    intro x hx children hnode
    have hre := resigned_resigning d s x.1
    refine ⟨?_, ?_, ?_⟩
    · simp only [hre.caveats, hre.identifier]
      exact discharged_resigning hnode.discharged d s
    · simp only [hre.caveats]
      exact hnode.satisfied
    · simp only [hre.chain]
      by_cases heq : x.1 = d
      · -- the node is `d` itself: its key is the one whose chain is known
        have hlabel : (d, x.2) ∈ T.labels := by
          rw [← heq]
          exact hx
        rw [heq, hT.key_unique hnodup hlabel hd]
        exact .inl hchain
      · rw [resigning, if_neg heq]
        exact hnode.signed

/-- Where the chain of `d` ends in the root's signature, any signature of `d` is accepted. -/
theorem accepts_any_signature (hok : v.verify B m key ds = .ok ())
    (hunder : DischargedUnder B m key ds (d, k)) (hchain : chain B k d = m.signature)
    (s : MacaroonKey) : v.verify B m key (ds.map (resigning d s)) = .ok () := by
  obtain ⟨hnodup, T, hT⟩ := verify_sound hok
  have hnodup' : ((ds.map (resigning d s)).map Macaroon.identifier).Nodup := by
    rw [identifiers_resigning]
    exact hnodup
  exact verify_complete hnodup' (hT.resign hnodup ((hT.mem_labels_iff hnodup).mpr hunder) hchain s)

/-- Elsewhere two accepted signatures of `d` are the same binding. -/
theorem accepted_signature_unique (hok : v.verify B m key ds = .ok ()) (hd : d ∈ ds)
    (hchain : ∀ k, DischargedUnder B m key ds (d, k) → chain B k d ≠ m.signature)
    (hok' : v.verify B m key (ds.map (resigning d s)) = .ok ()) : s = d.signature := by
  obtain ⟨hnodup, T, hT⟩ := verify_sound hok
  obtain ⟨hnodup', T', hT'⟩ := verify_sound hok'
  have hresign : resigning d s d = d.resign s := if_pos rfl
  have hd' : d.resign s ∈ ds.map (resigning d s) := List.mem_map.mpr ⟨d, hd, hresign⟩
  obtain ⟨k, hlabel'⟩ := hT'.exists_label hd'
  -- the second run finds the discharge under a key that the first run finds it under
  have hback : ∀ x ∈ ds.map (resigning d s), ∃ x' ∈ ds, Resigned x x' := by
    intro x hx
    obtain ⟨x', hx', rfl⟩ := List.mem_map.mp hx
    exact ⟨x', hx', (resigned_resigning d s x').symm⟩
  obtain ⟨x, hx, hre, hunder⟩ := ((hT'.mem_labels_iff hnodup').mp hlabel').resigned hback
  have hxd : x = d := List.inj_on_of_nodup_map hnodup hx hd hre.identifier
  rw [hxd] at hunder
  have hlabel : (d, k) ∈ T.labels := (hT.mem_labels_iff hnodup).mpr hunder
  have hne := hchain k hunder
  have hbound : hmac2 B zeroKey m.signature.bytes (chain B k d).bytes = d.signature :=
    (hT.signed hlabel).resolve_left hne
  have hbound' : hmac2 B zeroKey m.signature.bytes (chain B k d).bytes = s :=
    (hT'.signed hlabel').resolve_left hne
  exact hbound'.symm.trans hbound

end Verifier

theorem exists_key_ne (key : MacaroonKey) : ∃ s, s ≠ key := by
  have hne : zeroKey ≠ ⟨List.replicate 32 1, by simp⟩ := by decide
  by_cases h : zeroKey = key
  · exact ⟨_, h ▸ hne.symm⟩
  · exact ⟨zeroKey, h⟩

open Verifier in
/-- In an accepted run without collisions the signature of a discharge is fixed by the others exactly
when its chain, under the key it is discharged under, does not end in the root's signature. -/
theorem discharge_signature_fixed_iff (B : Backend) (v : Verifier) (m : Macaroon)
    (key : MacaroonKey) (ds : List Macaroon) (i : Nat) (hi : i < ds.length)
    (hok : v.verify B m key ds = .ok ()) :
    (∀ s, s ≠ ds[i].signature →
        CollisionFree B (Recorded.evaluations B v m key ds ++
          Recorded.evaluations B v m key (ds.set i (ds[i].resign s))) →
        v.verify B m key (ds.set i (ds[i].resign s)) ≠ .ok ()) ↔
      (CollisionFree B (Recorded.evaluations B v m key ds) →
        ∀ k, DischargedUnder B m key ds (ds[i], k) → chain B k ds[i] ≠ m.signature) := by
  obtain ⟨hnodup, _⟩ := verify_sound hok
  simp only [set_eq_map hnodup.of_map hi]
  constructor
  · intro hfixed hfree k hunder hchain
    obtain ⟨s, hs⟩ := exists_key_ne ds[i].signature
    have hok' := accepts_any_signature hok hunder hchain s
    apply hfixed s hs _ hok'
    -- the accepted run with the other signature evaluates the same HMACs
    have heval : Recorded.evaluations B v m key ds =
        Recorded.evaluations B v m key (ds.map (resigning ds[i] s)) := by
      apply Recorded.evaluations_eq hok hok'
      intro d hd d' hd' hid
      obtain ⟨x, hx, rfl⟩ := List.mem_map.mp hd'
      have hre := resigned_resigning ds[i] s x
      have hdx : d = x := List.inj_on_of_nodup_map hnodup hd hx (hid.trans hre.identifier)
      rw [hdx]
      exact hre
    rw [← heval]
    intro hcollide
    apply hfree
    apply hcollide.mono
    simp
  · intro hchain s hs hfree hok'
    have hfree' : CollisionFree B (Recorded.evaluations B v m key ds) :=
      fun hcollide => hfree (hcollide.mono (List.subset_append_left _ _))
    exact hs (accepted_signature_unique hok (List.getElem_mem hi) (hchain hfree') hok')

section Unbound
open Instances

/- A macaroon delegates to "a" and is then limited to "p". Whoever holds the delegated macaroon seals
   its signature in a discharge for "a", as the key of a caveat named "p"; the chain of the macaroon
   made with that key and identifier "p" repeats the last HMAC of the limited macaroon's. -/
def delegating : Macaroon :=
  let created : Macaroon := ⟨[114], none, hmac backend (ofNat 1) [114], []⟩
  created.push backend (sealedCaveat created (ofNat 2) [97])

def limited : Macaroon := delegating.push backend (newFirstParty [112])

def carrier : Macaroon :=
  let created : Macaroon := ⟨[97], none, hmac backend (ofNat 2) [97], []⟩
  limited.bind backend (created.push backend (sealedCaveat created delegating.signature [112]))

def unbound : Macaroon := ⟨[112], none, hmac backend delegating.signature [112], []⟩

def limitedVerifier : Verifier := Verifier.default.satisfyExact [112]

/-- The discharge `unbound` is accepted with a signature of 32 zero bytes too. -/
theorem unbound_discharge_accepted :
    limitedVerifier.verify backend limited (ofNat 1) [carrier, unbound] = .ok () ∧
      zeroKey ≠ unbound.signature ∧
      CollisionFree backend
        (Recorded.evaluations backend limitedVerifier limited (ofNat 1) [carrier, unbound] ++
          Recorded.evaluations backend limitedVerifier limited (ofNat 1)
            ([carrier, unbound].set 1 (unbound.resign zeroKey))) ∧
      limitedVerifier.verify backend limited (ofNat 1)
        ([carrier, unbound].set 1 (unbound.resign zeroKey)) = .ok () := by
  decide +kernel

open Verifier in
theorem discharge_signature_fixed_iff_carrier :
    (∀ s, s ≠ carrier.signature →
        CollisionFree backend
          (Recorded.evaluations backend limitedVerifier limited (ofNat 1) [carrier, unbound] ++
            Recorded.evaluations backend limitedVerifier limited (ofNat 1)
              [carrier.resign s, unbound]) →
        limitedVerifier.verify backend limited (ofNat 1) [carrier.resign s, unbound] ≠ .ok ()) ↔
      (CollisionFree backend
          (Recorded.evaluations backend limitedVerifier limited (ofNat 1) [carrier, unbound]) →
        ∀ k, DischargedUnder backend limited (ofNat 1) [carrier, unbound] (carrier, k) →
          chain backend k carrier ≠ limited.signature) :=
  discharge_signature_fixed_iff backend limitedVerifier limited (ofNat 1) [carrier, unbound] 0
    (by decide) (by decide +kernel)

end Unbound

end Libmacaroon
