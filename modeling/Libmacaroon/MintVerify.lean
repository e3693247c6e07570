import Libmacaroon.Instances
import Libmacaroon.VerifierSpec

/-! Minting and verifying agree: a family of macaroons that are minted, discharged and bound as the
API asks for verifies exactly when it is not too deep and every predicate is satisfied. -/
namespace Libmacaroon
open Checked

/-- What is sealed is opened again, whatever the nonce. -/
def Backend.OpensWhatItSeals (B : Backend) : Prop :=
  ∀ key plaintext rng vid, encryptKey B key plaintext rng = .ok vid →
    decryptKey B key vid = .ok plaintext

/-- A macaroon as its issuer holds it, before it is bound. -/
structure Issued (B : Backend) where
  key : MacaroonKey
  macaroon : Macaroon
  predicates : List Bytes
  due : List (Bytes × MacaroonKey)
  minted : Minted B key predicates due macaroon

namespace Issued
variable {B : Backend}

/-- The identifier and the key a discharge was made with. -/
def name (x : Issued B) : Bytes × MacaroonKey := (x.macaroon.identifier, x.key)

/-- The node of a verification tree that the macaroon becomes once it is bound to `root`. -/
def bound (root : Macaroon) (x : Issued B) : Node := (root.bind B x.macaroon, x.key)

/- Binding replaces the signature, and the chain does not read it. -/
theorem bound_signed (root : Macaroon) (x : Issued B) :
    hmac2 B zeroKey root.signature.bytes (chain B x.key (root.bind B x.macaroon)).bytes =
      (root.bind B x.macaroon).signature := by
  have hchain : chain B x.key (root.bind B x.macaroon) = chain B x.key x.macaroon := rfl
  rw [hchain, ← x.minted.signature]
  rfl

end Issued

/-- A root macaroon and the forest of its discharges: each third-party caveat, of the root and of
every discharge, has one discharge made with its key and identifier. -/
structure Answered (B : Backend) (root : Issued B) (F : Forest (Issued B)) : Prop where
  root : F.roots.map Issued.name = root.due
  nodes : F.All fun x children => children.map Issued.name = x.due

/-- The caveats' identifiers are all different, too. -/
structure Family (B : Backend) (root : Issued B) (F : Forest (Issued B)) : Prop
    extends Answered B root F where
  distinct : (F.labels.map fun x => x.macaroon.identifier).Nodup

variable {B : Backend} {key : MacaroonKey} {predicates : List Bytes}
  {due : List (Bytes × MacaroonKey)} {m : Macaroon}

/-- The builder seals each key under the signature that the verifier will open it with. -/
theorem Minted.opens (hB : B.OpensWhatItSeals) (hm : Minted B key predicates due m) :
    List.Forall₂ (fun (c : ThirdParty × MacaroonKey) d =>
        c.1.id = d.1 ∧ decryptKey B c.2 c.1.verifierId = .ok d.2)
      (thirdPartyCaveats B m.caveats (hmac B key m.identifier)) due := by
  induction hm with
  | create h =>
    obtain ⟨_, _, _, rfl⟩ := Macaroon.create_eq_ok.mp h
    exact .nil
  | addFirstPartyCaveat _ h ih =>
    obtain ⟨_, _, rfl⟩ := Macaroon.addFirstPartyCaveat_eq_ok.mp h
    simpa [Macaroon.push, newFirstParty, thirdPartyCaveats_append, thirdPartyCaveats] using ih
  | addThirdPartyCaveat hm h ih =>
    obtain ⟨_, _, _, vid, hvid, rfl⟩ := Macaroon.addThirdPartyCaveat_eq_ok.mp h
    rw [hm.signature] at hvid
    simp only [Macaroon.push, newThirdParty, thirdPartyCaveats_append, thirdPartyCaveats]
    refine List.rel_append ih (.cons ⟨rfl, hB _ _ _ _ hvid⟩ .nil)

theorem Minted.discharged (hB : B.OpensWhatItSeals) {root : Macaroon} {children : List (Issued B)}
    (hm : Minted B key predicates due m) (hchildren : children.map Issued.name = due) :
    List.Forall₂ (Verifier.Discharges B)
      (thirdPartyCaveats B m.caveats (hmac B key m.identifier))
      (children.map (Issued.bound root)) := by
  have hopens := hm.opens hB
  rw [← hchildren, List.forall₂_map_right_iff] at hopens
  rw [List.forall₂_map_right_iff]
  exact hopens.imp fun c x h => ⟨h.1.symm, h.2⟩

section Trees
variable {v : Verifier} {root : Issued B} {F : Forest (Issued B)} {ds : List Macaroon}

namespace Answered

theorem root_discharged (hB : B.OpensWhatItSeals) (hF : Answered B root F) :
    Verifier.Discharged B (root.macaroon, root.key)
      (F.map (Issued.bound root.macaroon)).roots := by
  rw [Forest.roots_map]
  exact root.minted.discharged hB hF.root

theorem nodes_discharged (hB : B.OpensWhatItSeals) (hF : Answered B root F) :
    (F.map (Issued.bound root.macaroon)).All (Verifier.Discharged B) :=
  .map (hF.nodes.imp fun x _ _ hchildren => x.minted.discharged hB hchildren)

end Answered

namespace Family

theorem identifiers_nodup (hF : Family B root F)
    (hds : ds.Perm (F.labels.map fun x => root.macaroon.bind B x.macaroon)) :
    (ds.map Macaroon.identifier).Nodup := by
  rw [(hds.map Macaroon.identifier).nodup_iff, List.map_map]
  exact hF.distinct

/-- A family that is not too deep and satisfied makes a verification tree. -/
theorem tree (hB : B.OpensWhatItSeals) (hF : Family B root F)
    (hds : ds.Perm (F.labels.map fun x => root.macaroon.bind B x.macaroon))
    (hdepth : F.height ≤ maxVerificationDepth)
    (hroot : ∀ fp, Caveat.firstParty fp ∈ root.macaroon.caveats → v.Satisfies fp.predicate)
    (hnodes : ∀ x ∈ F.labels, ∀ fp, Caveat.firstParty fp ∈ x.macaroon.caveats →
      v.Satisfies fp.predicate) :
    Verifier.VerificationTree B v root.macaroon root.key ds
      (F.map (Issued.bound root.macaroon)) where
  uses := by
    rw [Forest.labels_map, List.map_map]
    exact hds.symm
  depth := by rwa [Forest.height_map]
  root := ⟨hF.root_discharged hB, hroot, .inl root.minted.signature.symm⟩
  nodes := by
    refine .map (hF.nodes.imp fun x hx children hchildren => ⟨?_, hnodes x hx, .inr ?_⟩)
    · exact x.minted.discharged hB hchildren
    · exact x.bound_signed root.macaroon

end Family

end Trees

/-- A root macaroon and its family of bound discharges, given in any order, verify under the root's
key exactly when the discharges nest at most 32 deep and every predicate is satisfied. -/
theorem verify_minted_family (B : Backend) (v : Verifier) (root : Issued B) (F : Forest (Issued B))
    (ds : List Macaroon) (hB : B.OpensWhatItSeals) (hF : Family B root F)
    (hds : ds.Perm (F.labels.map fun x => root.macaroon.bind B x.macaroon)) :
    v.verify B root.macaroon root.key ds = .ok () ↔ F.height ≤ 32 ∧
      (∀ p ∈ root.predicates, v.Satisfies p) ∧
      ∀ x ∈ F.labels, ∀ p ∈ x.predicates, v.Satisfies p := by
  have hpredicates (x : Issued B) : (∀ p ∈ x.predicates, v.Satisfies p) ↔
      ∀ fp, Caveat.firstParty fp ∈ x.macaroon.caveats → v.Satisfies fp.predicate :=
    x.minted.forall_predicates
  simp only [hpredicates]
  have hnodup := hF.identifiers_nodup hds
  constructor
  · intro hok
    obtain ⟨_, T, hT⟩ := Verifier.verify_sound hok
    have hbound : ∀ y ∈ (F.map (Issued.bound root.macaroon)).labels, y.1 ∈ ds := by
      intro y hy
      rw [Forest.labels_map] at hy
      obtain ⟨x, hx, rfl⟩ := List.mem_map.mp hy
      exact hds.symm.subset (List.mem_map_of_mem hx)
    obtain rfl : T = F.map (Issued.bound root.macaroon) :=
      Verifier.forest_unique hnodup hT.root.discharged (hF.root_discharged hB) hT.discharged
        (hF.nodes_discharged hB) (fun y hy => hT.mem hy) hbound
    have hdepth := hT.depth
    rw [Forest.height_map] at hdepth
    refine ⟨hdepth, hT.root.satisfied, fun x hx => ?_⟩
    have hlabel : x.bound root.macaroon ∈ (F.map (Issued.bound root.macaroon)).labels := by
      rw [Forest.labels_map]
      exact List.mem_map_of_mem hx
    obtain ⟨_, hnode, _⟩ := hT.nodes.exists_children hlabel
    exact hnode.satisfied
  · intro h
    obtain ⟨hdepth, hroot, hnodes⟩ := h
    exact Verifier.verify_complete hnodup (hF.tree hB hds hdepth hroot hnodes)

theorem decryptKey_append {nonce : Nonce} {ciphertext : Bytes} {plaintext : MacaroonKey}
    (hlen : tagSize ≤ ciphertext.length)
    (h : B.decrypt key nonce ciphertext = some plaintext.bytes) :
    decryptKey B key (nonce.bytes ++ ciphertext) = .ok plaintext := by
  have hnonce : nonce.bytes.length = nonceSize := nonce.length_eq
  have hlong : ¬ (nonce.bytes ++ ciphertext).length < nonceSize + tagSize := by
    rw [List.length_append, hnonce]
    omega
  have htake : (nonce.bytes ++ ciphertext).take nonceSize = nonce.bytes := List.take_left' hnonce
  have hdrop : (nonce.bytes ++ ciphertext).drop nonceSize = ciphertext := List.drop_left' hnonce
  rw [decryptKey, dif_neg hlong]
  simp only [htake, hdrop, h, dif_pos plaintext.length_eq]

theorem backend_opensWhatItSeals : Instances.backend.OpensWhatItSeals := by
  intro key plaintext rng vid h
  obtain ⟨nonce, ciphertext, _, hseal, rfl⟩ := encryptKey_eq_ok.mp h
  have hopen := Instances.backend_decrypt_encrypt key nonce plaintext.bytes
  rw [hseal] at hopen
  have hlen := Instances.backend_sealsKeysTo48 _ _ _ _ plaintext.length_eq hseal
  exact decryptKey_append (by simp only [tagSize]; omega) hopen

/- A discharge for the third-party caveat of `Instances.delegated`, with a caveat of its own, and
   the discharge of that one. -/
def issuedRoot : Issued Instances.backend := ⟨_, _, _, _, Instances.delegated_minted⟩

def discharge : Macaroon := ⟨[255], none, hmac Instances.backend zeroKey [255], []⟩

def issuedDischarge : Issued Instances.backend where
  key := zeroKey
  macaroon := discharge.push Instances.backend (Instances.sealedCaveat discharge zeroKey [7])
  predicates := []
  due := [] ++ [([7], zeroKey)]
  minted := by
    have hcreate : Macaroon.create Instances.backend none zeroKey [255] = .ok discharge :=
      Macaroon.create_eq_ok.mpr (by decide +kernel)
    exact .addThirdPartyCaveat (.create hcreate)
      (Instances.addThirdPartyCaveat_sealed (by decide) (by decide))

def issuedNested : Issued Instances.backend where
  key := zeroKey
  macaroon := ⟨[7], none, hmac Instances.backend zeroKey [7], []⟩
  predicates := []
  due := []
  minted := by
    have hcreate : Macaroon.create Instances.backend none zeroKey [7] =
        .ok ⟨[7], none, hmac Instances.backend zeroKey [7], []⟩ :=
      Macaroon.create_eq_ok.mpr (by decide +kernel)
    exact .create hcreate

def nestedFamily : Forest (Issued Instances.backend) :=
  .cons issuedDischarge (.cons issuedNested .nil .nil) .nil

/- It satisfies the predicate of the root. -/
def delegatedVerifier : Verifier := Verifier.default.satisfyExact [99, 105, 100, 32, 97, 10]

theorem nestedFamily_family : Family Instances.backend issuedRoot nestedFamily :=
  ⟨⟨rfl, ⟨rfl, ⟨rfl, trivial, trivial⟩, trivial⟩⟩, by decide +kernel⟩

theorem verify_minted_family_nested :
    delegatedVerifier.verify Instances.backend issuedRoot.macaroon issuedRoot.key
        (nestedFamily.labels.map fun x => issuedRoot.macaroon.bind Instances.backend x.macaroon) =
      .ok () := by
  refine (verify_minted_family _ _ _ _ _ backend_opensWhatItSeals nestedFamily_family
    (List.Perm.refl _)).mpr ⟨by decide, ?_, ?_⟩
  · decide +kernel
  · decide +kernel

end Libmacaroon
