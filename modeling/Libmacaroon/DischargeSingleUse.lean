import Libmacaroon.DischargeBinding
import Libmacaroon.KeySeparation

/-! A discharge serves one root. What `bind` leaves is an HMAC under the zero key of the root's
signature and of the discharge's own, so of all the ways to bind a discharge the verifier accepts one:
once, to the root it is presented with. -/
namespace Libmacaroon
open Checked KeyedChain

section Bindings
variable (B : Backend)

/-- The discharge bound to each of the roots in turn. -/
def bindAll (roots : List Macaroon) (d : Macaroon) : Macaroon :=
  roots.foldl (fun d root => root.bind B d) d

/-- The HMAC evaluations of these bindings. -/
def bindEvaluations : List Macaroon → Macaroon → List Evaluation
  | [], _ => []
  | root :: roots, d => hmac2Evaluations B zeroKey root.signature.bytes d.signature.bytes ++
      bindEvaluations roots (root.bind B d)

/-- The evaluations of making `d` under `k`, of its bindings, and of the check on it as a discharge
of `m` under `k'`. -/
def singleUseEvaluations (m d : Macaroon) (k k' : MacaroonKey) (roots : List Macaroon) :
    List Evaluation :=
  (d.content.evaluations B k ++ bindEvaluations B roots d) ++
    (d.content.evaluations B k' ++
      hmac2Evaluations B zeroKey m.signature.bytes (chain B k' d).bytes)

end Bindings

variable {B : Backend}

theorem bindAll_append (roots : List Macaroon) (root d : Macaroon) :
    bindAll B (roots ++ [root]) d = root.bind B (bindAll B roots d) := by
  simp [bindAll]

theorem bindEvaluations_append (roots : List Macaroon) (root d : Macaroon) :
    bindEvaluations B (roots ++ [root]) d = bindEvaluations B roots d ++
      hmac2Evaluations B zeroKey root.signature.bytes (bindAll B roots d).signature.bytes := by
  induction roots generalizing d with
  | nil => simp [bindEvaluations, bindAll]
  | cons r roots ih =>
    simp only [List.cons_append, bindEvaluations, ih, List.append_assoc]
    rfl

/-- Binding changes the signature only. -/
theorem resigned_bindAll (roots : List Macaroon) (d : Macaroon) : Resigned d (bindAll B roots d) := by
  induction roots using List.reverseRecOn with
  | nil => exact ⟨d.signature, rfl⟩
  | append_singleton roots root ih =>
    rw [bindAll_append]
    obtain ⟨s, hs⟩ := ih
    rw [hs]
    exact ⟨_, rfl⟩

theorem last_mem_hmac2Evaluations (key : MacaroonKey) (text1 text2 : Bytes) :
    (key, (hmac B key text1).bytes ++ (hmac B key text2).bytes) ∈
      hmac2Evaluations B key text1 text2 := by
  simp [hmac2Evaluations]

/-- The two texts of `hmac2` are fixed by its output, unless HMACs collide. -/
theorem hmac2_injective {key a b a' b' : MacaroonKey}
    (h : hmac2 B key a.bytes b.bytes = hmac2 B key a'.bytes b'.bytes) :
    a = a' ∧ b = b' ∨ Collide B.hmacSha256 (hmac2Evaluations B key a.bytes b.bytes ++
      hmac2Evaluations B key a'.bytes b'.bytes) := by
  by_cases htext : (hmac B key a.bytes).bytes ++ (hmac B key b.bytes).bytes =
      (hmac B key a'.bytes).bytes ++ (hmac B key b'.bytes).bytes
  · -- the same text as that of two third-party caveats
    obtain (hsame | hconfusable) | hcollide := @CaveatContent.eq_or_confusable B key
      (.thirdParty b.bytes a.bytes) (.thirdParty b'.bytes a'.bytes) htext
    · injection hsame with hb ha
      exact .inl ⟨CaveatContent.bytes_injective ha, CaveatContent.bytes_injective hb⟩
    · exact absurd hconfusable id
    · exact .inr hcollide
  · refine .inr ⟨_, List.mem_append_left _ (last_mem_hmac2Evaluations key _ _), _,
      List.mem_append_right _ (last_mem_hmac2Evaluations key _ _), ?_, h⟩
    exact fun heq => htext (congrArg Prod.snd heq)

/-- A chain that ends in an `hmac2` under the key `z` has `z` among its keys. -/
theorem mem_keys_of_sig {c : Content} {k z : MacaroonKey} {text1 text2 : Bytes}
    (h : c.sig B k = hmac2 B z text1 text2) : (∃ e ∈ c.evaluations B k, e.1 = z) ∨
      Collide B.hmacSha256 (c.evaluations B k ++ hmac2Evaluations B z text1 text2) := by
  have hne : c.items ≠ [] := by simp [Content.items]
  obtain ⟨e, he, hlast⟩ : ∃ e ∈ calls B.hmacSha256 (CaveatContent.text B) c.items k,
      B.hmacSha256 e.1 e.2 = last B.hmacSha256 (CaveatContent.text B) c.items k :=
    exists_last_call hne k
  have hmem := Content.calls_items_subset c he
  rw [Content.last_items, h] at hlast
  by_cases hkey : e.1 = z
  · exact .inl ⟨e, hmem, hkey⟩
  · refine .inr ⟨e, List.mem_append_left _ hmem, _,
      List.mem_append_right _ (last_mem_hmac2Evaluations z text1 text2), ?_, hlast⟩
    exact fun heq => hkey (congrArg Prod.fst heq)

/-- The checks of a discharge that is accepted through its binding single out one binding. -/
theorem bound_once {m d : Macaroon} {k k' : MacaroonKey} {roots : List Macaroon}
    (hsigned : d.signature = chain B k d)
    (hbound : hmac2 B zeroKey m.signature.bytes (chain B k' d).bytes =
      (bindAll B roots d).signature) :
    (∃ root, roots = [root] ∧ root.signature = m.signature ∧ k' = k) ∨
      Collide B.hmacSha256 (singleUseEvaluations B m d k k' roots) ∨
      ∃ e ∈ d.content.evaluations B k ++ d.content.evaluations B k', e.1 = zeroKey := by
  have hminted : d.content.evaluations B k ⊆ singleUseEvaluations B m d k k' roots :=
    List.subset_append_of_subset_left _ (List.subset_append_left _ _)
  have hbindings : bindEvaluations B roots d ⊆ singleUseEvaluations B m d k k' roots :=
    List.subset_append_of_subset_left _ (List.subset_append_right _ _)
  have hchecked : d.content.evaluations B k' ⊆ singleUseEvaluations B m d k k' roots :=
    List.subset_append_of_subset_right _ (List.subset_append_left _ _)
  have hlast : hmac2Evaluations B zeroKey m.signature.bytes (chain B k' d).bytes ⊆
      singleUseEvaluations B m d k k' roots :=
    List.subset_append_of_subset_right _ (List.subset_append_right _ _)
  obtain rfl | ⟨before, root, rfl⟩ := roots.eq_nil_or_concat
  · -- never bound: the chain itself would end in an HMAC under the zero key
    have hsig : d.content.sig B k = hmac2 B zeroKey m.signature.bytes (chain B k' d).bytes := by
      rw [← chain_content, ← hsigned, hbound]
      rfl
    obtain ⟨e, he, hzero⟩ | hcollide := mem_keys_of_sig hsig
    · exact .inr (.inr ⟨e, List.mem_append_left _ he, hzero⟩)
    · exact .inr (.inl (hcollide.mono (List.append_subset.mpr ⟨hminted, hlast⟩)))
  rw [List.concat_eq_append] at hbound hbindings hminted hchecked hlast ⊢
  rw [bindEvaluations_append, List.append_subset] at hbindings
  rw [bindAll_append] at hbound
  obtain ⟨hroot, hsig⟩ | hcollide := hmac2_injective hbound
  · obtain rfl | ⟨earlier, r, rfl⟩ := before.eq_nil_or_concat
    · -- bound once
      have hkeys : d.content.sig B k' = d.content.sig B k := by
        rw [← chain_content, ← chain_content, hsig, ← hsigned]
        rfl
      obtain hcollide | ⟨hkey, _⟩ := Content.key_eq_or_collide rfl hkeys
      · exact .inr (.inl (hcollide.mono (List.append_subset.mpr ⟨hchecked, hminted⟩)))
      · exact .inl ⟨root, rfl, hroot.symm, hkey⟩
    · -- bound before: the discharge's chain would end in the earlier binding
      rw [List.concat_eq_append] at hsig hbindings ⊢
      rw [bindAll_append] at hsig
      have hsig' : d.content.sig B k' = hmac2 B zeroKey r.signature.bytes
          (bindAll B earlier d).signature.bytes := by
        rw [← chain_content, hsig]
        rfl
      rw [bindEvaluations_append, List.append_subset] at hbindings
      obtain ⟨e, he, hzero⟩ | hcollide := mem_keys_of_sig hsig'
      · exact .inr (.inr ⟨e, List.mem_append_right _ he, hzero⟩)
      · refine .inr (.inl (hcollide.mono (List.append_subset.mpr ⟨?_, ?_⟩)))
        · simpa using hchecked
        · simpa using hbindings.1.2
  · exact .inr (.inl (hcollide.mono (List.append_subset.mpr ⟨hlast, hbindings.2⟩)))

open Verifier in
/-- A discharge made under `k` and bound to some roots is accepted only where it was bound once, to a
macaroon with the signature of this root, and under the key `k`: else its chain ends in the root's
signature, HMACs collide, or the zero key is a key of the chain. -/
theorem discharge_serves_one_root (B : Backend) (v : Verifier) (m : Macaroon) (key : MacaroonKey)
    (ds : List Macaroon) (d : Macaroon) (k : MacaroonKey) (roots : List Macaroon)
    (hsigned : d.signature = chain B k d) (hd : bindAll B roots d ∈ ds)
    (hok : v.verify B m key ds = .ok ()) :
    ∃ k', DischargedUnder B m key ds (bindAll B roots d, k') ∧
      ((∃ root, roots = [root] ∧ root.signature = m.signature ∧ k' = k) ∨
        chain B k' d = m.signature ∨
        Collide B.hmacSha256 (singleUseEvaluations B m d k k' roots) ∨
        ∃ e ∈ d.content.evaluations B k ++ d.content.evaluations B k', e.1 = zeroKey) := by
  obtain ⟨hnodup, T, hT⟩ := verify_sound hok
  obtain ⟨k', hlabel⟩ := hT.exists_label hd
  have hresigned := resigned_bindAll (B := B) roots d
  have hsignature := hT.signed hlabel
  rw [hresigned.chain] at hsignature
  refine ⟨k', (hT.mem_labels_iff hnodup).mp hlabel, ?_⟩
  obtain hchain | hbound := hsignature
  · exact .inr (.inl hchain)
  · obtain honce | hbroken := bound_once hsigned hbound
    · exact .inl honce
    · exact .inr (.inr hbroken)

section Visit
open Instances Verifier

/- A macaroon that delegates to "a", and the discharge for it. -/
def visiting : Macaroon :=
  let created : Macaroon := ⟨[118], none, hmac backend (ofNat 1) [118], []⟩
  created.push backend (sealedCaveat created (ofNat 2) [97])

def ticket : Macaroon := ⟨[97], none, hmac backend (ofNat 2) [97], []⟩

theorem discharge_serves_one_root_visiting : ∃ k',
    DischargedUnder backend visiting (ofNat 1) [bindAll backend [visiting] ticket]
        (bindAll backend [visiting] ticket, k') ∧
      ((∃ root, [visiting] = [root] ∧ root.signature = visiting.signature ∧ k' = ofNat 2) ∨
        chain backend k' ticket = visiting.signature ∨
        Collide backend.hmacSha256
          (singleUseEvaluations backend visiting ticket (ofNat 2) k' [visiting]) ∨
        ∃ e ∈ ticket.content.evaluations backend (ofNat 2) ++
          ticket.content.evaluations backend k', e.1 = zeroKey) :=
  discharge_serves_one_root backend Verifier.default visiting (ofNat 1)
    [bindAll backend [visiting] ticket] ticket (ofNat 2) [visiting] rfl List.mem_cons_self
    (by decide +kernel)

end Visit

end Libmacaroon
