import Libmacaroon.Instances
import Libmacaroon.Library.KeyedChain
import Libmacaroon.Signature

/-! What the signature covers. Every caveat is one HMAC under the running signature: of its
predicate, or of two HMACs that stand for a third-party caveat. A predicate that spells these two
out is signed like the third-party caveat, and nothing else is ambiguous. -/
namespace Libmacaroon
open Checked

/-- A caveat with its location erased. -/
inductive CaveatContent where
  | firstParty (predicate : ByteString)
  | thirdParty (id verifierId : ByteString)
deriving DecidableEq

structure Content where
  identifier : ByteString
  caveats : List CaveatContent
deriving DecidableEq

def Caveat.content : Caveat → CaveatContent
  | .firstParty fp => .firstParty fp.predicate
  | .thirdParty tp => .thirdParty tp.id tp.verifierId

def Macaroon.content (m : Macaroon) : Content := ⟨m.identifier, m.caveats.map Caveat.content⟩

/- The evaluations of `hmac2`, in order. -/
def hmac2Evaluations (B : Backend) (key : MacaroonKey) (text1 text2 : Bytes) : List Evaluation :=
  [(key, text1), (key, text2), (key, (hmac B key text1).bytes ++ (hmac B key text2).bytes)]

namespace CaveatContent
variable (B : Backend)

def sign (c : CaveatContent) (key : MacaroonKey) : MacaroonKey :=
  match c with
  | .firstParty predicate => hmac B key predicate
  | .thirdParty id verifierId => hmac2 B key verifierId id

def evaluations (c : CaveatContent) (key : MacaroonKey) : List Evaluation :=
  match c with
  | .firstParty predicate => [(key, predicate)]
  | .thirdParty id verifierId => hmac2Evaluations B key verifierId id

/-- The text of the last HMAC of `sign`. -/
def text (key : MacaroonKey) : CaveatContent → Bytes
  | .firstParty predicate => predicate
  | .thirdParty id verifierId => (hmac B key verifierId).bytes ++ (hmac B key id).bytes

/-- The predicate spells out the two HMACs of the third-party caveat. -/
def Confusable (key : MacaroonKey) : CaveatContent → CaveatContent → Prop
  | .firstParty predicate, .thirdParty id verifierId
  | .thirdParty id verifierId, .firstParty predicate =>
    predicate = (hmac B key verifierId).bytes ++ (hmac B key id).bytes
  | _, _ => False

/-- At every position the caveats are equal or confusable under the running signature there, which
is the same for both lists. -/
def Aligned : MacaroonKey → List CaveatContent → List CaveatContent → Prop
  | _, [], [] => True
  | key, c :: cs, c' :: cs' => (c = c' ∨ c.Confusable B key c') ∧ Aligned (c.sign B key) cs cs'
  | _, _, _ => False

def listEvaluations : List CaveatContent → MacaroonKey → List Evaluation
  | [], _ => []
  | c :: cs, key => c.evaluations B key ++ listEvaluations cs (c.sign B key)

end CaveatContent

namespace Content
variable (B : Backend)

/-- `hmac(key, identifier)` folded with `Caveat::sign`. -/
def sig (key : MacaroonKey) (c : Content) : MacaroonKey :=
  c.caveats.foldl (fun s x => x.sign B s) (hmac B key c.identifier)

/-- The HMAC evaluations made while computing `sig`. -/
def evaluations (key : MacaroonKey) (c : Content) : List Evaluation :=
  (key, c.identifier) :: CaveatContent.listEvaluations B c.caveats (hmac B key c.identifier)

end Content

variable {B : Backend} {key : MacaroonKey}

theorem Caveat.sign_content (c : Caveat) (key : MacaroonKey) :
    c.sign B key = c.content.sign B key := by
  cases c <;> rfl

/-- The chain over a macaroon only reads its content. -/
theorem chain_content (m : Macaroon) : chain B key m = m.content.sig B key := by
  simp only [chain, runningSignature, Content.sig, Macaroon.content, List.foldl_map,
    Caveat.sign_content]

theorem Minted.signature_content {predicates : List Bytes} {due : List (Bytes × MacaroonKey)}
    {m : Macaroon} (hm : Minted B key predicates due m) : m.signature = m.content.sig B key :=
  hm.signature.trans (chain_content m)

namespace CaveatContent
open KeyedChain

theorem sign_eq (c : CaveatContent) (key : MacaroonKey) :
    c.sign B key = B.hmacSha256 key (text B key c) := by
  cases c <;> rfl

theorem last_eq (cs : List CaveatContent) (key : MacaroonKey) :
    last B.hmacSha256 (text B) cs key = cs.foldl (fun s x => x.sign B s) key := by
  induction cs generalizing key with
  | nil => rfl
  | cons c cs ih => rw [last, ih, List.foldl_cons, sign_eq]

theorem text_mem_evaluations (c : CaveatContent) (key : MacaroonKey) :
    (key, text B key c) ∈ c.evaluations B key := by
  cases c <;> simp [text, evaluations, hmac2Evaluations]

theorem calls_subset (cs : List CaveatContent) (key : MacaroonKey) :
    calls B.hmacSha256 (text B) cs key ⊆ listEvaluations B cs key := by
  induction cs generalizing key with
  | nil => exact List.Subset.refl _
  | cons c cs ih =>
    intro e he
    rw [listEvaluations, List.mem_append]
    obtain rfl | he := List.mem_cons.mp he
    · exact .inl (text_mem_evaluations c key)
    · rw [sign_eq]
      exact .inr (ih _ he)

theorem bytes_injective {a b : MacaroonKey} (h : a.bytes = b.bytes) : a = b := by
  cases a
  cases b
  simpa using h

/-- Equal texts come from equal or confusable caveats, or the inner HMACs collide. -/
theorem eq_or_confusable {c c' : CaveatContent} (h : text B key c = text B key c') :
    (c = c' ∨ c.Confusable B key c') ∨
      Collide B.hmacSha256 (c.evaluations B key ++ c'.evaluations B key) := by
  cases c with
  | firstParty predicate =>
    cases c' with
    | firstParty predicate' => exact .inl (.inl (congrArg CaveatContent.firstParty h))
    | thirdParty id' verifierId' => exact .inl (.inr h)
  | thirdParty id verifierId =>
    cases c' with
    | firstParty predicate' => exact .inl (.inr h.symm)
    | thirdParty id' verifierId' =>
      have hlen : (hmac B key verifierId).bytes.length = (hmac B key verifierId').bytes.length := by
        rw [MacaroonKey.length_eq, MacaroonKey.length_eq]
      obtain ⟨hvid, hid⟩ := List.append_inj h hlen
      by_cases hv : verifierId = verifierId'
      · by_cases hi : id = id'
        · exact .inl (.inl (by rw [hv, hi]))
        · refine .inr ⟨(key, id), ?_, (key, id'), ?_, by simp [hi], bytes_injective hid⟩
          · simp [evaluations, hmac2Evaluations]
          · simp [evaluations, hmac2Evaluations]
      · refine .inr ⟨(key, verifierId), ?_, (key, verifierId'), ?_, by simp [hv],
          bytes_injective hvid⟩
        · simp [evaluations, hmac2Evaluations]
        · simp [evaluations, hmac2Evaluations]

/-- Lists that make the same calls from one key are aligned, or inner HMACs collide. -/
theorem aligned_or_collide {cs cs' : List CaveatContent}
    (h : calls B.hmacSha256 (text B) cs key = calls B.hmacSha256 (text B) cs' key) :
    Aligned B key cs cs' ∨
      Collide B.hmacSha256 (listEvaluations B cs key ++ listEvaluations B cs' key) := by
  induction cs generalizing key cs' with
  | nil =>
    cases cs' with
    | nil => exact .inl trivial
    | cons c' cs' => cases h
  | cons c cs ih =>
    cases cs' with
    | nil => cases h
    | cons c' cs' =>
      obtain ⟨hhead, htail⟩ := List.cons.inj h
      have htext : text B key c = text B key c' := congrArg Prod.snd hhead
      have hsign : c.sign B key = c'.sign B key := by rw [sign_eq, sign_eq, htext]
      have hsub : c.evaluations B key ++ c'.evaluations B key ⊆
          listEvaluations B (c :: cs) key ++ listEvaluations B (c' :: cs') key :=
        append_subset_append (List.subset_append_left _ _) (List.subset_append_left _ _)
      have hsub' : listEvaluations B cs (c.sign B key) ++ listEvaluations B cs' (c.sign B key) ⊆
          listEvaluations B (c :: cs) key ++ listEvaluations B (c' :: cs') key := by
        apply append_subset_append (List.subset_append_right _ _)
        rw [hsign]
        exact List.subset_append_right _ _
      rw [← sign_eq, ← sign_eq, ← hsign] at htail
      obtain hc | hcollide := eq_or_confusable htext
      · obtain hrest | hcollide := ih htail
        · exact .inl ⟨hc, hrest⟩
        · exact .inr (hcollide.mono hsub')
      · exact .inr (hcollide.mono hsub)

/-- The identifier heads the chain as a predicate does, so it is never confused with a caveat. -/
theorem aligned_items {id id' : ByteString} {cs cs' : List CaveatContent}
    (h : Aligned B key (.firstParty id :: cs) (.firstParty id' :: cs')) :
    id = id' ∧ Aligned B (hmac B key id) cs cs' := by
  obtain ⟨hhead, htail⟩ := h
  have hid : CaveatContent.firstParty id = .firstParty id' :=
    hhead.resolve_right fun hconfusable => hconfusable
  exact ⟨CaveatContent.firstParty.inj hid, htail⟩

end CaveatContent

namespace Content
open KeyedChain

/-- The content as one chain from the key: the identifier is signed like a predicate. -/
def items (c : Content) : List CaveatContent := .firstParty c.identifier :: c.caveats

theorem last_items (c : Content) :
    last B.hmacSha256 (CaveatContent.text B) c.items key = c.sig B key :=
  CaveatContent.last_eq c.caveats (hmac B key c.identifier)

theorem calls_items_subset (c : Content) :
    calls B.hmacSha256 (CaveatContent.text B) c.items key ⊆ c.evaluations B key :=
  CaveatContent.calls_subset c.items key

/-- Contents that make the same calls from one key have one identifier and aligned caveats, or inner
HMACs collide. -/
theorem aligned_or_collide {c c' : Content}
    (h : calls B.hmacSha256 (CaveatContent.text B) c.items key =
      calls B.hmacSha256 (CaveatContent.text B) c'.items key) :
    Collide B.hmacSha256 (c.evaluations B key ++ c'.evaluations B key) ∨
      c.identifier = c'.identifier ∧
        CaveatContent.Aligned B (hmac B key c.identifier) c.caveats c'.caveats := by
  obtain haligned | hcollide := CaveatContent.aligned_or_collide h
  · exact .inr (CaveatContent.aligned_items haligned)
  · exact .inl hcollide

/-- Two contents with one signature: HMAC collides, or gives the key back, or the contents have the
same identifier and differ only where a predicate spells out a third-party caveat's two HMACs. -/
theorem signature_covers_content (B : Backend) (key : MacaroonKey) (c c' : Content) (hne : c ≠ c')
    (h : c.sig B key = c'.sig B key) :
    Collide B.hmacSha256 (c.evaluations B key ++ c'.evaluations B key) ∨
      Returns B.hmacSha256 key (c.evaluations B key ++ c'.evaluations B key) ∨
      c.identifier = c'.identifier ∧ c.caveats ≠ c'.caveats ∧
        CaveatContent.Aligned B (hmac B key c.identifier) c.caveats c'.caveats := by
  have hsub : calls B.hmacSha256 (CaveatContent.text B) c.items key ++
      calls B.hmacSha256 (CaveatContent.text B) c'.items key ⊆
        c.evaluations B key ++ c'.evaluations B key :=
    append_subset_append (calls_items_subset c) (calls_items_subset c')
  rw [← last_items, ← last_items] at h
  obtain hcalls | hcollide | hreturns := calls_eq_or_collide h
  · obtain hcollide | ⟨hid, haligned⟩ := aligned_or_collide hcalls
    · exact .inl hcollide
    · refine .inr (.inr ⟨hid, ?_, haligned⟩)
      intro hcaveats
      obtain ⟨id, cs⟩ := c
      obtain ⟨id', cs'⟩ := c'
      exact hne (by simp only at hid hcaveats; rw [hid, hcaveats])
  · exact .inl (hcollide.mono hsub)
  · exact .inr (.inl (hreturns.mono hsub))

end Content

open KeyedChain in
instance (B : Backend) (es : List Evaluation) : Decidable (Collide B.hmacSha256 es) :=
  inferInstanceAs (Decidable (∃ p ∈ es, ∃ q ∈ es, p ≠ q ∧
    B.hmacSha256 p.1 p.2 = B.hmacSha256 q.1 q.2))

open KeyedChain in
instance (B : Backend) (key : MacaroonKey) (es : List Evaluation) :
    Decidable (Returns B.hmacSha256 key es) :=
  inferInstanceAs (Decidable (∃ p ∈ es, B.hmacSha256 p.1 p.2 = key))

/- A third-party caveat, and a first-party caveat whose predicate spells its two HMACs out. -/
def delegatingContent : Content := ⟨[65], [.thirdParty [2] [1]]⟩

def spellingContent : Content :=
  ⟨[65], [.firstParty (CaveatContent.text Instances.backend
    (hmac Instances.backend zeroKey [65]) (.thirdParty [2] [1]))]⟩

/-- The two contents have one signature, and HMAC neither collides nor gives the key back. -/
theorem signature_confuses_caveat_kinds :
    delegatingContent ≠ spellingContent ∧
      delegatingContent.sig Instances.backend zeroKey =
        spellingContent.sig Instances.backend zeroKey ∧
      ¬ KeyedChain.Collide Instances.backend.hmacSha256
        (delegatingContent.evaluations Instances.backend zeroKey ++
          spellingContent.evaluations Instances.backend zeroKey) ∧
      ¬ KeyedChain.Returns Instances.backend.hmacSha256 zeroKey
        (delegatingContent.evaluations Instances.backend zeroKey ++
          spellingContent.evaluations Instances.backend zeroKey) := by
  decide +kernel

theorem signature_covers_content_spelled :
    KeyedChain.Collide Instances.backend.hmacSha256
        (delegatingContent.evaluations Instances.backend zeroKey ++
          spellingContent.evaluations Instances.backend zeroKey) ∨
      KeyedChain.Returns Instances.backend.hmacSha256 zeroKey
        (delegatingContent.evaluations Instances.backend zeroKey ++
          spellingContent.evaluations Instances.backend zeroKey) ∨
      delegatingContent.identifier = spellingContent.identifier ∧
        delegatingContent.caveats ≠ spellingContent.caveats ∧
        CaveatContent.Aligned Instances.backend
          (hmac Instances.backend zeroKey delegatingContent.identifier)
          delegatingContent.caveats spellingContent.caveats :=
  Content.signature_covers_content Instances.backend zeroKey _ _ (by decide +kernel)
    (by decide +kernel)

end Libmacaroon
