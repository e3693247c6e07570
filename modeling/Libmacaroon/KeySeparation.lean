import Libmacaroon.SignedContent
import Libmacaroon.VerifierSpec

/-! What a signature says about the key it was made with. No macaroon passes under two keys, and the
signature of a macaroon made with a generated key fixes the seed as well as the content. -/
namespace Libmacaroon
open Checked KeyedChain

namespace Content
variable {B : Backend} {key : MacaroonKey} {c c' : Content}

/-- Under two keys, contents with equally many caveats have different signatures. -/
theorem key_eq_or_collide {key' : MacaroonKey} (hlen : c.caveats.length = c'.caveats.length)
    (h : c.sig B key = c'.sig B key') :
    Collide B.hmacSha256 (c.evaluations B key ++ c'.evaluations B key') ∨
      key = key' ∧ c.identifier = c'.identifier ∧
        CaveatContent.Aligned B (hmac B key c.identifier) c.caveats c'.caveats := by
  have hitems : c.items.length = c'.items.length := by simpa [items] using hlen
  rw [← last_items, ← last_items] at h
  obtain hcollide | ⟨rfl, hcalls⟩ := KeyedChain.key_eq_or_collide hitems h
  · exact .inl (hcollide.mono (append_subset_append (calls_items_subset c) (calls_items_subset c')))
  · have haligned := aligned_or_collide hcalls
    simpa using haligned

end Content

/-- The macaroon carries the signature that binding its chain to itself gives, the second way for a
root macaroon to pass the last check. -/
def BoundToItself (B : Backend) (key : MacaroonKey) (m : Macaroon) : Prop :=
  hmac2 B zeroKey m.signature.bytes (chain B key m).bytes = m.signature

instance (B : Backend) (key : MacaroonKey) (m : Macaroon) : Decidable (BoundToItself B key m) :=
  inferInstanceAs (Decidable (_ = _))

/-- A root macaroon passes by its chain, unless it is bound to itself. -/
theorem Verifier.chain_of_verify {B : Backend} {v : Verifier} {m : Macaroon} {key : MacaroonKey}
    {ds : List Macaroon} (hok : v.verify B m key ds = .ok ()) :
    chain B key m = m.signature ∨ BoundToItself B key m := by
  obtain ⟨_, _, hT⟩ := Verifier.verify_sound hok
  exact hT.root.signed

/-- A macaroon accepted under one key is rejected under every other, by any verifier and with any
discharges: else HMACs collide, or the macaroon is bound to itself. -/
theorem accepted_under_one_key (B : Backend) (v v' : Verifier) (m : Macaroon)
    (key key' : MacaroonKey) (ds ds' : List Macaroon) (hne : key ≠ key')
    (hok : v.verify B m key ds = .ok ()) :
    v'.verify B m key' ds' ≠ .ok () ∨
      Collide B.hmacSha256 (m.content.evaluations B key ++ m.content.evaluations B key') ∨
      BoundToItself B key m ∨ BoundToItself B key' m := by
  by_cases hok' : v'.verify B m key' ds' = .ok ()
  · obtain hchain | hself := Verifier.chain_of_verify hok
    · obtain hchain' | hself' := Verifier.chain_of_verify hok'
      · have hsig : m.content.sig B key = m.content.sig B key' := by
          rw [← chain_content, ← chain_content, hchain, hchain']
        obtain hcollide | ⟨hkey, _⟩ := Content.key_eq_or_collide rfl hsig
        · exact .inr (.inl hcollide)
        · exact absurd hkey hne
      · exact .inr (.inr (.inr hself'))
    · exact .inr (.inr (.inl hself))
  · exact .inl hok'

theorem accepted_under_one_key_attenuated :
    let v := Verifier.default.satisfyExact [99, 105, 100, 32, 97, 10]
    let key := Instances.ofNat 1
    let m := Instances.attenuated
    v.verify Instances.backend m key [] ≠ .ok () ∨
      Collide Instances.backend.hmacSha256
        (m.content.evaluations Instances.backend zeroKey ++
          m.content.evaluations Instances.backend key) ∨
      BoundToItself Instances.backend zeroKey m ∨ BoundToItself Instances.backend key m :=
  accepted_under_one_key Instances.backend (Verifier.default.satisfyExact [99, 105, 100, 32, 97, 10])
    (Verifier.default.satisfyExact [99, 105, 100, 32, 97, 10]) Instances.attenuated zeroKey
    (Instances.ofNat 1) [] [] (by decide +kernel) (by decide +kernel)

/-- The evaluations made while generating a key from the seed and signing the content with it. -/
def generatedEvaluations (B : Backend) (seed : Bytes) (c : Content) : List Evaluation :=
  (KEY_GENERATOR, seed) :: c.evaluations B (MacaroonKey.generate B seed)

/-- The signature made with a generated key covers the seed too. -/
theorem generated_signature_covers (B : Backend) (seed seed' : Bytes) (c c' : Content)
    (h : c.sig B (MacaroonKey.generate B seed) = c'.sig B (MacaroonKey.generate B seed')) :
    Collide B.hmacSha256 (generatedEvaluations B seed c ++ generatedEvaluations B seed' c') ∨
      Returns B.hmacSha256 KEY_GENERATOR
        (generatedEvaluations B seed c ++ generatedEvaluations B seed' c') ∨
      seed = seed' ∧ c.identifier = c'.identifier ∧ CaveatContent.Aligned B
        (hmac B (MacaroonKey.generate B seed) c.identifier) c.caveats c'.caveats := by
  -- the seed is one more item in front of the identifier
  have hlast : last B.hmacSha256 (CaveatContent.text B) (.firstParty seed :: c.items) KEY_GENERATOR =
      last B.hmacSha256 (CaveatContent.text B) (.firstParty seed' :: c'.items) KEY_GENERATOR :=
    (Content.last_items c).trans (h.trans (Content.last_items c').symm)
  have hsub (seed : Bytes) (c : Content) :
      calls B.hmacSha256 (CaveatContent.text B) (.firstParty seed :: c.items) KEY_GENERATOR ⊆
        generatedEvaluations B seed c :=
    List.cons_subset_cons _ (Content.calls_items_subset c)
  have hsubs := append_subset_append (hsub seed c) (hsub seed' c')
  obtain hcalls | hcollide | hreturns := calls_eq_or_collide hlast
  · obtain haligned | hcollide := CaveatContent.aligned_or_collide hcalls
    · obtain ⟨rfl, hitems⟩ := CaveatContent.aligned_items haligned
      exact .inr (.inr ⟨rfl, CaveatContent.aligned_items hitems⟩)
    · exact .inl hcollide
  · exact .inl (hcollide.mono hsubs)
  · exact .inr (.inl (hreturns.mono hsubs))

/- The first-party caveat spells the third-party one out, under the key generated from the seed. -/
def generatedDelegation : Content := ⟨[65], [.thirdParty [2] [1]]⟩

def generatedSpelling : Content :=
  ⟨[65], [.firstParty (CaveatContent.text Instances.backend
    (hmac Instances.backend (MacaroonKey.generate Instances.backend [115]) [65])
    (.thirdParty [2] [1]))]⟩

theorem generated_signature_covers_spelled :
    let evaluations := generatedEvaluations Instances.backend [115] generatedDelegation ++
      generatedEvaluations Instances.backend [115] generatedSpelling
    Collide Instances.backend.hmacSha256 evaluations ∨
      Returns Instances.backend.hmacSha256 KEY_GENERATOR evaluations ∨
      [(115 : UInt8)] = [115] ∧ generatedDelegation.identifier = generatedSpelling.identifier ∧
        CaveatContent.Aligned Instances.backend
          (hmac Instances.backend (MacaroonKey.generate Instances.backend [115])
            generatedDelegation.identifier) generatedDelegation.caveats generatedSpelling.caveats :=
  generated_signature_covers Instances.backend [115] [115] generatedDelegation generatedSpelling
    (by decide +kernel)

end Libmacaroon
