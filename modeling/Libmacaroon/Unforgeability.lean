import Libmacaroon.KeySeparation
import Mathlib.Logic.Relation

/-! What can be presented without the root key. The service issues macaroons; whoever holds them
computes HMACs under the keys and signatures it knows, in any order. Whatever it then gets accepted
extends a macaroon that was issued. -/
namespace Libmacaroon
open Checked KeyedChain

/-- The macaroons the service has issued, and of their holders the keys they know, those among them
that they learnt elsewhere, and the HMACs they evaluated. -/
structure World where
  issued : List Macaroon
  known : List MacaroonKey
  learnt : List MacaroonKey
  evaluations : List Evaluation

namespace World

def initial : World := ⟨[], [], [], []⟩

def issue (W : World) (x : Macaroon) : World :=
  { W with issued := x :: W.issued, known := x.signature :: W.known }

def learn (W : World) (k : MacaroonKey) : World :=
  { W with known := k :: W.known, learnt := k :: W.learnt }

def evaluate (B : Backend) (W : World) (k : MacaroonKey) (text : Bytes) : World :=
  { W with known := hmac B k text :: W.known, evaluations := (k, text) :: W.evaluations }

variable (B : Backend) (key : MacaroonKey)

/-- One step: the service hands out a macaroon it has made with its root key and attenuated, a holder
learns a key from elsewhere, or evaluates an HMAC under a key it knows. -/
inductive Step : World → World → Prop where
  | issue (W : World) {predicates : List Bytes} {due : List (Bytes × MacaroonKey)} {x : Macaroon}
      (h : Minted B key predicates due x) : Step W (W.issue x)
  | learn (W : World) (k : MacaroonKey) : Step W (W.learn k)
  | evaluate (W : World) {k : MacaroonKey} (hk : k ∈ W.known) (text : Bytes) :
      Step W (evaluate B W k text)

def Run : World → World → Prop := Relation.ReflTransGen (Step B key)

/-- Where a known key comes from: a chain of evaluated HMACs that a learnt key or the signature of an
issued macaroon starts. -/
structure Derived (W : World) (start : MacaroonKey) (texts : List Bytes) : Prop where
  begun : start ∈ W.learnt ∨ ∃ x ∈ W.issued, start = x.signature
  evaluated : calls B.hmacSha256 (CaveatContent.text B) (texts.map .firstParty) start ⊆ W.evaluations

/-- What every run keeps. -/
structure Sound (W : World) : Prop where
  issued : ∀ x ∈ W.issued, x.signature = x.content.sig B key
  known : ∀ k ∈ W.known, ∃ start texts, Derived B W start texts ∧
    last B.hmacSha256 (CaveatContent.text B) (texts.map .firstParty) start = k

/-- All HMAC evaluations there are: of the holders, of the service for the macaroons it issued, and
of the chain over `m`. -/
def allEvaluations (W : World) (m : Macaroon) : List Evaluation :=
  W.evaluations ++ W.issued.flatMap (fun x => x.content.evaluations B key) ++
    m.content.evaluations B key

/-- A learnt key is the root key, or a signature that the chain over `m` runs through. -/
def Leaked (W : World) (m : Macaroon) : Prop :=
  ∃ k ∈ W.learnt, k = key ∨
    Returns B.hmacSha256 k (calls B.hmacSha256 (CaveatContent.text B) m.content.items key)

end World

/-- `m` begins with the identifier and the caveats of `x`, where caveats may be confusable. -/
def Extends (B : Backend) (key : MacaroonKey) (x m : Macaroon) : Prop :=
  x.identifier = m.identifier ∧ ∃ before after, m.content.caveats = before ++ after ∧
    CaveatContent.Aligned B (hmac B key x.identifier) x.content.caveats before

/-- The predicate spells out a third-party caveat of `m`, under some key. -/
def SpelledIn (B : Backend) (m : Macaroon) (predicate : Bytes) : Prop :=
  ∃ sig tp, Caveat.thirdParty tp ∈ m.caveats ∧
    predicate = (hmac B sig tp.verifierId).bytes ++ (hmac B sig tp.id).bytes

namespace CaveatContent
variable {B : Backend} {key : MacaroonKey}

theorem aligned_append {cs ts ds : List CaveatContent} (h : Aligned B key (cs ++ ts) ds) :
    ∃ before after, ds = before ++ after ∧ Aligned B key cs before := by
  induction cs generalizing key ds with
  | nil => exact ⟨[], ds, rfl, trivial⟩
  | cons c cs ih =>
    cases ds with
    | nil => cases h
    | cons d ds =>
      obtain ⟨before, after, rfl, hrest⟩ := ih h.2
      exact ⟨d :: before, after, rfl, h.1, hrest⟩

theorem aligned_mem {cs ds : List CaveatContent} (h : Aligned B key cs ds) :
    ∀ c ∈ cs, ∃ d ∈ ds, c = d ∨ ∃ sig, c.Confusable B sig d := by
  induction cs generalizing key ds with
  | nil => simp
  | cons c cs ih =>
    cases ds with
    | nil => cases h
    | cons d ds =>
      intro c' hc'
      obtain rfl | hc' := List.mem_cons.mp hc'
      · exact ⟨d, List.mem_cons_self, h.1.imp_right fun hconfusable => ⟨key, hconfusable⟩⟩
      · obtain ⟨d', hd', hcd⟩ := ih h.2 c' hc'
        exact ⟨d', List.mem_cons_of_mem d hd', hcd⟩

theorem listEvaluations_append (cs ts : List CaveatContent) (key : MacaroonKey) :
    listEvaluations B (cs ++ ts) key = listEvaluations B cs key ++
      listEvaluations B ts (last B.hmacSha256 (text B) cs key) := by
  induction cs generalizing key with
  | nil => rfl
  | cons c cs ih => simp only [List.cons_append, listEvaluations, last, ih, sign_eq,
      List.append_assoc]

/- HMACs of plain texts are all the evaluations that predicates need. -/
theorem listEvaluations_firstParty (texts : List Bytes) (key : MacaroonKey) :
    listEvaluations B (texts.map .firstParty) key =
      calls B.hmacSha256 (text B) (texts.map .firstParty) key := by
  induction texts generalizing key with
  | nil => rfl
  | cons t ts ih => exact congrArg _ (ih _)

end CaveatContent

/-- The predicates of the macaroon that is extended stay predicates of the extension. -/
theorem Extends.firstParty {B : Backend} {key : MacaroonKey} {x m : Macaroon}
    (h : Extends B key x m) {fp : FirstParty} (hfp : Caveat.firstParty fp ∈ x.caveats) :
    Caveat.firstParty fp ∈ m.caveats ∨ SpelledIn B m fp.predicate := by
  obtain ⟨_, before, after, hsplit, haligned⟩ := h
  have hmem : CaveatContent.firstParty fp.predicate ∈ x.content.caveats := List.mem_map_of_mem hfp
  obtain ⟨d, hd, hsame⟩ := CaveatContent.aligned_mem haligned _ hmem
  have hpresent : d ∈ m.content.caveats := by
    rw [hsplit]
    exact List.mem_append_left _ hd
  obtain ⟨c, hc, rfl⟩ := List.mem_map.mp hpresent
  cases c with
  | firstParty fp' =>
    have hpredicate : fp.predicate = fp'.predicate := by
      simpa [Caveat.content, CaveatContent.Confusable] using hsame
    obtain rfl : fp = fp' := congrArg FirstParty.mk hpredicate
    exact .inl hc
  | thirdParty tp =>
    obtain ⟨sig, hspelled⟩ : ∃ sig, CaveatContent.Confusable B sig
        (.firstParty fp.predicate) (.thirdParty tp.id tp.verifierId) := by
      simpa [Caveat.content] using hsame
    exact .inr ⟨sig, tp, hc, hspelled⟩

namespace World
variable {B : Backend} {key : MacaroonKey} {W W' : World} {m : Macaroon}

theorem Derived.mono {start : MacaroonKey} {texts : List Bytes} (h : Derived B W start texts)
    (hissued : W.issued ⊆ W'.issued) (hlearnt : W.learnt ⊆ W'.learnt)
    (hevaluations : W.evaluations ⊆ W'.evaluations) : Derived B W' start texts := by
  refine ⟨?_, fun e he => hevaluations (h.evaluated he)⟩
  obtain hstart | ⟨x, hx, rfl⟩ := h.begun
  · exact .inl (hlearnt hstart)
  · exact .inr ⟨x, hissued hx, rfl⟩

theorem Sound.step (hW : Sound B key W) (h : Step B key W W') : Sound B key W' := by
  cases h with
  | @issue _ _ x hx =>
    refine ⟨List.forall_mem_cons.mpr ⟨hx.signature_content, hW.issued⟩, ?_⟩
    intro k hk
    obtain rfl | hk := List.mem_cons.mp hk
    · exact ⟨x.signature, [], ⟨.inr ⟨x, List.mem_cons_self, rfl⟩, by simp [calls]⟩, rfl⟩
    · obtain ⟨start, texts, hderived, hlast⟩ := hW.known k hk
      exact ⟨start, texts, hderived.mono (List.subset_cons_self _ _) (List.Subset.refl _)
        (List.Subset.refl _), hlast⟩
  | learn k =>
    refine ⟨hW.issued, ?_⟩
    intro k' hk'
    obtain rfl | hk' := List.mem_cons.mp hk'
    · exact ⟨k', [], ⟨.inl List.mem_cons_self, by simp [calls]⟩, rfl⟩
    · obtain ⟨start, texts, hderived, hlast⟩ := hW.known k' hk'
      exact ⟨start, texts, hderived.mono (List.Subset.refl _) (List.subset_cons_self _ _)
        (List.Subset.refl _), hlast⟩
  | @evaluate k hk text =>
    refine ⟨hW.issued, ?_⟩
    intro k' hk'
    have hmono {start : MacaroonKey} {texts : List Bytes} (h : Derived B W start texts) :
        Derived B (evaluate B W k text) start texts :=
      h.mono (List.Subset.refl _) (List.Subset.refl _) (List.subset_cons_self _ _)
    obtain rfl | hk' := List.mem_cons.mp hk'
    · -- the evaluation goes on where the chain of its key ended
      obtain ⟨start, texts, hderived, hlast⟩ := hW.known k hk
      refine ⟨start, texts ++ [text], ⟨hderived.begun, ?_⟩, ?_⟩
      · rw [List.map_append, List.map_singleton, calls_append, hlast]
        exact List.append_subset.mpr ⟨(hmono hderived).evaluated, by simp [CaveatContent.text, evaluate]⟩
      · rw [List.map_append, List.map_singleton, last_append, hlast]
        rfl
    · obtain ⟨start, texts, hderived, hlast⟩ := hW.known k' hk'
      exact ⟨start, texts, hmono hderived, hlast⟩

theorem sound_of_run (h : Run B key initial W) : Sound B key W := by
  induction h with
  | refl => exact ⟨by simp [initial], by simp [initial]⟩
  | tail _ hstep ih => exact ih.step hstep

/-- A known key that the chain over `m` ends in was not made without the service. -/
theorem Sound.extends_issued (hW : Sound B key W) (hknown : m.content.sig B key ∈ W.known) :
    (∃ x ∈ W.issued, Extends B key x m) ∨
      Collide B.hmacSha256 (allEvaluations B key W m) ∨
      Returns B.hmacSha256 key (allEvaluations B key W m) ∨ Leaked B key W m := by
  obtain ⟨start, texts, hderived, hlast⟩ := hW.known _ hknown
  have hevaluated : W.evaluations ⊆ allEvaluations B key W m :=
    List.subset_append_of_subset_left _ (List.subset_append_left _ _)
  have hpresented : m.content.evaluations B key ⊆ allEvaluations B key W m :=
    List.subset_append_right _ _
  have hholder := hderived.evaluated
  have hservice : calls B.hmacSha256 (CaveatContent.text B) m.content.items key ⊆
      m.content.evaluations B key := Content.calls_items_subset m.content
  rw [← Content.last_items] at hlast
  obtain hlearnt | ⟨x, hx, rfl⟩ := hderived.begun
  · obtain hcollide | ⟨before, after, hsplit, hstart, _⟩ | ⟨before, after, hsplit, hstart, _⟩ :=
      overlap_or_collide hlast
    · refine .inr (.inl (hcollide.mono (List.append_subset.mpr ⟨?_, ?_⟩)))
      · exact List.Subset.trans hholder hevaluated
      · exact List.Subset.trans hservice hpresented
    · -- the holders' chain runs through the root key
      rw [hsplit] at hholder
      obtain hroot | hreturns := eq_or_returns hstart after
      · exact .inr (.inr (.inr ⟨start, hlearnt, .inl hroot⟩))
      · exact .inr (.inr (.inl (hreturns.mono (List.Subset.trans hholder hevaluated))))
    · -- the chain over the macaroon runs through the key that was learnt
      obtain hroot | hreturns := eq_or_returns hstart after
      · exact .inr (.inr (.inr ⟨start, hlearnt, .inl hroot.symm⟩))
      · rw [← hsplit] at hreturns
        exact .inr (.inr (.inr ⟨start, hlearnt, .inr hreturns⟩))
  · -- one chain from the root key, over the issued macaroon and then the holders' texts
    have hsig := hW.issued x hx
    have hissued : x.content.evaluations B key ⊆ allEvaluations B key W m := by
      intro e he
      exact List.mem_append_left _ (List.mem_append_right _ (List.mem_flatMap.mpr ⟨x, hx, he⟩))
    have hchain : last B.hmacSha256 (CaveatContent.text B)
        (x.content.items ++ texts.map .firstParty) key =
        last B.hmacSha256 (CaveatContent.text B) m.content.items key := by
      rw [last_append_items, Content.last_items, ← hsig, hlast]
    have hevaluations : CaveatContent.listEvaluations B
        (x.content.items ++ texts.map .firstParty) key ⊆ allEvaluations B key W m := by
      rw [CaveatContent.listEvaluations_append, CaveatContent.listEvaluations_firstParty,
        Content.last_items, ← hsig]
      exact List.append_subset.mpr ⟨hissued, List.Subset.trans hholder hevaluated⟩
    have hcalls := List.Subset.trans (CaveatContent.calls_subset (B := B)
      (x.content.items ++ texts.map .firstParty) key) hevaluations
    have hboth := List.append_subset.mpr ⟨hcalls, List.Subset.trans hservice hpresented⟩
    obtain hsame | hcollide | hreturns := calls_eq_or_collide hchain
    · obtain haligned | hcollide := CaveatContent.aligned_or_collide hsame
      · obtain ⟨hid, hcaveats⟩ := CaveatContent.aligned_items haligned
        obtain ⟨before, after, hsplit, hbefore⟩ := CaveatContent.aligned_append hcaveats
        exact .inl ⟨x, hx, hid, before, after, hsplit, hbefore⟩
      · exact .inr (.inl (hcollide.mono (List.append_subset.mpr ⟨hevaluations, hpresented⟩)))
    · exact .inr (.inl (hcollide.mono hboth))
    · exact .inr (.inr (.inl (hreturns.mono hboth)))

end World

/-- In every run, a macaroon that carries a signature the holders know and is accepted under the root
key extends an issued one, whose predicates are all satisfied, except for those that spell out a
third-party caveat of it. Else HMACs collide or give the root key back, a key of the chain has leaked,
or the macaroon is bound to itself. -/
theorem accepted_extends_issued (B : Backend) (v : Verifier) (key : MacaroonKey) (W : World)
    (m : Macaroon) (ds : List Macaroon) (hrun : World.Run B key World.initial W)
    (hknown : m.signature ∈ W.known) (hok : v.verify B m key ds = .ok ()) :
    (∃ x ∈ W.issued, Extends B key x m ∧ ∀ fp, Caveat.firstParty fp ∈ x.caveats →
        v.Satisfies fp.predicate ∨ SpelledIn B m fp.predicate) ∨
      Collide B.hmacSha256 (W.allEvaluations B key m) ∨
      Returns B.hmacSha256 key (W.allEvaluations B key m) ∨ W.Leaked B key m ∨
      BoundToItself B key m := by
  obtain hchain | hself := Verifier.chain_of_verify hok
  · rw [← hchain, chain_content] at hknown
    obtain ⟨x, hx, hextends⟩ | hcollide | hreturns | hleaked :=
      (World.sound_of_run hrun).extends_issued hknown
    · refine .inl ⟨x, hx, hextends, ?_⟩
      intro fp hfp
      obtain ⟨_, _, hT⟩ := Verifier.verify_sound hok
      exact (hextends.firstParty hfp).imp_left (hT.root.satisfied fp)
    · exact .inr (.inl hcollide)
    · exact .inr (.inr (.inl hreturns))
    · exact .inr (.inr (.inr (.inl hleaked)))
  · exact .inr (.inr (.inr (.inr hself)))

/- A holder of the issued macaroon attenuates it. -/
def heldWorld : World :=
  (World.initial.issue Instances.created).evaluate Instances.backend Instances.created.signature [112]

def heldMacaroon : Macaroon := Instances.created.push Instances.backend (newFirstParty [112])

def heldVerifier : Verifier := Verifier.default.satisfyExact [112]

theorem heldWorld_run : World.Run Instances.backend zeroKey World.initial heldWorld :=
  .tail (.single (.issue World.initial Instances.created_minted)) (.evaluate _ List.mem_cons_self [112])

theorem accepted_extends_issued_held :
    (∃ x ∈ heldWorld.issued, Extends Instances.backend zeroKey x heldMacaroon ∧
        ∀ fp, Caveat.firstParty fp ∈ x.caveats →
          heldVerifier.Satisfies fp.predicate ∨
            SpelledIn Instances.backend heldMacaroon fp.predicate) ∨
      Collide Instances.backend.hmacSha256
        (heldWorld.allEvaluations Instances.backend zeroKey heldMacaroon) ∨
      Returns Instances.backend.hmacSha256 zeroKey
        (heldWorld.allEvaluations Instances.backend zeroKey heldMacaroon) ∨
      heldWorld.Leaked Instances.backend zeroKey heldMacaroon ∨
      BoundToItself Instances.backend zeroKey heldMacaroon :=
  accepted_extends_issued Instances.backend heldVerifier zeroKey heldWorld heldMacaroon []
    heldWorld_run List.mem_cons_self (by decide +kernel)

end Libmacaroon
