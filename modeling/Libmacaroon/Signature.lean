import Libmacaroon.Limits

/-! The chain of signatures that a macaroon's key starts and its caveats continue. -/
namespace Libmacaroon
open Checked

section Chain
variable (B : Backend)

/-- The signature after the caveats `cs`, from the signature `sig` before them. -/
def runningSignature (cs : List Caveat) (sig : MacaroonKey) : MacaroonKey :=
  cs.foldl (fun s c => c.sign B s) sig

/-- `hmac(k, x.identifier)` folded with `Caveat::sign` over the caveats of `x`. -/
def chain (k : MacaroonKey) (x : Macaroon) : MacaroonKey :=
  runningSignature B x.caveats (hmac B k x.identifier)

/-- The third-party caveats in order, each with the running signature just before it. -/
def thirdPartyCaveats : List Caveat → MacaroonKey → List (ThirdParty × MacaroonKey)
  | [], _ => []
  | .firstParty fp :: cs, sig => thirdPartyCaveats cs (Caveat.sign B (.firstParty fp) sig)
  | .thirdParty tp :: cs, sig =>
    (tp, sig) :: thirdPartyCaveats cs (Caveat.sign B (.thirdParty tp) sig)

end Chain

/-- A macaroon made with `key` and then only attenuated. The indices list, in order, the predicates
that were given to `add_first_party_caveat`, and for the other calls the identifier and the key that
the discharge has to have. -/
inductive Minted (B : Backend) (key : MacaroonKey) :
    List Bytes → List (Bytes × MacaroonKey) → Macaroon → Prop where
  | create {location : Option String} {identifier : Bytes} {m : Macaroon}
      (h : Macaroon.create B location key identifier = .ok m) : Minted B key [] [] m
  | addFirstPartyCaveat {predicate : Bytes} {predicates : List Bytes}
      {due : List (Bytes × MacaroonKey)} {m m' : Macaroon} (hm : Minted B key predicates due m)
      (h : (Macaroon.addFirstPartyCaveat B predicate).call m = (.ok (), m')) :
      Minted B key (predicates ++ [predicate]) due m'
  | addThirdPartyCaveat {location : String} {caveatKey : MacaroonKey} {id : Bytes} {rng : Rng}
      {predicates : List Bytes} {due : List (Bytes × MacaroonKey)} {m m' : Macaroon}
      (hm : Minted B key predicates due m)
      (h : (Macaroon.addThirdPartyCaveat B location caveatKey id rng).call m = (.ok (), m')) :
      Minted B key predicates (due ++ [(id, caveatKey)]) m'

variable {B : Backend} {key : MacaroonKey} {predicates : List Bytes}
  {due : List (Bytes × MacaroonKey)} {m : Macaroon}

theorem Minted.constructed (hm : Minted B key predicates due m) : Constructed B m := by
  induction hm with
  | create h => exact .create h
  | addFirstPartyCaveat _ h ih => exact .addFirstPartyCaveat ih h
  | addThirdPartyCaveat _ h ih => exact .addThirdPartyCaveat ih h

/-- The predicates of the calls are those of the caveats. -/
theorem Minted.forall_predicates (hm : Minted B key predicates due m) {P : Bytes → Prop} :
    (∀ p ∈ predicates, P p) ↔ ∀ fp, Caveat.firstParty fp ∈ m.caveats → P fp.predicate := by
  induction hm with
  | create h =>
    obtain ⟨_, _, _, rfl⟩ := Macaroon.create_eq_ok.mp h
    simp
  | addFirstPartyCaveat _ h ih =>
    obtain ⟨_, _, rfl⟩ := Macaroon.addFirstPartyCaveat_eq_ok.mp h
    simp [Macaroon.push, newFirstParty, ih, or_imp, forall_and]
  | addThirdPartyCaveat _ h ih =>
    obtain ⟨_, _, _, _, _, rfl⟩ := Macaroon.addThirdPartyCaveat_eq_ok.mp h
    simp [Macaroon.push, newThirdParty, ih]

theorem runningSignature_append (cs : List Caveat) (c : Caveat) (sig : MacaroonKey) :
    runningSignature B (cs ++ [c]) sig = c.sign B (runningSignature B cs sig) := by
  simp [runningSignature]

theorem thirdPartyCaveats_append (cs cs' : List Caveat) (sig : MacaroonKey) :
    thirdPartyCaveats B (cs ++ cs') sig =
      thirdPartyCaveats B cs sig ++ thirdPartyCaveats B cs' (runningSignature B cs sig) := by
  induction cs generalizing sig with
  | nil => rfl
  | cons c cs ih =>
    cases c with
    | firstParty fp => exact ih _
    | thirdParty tp => exact congrArg _ (ih _)

theorem chain_push (c : Caveat) : chain B key (m.push B c) = c.sign B (chain B key m) :=
  runningSignature_append m.caveats c (hmac B key m.identifier)

/-- The signature that the builder API leaves is the chain over the macaroon it leaves. -/
theorem Minted.signature (hm : Minted B key predicates due m) : m.signature = chain B key m := by
  induction hm with
  | create h =>
    obtain ⟨_, _, _, rfl⟩ := Macaroon.create_eq_ok.mp h
    rfl
  | addFirstPartyCaveat _ h ih =>
    obtain ⟨_, _, rfl⟩ := Macaroon.addFirstPartyCaveat_eq_ok.mp h
    rw [chain_push, ← ih]
    rfl
  | addThirdPartyCaveat _ h ih =>
    obtain ⟨_, _, _, _, _, rfl⟩ := Macaroon.addThirdPartyCaveat_eq_ok.mp h
    rw [chain_push, ← ih]
    rfl

end Libmacaroon
