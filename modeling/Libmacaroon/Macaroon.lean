import Libmacaroon.Caveat

/-! The macaroon and the calls that make, attenuate and bind one (`lib.rs`). -/
namespace Libmacaroon
open Checked Utf8

def maxCaveats : Nat := 1000

def maxFieldSizeBytes : Nat := 65535

def checkFieldSize (field : String) (size : Nat) : Result Unit :=
  failIf (size > maxFieldSizeBytes) (.fieldTooLarge field size)

@[simp] theorem checkFieldSize_eq_ok {field : String} {size : Nat} {u : Unit} :
    checkFieldSize field size = .ok u ↔ size ≤ maxFieldSizeBytes := by
  simp [checkFieldSize]

structure Macaroon where
  identifier : ByteString
  location : Option String
  signature : MacaroonKey
  caveats : List Caveat
deriving DecidableEq

namespace Macaroon

def firstPartyCaveats (m : Macaroon) : List Caveat :=
  m.caveats.filter fun c => c matches .firstParty _

def thirdPartyCaveats (m : Macaroon) : List Caveat :=
  m.caveats.filter fun c => c matches .thirdParty _

def validate (m : Macaroon) : Result Macaroon := do
  failIf (m.identifier = []) (.incompleteMacaroon "no identifier found")
  return m

def checkLocationSize (field : String) : Option String → Result Unit
  | some loc => checkFieldSize field (asBytes loc).length
  | none => .ok ()

variable (B : Backend)

def create (location : Option String) (key : MacaroonKey) (identifier : Bytes) :
    Result Macaroon := do
  checkFieldSize "identifier" identifier.length
  checkLocationSize "location" location
  let signature := hmac B key identifier
  let macaroon : Macaroon := ⟨identifier, location, signature, []⟩
  macaroon.validate

def checkCaveatCapacity : Stateful Macaroon MacaroonError Unit := do
  let self ← .get
  failIf (self.caveats.length ≥ maxCaveats) MacaroonError.tooManyCaveats

/- `add_*` take `&mut self`: the first component is what they return, the second the macaroon
   they leave behind, on success and on failure. -/
def addFirstPartyCaveat (predicate : Bytes) : Stateful Macaroon MacaroonError Unit := do
  checkFieldSize "predicate" predicate.length
  checkCaveatCapacity
  let caveat := newFirstParty predicate
  .modify fun self => { self with signature := caveat.sign B self.signature }
  .modify fun self => { self with caveats := self.caveats ++ [caveat] }

def addThirdPartyCaveat (location : String) (key : MacaroonKey) (id : Bytes) (rng : Rng) :
    Stateful Macaroon MacaroonError Unit := do
  checkFieldSize "caveat id" id.length
  checkFieldSize "caveat location" (asBytes location).length
  checkCaveatCapacity
  let self ← .get
  let vid ← encryptKey B self.signature key rng
  let caveat := newThirdParty id vid location
  .modify fun self => { self with signature := caveat.sign B self.signature }
  .modify fun self => { self with caveats := self.caveats ++ [caveat] }

/-- `root.bind(&mut discharge)`: the discharge it leaves behind. -/
def bind (root discharge : Macaroon) : Macaroon :=
  { discharge with
    signature := hmac2 B zeroKey root.signature.bytes discharge.signature.bytes }

end Macaroon

end Libmacaroon
