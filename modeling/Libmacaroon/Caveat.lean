import Libmacaroon.Crypto

/-! Caveats and their builder (`caveat.rs`). -/
namespace Libmacaroon
open Checked

abbrev ByteString := Bytes

structure FirstParty where
  predicate : ByteString
deriving DecidableEq

structure ThirdParty where
  id : ByteString
  verifierId : ByteString
  location : String
deriving DecidableEq

inductive Caveat where
  | firstParty (fp : FirstParty)
  | thirdParty (tp : ThirdParty)
deriving DecidableEq

def Caveat.sign (B : Backend) (c : Caveat) (key : MacaroonKey) : MacaroonKey :=
  match c with
  | .firstParty fp => hmac B key fp.predicate
  | .thirdParty tp => hmac2 B key tp.verifierId tp.id

def Caveat.asFirstParty : Caveat → Option FirstParty
  | .firstParty fp => some fp
  | .thirdParty _ => none

def Caveat.asThirdParty : Caveat → Option ThirdParty
  | .thirdParty tp => some tp
  | .firstParty _ => none

def newFirstParty (predicate : ByteString) : Caveat := .firstParty ⟨predicate⟩

def newThirdParty (id verifierId : ByteString) (location : String) : Caveat :=
  .thirdParty ⟨id, verifierId, location⟩

structure CaveatBuilder where
  id : Option ByteString
  verifierId : Option ByteString
  location : Option String
deriving DecidableEq

namespace CaveatBuilder

def new : CaveatBuilder := ⟨none, none, none⟩

def addId (b : CaveatBuilder) (id : ByteString) : CaveatBuilder := { b with id := some id }

def hasId (b : CaveatBuilder) : Bool := b.id.isSome

def addVerifierId (b : CaveatBuilder) (vid : ByteString) : CaveatBuilder :=
  { b with verifierId := some vid }

def hasVerifierId (b : CaveatBuilder) : Bool := b.verifierId.isSome

def addLocation (b : CaveatBuilder) (location : String) : CaveatBuilder :=
  { b with location := some location }

def hasLocation (b : CaveatBuilder) : Bool := b.location.isSome

def build (b : CaveatBuilder) : Result Caveat :=
  match b.id with
  | none => .err (.incompleteCaveat "no identifier found")
  | some id =>
    match b.verifierId, b.location with
    | none, none => .ok (newFirstParty id)
    | some vid, some location => .ok (newThirdParty id vid location)
    | none, some _ => .err (.incompleteCaveat "no verifier ID found")
    | some _, none => .err (.incompleteCaveat "no location found")

/-- A caveat is built from an identifier alone or from all three fields. -/
theorem build_eq_ok {b : CaveatBuilder} {c : Caveat} : b.build = .ok c ↔ ∃ id, b.id = some id ∧
    ((b.verifierId = none ∧ b.location = none ∧ c = newFirstParty id) ∨
      ∃ vid location, b.verifierId = some vid ∧ b.location = some location ∧
        c = newThirdParty id vid location) := by
  obtain ⟨id, vid, location⟩ := b
  cases id with
  | none => simp [build]
  | some id => cases vid <;> cases location <;> simp [build, eq_comm]

end CaveatBuilder

end Libmacaroon
