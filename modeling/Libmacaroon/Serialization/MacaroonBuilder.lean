import Libmacaroon.Macaroon

/-! The builder the three decoders fill in (`serialization/macaroon_builder.rs`). -/
namespace Libmacaroon
open Checked

structure MacaroonBuilder where
  identifier : ByteString
  location : Option String
  signature : Option MacaroonKey
  caveats : List Caveat
deriving DecidableEq

namespace MacaroonBuilder

def new : MacaroonBuilder := ⟨[], none, none, []⟩

def setIdentifier (b : MacaroonBuilder) (identifier : ByteString) : MacaroonBuilder :=
  { b with identifier := identifier }

def setLocation (b : MacaroonBuilder) (location : String) : MacaroonBuilder :=
  { b with location := some location }

/-- `copy_from_slice` into 32 bytes panics on a slice of any other length. -/
def setSignature (b : MacaroonBuilder) (signature : Bytes) : Result MacaroonBuilder :=
  if h : signature.length = 32 then .ok { b with signature := some ⟨signature, h⟩ }
  else .panic .copyLength

def addCaveat (b : MacaroonBuilder) (caveat : Caveat) : Result MacaroonBuilder := do
  failIf (b.caveats.length ≥ maxCaveats) .tooManyCaveats
  return { b with caveats := b.caveats ++ [caveat] }

def build (b : MacaroonBuilder) : Result Macaroon := do
  failIf (b.identifier = []) (.incompleteMacaroon "no identifier found")
  match b.signature with
  | none => .err (.incompleteMacaroon "no signature found")
  | some signature => .ok ⟨b.identifier, b.location, signature, b.caveats⟩

theorem addCaveat_eq_ok {b b' : MacaroonBuilder} {caveat : Caveat} : b.addCaveat caveat = .ok b' ↔
    b.caveats.length < maxCaveats ∧ { b with caveats := b.caveats ++ [caveat] } = b' := by
  simp only [addCaveat, bind_eq_ok, failIf_eq_ok, pure_eq_ok]
  simp

theorem setSignature_bytes (b : MacaroonBuilder) (signature : MacaroonKey) :
    b.setSignature signature.bytes = .ok { b with signature := some signature } := by
  rw [setSignature, dif_pos signature.length_eq]

theorem build_eq_ok {b : MacaroonBuilder} {m : Macaroon} :
    b.build = .ok m ↔ b.identifier ≠ [] ∧ ∃ signature, b.signature = some signature ∧
      ⟨b.identifier, b.location, signature, b.caveats⟩ = m := by
  cases h : b.signature <;> simp [build, bind_eq_ok, h]

end MacaroonBuilder

end Libmacaroon
