import Libmacaroon.Library.Checked
import Libmacaroon.Library.Utf8

/-! The crate's errors (`error.rs`). Texts that other crates or the standard library format are
kept as the value that is formatted. -/
namespace Libmacaroon
open Checked Utf8

abbrev Bytes := List UInt8

inductive IntErrorKind where
  | empty
  | invalidDigit
  | posOverflow
deriving DecidableEq, Repr

/-- A foreign error that a `From` instance formats into a `DeserializationError`. -/
inductive ForeignError where
  | utf8 (bytes : Bytes)
  | parseInt (kind : IntErrorKind)
  | base64 (display : String)
  | json (display : String)
deriving DecidableEq, Repr

/-- The text of an error. `lossy` and `lossyDebug` end with `String::from_utf8_lossy(bytes)`,
printed with `Display` and with `Debug`. -/
inductive Message where
  | text (s : String)
  | lossy (before : String) (bytes : Bytes)
  | lossyDebug (before : String) (bytes : Bytes)
  | display (e : ForeignError)
deriving DecidableEq, Repr

inductive MacaroonError where
  | cryptoError (s : String)
  | incompleteMacaroon (s : String)
  | incompleteCaveat (s : String)
  | deserializationError (s : Message)
  | caveatNotSatisfied (s : Message)
  | dischargeNotUsed
  | invalidSignature
  | tooManyCaveats
  | fieldTooLarge (field : String) (size : Nat)
  | rngError (s : String)
deriving DecidableEq, Repr

abbrev Result (α : Type) := Outcome MacaroonError α

/-- `DeserializationError` with a text of the crate's own. -/
abbrev deserializationError {α : Type} (s : String) : Result α :=
  .err (.deserializationError (.text s))

def rejectIf (c : Prop) [Decidable c] (s : String) : Result Unit :=
  failIf c (.deserializationError (.text s))

@[simp] theorem rejectIf_eq_ok {c : Prop} [Decidable c] {s : String} {u : Unit} :
    rejectIf c s = .ok u ↔ ¬ c := failIf_eq_ok

abbrev Result.fromForeign {α : Type} (e : ForeignError) : Result α :=
  .err (.deserializationError (.display e))

/-- `String::from_utf8(b)?` and `str::from_utf8(b)?`. -/
def strFromUtf8 (b : Bytes) : Result String :=
  match fromUtf8 b with
  | some s => .ok s
  | none => .fromForeign (.utf8 b)

theorem strFromUtf8_eq_ok {b : Bytes} {s : String} : strFromUtf8 b = .ok s ↔ asBytes s = b := by
  rw [← fromUtf8_eq_some]
  cases h : fromUtf8 b <;> simp [strFromUtf8, h]

end Libmacaroon
