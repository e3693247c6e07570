import Libmacaroon.Serialization.Base64Flexible
import Libmacaroon.Serialization.MacaroonBuilder

/-! The V2JSON format (`serialization/v2json.rs`). `serde_json` and the derived impls carry a
struct to JSON text and back; what the crate itself does to the fields is modelled. -/
namespace Libmacaroon.V2Json
open Checked Utf8

/-- The fields of a caveat, over the type of its base64 fields. -/
structure CaveatFields (β : Type) where
  i : Option String
  i64 : Option β
  l : Option String
  l64 : Option String
  v : Option String
  v64 : Option β
deriving DecidableEq

structure SerializationFields (β : Type) where
  v : UInt8
  i : Option String
  i64 : Option β
  l : Option String
  l64 : Option String
  c : List (CaveatFields β)
  s : Option Bytes
  s64 : Option String
deriving DecidableEq

abbrev Caveat := CaveatFields ByteString

abbrev Serialization := SerializationFields ByteString

/-- `serde_json` with the derived impls: the JSON text of the fields, in which a `ByteString` is
the string its own impl gave. An error is its `Display` text. -/
structure SerdeJson where
  toString : SerializationFields String → Except String String
  fromSlice : Bytes → Except String (SerializationFields String)

section ByteStringImpls
variable (E : Base64Crate)

def CaveatFields.serialize (c : Caveat) : CaveatFields String :=
  { i := c.i, i64 := c.i64.map (ByteString.display E), l := c.l, l64 := c.l64, v := c.v,
    v64 := c.v64.map (ByteString.display E) }

def SerializationFields.serialize (ser : Serialization) : SerializationFields String :=
  { v := ser.v, i := ser.i, i64 := ser.i64.map (ByteString.display E), l := ser.l, l64 := ser.l64,
    c := ser.c.map (CaveatFields.serialize E), s := ser.s, s64 := ser.s64 }

/-- `ByteStringVisitor::visit_str`: any decoding error becomes a custom serde error. Its text is the
one given here, before `serde_json` appends the position. -/
def visitStr (value : String) : Result ByteString :=
  match base64DecodeFlexible E (asBytes value) with
  | .ok raw => .ok raw
  | .error (.panic p) => .panic p
  | .error (.err _) => .fromForeign (.json "unable to base64 decode value")

def visitOption : Option String → Result (Option ByteString)
  | none => .ok none
  | some value => do
    let raw ← visitStr E value
    return some raw

def CaveatFields.deserialize (c : CaveatFields String) : Result Caveat := do
  let i64 ← visitOption E c.i64
  let v64 ← visitOption E c.v64
  return { i := c.i, i64 := i64, l := c.l, l64 := c.l64, v := c.v, v64 := v64 }

def deserializeCaveats : List (CaveatFields String) → Result (List Caveat)
  | [] => .ok []
  | c :: cs => do
    let caveat ← c.deserialize E
    let caveats ← deserializeCaveats cs
    return caveat :: caveats

def SerializationFields.deserialize (ser : SerializationFields String) : Result Serialization := do
  let i64 ← visitOption E ser.i64
  let c ← deserializeCaveats E ser.c
  return { v := ser.v, i := ser.i, i64 := i64, l := ser.l, l64 := ser.l64, c := c, s := ser.s,
           s64 := ser.s64 }

end ByteStringImpls

variable (E : Base64Crate) (J : SerdeJson)

def caveatFromMacaroon : Libmacaroon.Caveat → Caveat
  | .firstParty fp =>
    { i := none, i64 := some fp.predicate, l := none, l64 := none, v := none, v64 := none }
  | .thirdParty tp =>
    { i := none, i64 := some tp.id, l := some tp.location, l64 := none, v := none,
      v64 := some tp.verifierId }

def fromMacaroon (macaroon : Macaroon) : Result Serialization :=
  .ok { v := 2
        i := none
        i64 := some macaroon.identifier
        l := macaroon.location
        l64 := none
        c := macaroon.caveats.map caveatFromMacaroon
        s := none
        s64 := some (E.URL_SAFE_NO_PAD.encode macaroon.signature.bytes) }

def rejectBoth {α β : Type} (a : Option α) (b : Option β) (pair : String) : Result Unit :=
  rejectIf (a.isSome ∧ b.isSome) ("Found " ++ pair ++ " fields")

/- The precedence match on an identifier: the plain string, else the base64 field. -/
def chooseId (i : Option String) (i64 : Option ByteString) (missing : String) :
    Result ByteString :=
  match i with
  | some id => .ok (asBytes id)
  | none =>
    match i64 with
    | some id => .ok id
    | none => deserializationError missing

def chooseLocation (l l64 : Option String) : Result (Option String) :=
  match l with
  | some loc => .ok (some loc)
  | none =>
    match l64 with
    | some loc => do
      let raw ← base64DecodeFlexible E (asBytes loc)
      let loc ← strFromUtf8 raw
      return some loc
    | none => .ok none

def chooseSignature (s : Option Bytes) (s64 : Option String) : Result Bytes :=
  match s with
  | some sig => .ok sig
  | none =>
    match s64 with
    | some sig => base64DecodeFlexible E (asBytes sig)
    | none => deserializationError "No signature found"

def chooseVerifierId (v : Option String) (v64 : Option ByteString) : Option ByteString :=
  match v with
  | some vid => some (asBytes vid)
  | none => v64

/- The `if let Some(..)` blocks: check the size of a field that is there and hand it on. -/
def setLocation (builder : MacaroonBuilder) : Option String → Result MacaroonBuilder
  | some loc => do
    checkFieldSize "location" (asBytes loc).length
    return builder.setLocation loc
  | none => .ok builder

def addCaveatLocation (caveatBuilder : CaveatBuilder) : Option String → Result CaveatBuilder
  | some loc => do
    checkFieldSize "caveat location" (asBytes loc).length
    return caveatBuilder.addLocation loc
  | none => .ok caveatBuilder

def addCaveatVerifierId (caveatBuilder : CaveatBuilder) :
    Option ByteString → Result CaveatBuilder
  | some vid => do
    checkFieldSize "caveat vid" vid.length
    return caveatBuilder.addVerifierId vid
  | none => .ok caveatBuilder

/- One pass of the caveat loop, on the two builders it works with. -/
def caveatStep (builders : MacaroonBuilder × CaveatBuilder) (c : Caveat) :
    Result (MacaroonBuilder × CaveatBuilder) := do
  let (builder, caveatBuilder) := builders
  rejectBoth c.i c.i64 "caveat i and i64"
  rejectBoth c.l c.l64 "caveat l and l64"
  rejectBoth c.v c.v64 "caveat v and v64"
  let caveatId ← chooseId c.i c.i64 "No caveat ID found"
  checkFieldSize "caveat id" caveatId.length
  let caveatBuilder := caveatBuilder.addId caveatId
  let caveatLocation ← chooseLocation E c.l c.l64
  let caveatBuilder ← addCaveatLocation caveatBuilder caveatLocation
  let caveatBuilder ← addCaveatVerifierId caveatBuilder (chooseVerifierId c.v c.v64)
  let caveat ← caveatBuilder.build
  let builder ← builder.addCaveat caveat
  return (builder, .new)

def fromJson (ser : Serialization) : Result Macaroon := do
  rejectIf (ser.v ≠ 2)
    ("Unsupported V2JSON version field: " ++ toString ser.v.toNat ++ " (expected 2)")
  rejectBoth ser.i ser.i64 "i and i64"
  rejectBoth ser.l ser.l64 "l and l64"
  rejectBoth ser.s ser.s64 "s and s64"
  let identifier ← chooseId ser.i ser.i64 "No identifier found"
  checkFieldSize "identifier" identifier.length
  let builder := MacaroonBuilder.new.setIdentifier identifier
  let location ← chooseLocation E ser.l ser.l64
  let builder ← setLocation builder location
  let rawSig ← chooseSignature E ser.s ser.s64
  rejectIf (rawSig.length ≠ 32) "Illegal signature length"
  let builder ← builder.setSignature rawSig
  let (builder, _) ← ser.c.foldlM (caveatStep E) (builder, .new)
  builder.build

def serialize (macaroon : Macaroon) : Result String := do
  let ser ← fromMacaroon E macaroon
  match J.toString (ser.serialize E) with
  | .ok text => .ok text
  | .error e => .fromForeign (.json e)

/-- `serde_json::from_slice`. -/
def readSerialization (data : Bytes) : Result Serialization :=
  match J.fromSlice data with
  | .ok fields => fields.deserialize E
  | .error e => .fromForeign (.json e)

def deserialize (data : Bytes) : Result Macaroon := do
  let v2j ← readSerialization E J data
  fromJson E v2j

end Libmacaroon.V2Json
