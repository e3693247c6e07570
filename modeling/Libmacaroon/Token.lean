import Libmacaroon.Serialization.V1
import Libmacaroon.Serialization.V2
import Libmacaroon.Serialization.V2Json

/-! Tokens: `Macaroon::serialize`, `deserialize` and `deserialize_binary` (`lib.rs`), with the
crate's default features. -/
namespace Libmacaroon
open Checked Utf8

inductive Format where
  | V1
  | V2
  | V2JSON
deriving DecidableEq

namespace Macaroon
variable (E : Base64Crate) (J : V2Json.SerdeJson) (w : Width)

def serialize (m : Macaroon) (format : Format) : Result String :=
  match format with
  | .V1 => do
    let buf ← V1.serializeBinary m
    return E.URL_SAFE.encode buf
  | .V2 => do
    let buf ← V2.serializeBinary m
    return E.URL_SAFE.encode buf
  | .V2JSON => V2Json.serialize E J m

/-- `'0'..='9' | 'a'..='f' | 'A'..='F'`. -/
def isHexDigit (c : UInt8) : Bool :=
  (48 ≤ c && c ≤ 57) || (97 ≤ c && c ≤ 102) || (65 ≤ c && c ≤ 70)

/- The two `match`es on the first byte of a token; 0x7b opens a JSON object. -/
def matchBinary (first : UInt8) (token : Bytes) : Result Macaroon :=
  if first = 2 then V2.deserialize w token
  else if isHexDigit first then V1.deserialize w token
  else deserializationError "unknown macaroon serialization format"

def deserializeBinary (token : Bytes) : Result Macaroon := do
  rejectIf (token = []) "empty macaroon token"
  let first ← indexAt token 0
  let mac ← matchBinary w first token
  mac.validate

def matchToken (first : UInt8) (token : Bytes) : Result Macaroon :=
  if first = 0x7b then V2Json.deserialize E J token
  else do
    let binary ← base64DecodeFlexible E token
    deserializeBinary w binary

def deserialize (token : Bytes) : Result Macaroon := do
  rejectIf (token = []) "empty token provided"
  let first ← indexAt token 0
  let mac ← matchToken E J w first token
  mac.validate

variable {E J w}

/-- What `serialize` writes around a binary form, `deserialize` takes off again. -/
theorem deserialize_encode (hE : E.Lawful) {buf : Bytes} (hbuf : buf ≠ []) :
    deserialize E J w (asBytes (E.URL_SAFE.encode buf)) =
      deserializeBinary w buf >>= Macaroon.validate := by
  rw [hE.urlSafe.encode]
  have hne : Base64.encode Base64.urlSafe true buf ≠ [] := Base64.encode_ne_nil hbuf
  obtain ⟨first, rest, htext⟩ := List.exists_cons_of_ne_nil hne
  have hfirst : first ≠ 0x7b :=
    encode_head_ne_brace Base64.urlSafe_lt (by rw [htext]; rfl)
  have hmatch : matchToken E J w first (Base64.encode Base64.urlSafe true buf) =
      deserializeBinary w buf := by
    rw [matchToken, if_neg hfirst, base64DecodeFlexible_encode hE true hbuf, ok_bind]
  have hindex : (indexAt (Base64.encode Base64.urlSafe true buf) 0 : Result UInt8) = .ok first := by
    rw [indexAt_eq_ok, htext]
    rfl
  have hreject : rejectIf (Base64.encode Base64.urlSafe true buf = []) "empty token provided" =
      .ok () := rejectIf_eq_ok.mpr hne
  rw [deserialize, hreject, ok_bind, hindex, ok_bind, hmatch]

end Macaroon

end Libmacaroon
