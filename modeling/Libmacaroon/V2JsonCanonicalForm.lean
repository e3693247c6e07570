import Libmacaroon.Instances
import Libmacaroon.V2JsonDecoding

/-! What `from_json` makes of each field: the macaroon it returns is written as the same fields, each
in its canonical form. -/
namespace Libmacaroon.V2Json
open Checked Utf8

section CanonicalForm
variable (E : Base64Crate)

end CanonicalForm

variable {E : Base64Crate}

theorem chooseId_canonical {i : Option String} {i64 : Option ByteString} {missing : String}
    {id : ByteString} (h : chooseId i i64 missing = .ok id) :
    (i.map asBytes <|> i64) = some id := by
  cases i with
  | some text =>
    cases h
    rfl
  | none =>
    cases i64 with
    | some raw =>
      cases h
      rfl
    | none => cases h

theorem chooseVerifierId_canonical (v : Option String) (v64 : Option ByteString) :
    (v.map asBytes <|> v64) = chooseVerifierId v v64 := by
  cases v <;> rfl

end Libmacaroon.V2Json
