import Libmacaroon.MintVerify
import Libmacaroon.Narrowing
import Libmacaroon.Library.Separating

/-! What a macaroon authorizes: which discharges, by their names, can get it accepted. A call that
attenuates the macaroon acts on this set alone. A predicate keeps the set or empties it, a delegation
puts to it what the third party's own discharge needs. -/
namespace Libmacaroon
open Checked Separating

namespace Verifier

section Authority
variable (B : Backend) (v : Verifier) (depth : Nat)

end Authority

variable {B : Backend} {v : Verifier} {depth : Nat} {m : Macaroon} {key : MacaroonKey}
  {names : Multiset ByteString}

end Verifier

section Tour
open Instances

end Tour

section Tour
open Instances

end Tour

end Libmacaroon
