import Libmacaroon.Attenuation
import Libmacaroon.Instances
import Libmacaroon.V1Lossless
import Libmacaroon.V2Canonical
import Libmacaroon.V2JsonDecoding

/-! Every macaroon value a program can hold, made or decoded, in any number of steps, is within
the limits. -/
namespace Libmacaroon
open Checked Utf8

namespace Macaroon
variable {E : Base64Crate} {J : V2Json.SerdeJson} {w : Width} {m : Macaroon}

/- The three decoders, behind the two entry points. -/
theorem deserializeBinary_withinLimits {token : Bytes}
    (h : deserializeBinary w token = .ok m) : m.WithinLimits := by
  simp only [deserializeBinary, bind_eq_ok, validate_eq_ok] at h
  obtain ⟨_, _, first, _, mac, hmatch, _, rfl⟩ := h
  unfold matchBinary at hmatch
  split_ifs at hmatch
  · exact (V2.deserialize_reads hmatch).1
  · exact V1.deserialize_withinLimits hmatch

theorem v2Json_withinLimits {token : Bytes}
    (h : V2Json.deserialize E J token = .ok m) : m.WithinLimits := by
  simp only [V2Json.deserialize, bind_eq_ok] at h
  obtain ⟨ser, _, hjson⟩ := h
  exact V2Json.fromJson_withinLimits hjson

theorem deserialize_withinLimits {token : Bytes}
    (h : deserialize E J w token = .ok m) : m.WithinLimits := by
  simp only [deserialize, bind_eq_ok, validate_eq_ok] at h
  obtain ⟨_, _, first, _, mac, hmatch, _, rfl⟩ := h
  unfold matchToken at hmatch
  split_ifs at hmatch
  · exact v2Json_withinLimits hmatch
  · obtain ⟨binary, _, hbinary⟩ := bind_eq_ok.mp hmatch
    exact deserializeBinary_withinLimits hbinary

end Macaroon

/-- The macaroon values that calls of the API leave behind or return, in any order; `add_*` calls
that fail included. -/
inductive Reachable (B : Backend) (E : Base64Crate) (J : V2Json.SerdeJson) : Macaroon → Prop where
  | create {location : Option String} {key : MacaroonKey} {identifier : Bytes} {m : Macaroon}
      (h : Macaroon.create B location key identifier = .ok m) : Reachable B E J m
  | addFirstPartyCaveat {predicate : Bytes} {r : Result Unit} {m m' : Macaroon}
      (hm : Reachable B E J m) (h : (Macaroon.addFirstPartyCaveat B predicate).call m = (r, m')) :
      Reachable B E J m'
  | addThirdPartyCaveat {location : String} {key : MacaroonKey} {id : Bytes} {rng : Rng}
      {r : Result Unit} {m m' : Macaroon} (hm : Reachable B E J m)
      (h : (Macaroon.addThirdPartyCaveat B location key id rng).call m = (r, m')) :
      Reachable B E J m'
  | bind (root : Macaroon) {m : Macaroon} (hm : Reachable B E J m) : Reachable B E J (root.bind B m)
  | deserialize {w : Width} {token : Bytes} {m : Macaroon}
      (h : Macaroon.deserialize E J w token = .ok m) : Reachable B E J m
  | deserializeBinary {w : Width} {token : Bytes} {m : Macaroon}
      (h : Macaroon.deserializeBinary w token = .ok m) : Reachable B E J m

/-- The limits hold of every reachable macaroon, whatever bytes were decoded on the way. -/
theorem reachable_within_limits (B : Backend) (E : Base64Crate) (J : V2Json.SerdeJson)
    (m : Macaroon) (hB : B.SealsKeysTo48) (hm : Reachable B E J m) :
    (1 ≤ m.identifier.length ∧ m.identifier.length ≤ 65535) ∧
      (∀ l ∈ m.location, (asBytes l).length ≤ 65535) ∧ m.caveats.length ≤ 1000 ∧
      ∀ c ∈ m.caveats, match c with
        | .firstParty fp => fp.predicate.length ≤ 65535
        | .thirdParty tp => tp.id.length ≤ 65535 ∧ tp.verifierId.length ≤ 65535 ∧
            (asBytes tp.location).length ≤ 65535 := by
  have hlimits : m.WithinLimits := by
    induction hm with
    | create h => exact .create h
    | @addFirstPartyCaveat _ r _ _ _ h ih =>
      cases r with
      | ok u => exact ih.addFirstPartyCaveat h
      | error e => exact (Macaroon.addFirstPartyCaveat_error h).1 ▸ ih
    | @addThirdPartyCaveat _ _ _ _ r _ _ _ h ih =>
      cases r with
      | ok u => exact ih.addThirdPartyCaveat hB h
      | error e => exact (Macaroon.addThirdPartyCaveat_error h).1 ▸ ih
    | bind _ _ ih => exact ih.bind
    | deserialize h => exact Macaroon.deserialize_withinLimits h
    | deserializeBinary h => exact Macaroon.deserializeBinary_withinLimits h
  refine ⟨⟨hlimits.identifier_pos, hlimits.identifier_le⟩, hlimits.location_le,
    hlimits.caveats_le, ?_⟩
  intro c hc
  have := hlimits.caveat_le c hc
  cases c with
  | firstParty fp => exact this
  | thirdParty tp => exact this

/- A V2 token is decoded, the macaroon attenuated and then bound to itself. -/
def decoded : Macaroon := ⟨[65], none, zeroKey, []⟩

def rebound : Macaroon :=
  decoded.bind Instances.backend (decoded.push Instances.backend (newFirstParty [66]))

theorem reachable_within_limits_rebound :
    (1 ≤ rebound.identifier.length ∧ rebound.identifier.length ≤ 65535) ∧
      (∀ l ∈ rebound.location, (asBytes l).length ≤ 65535) ∧ rebound.caveats.length ≤ 1000 ∧
      ∀ c ∈ rebound.caveats, match c with
        | .firstParty fp => fp.predicate.length ≤ 65535
        | .thirdParty tp => tp.id.length ≤ 65535 ∧ tp.verifierId.length ≤ 65535 ∧
            (asBytes tp.location).length ≤ 65535 := by
  have htoken : Macaroon.deserializeBinary .w32
      ([2, 2, 1, 65, 0, 0, 6, 32] ++ zeroKey.bytes) = .ok decoded := by decide +kernel
  have hpush : (Macaroon.addFirstPartyCaveat Instances.backend [66]).call decoded =
      (.ok (), decoded.push Instances.backend (newFirstParty [66])) :=
    Macaroon.addFirstPartyCaveat_eq_ok.mpr ⟨by decide, by decide, rfl⟩
  exact reachable_within_limits Instances.backend Instances.base64 ⟨fun _ => .error "",
    fun _ => .error ""⟩ rebound Instances.backend_sealsKeysTo48
    (.bind decoded (.addFirstPartyCaveat (.deserializeBinary htoken) hpush))

end Libmacaroon
