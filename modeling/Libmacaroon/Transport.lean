import Libmacaroon.Attenuation
import Libmacaroon.V1RoundTrip
import Libmacaroon.V2JsonRoundTrip
import Libmacaroon.V2RoundTrip

/-! Macaroons on their way between programs. A holder attenuates or binds a macaroon, writes it in
one of the formats, and the next holder reads the token on a machine of another word size. -/
namespace Libmacaroon
open Checked Utf8
variable {B : Backend} {E : Base64Crate} {J : V2Json.SerdeJson} {w : Width} {m m' : Macaroon}

/-- What a format can carry of a macaroon within the limits. -/
def Format.Carries : Format → Macaroon → Prop
  | .V1, m => ∀ p ∈ V1.contentPackets m, p.size ≤ V1.maxPacketSize
  | .V2, _ => True
  | .V2JSON, m => ∀ c ∈ m.caveats, ∀ b ∈ V2Json.base64Fields c, b ≠ []

/-- `serialize` here, `deserialize` there. -/
def transport (E : Base64Crate) (J : V2Json.SerdeJson) (format : Format) (w : Width)
    (m : Macaroon) : Result Macaroon := do
  let token ← m.serialize E J format
  Macaroon.deserialize E J w (asBytes token)

theorem transport_v1_eq_ok (hE : E.Lawful) (hm : m.WithinLimits) :
    transport E J .V1 w m = .ok m' ↔ Format.V1.Carries m ∧ m' = m := by
  have hid : m.identifier ≠ [] := List.length_pos_iff.mp hm.identifier_pos
  have hread {data : Bytes} (hdata : V1.serializeBinary m = .ok data) :
      Macaroon.deserialize E J w (asBytes (E.URL_SAFE.encode data)) = .ok m := by
    have hbinary := V1.deserializeBinary_serializeBinary (w := w) hid hm.caveats_le hdata
    have hne : data ≠ [] := by
      rintro rfl
      simp [Macaroon.deserializeBinary, rejectIf, failIf] at hbinary
    simpa [Macaroon.deserialize_encode hE hne, hbinary] using hid
  simp only [transport, Macaroon.serialize, bind_eq_ok, pure_eq_ok]
  constructor
  · intro h
    obtain ⟨_, ⟨data, hdata, rfl⟩, hok⟩ := h
    rw [hread hdata] at hok
    exact ⟨(V1.serializeBinary_eq_ok.mp hdata).1, (Except.ok.inj hok).symm⟩
  · intro h
    obtain ⟨hfits, rfl⟩ := h
    have hdata := V1.serializeBinary_eq_ok.mpr ⟨hfits, rfl⟩
    exact ⟨_, ⟨_, hdata, rfl⟩, hread hdata⟩

theorem transport_v2_eq_ok (hE : E.Lawful) (hm : m.WithinLimits) :
    transport E J .V2 w m = .ok m' ↔ Format.V2.Carries m ∧ m' = m := by
  obtain ⟨data, hdata⟩ : ∃ data, V2.serializeBinary m = .ok data := ⟨_, rfl⟩
  have hid : m.identifier ≠ [] := List.length_pos_iff.mp hm.identifier_pos
  have hbinary := V2.deserializeBinary_serializeBinary (w := w) hm hdata
  have hne : data ≠ [] := by
    rintro rfl
    simp [Macaroon.deserializeBinary, rejectIf, failIf] at hbinary
  have hrun : transport E J .V2 w m = .ok m := by
    simpa [transport, Macaroon.serialize, hdata, Macaroon.deserialize_encode hE hne, hbinary]
      using hid
  simp [hrun, Format.Carries, eq_comm]

theorem transport_v2Json_eq_ok (hE : E.Lawful) (hm : m.WithinLimits)
    (hJ : J.Carries (V2Json.writtenFields E m)) :
    transport E J .V2JSON w m = .ok m' ↔ Format.V2JSON.Carries m ∧ m' = m := by
  obtain ⟨text, hwrite, htext, hcarry⟩ := hJ
  have hid : m.identifier ≠ [] := List.length_pos_iff.mp hm.identifier_pos
  have hserialize : m.serialize E J .V2JSON = .ok text := by
    simp only [Macaroon.serialize, V2Json.serialize, V2Json.fromMacaroon, ok_bind]
    simp only [V2Json.writtenFields, V2Json.fromMacaroon] at hwrite
    rw [hwrite]
  simp only [transport, hserialize, ok_bind, V2Json.deserialize_text htext, V2Json.deserialize,
    V2Json.readSerialization, hcarry, bind_eq_ok, V2Json.deserialize_writtenFields_eq_ok hE hid,
    Macaroon.validate_eq_ok]
  constructor
  · intro h
    obtain ⟨_, ⟨ser, ⟨hne, hser⟩, hjson⟩, _, rfl⟩ := h
    rw [V2Json.fromJson_fromMacaroon hE hm hser] at hjson
    exact ⟨hne, (Except.ok.inj hjson).symm⟩
  · intro h
    obtain ⟨hne, rfl⟩ := h
    exact ⟨_, ⟨_, ⟨hne, rfl⟩, V2Json.fromJson_fromMacaroon hE hm rfl⟩, hid, rfl⟩

/-- A format carries a macaroon unchanged or not at all. -/
theorem transport_eq_ok {format : Format} (hE : E.Lawful) (hm : m.WithinLimits)
    (hJ : format = .V2JSON → J.Carries (V2Json.writtenFields E m)) :
    transport E J format w m = .ok m' ↔ format.Carries m ∧ m' = m := by
  cases format with
  | V1 => exact transport_v1_eq_ok hE hm
  | V2 => exact transport_v2_eq_ok hE hm
  | V2JSON => exact transport_v2Json_eq_ok hE hm (hJ rfl)

/-- What happens to a macaroon on its way: a call of its holder, or a hop to the next one. -/
inductive Leg where
  | add (call : AddCall)
  | bind (root : Macaroon)
  | send (format : Format) (w : Width)

section Legs
variable (B E J)

/-- What a leg does to the macaroon if hops change nothing. -/
def Leg.act (m : Macaroon) : Leg → Macaroon
  | .add call => ((call.run B).call m).2
  | .bind root => root.bind B m
  | .send _ _ => m

def Leg.run (m : Macaroon) : Leg → Result Macaroon
  | .add call => .ok ((call.run B).call m).2
  | .bind root => .ok (root.bind B m)
  | .send format w => transport E J format w m

/-- What a leg asks of the macaroon it meets. -/
def Leg.Carries (m : Macaroon) : Leg → Prop
  | .send format _ => format.Carries m
  | _ => True

def relay (m : Macaroon) (legs : List Leg) : Result Macaroon := legs.foldlM (Leg.run B E J) m

end Legs

theorem Macaroon.WithinLimits.act (hB : B.SealsKeysTo48) (hm : m.WithinLimits) (leg : Leg) :
    (leg.act B m).WithinLimits := by
  cases leg with
  | add call =>
    cases hcall : (call.run B).call m with
    | mk r m' =>
      have hact : Leg.act B m (.add call) = m' := congrArg Prod.snd hcall
      rw [hact]
      cases r with
      | error e =>
        obtain ⟨rfl, _⟩ := AddCall.run_error hcall
        exact hm
      | ok u =>
        cases call with
        | firstParty predicate => exact hm.addFirstPartyCaveat hcall
        | thirdParty location key id rng => exact hm.addThirdPartyCaveat hB hcall
  | bind root => exact hm.bind
  | send format w => exact hm

theorem Macaroon.WithinLimits.acts (hB : B.SealsKeysTo48) (hm : m.WithinLimits)
    (legs : List Leg) : (legs.foldl (Leg.act B) m).WithinLimits := by
  induction legs generalizing m with
  | nil => exact hm
  | cons leg legs ih => exact ih (hm.act hB leg)

/-- A macaroon that goes from holder to holder in any formats arrives as what the holders' own calls
make of it, exactly when every hop could carry the macaroon it met. -/
theorem relay_exact (B : Backend) (E : Base64Crate) (J : V2Json.SerdeJson) (m m' : Macaroon)
    (legs : List Leg) (hB : B.SealsKeysTo48) (hE : E.Lawful) (hm : m.WithinLimits)
    (hJ : ∀ before w after, legs = before ++ .send .V2JSON w :: after →
      J.Carries (V2Json.writtenFields E (before.foldl (Leg.act B) m))) :
    relay B E J m legs = .ok m' ↔ m' = legs.foldl (Leg.act B) m ∧
      ∀ before format w after, legs = before ++ .send format w :: after →
        format.Carries (before.foldl (Leg.act B) m) := by
  have hrun : relay B E J m legs = .ok m' ↔ m' = legs.foldl (Leg.act B) m ∧
      ∀ before leg after, legs = before ++ leg :: after →
        leg.Carries (before.foldl (Leg.act B) m) := by
    refine foldlM_guarded fun before leg after hsplit t => ?_
    cases leg with
    | add call => simp [Leg.run, Leg.Carries, Leg.act, eq_comm]
    | bind root => simp [Leg.run, Leg.Carries, Leg.act, eq_comm]
    | send format w =>
      refine transport_eq_ok hE (hm.acts hB before) ?_
      rintro rfl
      exact hJ before w after hsplit
  rw [hrun]
  refine and_congr_right fun _ => ⟨fun hall before format w after hsplit => ?_, ?_⟩
  · exact hall before (.send format w) after hsplit
  · intro hall before leg after hsplit
    cases leg with
    | send format w => exact hall before format w after hsplit
    | _ => trivial

/- Attenuated, sent as JSON to a 32-bit machine, bound there and sent on as packets. -/
def journey : List Leg :=
  [.add (.firstParty [66]), .send .V2JSON .w32, .bind Instances.delegated, .send .V1 .w64]

theorem journey_sends {before after : List Leg} {format : Format} {w : Width}
    (h : journey = before ++ .send format w :: after) :
    (format = .V2JSON ∧ before = [.add (.firstParty [66])]) ∨
      (format = .V1 ∧ before =
        [.add (.firstParty [66]), .send .V2JSON .w32, .bind Instances.delegated]) := by
  obtain _ | ⟨first, _ | ⟨second, _ | ⟨third, _ | ⟨fourth, rest⟩⟩⟩⟩ := before
  all_goals simp_all [journey]

theorem relay_exact_journey :
    relay Instances.backend Instances.base64 (Instances.json (V2Json.writtenFields Instances.base64
        (Leg.act Instances.backend Instances.created (.add (.firstParty [66])))))
      Instances.created journey =
        .ok (journey.foldl (Leg.act Instances.backend) Instances.created) := by
  refine (relay_exact _ _ _ _ _ _ Instances.backend_sealsKeysTo48 Instances.base64_lawful
    (by decide +kernel) fun before w after hsplit => ?_).mpr
    ⟨rfl, fun before format w after hsplit => ?_⟩
  · obtain ⟨_, rfl⟩ | ⟨h, _⟩ := journey_sends hsplit
    · exact V2Json.json_carries (by decide +kernel)
    · cases h
  · obtain ⟨rfl, rfl⟩ | ⟨rfl, rfl⟩ := journey_sends hsplit
    · show ∀ c ∈ _, ∀ b ∈ _, b ≠ []
      decide +kernel
    · show ∀ p ∈ _, _ ≤ _
      decide +kernel

end Libmacaroon
