import Libmacaroon.Serialization.V2Json
import Libmacaroon.Signature

/-! Concrete primitives to run the model on: base64 as the RFC has it, and a small keyed hash with
an authenticated seal made from it. -/
namespace Libmacaroon.Instances
open Checked Utf8

def engine (A : Base64.Alphabet) (padded : Bool) : Base64Engine where
  encode b := ofAscii (Base64.encode A padded b)
  decode text :=
    match Base64.decode A text with
    | some b => .ok b
    | none => .error "Invalid padding"

def base64 : Base64Crate where
  STANDARD := engine Base64.standard true
  URL_SAFE := engine Base64.urlSafe true
  URL_SAFE_NO_PAD := engine Base64.urlSafe false

theorem engine_implements {A : Base64.Alphabet} (padded : Bool) (hA : ∀ s, A.symbol s < 123) :
    (engine A padded).Implements A padded := by
  constructor
  · intro b
    refine asBytes_ofAscii fun c hc => ?_
    obtain rfl | ⟨s, rfl⟩ := Base64.mem_encode hc
    · decide
    · exact UInt8.lt_trans (hA s) (by decide)
  · intro padded' b
    simp [engine, Base64.decode_encode]

theorem base64_lawful : base64.Lawful :=
  ⟨engine_implements true Base64.standard_lt, engine_implements true Base64.urlSafe_lt,
    engine_implements false Base64.urlSafe_lt⟩

/- A polynomial hash to 32 bytes. -/
def digest (text : Bytes) : Nat :=
  text.foldl (fun acc b => (acc * 65599 + b.toNat + 1) % (2 ^ 256 - 189)) 7

def ofNat (n : Nat) : MacaroonKey :=
  ⟨(List.range 32).map fun i => UInt8.ofNat (n / 256 ^ i), by simp⟩

def keyedHash (key : MacaroonKey) (text : Bytes) : MacaroonKey := ofNat (digest (key.bytes ++ text))

def tag (key : MacaroonKey) (nonce : Nonce) (plaintext : Bytes) : Bytes :=
  (keyedHash key (nonce.bytes ++ plaintext)).bytes.take 16

def backend : Backend where
  hmacSha256 := keyedHash
  encrypt key nonce plaintext := some (tag key nonce plaintext ++ plaintext)
  decrypt key nonce ciphertext :=
    if tag key nonce (ciphertext.drop 16) = ciphertext.take 16 then some (ciphertext.drop 16)
    else none

theorem tag_length (key : MacaroonKey) (nonce : Nonce) (plaintext : Bytes) :
    (tag key nonce plaintext).length = 16 := by
  rw [tag, List.length_take, (keyedHash key (nonce.bytes ++ plaintext)).length_eq]
  rfl

/-- What is sealed is opened again under the same key and nonce. -/
theorem backend_decrypt_encrypt (key : MacaroonKey) (nonce : Nonce) (plaintext : Bytes) :
    backend.encrypt key nonce plaintext >>= backend.decrypt key nonce = some plaintext := by
  have htag := tag_length key nonce plaintext
  have hdrop : (tag key nonce plaintext ++ plaintext).drop 16 = plaintext := List.drop_left' htag
  have htake : (tag key nonce plaintext ++ plaintext).take 16 = tag key nonce plaintext :=
    List.take_left' htag
  simp [backend, hdrop, htake]

theorem backend_sealsKeysTo48 : backend.SealsKeysTo48 := by
  intro key nonce plaintext ciphertext hlen h
  cases h
  rw [List.length_append, tag_length, hlen]

/- JSON text as `serde_json` prints it, for strings that need no escape. -/
def jsonOption (value : Option String) : String :=
  match value with
  | some s => "\"" ++ s ++ "\""
  | none => "null"

def jsonCaveat (c : V2Json.CaveatFields String) : String :=
  "\x7b\"i\":" ++ jsonOption c.i ++ ",\"i64\":" ++ jsonOption c.i64 ++ ",\"l\":" ++
    jsonOption c.l ++ ",\"l64\":" ++ jsonOption c.l64 ++ ",\"v\":" ++ jsonOption c.v ++
    ",\"v64\":" ++ jsonOption c.v64 ++ "\x7d"

def jsonBytes (value : Option Bytes) : String :=
  match value with
  | some b => "[" ++ String.intercalate "," (b.map fun x => toString x.toNat) ++ "]"
  | none => "null"

def jsonText (fields : V2Json.SerializationFields String) : String :=
  "\x7b\"v\":" ++ toString fields.v.toNat ++ ",\"i\":" ++ jsonOption fields.i ++ ",\"i64\":" ++
    jsonOption fields.i64 ++ ",\"l\":" ++ jsonOption fields.l ++ ",\"l64\":" ++
    jsonOption fields.l64 ++ ",\"c\":[" ++ String.intercalate "," (fields.c.map jsonCaveat) ++
    "],\"s\":" ++ jsonBytes fields.s ++ ",\"s64\":" ++ jsonOption fields.s64 ++ "\x7d"

/- `serde_json` on one value: any value is printed, and the text of `known` is read back. -/
def json (known : V2Json.SerializationFields String) : V2Json.SerdeJson where
  toString fields := .ok (jsonText fields)
  fromSlice data :=
    if data = asBytes (jsonText known) then .ok known else .error "expected value"

def nonce : Nonce := ⟨List.replicate 24 7, by simp⟩

/-- The caveat that `add_third_party_caveat` adds to `m` with this nonce. -/
def sealedCaveat (m : Macaroon) (key : MacaroonKey) (id : Bytes) : Caveat :=
  newThirdParty id (nonce.bytes ++ (tag m.signature nonce key.bytes ++ key.bytes)) "auth"

theorem addThirdPartyCaveat_sealed {m : Macaroon} {key : MacaroonKey} {id : Bytes}
    (hid : id.length ≤ maxFieldSizeBytes) (hlt : m.caveats.length < maxCaveats) :
    (Macaroon.addThirdPartyCaveat backend "auth" key id (some nonce)).call m =
      (.ok (), m.push backend (sealedCaveat m key id)) := by
  have hkey : encryptKey backend m.signature key (some nonce) =
      .ok (nonce.bytes ++ (tag m.signature nonce key.bytes ++ key.bytes)) := rfl
  exact Macaroon.addThirdPartyCaveat_eq_ok.mpr ⟨hid, by decide +kernel, hlt, _, hkey, rfl⟩

/- A macaroon with a caveat of each kind: its name and its predicate hold bytes that the formats
   use as separators. -/
def created : Macaroon := ⟨[32, 10, 0], some "", hmac backend zeroKey [32, 10, 0], []⟩

def attenuated : Macaroon := created.push backend (newFirstParty [99, 105, 100, 32, 97, 10])

def delegated : Macaroon := attenuated.push backend (sealedCaveat attenuated zeroKey [255])

theorem created_minted : Minted backend zeroKey [] [] created := by
  have hcreate : Macaroon.create backend (some "") zeroKey [32, 10, 0] = .ok created :=
    Macaroon.create_eq_ok.mpr (by decide +kernel)
  exact .create hcreate

theorem delegated_minted :
    Minted backend zeroKey [[99, 105, 100, 32, 97, 10]] [([255], zeroKey)] delegated := by
  have hattenuated : Minted backend zeroKey [[99, 105, 100, 32, 97, 10]] [] attenuated :=
    .addFirstPartyCaveat created_minted
      (Macaroon.addFirstPartyCaveat_eq_ok.mpr ⟨by decide, by decide, rfl⟩)
  exact .addThirdPartyCaveat hattenuated (addThirdPartyCaveat_sealed (by decide) (by decide))

end Libmacaroon.Instances
