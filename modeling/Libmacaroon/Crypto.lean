import Libmacaroon.Error

/-! Keys and the cryptographic operations (`crypto/mod.rs`, `crypto/rustcrypto.rs`). HMAC-SHA256 and
XSalsa20-Poly1305 come from other crates, so they are fields of a backend the model is over. -/
namespace Libmacaroon
open Checked

/-- A 32-byte key or signature. -/
structure MacaroonKey where
  bytes : Bytes
  length_eq : bytes.length = 32
deriving DecidableEq

structure Nonce where
  bytes : Bytes
  length_eq : bytes.length = 24
deriving DecidableEq

/-- The primitives of the `hmac`, `sha2` and `crypto_secretbox` crates. -/
structure Backend where
  hmacSha256 : MacaroonKey → Bytes → MacaroonKey
  encrypt : MacaroonKey → Nonce → Bytes → Option Bytes
  decrypt : MacaroonKey → Nonce → Bytes → Option Bytes

def zeroKey : MacaroonKey := ⟨List.replicate 32 0, by simp⟩

variable (B : Backend)

def hmac (key : MacaroonKey) (text : Bytes) : MacaroonKey := B.hmacSha256 key text

def hmac2 (key : MacaroonKey) (text1 text2 : Bytes) : MacaroonKey :=
  let tmp1 := hmac B key text1
  let tmp2 := hmac B key text2
  B.hmacSha256 key (tmp1.bytes ++ tmp2.bytes)

/- `b"macaroons-key-generator"` and nine zero bytes. -/
def KEY_GENERATOR : MacaroonKey :=
  ⟨Utf8.asBytes "macaroons-key-generator" ++ List.replicate 9 0, by decide +kernel⟩

def generateDerivedKey (key : Bytes) : MacaroonKey := hmac B KEY_GENERATOR key

def MacaroonKey.generate (seed : Bytes) : MacaroonKey := generateDerivedKey B seed

/-- One HMAC evaluation: its key and its text. -/
abbrev Evaluation := MacaroonKey × Bytes

/-- The system's random source: the nonce it yields, or nothing when it fails. -/
abbrev Rng := Option Nonce

def fillRandom (rng : Rng) : Result Nonce :=
  match rng with
  | some nonce => .ok nonce
  | none => .err (.rngError "getrandom failed")

def encryptKey (key plaintext : MacaroonKey) (rng : Rng) : Result Bytes := do
  let nonce ← fillRandom rng
  match B.encrypt key nonce plaintext.bytes with
  | some ciphertext => .ok (nonce.bytes ++ ciphertext)
  | none => .err (.cryptoError "encryption failed")

def nonceSize : Nat := 24
def tagSize : Nat := 16

def decryptKey (key : MacaroonKey) (data : Bytes) : Result MacaroonKey :=
  if h : data.length < nonceSize + tagSize then
    .err (.cryptoError "encrypted data too short")
  else
    let nonce : Nonce := ⟨data.take nonceSize, by
      simp only [List.length_take, nonceSize, tagSize] at *; omega⟩
    let ciphertext := data.drop nonceSize
    match B.decrypt key nonce ciphertext with
    | some plaintext =>
      if h : plaintext.length = 32 then .ok ⟨plaintext, h⟩
      else .err (.cryptoError "decrypted key has wrong length (expected 32 bytes)")
    | none => .err (.cryptoError "failed to decrypt ciphertext")

end Libmacaroon
