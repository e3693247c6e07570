import Libmacaroon.Serialization.MacaroonBuilder

/-! The V1 packet format (`serialization/v1.rs`). -/
namespace Libmacaroon.V1
open Checked Utf8

def LOCATION : String := "location"
def IDENTIFIER : String := "identifier"
def SIGNATURE : String := "signature"
def CID : String := "cid"
def VID : String := "vid"
def CL : String := "cl"

def headerSize : Nat := 4

def maxPacketSize : Nat := 0xFFFF

/-- `b"0123456789abcdef"[i]`, for `i` below 16. -/
def hexDigit (i : Nat) : UInt8 := UInt8.ofNat (if i < 10 then 48 + i else 87 + i)

def packetHeader (size : Nat) : Bytes :=
  [hexDigit ((size >>> 12) &&& 15), hexDigit ((size >>> 8) &&& 15),
    hexDigit ((size >>> 4) &&& 15), hexDigit (size &&& 15)]

def serializeAsPacket (tag : String) (value : Bytes) : Result Bytes := do
  let size := headerSize + 2 + (asBytes tag).length + value.length
  failIf (size > maxPacketSize) (.fieldTooLarge "v1 packet" size)
  return packetHeader size ++ asBytes tag ++ [32] ++ value ++ [10]

def serializeLocation : Option String → Result Bytes
  | some location => serializeAsPacket LOCATION (asBytes location)
  | none => .ok []

def serializeCaveat : Caveat → Result Bytes
  | .firstParty fp => serializeAsPacket CID fp.predicate
  | .thirdParty tp => do
    let cid ← serializeAsPacket CID tp.id
    let vid ← serializeAsPacket VID tp.verifierId
    let cl ← serializeAsPacket CL (asBytes tp.location)
    return cid ++ vid ++ cl

def serializeCaveats : List Caveat → Result Bytes
  | [] => .ok []
  | c :: cs => do
    let packets ← serializeCaveat c
    let rest ← serializeCaveats cs
    return packets ++ rest

def serializeBinary (macaroon : Macaroon) : Result Bytes := do
  let location ← serializeLocation macaroon.location
  let identifier ← serializeAsPacket IDENTIFIER macaroon.identifier
  let caveats ← serializeCaveats macaroon.caveats
  let signature ← serializeAsPacket SIGNATURE macaroon.signature.bytes
  return location ++ identifier ++ caveats ++ signature

structure Packet where
  key : String
  value : Bytes
deriving DecidableEq

/-- The value of a digit in base 16. -/
def digitValue (c : UInt8) : Option Nat :=
  if 48 ≤ c ∧ c ≤ 57 then some (c.toNat - 48)
  else if 97 ≤ c ∧ c ≤ 102 then some (c.toNat - 87)
  else if 65 ≤ c ∧ c ≤ 70 then some (c.toNat - 55)
  else none

def digitsValue (w : Width) : Bytes → Nat → Except IntErrorKind Nat
  | [], acc => .ok acc
  | c :: cs, acc =>
    match digitValue c with
    | none => .error .invalidDigit
    | some d => if acc * 16 + d < 2 ^ w.bits then digitsValue w cs (acc * 16 + d)
      else .error .posOverflow

/-- `usize::from_str_radix(s, 16)`: one leading `+` is allowed. -/
def fromStrRadix16 (w : Width) (s : Bytes) : Except IntErrorKind Nat :=
  match s with
  | [] => .error .empty
  | [c] => if c = 43 ∨ c = 45 then .error .invalidDigit else digitsValue w [c] 0
  | c :: cs => if c = 43 then digitsValue w cs 0 else digitsValue w (c :: cs) 0

def parseHex (w : Width) (hex : String) : Result Nat :=
  match fromStrRadix16 w (asBytes hex) with
  | .ok n => .ok n
  | .error kind => .fromForeign (.parseInt kind)

def splitIndex (packet : Bytes) : Result Nat :=
  match packet.findIdx? (· == 32) with
  | some index => .ok index
  | none => deserializationError "Key/value error"

/-- One pass of the packet loop: the packet at the start of `remaining`, and what follows it. -/
def readPacket (w : Width) (remaining : Bytes) : Result (Packet × Bytes) := do
  rejectIf (remaining.length < 4) "packet chunk too small to decode"
  let hex ← strFromUtf8 (← slice remaining 0 4)
  let size ← parseHex w hex
  rejectIf (size > remaining.length) "packet chunk size larger than token"
  rejectIf (size ≤ 4) "packet chunk size too small"
  let packetData ← slice remaining 4 size
  let index ← splitIndex packetData
  let keySlice ← slice packetData 0 index
  let valueSlice ← slice packetData index packetData.length
  rejectIf (valueSlice.length < 2) "packet value size too small"
  let valueLen ← sub valueSlice.length 2
  checkFieldSize "v1 packet" valueLen
  let key ← strFromUtf8 keySlice
  let value ← slice valueSlice 1 (← sub valueSlice.length 1)
  let rest ← slice remaining size remaining.length
  return (⟨key, value⟩, rest)

theorem readPacket_length {w : Width} {remaining rest : Bytes} {packet : Packet}
    (h : readPacket w remaining = .ok (packet, rest)) : rest.length < remaining.length := by
  simp only [readPacket, bind_eq_ok, rejectIf_eq_ok, slice_eq_ok, pure_eq_ok, Prod.mk.injEq] at h
  obtain ⟨_, hlen, _, _, _, _, size, _, _, _, _, hsize, _, _, _, _, _, _, _, _, _, _, _, _, _, _,
    _, _, _, _, _, _, _, ⟨_, _, rfl⟩, _, rfl⟩ := h
  simp only [List.length_drop, List.take_length]
  omega

def deserializeAsPackets (w : Width) (remaining : Bytes) : Result (List Packet) :=
  if remaining = [] then .ok []
  else
    match _h : readPacket w remaining with
    | .error e => .error e
    | .ok (packet, rest) => do
      let packets ← deserializeAsPackets w rest
      return packet :: packets
termination_by remaining.length
decreasing_by exact readPacket_length _h

/-- The variables of the assembly loop. -/
structure Assembly where
  builder : MacaroonBuilder
  caveatBuilder : CaveatBuilder
  seenLocation : Bool
  seenIdentifier : Bool
  seenSignature : Bool

namespace Assembly

def new : Assembly := ⟨.new, .new, false, false, false⟩

/- `if caveat_builder.has_id()`: hand the open caveat to the builder and start a new one. -/
def flushCaveat (a : Assembly) : Result Assembly :=
  if a.caveatBuilder.hasId then do
    let caveat ← a.caveatBuilder.build
    let builder ← a.builder.addCaveat caveat
    return { a with builder := builder, caveatBuilder := .new }
  else .ok a

def onLocation (a : Assembly) (value : Bytes) : Result Assembly := do
  rejectIf a.seenLocation "duplicate location packet"
  let location ← strFromUtf8 value
  return { a with builder := a.builder.setLocation location, seenLocation := true }

def onIdentifier (a : Assembly) (value : Bytes) : Result Assembly := do
  rejectIf a.seenIdentifier "duplicate identifier packet"
  return { a with builder := a.builder.setIdentifier value, seenIdentifier := true }

def onSignature (a : Assembly) (value : Bytes) : Result Assembly := do
  let a ← { a with seenSignature := true }.flushCaveat
  rejectIf (value.length ≠ 32) "Illegal signature length in packet"
  let builder ← a.builder.setSignature value
  return { a with builder := builder }

def onCid (a : Assembly) (value : Bytes) : Result Assembly := do
  let a ← a.flushCaveat
  return { a with caveatBuilder := a.caveatBuilder.addId value }

def onVid (a : Assembly) (value : Bytes) : Result Assembly := do
  rejectIf a.caveatBuilder.hasVerifierId "duplicate vid packet in caveat"
  return { a with caveatBuilder := a.caveatBuilder.addVerifierId value }

def onCl (a : Assembly) (value : Bytes) : Result Assembly := do
  rejectIf a.caveatBuilder.hasLocation "duplicate cl packet in caveat"
  let location ← strFromUtf8 value
  return { a with caveatBuilder := a.caveatBuilder.addLocation location }

def step (a : Assembly) (packet : Packet) : Result Assembly := do
  rejectIf a.seenSignature "packet found after signature"
  if packet.key = LOCATION then a.onLocation packet.value
  else if packet.key = IDENTIFIER then a.onIdentifier packet.value
  else if packet.key = SIGNATURE then a.onSignature packet.value
  else if packet.key = CID then a.onCid packet.value
  else if packet.key = VID then a.onVid packet.value
  else if packet.key = CL then a.onCl packet.value
  else deserializationError "Unknown key"

end Assembly

def deserialize (w : Width) (data : Bytes) : Result Macaroon := do
  let packets ← deserializeAsPackets w data
  let assembly ← packets.foldlM Assembly.step Assembly.new
  assembly.builder.build

end Libmacaroon.V1
