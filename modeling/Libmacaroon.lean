import Libmacaroon.Library.Checked
import Libmacaroon.Library.Utf8
import Libmacaroon.Library.Base64
import Libmacaroon.Library.Cursor
import Libmacaroon.Library.KeyedChain
import Libmacaroon.Library.Forest
import Libmacaroon.Library.Traced
import Libmacaroon.Library.Completes
import Libmacaroon.Library.Respects
import Libmacaroon.Library.Raises
import Libmacaroon.Library.Separating
import Libmacaroon.Error
import Libmacaroon.Crypto
import Libmacaroon.Caveat
import Libmacaroon.Macaroon
import Libmacaroon.Limits
import Libmacaroon.Signature
import Libmacaroon.Attenuation
import Libmacaroon.Verifier
import Libmacaroon.DischargeSet
import Libmacaroon.VerifierSafety
import Libmacaroon.Serialization.MacaroonBuilder
import Libmacaroon.Serialization.V1
import Libmacaroon.Serialization.V2Fields
import Libmacaroon.Serialization.V2
import Libmacaroon.Serialization.Base64Flexible
import Libmacaroon.Serialization.V2Json
import Libmacaroon.Token
import Libmacaroon.Instances
import Libmacaroon.V2JsonDecoding
import Libmacaroon.V2Canonical
import Libmacaroon.V2FieldSize
import Libmacaroon.V2RoundTrip
import Libmacaroon.V2JsonRoundTrip
import Libmacaroon.V2JsonCanonicalForm
import Libmacaroon.V1Packets
import Libmacaroon.V1Assembly
import Libmacaroon.V1RoundTrip
import Libmacaroon.V1Accounting
import Libmacaroon.V1Lossless
import Libmacaroon.Reachable
import Libmacaroon.VerifierSpec
import Libmacaroon.MintVerify
import Libmacaroon.SignedContent
import Libmacaroon.VerifierTrace
import Libmacaroon.DischargeConsumption
import Libmacaroon.Resigned
import Libmacaroon.DischargeBinding
import Libmacaroon.DecodeSafety
import Libmacaroon.PrefixFree
import Libmacaroon.V1Framing
import Libmacaroon.DischargeExact
import Libmacaroon.DischargeOrder
import Libmacaroon.VerifierMonotone
import Libmacaroon.FlexibleDecoding
import Libmacaroon.KeySeparation
import Libmacaroon.Unforgeability
import Libmacaroon.DischargeSingleUse
import Libmacaroon.Narrowing
import Libmacaroon.DischargeInventory
import Libmacaroon.VerificationWork
import Libmacaroon.Locations
import Libmacaroon.Transport
import Libmacaroon.V1Grammar
import Libmacaroon.TokenLanguage
import Libmacaroon.V2JsonLanguage
import Libmacaroon.WordSize
import Libmacaroon.DecodedSize
import Libmacaroon.UnusedDischarges
import Libmacaroon.Authority
import Libmacaroon.Refusal
