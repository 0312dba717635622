import Pkzz.Lib.Percent
import Pkzz.Lib.Scan
import Pkzz.Lib.Utf8
import Pkzz.Pairing.Session

/-!
# The QR code of a pairing

The `nostrpair://` URI that the source shows and the target scans: what `encode_qr` writes and what
`decode_qr` makes of any text. The key and the URL crate, and how Rust prints a text for a message,
are parameters (`Crates`).
-/

namespace Pkzz.Pairing

open Pkzz.Core Pkzz.Lib

/-- What is read of a `url::Url`. -/
structure Url where
  scheme : String
  host : Option String
  deriving DecidableEq

structure QrCrates where
  /-- `PublicKey::from_hex`. -/
  publicKeyFromHex : String → Except String PublicKey
  /-- `url::Url::parse`. -/
  urlParse : String → Except String Url
  /-- `{:?}` of a text. -/
  debug : String → String
  /-- What `hex::decode` says of a text that it does not decode. -/
  hexError : String → String

/-! ## The pieces of the URI -/

def qrScheme : String := "nostrpair://"

/-- The bound of NIP-AB on the octets of a URI. -/
def maxUriLen : Nat := 2048

/-- What `NON_ALPHANUMERIC` leaves out. -/
def isAsciiAlphanumeric (b : UInt8) : Bool :=
  (48 ≤ b && b ≤ 57) || (65 ≤ b && b ≤ 90) || (97 ≤ b && b ≤ 122)

def urlEncode (s : String) : String :=
  Str.ofAscii (Percent.encode isAsciiAlphanumeric (Str.asBytes s))

def urlDecode (s : String) : String := Str.fromUtf8Lossy (Percent.decode (Str.asBytes s))

def isLowercaseHex (c : Char) : Bool := c.isDigit || ('a' ≤ c && c ≤ 'f')

/-- `str::split_once`. -/
def splitOnce (s : String) (c : Char) : Option (String × String) :=
  (splitFirst [c] s.toList).map fun p => (String.ofList p.1, String.ofList p.2)

/-- The number that decimal digits denote, perhaps behind a `+`. -/
def numeral (s : String) : Option Nat :=
  let digits :=
    match s.toList with
    | '+' :: ds => ds
    | ds => ds
  if digits.isEmpty || !digits.all Char.isDigit then none
  else some (digits.foldl (fun n d => 10 * n + (d.toNat - 48)) 0)

/-- `str::parse::<u32>`. -/
def parseU32 (s : String) : Option Nat := (numeral s).filter fun n => n < 2 ^ 32

/-! ## `encode_qr` -/

/-- What the loop over the relays appends. -/
def relayPart (relay : String) : String := "&relay=" ++ urlEncode relay

def encodeQr (payload : QrPayload) : String :=
  let uri := qrScheme ++ payload.sourcePubkey.toHex ++ "?secret=" ++ payload.sessionSecret.toHex
  payload.relays.foldl (fun uri relay => uri ++ relayPart relay) uri ++ "&v=1"

/-! ## `decode_qr` -/

/-- What the loop over the query has found. -/
structure Found where
  secretHex : Option String
  relays : List String
  version : Option Nat
  deriving DecidableEq

def Found.read (found : Found) (pair : String) : Found :=
  match splitOnce pair '=' with
  | some (key, value) =>
    if key = "secret" then { found with secretHex := some value }
    else if key = "relay" then { found with relays := found.relays ++ [urlDecode value] }
    else if key = "v" then { found with version := parseU32 value }
    else found
  | none => found

def readQuery (query : String) : Found :=
  (Str.split query '&').foldl Found.read { secretHex := none, relays := [], version := none }

variable (crates : QrCrates)

def readPubkey (pubkeyHex : String) : Except PairingError PublicKey :=
  if Str.len pubkeyHex ≠ 64 || !pubkeyHex.toList.all isLowercaseHex then
    .error (.invalidQr ("pubkey must be 64 lowercase hex chars, got " ++ crates.debug pubkeyHex))
  else
    match crates.publicKeyFromHex pubkeyHex with
    | .ok key => .ok key
    | .error e => .error (.invalidQr ("invalid pubkey: " ++ e))

def readVersion (version : Option Nat) : Except PairingError Nat :=
  let version := version.getD 1
  if version ≠ 1 then
    .error (.invalidQr ("unsupported protocol version " ++ version.repr ++ ", expected 1"))
  else .ok version

def readSecret (secretHex : Option String) : Except PairingError (FixedBytes 32) :=
  match secretHex with
  | none => .error (.invalidQr "missing 'secret' query parameter")
  | some secretStr =>
    if Str.len secretStr ≠ 64 || !secretStr.toList.all isLowercaseHex then
      .error (.invalidQr ("secret must be 64 lowercase hex chars, got " ++ crates.debug secretStr))
    else
      match decodeHex secretStr.toList with
      | none => .error (.invalidQr ("invalid secret hex: " ++ crates.hexError secretStr))
      | some bytes =>
        if h : bytes.length = 32 then
          if bytes = List.replicate 32 0 then
            .error (.invalidQr "session_secret must not be all zeros")
          else .ok ⟨bytes, h⟩
        else .error (.invalidQr "secret must be exactly 32 bytes")

def checkRelay (relay : String) : Except PairingError Unit :=
  match crates.urlParse relay with
  | .error e => .error (.invalidQr ("invalid relay URL " ++ crates.debug relay ++ ": " ++ e))
  | .ok url =>
    if url.scheme ≠ "wss" ∧ url.scheme ≠ "ws" then
      .error (.invalidQr ("relay URL must use wss:// or ws:// scheme, got " ++
        crates.debug url.scheme))
    else if url.host = none then
      .error (.invalidQr ("relay URL has no host: " ++ crates.debug relay))
    else .ok ()

def checkRelays : List String → Except PairingError Unit
  | [] => .ok ()
  | relay :: relays =>
    match checkRelay crates relay with
    | .ok () => checkRelays relays
    | .error e => .error e

def decodeQr (uri : String) : Except PairingError QrPayload := do
  if Str.len uri > maxUriLen then
    throw (.invalidQr ("URI exceeds 2048-character limit (" ++ (Str.len uri).repr ++ " chars)"))
  match Str.stripPrefix uri qrScheme with
  | none => throw (.invalidQr "URI must start with nostrpair://")
  | some rest =>
    match splitOnce rest '?' with
    | none => throw (.invalidQr "missing query string (expected ?secret=…&relay=…)")
    | some (pubkeyHex, query) =>
      let sourcePubkey ← readPubkey crates pubkeyHex
      let found := readQuery query
      let version ← readVersion found.version
      let sessionSecret ← readSecret crates found.secretHex
      if found.relays = [] then
        throw (.invalidQr "at least one 'relay' query parameter is required")
      checkRelays crates found.relays
      pure { version, sourcePubkey, sessionSecret, relays := found.relays }

end Pkzz.Pairing
