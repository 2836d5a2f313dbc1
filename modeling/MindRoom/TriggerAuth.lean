import Mathlib.Data.String.Basic

/-! # Authentication of external triggers

The verification half of `external_triggers/auth.py`: a request is signed over its method, path,
timestamp, nonce and body hash, and is fresh for a replay window after its timestamp. The hash,
the encoding and the signature scheme are parameters; the checks, their order and their texts
are the source's.
-/

namespace MindRoom

def triggerVersion : String := "MINDROOM-TRIGGER-V1"

def ed25519PublicKeyBytes : Nat := 32

/-- The hashing, decoding and signature primitives a verification calls. -/
structure TriggerCrypto where
  /-- `hashlib.sha256(body).hexdigest()`. -/
  sha256 : List UInt8 → String
  /-- `base64.b64decode(value, validate=True)`. -/
  b64decode : String → Option (List UInt8)
  /-- `Ed25519PublicKey.from_public_bytes(key).verify(signature, payload)`. -/
  verifies : List UInt8 → List UInt8 → String → Bool

structure TriggerSignatureHeaders where
  keyId : String
  timestamp : String
  nonce : String
  signature : String
deriving DecidableEq

/-- The parts of a signed request the signature covers, beside the headers. -/
structure TriggerHttpRequest where
  method : String
  path : String
  body : List UInt8
deriving DecidableEq

/-! ## The timestamp -/

/-- A character the integer parser of the host strips from both ends of a header value. -/
def isHeaderSpace (c : Char) : Bool :=
  c = ' ' || ('\t' ≤ c && c ≤ '\r') || ('\x1c' ≤ c && c ≤ '\x1f') ||
    c = '\u0085' || c = '\u00a0'

/-- The value of decimal digits, with single underscores between them. -/
def decimalValue : Nat → List Char → Option Nat
  | value, [] => some value
  | value, c :: rest =>
    if c.isDigit then decimalValue (10 * value + (c.toNat - '0'.toNat)) rest
    else match c, rest with
      | '_', d :: rest' =>
        if d.isDigit then decimalValue (10 * value + (d.toNat - '0'.toNat)) rest' else none
      | _, _ => none

/-- The value of an unsigned numeral: it starts with a digit. -/
def unsignedValue : List Char → Option Nat
  | c :: rest => if c.isDigit then decimalValue 0 (c :: rest) else none
  | [] => none

/-- `_parse_timestamp`: `int(timestamp)`. -/
def parseTimestamp (timestamp : String) : Option Int :=
  let stripped := ((timestamp.toList.dropWhile isHeaderSpace).reverse.dropWhile isHeaderSpace).reverse
  match stripped with
  | '-' :: rest => (unsignedValue rest).map fun n => -(n : Int)
  | '+' :: rest => (unsignedValue rest).map (↑)
  | rest => (unsignedValue rest).map (↑)

/-! ## The request -/

def canonicalTriggerSigningPayload (crypto : TriggerCrypto) (request : TriggerHttpRequest)
    (timestamp nonce : String) : String :=
  triggerVersion ++ "\n" ++ request.method.toUpper ++ "\n" ++ request.path ++ "\n" ++
    timestamp ++ "\n" ++ nonce ++ "\n" ++ crypto.sha256 request.body

/-- Validate header values that are independent of configured key material. -/
def TriggerSignatureHeaders.validate (headers : TriggerSignatureHeaders) : Except String Unit :=
  if headers.nonce = "" then .error "trigger signature nonce must not be empty" else .ok ()

def decodeBase64 (crypto : TriggerCrypto) (value valueName : String) : Except String (List UInt8) :=
  match crypto.b64decode value with
  | some bytes => .ok bytes
  | none => .error ("invalid base64 trigger " ++ valueName)

/-- The timestamp's own check: it is no later than now and at most a replay window old. -/
def checkTimestamp (timestamp : String) (replayWindowSeconds now : Int) : Except String Unit :=
  match parseTimestamp timestamp with
  | none => .error "invalid trigger signature timestamp"
  | some signedAt =>
    if signedAt > now ∨ now - signedAt > replayWindowSeconds then
      .error "trigger signature timestamp outside replay window"
    else .ok ()

def verifyTriggerRequest (crypto : TriggerCrypto) (request : TriggerHttpRequest)
    (headers : TriggerSignatureHeaders) (expectedKeyId publicKeyB64 : String)
    (replayWindowSeconds now : Int) : Except String Unit := do
  headers.validate
  if headers.keyId ≠ expectedKeyId then
    throw "trigger signature key id does not match configured key id"
  checkTimestamp headers.timestamp replayWindowSeconds now
  let publicKeyBytes ← decodeBase64 crypto publicKeyB64 "public key"
  if publicKeyBytes.length ≠ ed25519PublicKeyBytes then
    throw "invalid Ed25519 public key length"
  let signature ← decodeBase64 crypto headers.signature "signature"
  let payload := canonicalTriggerSigningPayload crypto request headers.timestamp headers.nonce
  if crypto.verifies publicKeyBytes signature payload = false then
    throw "trigger signature verification failed"

/-- A verified request was signed at a time the window around now covers. -/
theorem fresh_of_checkTimestamp {timestamp : String} {window now : Int}
    (h : checkTimestamp timestamp window now = .ok ()) :
    ∃ signedAt, parseTimestamp timestamp = some signedAt ∧ signedAt ≤ now ∧ now ≤ signedAt + window := by
  unfold checkTimestamp at h
  cases hparse : parseTimestamp timestamp with
  | none =>
    simp only [hparse] at h
    cases h
  | some signedAt =>
    simp only [hparse] at h
    split at h
    · cases h
    · next hwindow =>
      refine ⟨signedAt, rfl, ?_, ?_⟩ <;> omega

theorem checkTimestamp_of_verify {crypto : TriggerCrypto} {request : TriggerHttpRequest}
    {headers : TriggerSignatureHeaders} {keyId publicKey : String} {window now : Int}
    (h : verifyTriggerRequest crypto request headers keyId publicKey window now = .ok ()) :
    checkTimestamp headers.timestamp window now = .ok () := by
  unfold verifyTriggerRequest at h
  cases hvalid : headers.validate with
  | error e =>
    rw [hvalid] at h
    cases h
  | ok _ =>
    rw [hvalid] at h
    cases hcheck : checkTimestamp headers.timestamp window now with
    | ok _ => rfl
    | error e =>
      by_cases hkey : headers.keyId = keyId
      · simp [hcheck, hkey, bind, Except.bind] at h
      · simp [hkey, bind, Except.bind] at h

end MindRoom
