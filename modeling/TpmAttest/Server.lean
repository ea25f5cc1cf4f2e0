import TpmAttest.Database
import TpmAttest.PythonBytes
import TpmAttest.ImaLog

/-! # The attestation server

The endpoints, as programs of the database's transactions.  What they consult
besides the database is in two records: the `Policy` of the environment variables,
and the `Platform`, whose members stand for the TPM tools, the X.509 parser and
Unicode's tables, and are left arbitrary.

A request comes with the values it will draw from the clock and the random
generators (`Env`).  An exception that leaves an endpoint is an HTTP 500.

`verifyReport` runs its checks in order and returns the first reason; each check
is a definition of its own.
-/
namespace TpmAttest

open Python Transactional Program

/-- The tools and tables the server calls. -/
structure Platform where
  /-- `tpm2_checkquote` on key, message, signature and nonce. -/
  checkquote : Bytes → Bytes → Bytes → String → Bool
  /-- The key that `tpm2_readpublic` writes, if it succeeds. -/
  readpublic : Option Bytes
  /-- Subject and issuer of a DER certificate, if the bytes parse as one. -/
  loadDerX509 : Bytes → Option (String × String)
  lowerTable : String → String
  printable : Char → Bool

/-- The environment variables. -/
structure Policy where
  strictEkVerification : Bool
  requirePcr7Pinning : Bool
  requireImaMinimumEntries : Int
deriving DecidableEq

/-- What a request draws from the clock, at its nonce and after its checks, and
from the random generators. -/
structure Env where
  now : DateTime
  later : DateTime
  token : String
  uuid : String

structure AttestationReport where
  version : String
  timestamp : String
  nonce : String
  pcrs : Dict
  imaSummary : ImaSummary
  imaMerkleRoot : String
  imaMerkleDepth : Nat
  imaLeafCount : Nat
  quoteAvailable : Bool
  quoteMsgB64 : Option String
  quoteSigB64 : Option String
  machineId : Option String

structure RegisterRequest where
  machineId : String
  akPubB64 : String
  ekCertB64 : Option String
deriving DecidableEq

/-- Why a report is rejected. -/
inductive Reason where
  | nonceNotRecognised
  | nonceExpired (delta : String)
  | quoteNotAvailable
  | quoteBlobsMissing
  | quoteSignatureFailed
  | noMachineId
  | machineNotRegistered (machineId : String)
  | machineNotVerified (machineId : String)
  | pcrMapEmpty
  | pcrAllZero (index : String)
  | noBootAggregate
  | rootLength (length : Nat)
  | rootNotHexadecimal (root : String)
  | noImaEntries
  | rootMismatch
  | pcr7Mismatch (expected got : String)
  | tooFewImaEntries (count : Nat) (minimum : Int)
deriving DecidableEq

/-- The text of the reason. -/
def Reason.text : Reason → String
  | nonceNotRecognised =>
    "Nonce not recognised — fetch a fresh challenge from GET /challenge before generating the report"
  | nonceExpired delta =>
    s!"Challenge nonce has expired ({delta}s ago) — fetch a new challenge from GET /challenge"
  | quoteNotAvailable => "TPM quote not available; attestation requires a provisioned key"
  | quoteBlobsMissing => "quote_available is true but quote blobs are missing"
  | quoteSignatureFailed => "quote signature verification failed"
  | noMachineId => "Strict EK verification enabled, but no machine_id supplied"
  | machineNotRegistered machineId => s!"machine_id {machineId} is not registered on this server"
  | machineNotVerified machineId =>
    s!"machine_id {machineId} does not have a verified hardware EK certificate"
  | pcrMapEmpty => "PCR map is empty"
  | pcrAllZero index => s!"PCR {index} is all-zero (unmeasured)"
  | noBootAggregate =>
    "IMA log does not contain boot_aggregate — PCR 10 integrity unconfirmed"
  | rootLength length =>
    s!"ima_merkle_root must be a 64-char hex string, got {length} chars"
  | rootNotHexadecimal root => s!"ima_merkle_root is not valid hexadecimal: {root}"
  | noImaEntries => "ima_leaf_count must be > 0; no IMA entries were measured"
  | rootMismatch => "IMA Merkle root mismatch — possible kernel module tampering"
  | pcr7Mismatch expected got =>
    s!"PCR 7 mismatch — custom Secure Boot key or MOK detected (expected {expected}..., got {got}...)"
  | tooFewImaEntries count minimum =>
    s!"IMA log has only {count} entries; minimum required is {minimum} (log may have been cleared or IMA disabled after boot)"

/-- The JSON responses. -/
inductive Response where
  | health
  | challenge (nonce : String) (expiresInSeconds : Nat)
  | registered (machineId : String) (ekVerified : Bool) (ekInfo : String)
  | registerRejected (reason : String)
  | valid (token expiresAt : String)
  | invalid (reason : Reason)
  | enrolled (imaRoot : String)
  | enrollRejected (reason : Reason)
deriving DecidableEq

/-- An optional text that is not empty: what `if s:` lets through. -/
def truthy (s : Option String) : Option String := s.filter (· ≠ "")

def tokenLifetimeMinutes : Nat := 5
def challengeLifetimeSeconds : Nat := 120

/-! ## Nonces -/

/-- `_issue_nonce`. -/
def issueNonce (env : Env) : ServerM String := do
  let expiresAt ← ofExcept (env.now.addSeconds challengeLifetimeSeconds)
  transaction (.insertNonce env.token expiresAt.isoformat)
  return env.token

/-- What `_consume_nonce` makes of the row that its transaction fetched. -/
def nonceVerdict (now : DateTime) : Option String → Except Exn (Option Reason)
  | none => .ok (some .nonceNotRecognised)
  | some expiresAt => do
    -- the row is gone by now, whatever its expiry says
    let expiry ← DateTime.fromisoformat expiresAt
    return if expiry < now then some (.nonceExpired (now.secondsAfter expiry)) else none

/-- `_consume_nonce`. -/
def consumeNonce (nonce : String) (now : DateTime) : ServerM (Option Reason) := do
  let row ← transaction (.consumeNonce nonce now)
  ofExcept (nonceVerdict now row)

/-! ## Machines and baselines -/

/-- `_get_enrolled_machine`. -/
def getEnrolledMachine (machineId : String) : ServerM (Option Machine) :=
  transaction (.selectMachine machineId)

/-- `_register_machine`. -/
def registerMachine (machineId akPubB64 : String) (ekCertB64 : Option String) (ekVerified : Bool)
    (env : Env) : ServerM Unit :=
  transaction (.upsertMachine machineId ⟨akPubB64, ekCertB64, ekVerified, env.later.isoformat⟩)

/-- `_get_active_ima_root`. -/
def getActiveImaRoot : ServerM (Option String) := transaction .selectActiveRoot

/-- `_get_pinned_pcr`. -/
def getPinnedPcr (index : String) : ServerM (Option String) := do
  let row ← transaction .selectActivePcrJson
  return (row : Option Dict).bind fun pcrMap => pcrMap.get index

section
variable (platform : Platform) (policy : Policy)

/-- `s.lower()`. -/
def Platform.lower (s : String) : String := Python.lower platform.lowerTable s

/-- `repr(s)`. -/
def Platform.repr (s : String) : String := Python.repr platform.printable s

/-- `_pin_baseline`. -/
def pinBaseline (imaRoot : String) (pcrMap : Dict) (env : Env) : ServerM Unit :=
  transaction (.pinBaseline (platform.lower imaRoot) pcrMap env.later)

/-- `_verify_ek_cert`. -/
def verifyEkCert (ekCertB64 : String) : Bool × String :=
  match b64decode ekCertB64 with
  | .error exc => (false, s!"EK cert is not valid base64: {exc}")
  | .ok derBytes =>
    match platform.loadDerX509 derBytes with
    | some (subject, issuer) =>
      (true, s!"X.509 cert parsed; subject={platform.repr subject}; issuer={platform.repr issuer}")
    | none =>
      -- no certificate: raw key bytes, if there are enough of them
      if 4 ≤ derBytes.length then
        if policy.strictEkVerification then
          (false, "Raw EK public key rejected under strict EK verification — X.509 certificate required")
        else
          (true, s!"Raw EK public key accepted ({derBytes.length} bytes); no cert chain")
      else (false, "EK cert too short to be a valid key or certificate")

/-! ## The checks of a report -/

/-- A decoded field; its `binascii.Error` is a `ValueError`. -/
def decodeField (s : String) : ServerM Bytes :=
  ofExcept ((b64decode s).mapError .valueError)

/-- The row of the machine that a report names, if it names one. -/
def lookupMachine (machineId : Option String) : ServerM (Option Machine) :=
  match truthy machineId with
  | some machineId => getEnrolledMachine machineId
  | none => ret none

/-- The AK public key of an enrolled machine, or the one of the local TPM. -/
def akPublicKey : Option Machine → ServerM (Option Bytes)
  | some row => some <$> decodeField row.akPubB64
  -- the server falls back on its own TPM
  | none => ret platform.readpublic

/-- `_verify_quote_signature`, within its `try`. -/
def checkQuote (report : AttestationReport) (quoteMsg quoteSig : String) :
    ServerM (Option Reason) := do
  let msg ← decodeField quoteMsg
  let sig ← decodeField quoteSig
  let enrolled ← lookupMachine report.machineId
  let akPub ← akPublicKey platform enrolled
  return match akPub with
    | some key =>
      if platform.checkquote key msg sig report.nonce then none else some .quoteSignatureFailed
    | none => some .quoteSignatureFailed

/-- `_verify_quote_signature`. -/
def verifyQuoteSignature (report : AttestationReport) : ServerM (Option Reason) :=
  match truthy report.quoteMsgB64, truthy report.quoteSigB64 with
  | some quoteMsg, some quoteSig =>
    -- `except Exception`: an error of the database is caught as well
    (checkQuote platform report quoteMsg quoteSig).handle fun _ => ret (some .quoteSignatureFailed)
  | _, _ => ret (some .quoteBlobsMissing)

/-- 2. The quote must be present. -/
def checkQuotePresent (report : AttestationReport) : Option Reason :=
  if report.quoteAvailable then none else some .quoteNotAvailable

/-- What strict verification makes of a machine's row. -/
def strictEkVerdict (machineId : String) : Option Machine → Option Reason
  | none => some (.machineNotRegistered (platform.repr machineId))
  | some row => if row.ekVerified then none else some (.machineNotVerified (platform.repr machineId))

/-- 2b. Strict verification of the EK certificate. -/
def checkStrictEk (report : AttestationReport) : ServerM (Option Reason) :=
  if policy.strictEkVerification then
    match truthy report.machineId with
    | none => ret (some .noMachineId)
    | some machineId => do
      let machineRow ← getEnrolledMachine machineId
      return strictEkVerdict platform machineId machineRow
  else ret none

def zeroDigestPrefixed : String := "0x" ++ String.ofList (List.replicate 64 '0')

/-- 3. The first PCR value that is all-zero and may not be. -/
def zeroPcr (report : AttestationReport) (isEnrolled : Bool) : Option Reason :=
  (report.pcrs.items.find? fun pcr =>
      platform.lower pcr.2 = platform.lower zeroDigestPrefixed ∧ ¬ (isEnrolled ∧ pcr.1 = "10")).map
    fun pcr => .pcrAllZero pcr.1

/-- 4. The boot aggregate. -/
def checkBootAggregate (report : AttestationReport) (isEnrolled : Bool) : Option Reason :=
  if ¬ isEnrolled ∧ ¬ report.imaSummary.hasBootAggregate then some .noBootAggregate else none

/-- 5. The syntax of the Merkle root, and the leaf count. -/
def checkImaRoot (report : AttestationReport) : Option Reason :=
  if report.imaMerkleRoot.length ≠ 64 then some (.rootLength report.imaMerkleRoot.length)
  else if (intHex report.imaMerkleRoot).isNone then
    some (.rootNotHexadecimal (platform.repr report.imaMerkleRoot))
  else if report.imaLeafCount ≤ 0 then some .noImaEntries
  else none

/-- 3. to 5.: what the report says it measured. -/
def checkMeasurements (report : AttestationReport) : ServerM (Option Reason) :=
  if report.pcrs.items.isEmpty then ret (some .pcrMapEmpty)
  else do
    let row ← lookupMachine report.machineId
    return (zeroPcr platform report row.isSome).or
      ((checkBootAggregate report row.isSome).or (checkImaRoot platform report))

/-- 6. The report's root against the pinned one, if there is one. -/
def rootVerdict (report : AttestationReport) : Option String → Option Reason
  | none => none
  | some pinned =>
    if platform.lower report.imaMerkleRoot ≠ platform.lower pinned then some .rootMismatch else none

/-- 6. The pinned Merkle root. -/
def checkPinnedRoot (report : AttestationReport) : ServerM (Option Reason) := do
  let pinnedRoot ← getActiveImaRoot
  return rootVerdict platform report pinnedRoot

/-- 7. The report's PCR 7 against the pinned one, if there is one. -/
def pcr7Verdict (report : AttestationReport) : Option String → Option Reason
  | none => none
  | some pinned =>
    let reported := (report.pcrs.get "7").getD ""
    if platform.lower reported ≠ platform.lower pinned then
      some (.pcr7Mismatch (String.ofList (pinned.toList.take 16))
        (String.ofList (reported.toList.take 16)))
    else none

/-- 7. The pinned PCR 7. -/
def checkPinnedPcr7 (report : AttestationReport) : ServerM (Option Reason) :=
  if policy.requirePcr7Pinning then do
    let pinnedPcr7 ← getPinnedPcr "7"
    return pcr7Verdict platform report pinnedPcr7
  else ret none

/-- 8. The minimum number of IMA entries. -/
def checkMinimumEntries (report : AttestationReport) : Option Reason :=
  if 0 < policy.requireImaMinimumEntries ∧
      report.imaLeafCount < policy.requireImaMinimumEntries then
    some (.tooFewImaEntries report.imaLeafCount policy.requireImaMinimumEntries)
  else none

/-- The first reason that checks give, in their order. -/
def inOrder : List (ServerM (Option Reason)) → ServerM (Option Reason)
  | [] => ret none
  | check :: checks => check.bind fun
    | some reason => ret (some reason)
    | none => inOrder checks

/-- The checks of `_verify_report` after the nonce. -/
def reportChecks (report : AttestationReport) : List (ServerM (Option Reason)) :=
  [ret (checkQuotePresent report), verifyQuoteSignature platform report,
    checkStrictEk platform policy report, checkMeasurements platform report,
    checkPinnedRoot platform report, checkPinnedPcr7 platform policy report,
    ret (checkMinimumEntries policy report)]

/-- `_verify_report`. -/
def verifyReport (report : AttestationReport) (env : Env) : ServerM (Option Reason) :=
  inOrder (consumeNonce report.nonce env.now :: reportChecks platform policy report)

/-! ## Endpoints -/

/-- `GET /challenge`. -/
def challenge (env : Env) : ServerM Response := do
  let nonce ← issueNonce env
  return .challenge nonce challengeLifetimeSeconds

/-- The end of `POST /register`, for EK material that was accepted. -/
def storeMachine (req : RegisterRequest) (ekVerified : Bool) (ekInfo : String) (env : Env) :
    ServerM Response := do
  registerMachine req.machineId req.akPubB64 req.ekCertB64 ekVerified env
  return .registered req.machineId ekVerified ekInfo

/-- `POST /register`. -/
def register (req : RegisterRequest) (env : Env) : ServerM Response :=
  match truthy req.ekCertB64 with
  | none => storeMachine req false "no EK cert supplied" env
  | some ekCertB64 =>
    let (ekVerified, ekInfo) := verifyEkCert platform policy ekCertB64
    if ekVerified then storeMachine req ekVerified ekInfo env
    else ret (.registerRejected s!"EK cert invalid: {ekInfo}")

/-- The end of `POST /attest`. -/
def attestResponse (env : Env) : Option Reason → ServerM Response
  | some reason => ret (.invalid reason)
  | none => do
    let expiresAt ← ofExcept (env.later.addSeconds (tokenLifetimeMinutes * 60))
    return .valid env.uuid expiresAt.isoformat

/-- `POST /attest`. -/
def attest (report : AttestationReport) (env : Env) : ServerM Response := do
  let failureReason ← verifyReport platform policy report env
  attestResponse env failureReason

/-- The previous baseline is restored, if there was one. -/
def restoreBaseline (currentRoot : Option String) : ServerM Unit :=
  match truthy currentRoot with
  | some root => transaction (.restoreBaseline root)
  | none => ret ()

/-- The end of `POST /enroll`: the previous baseline is restored, or the report's
is pinned. -/
def enrollResponse (report : AttestationReport) (env : Env) (currentRoot : Option String) :
    Option Reason → ServerM Response
  | some reason => do
    restoreBaseline currentRoot
    return .enrollRejected reason
  | none => do
    let newRoot := platform.lower report.imaMerkleRoot
    pinBaseline platform newRoot report.pcrs env
    return .enrolled newRoot

/-- `POST /enroll`. -/
def enroll (report : AttestationReport) (env : Env) : ServerM Response := do
  let currentRoot ← getActiveImaRoot
  -- from here to the last transaction no row is active, for any request
  transaction .deactivateAll
  let failureReason ← verifyReport platform policy report env
  enrollResponse platform report env currentRoot failureReason

/-- The requests. -/
inductive Request where
  | health
  | challenge
  | register (req : RegisterRequest)
  | attest (report : AttestationReport)
  | enroll (report : AttestationReport)

/-- The program of a request. -/
def serve (env : Env) : Request → ServerM Response
  | .health => ret .health
  | .challenge => challenge env
  | .register req => register platform policy req env
  | .attest report => attest platform policy report env
  | .enroll report => enroll platform policy report env

end
end TpmAttest
