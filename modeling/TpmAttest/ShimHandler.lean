import TpmAttest.ShimCache
import TpmAttest.PythonJson

/-! # The shim's handler

`_handle_client` serves one game client: it reads the handshake, fetches a nonce,
collects a report, posts it, and passes the verdict on.  Every stage has an `except`
clause of its own, and an exception that the clause of its stage does not name leaves
the handler and ends the daemon's accept loop.

What the handler meets is in the input (`Connection`): what the client sends, what the
two endpoints reply, and what the readers of the TPM and of the IMA log do.  How deep
the interpreter can nest calls is a parameter too: a value that is nested too deep
raises `RecursionError` where it is decoded, encoded or logged.
-/
namespace TpmAttest.Shim

open Python

/-- The `RuntimeError`s that the shim raises itself, with what their texts quote. -/
inductive ShimError where
  | challengeUnreachable (reason : String)
  | invalidNonce (nonce : Json)
  | attestUnreachable (reason : String)
  | nonJsonBody (body : Bytes)

/-- The exceptions that may come up in the handler. -/
inductive PyExn where
  | runtimeError (e : ShimError)
  | recursionError
  | jsonDecodeError (msg : String)
  | unicodeDecodeError
  /-- The `ValueError` of an integer with too many digits. -/
  | digitsError
  | attributeError
  | typeError
  /-- What `urlopen` and `read` raise that is no `URLError`: `TimeoutError`,
  `RemoteDisconnected`, `IncompleteRead`. -/
  | connectionError
  /-- What a reader raises. -/
  | reader (e : Exn)

namespace PyExn

def ofLoads : LoadsError → PyExn
  | .json msg => jsonDecodeError msg
  | .unicode => unicodeDecodeError
  | .digits => digitsError
  | .recursion => recursionError

/-- `except RuntimeError` catches it. -/
def isRuntimeError : PyExn → Bool
  | runtimeError _ | recursionError | reader (.runtimeError _) => true
  | _ => false

/-- `except ValueError` catches it. -/
def isValueError : PyExn → Bool
  | jsonDecodeError _ | unicodeDecodeError | digitsError | reader (.valueError _) => true
  | _ => false

end PyExn

/-- Where the handler logs values that may be nested. -/
inductive LogSite where
  | handshake
  | invalidNonce
  | nonce
  | collecting
  | collected
  | result
  | token
  | reason

/-- Where it decodes JSON. -/
inductive LoadsSite where
  | handshake
  | challenge
  | attest

/-- The interpreter: how it writes floats, and how deep values may nest. -/
structure Interpreter where
  floatRepr : Decimal → String
  loadsLimit : LoadsSite → Nat
  reportLimit : Nat
  responseLimit : Nat
  formats : LogSite → List Json → Bool
  /-- A report nests its PCRs. -/
  two_le_reportLimit : 2 ≤ reportLimit
  responseLimit_pos : 0 < responseLimit

namespace Interpreter
variable (py : Interpreter)

/-- `log.info` formats its arguments. -/
def log (site : LogSite) (args : List Json) : Except PyExn Unit :=
  if py.formats site args then .ok () else .error .recursionError

/-- `json.loads`. -/
def loadsAt (site : LoadsSite) (b : Bytes) : Except PyExn Json :=
  (loads (py.loadsLimit site) b).mapError .ofLoads

end Interpreter

/-- `value.get(key)`, for a value that need not be a dict. -/
def getKey (key : String) : Json → Except PyExn (Option Json)
  | .dict items => .ok (getItem key items)
  | _ => .error .attributeError

/-- `len(value)`. -/
def len : Json → Except PyExn Nat
  | .str s => .ok s.length
  | .list items => .ok items.length
  | .dict items => .ok items.length
  | _ => .error .typeError

/-- `value[:16]`. -/
def first16 : Json → Except PyExn Json
  | .str s => .ok (.str (s.take 16))
  | .list items => .ok (.list (items.take 16))
  | _ => .error .typeError

/-- What an endpoint replies. -/
inductive Reply where
  | body (b : Bytes)
  | httpError (code : Nat) (reason : String) (b : Bytes)
  /-- A `URLError` that is no `HTTPError`. -/
  | unreachable (reason : String)
  /-- Another exception, from the request or while the body is read. -/
  | failed

/-- What the readers do during one call. -/
structure Readers where
  pcrs : Except Exn (List (Nat × String))
  imaSummary : Except Exn ImaSummary
  lineCount : Except Exn Nat
  imaLog : Nat → Except Exn (List Entry)
  quote : Text → Except Exn (String × String)
  timestamp : String

/-- What the handler meets. -/
structure Connection where
  /-- What the client sends; `none` is an `OSError` while it is read. -/
  received : Option Bytes
  /-- `sendall` raises an `OSError`. -/
  sendFails : Bool
  challenge : Reply
  readers : Readers
  attest : Reply

/-- What becomes of a connection. -/
structure Outcome where
  result : Except PyExn Unit
  cache : ImaCache
  posted : List Bytes
  sent : List Bytes
  closed : Bool

/-! ## The report -/

/-- The items of a report, whose nonce may be any value. -/
def reportItems (r : ShimReport) (nonce : Json) : List (Text × Json) :=
  [(text "version", .str (text r.version)),
    (text "timestamp", .str (text r.timestamp)),
    (text "nonce", nonce),
    (text "machine_id", .str (text r.machineId)),
    (text "pcrs", .dict (r.pcrs.map fun p => (text (toString p.1), .str (text p.2)))),
    (text "ima_summary", .dict
      [(text "total_entries", .int r.imaSummary.totalEntries),
        (text "unique_files", .int r.imaSummary.uniqueFiles),
        (text "has_boot_aggregate", .bool r.imaSummary.hasBootAggregate),
        (text "modules_measured", .int r.imaSummary.modulesMeasured)]),
    (text "ima_merkle_root", .str (text r.imaMerkleRoot)),
    (text "ima_merkle_depth", .int r.imaMerkleDepth),
    (text "ima_leaf_count", .int r.imaLeafCount),
    (text "quote_available", .bool r.quoteAvailable),
    (text "quote_msg_b64", .str (text r.quoteMsgB64)),
    (text "quote_sig_b64", .str (text r.quoteSigB64))]

namespace Readers
variable (sha256 : Bytes → Digest) (machineId : String) (readers : Readers)

/-- The IMA step; see `TpmAttest.updateTree`. -/
def updateTree (cache : ImaCache) : Except Exn ImaTree × ImaCache :=
  match readers.lineCount with
  | .error e => (.error e, cache)
  | .ok totalLineCount =>
    let cache := if totalLineCount < cache.lineOffset then .empty else cache
    match readers.imaLog cache.lineOffset with
    | .error e => (.error e, cache)
    | .ok newEntries =>
      match buildIncrementalMerkleTree sha256 cache.leafCache newEntries cache.lineOffset with
      | .error e => (.error e, cache)
      | .ok (updatedCache, imaTree) => (.ok imaTree, ⟨updatedCache, imaTree.leafCount⟩)

/-- `_run_tpm_quote`; the arguments of a process are strings. -/
def runTpmQuote : Json → Except PyExn (String × String)
  | .str nonce => (readers.quote nonce).mapError .reader
  | _ => .error .typeError

/-- `_collect_report_incremental`, for a nonce that need not be a string. -/
def collectReport (nonce : Json) (cache : ImaCache) :
    Except PyExn (List (Text × Json)) × ImaCache :=
  let reads := do return (← readers.pcrs, ← readers.imaSummary)
  match reads with
  | .error e => (.error (.reader e), cache)
  | .ok (pcrs, imaSummary) =>
    match readers.updateTree sha256 cache with
    | (.error e, cache) => (.error (.reader e), cache)
    | (.ok imaTree, cache) =>
      match readers.runTpmQuote nonce with
      | .error e => (.error e, cache)
      | .ok (quoteMsg, quoteSig) =>
        let report : ShimReport := {
          version := "1.1", timestamp := readers.timestamp, nonce := "", machineId, pcrs,
          imaSummary, imaMerkleRoot := imaTree.root, imaMerkleDepth := imaTree.depth,
          imaLeafCount := imaTree.leafCount, quoteAvailable := true, quoteMsgB64 := quoteMsg,
          quoteSigB64 := quoteSig }
        (.ok (reportItems report nonce), cache)

/-- The readers as a call of `TpmAttest.collectReportIncremental` has them. -/
def ofReadings (r : Readings) : Readers where
  pcrs := r.pcrs
  imaSummary := readImaSummary r.summaryLog
  lineCount := readImaLogLineCount r.countLog
  imaLog := readImaLog r.entriesLog
  quote nonce := r.quote (String.ofList (nonce.map fun c => Char.ofNat c.val))
  timestamp := r.timestamp

/-- For a nonce that is text, this is `TpmAttest.collectReportIncremental`. -/
theorem collectReport_ofReadings (readings : Readings) (nonce : String) (cache : ImaCache) :
    (ofReadings readings).collectReport sha256 readings.machineId (.str (text nonce)) cache =
      (((collectReportIncremental sha256 readings nonce cache).1.map fun r =>
          reportItems r (.str (text r.nonce))).mapError .reader,
        (collectReportIncremental sha256 readings nonce cache).2) := by
  have hquote : (ofReadings readings).quote (text nonce) = readings.quote nonce := by
    change readings.quote (String.ofList ((text nonce).map fun c => Char.ofNat c.val)) = _
    rw [ofList_text]
  have htree : (ofReadings readings).updateTree sha256 cache =
      TpmAttest.updateTree sha256 readings.countLog readings.entriesLog cache := rfl
  unfold collectReport collectReportIncremental
  dsimp only [runTpmQuote]
  rw [htree, hquote]
  dsimp only [ofReadings]
  cases readings.pcrs with
  | error e => rfl
  | ok pcrs =>
    cases readImaSummary readings.summaryLog with
    | error e => rfl
    | ok imaSummary =>
      dsimp only [bind, Except.bind, pure, Except.pure]
      rcases TpmAttest.updateTree sha256 readings.countLog readings.entriesLog cache with
        ⟨tree | tree, cache'⟩
      · rfl
      · cases readings.quote nonce <;> rfl

end Readers

/-! ## The stages -/

section
variable (py : Interpreter)

/-- The handshake, and `{}` for one that is no JSON. -/
def parseHandshake (raw : Text) : Except PyExn Json :=
  let parsed : Except PyExn Json := do
    let handshake ← (loadsText (py.loadsLimit .handshake) raw).mapError .ofLoads
    let gameId ← getKey "game_id" handshake
    let playerId ← getKey "player_id" handshake
    let platform ← getKey "platform" handshake
    py.log .handshake [gameId.getD .null, playerId.getD .null, platform.getD .null]
    return handshake
  match parsed with
  | .error (.jsonDecodeError _) => .ok (.dict [])
  | r => r

/-- The check of the nonce in `_get_challenge`. -/
def checkNonce (nonce : Json) : Except PyExn Json :=
  let invalid : Except PyExn Json := do
    py.log .invalidNonce [nonce]
    throw (.runtimeError (.invalidNonce nonce))
  if nonce.truthy then do
    if (← len nonce) ≠ 64 then invalid
    else
      py.log .nonce [← first16 nonce]
      return nonce
  else invalid

/-- `_get_challenge`. -/
def getChallenge (challenge : Reply) : Except PyExn Json := do
  let data ← match challenge with
    | .body b => py.loadsAt .challenge b
    | .httpError _ reason _ | .unreachable reason =>
      throw (.runtimeError (.challengeUnreachable reason))
    | .failed => throw .connectionError
  checkNonce py ((← getKey "nonce" data).getD .null)

/-- The third stage, up to its `except` clause. -/
def generateReport (sha256 : Bytes → Digest) (machineId : String) (readers : Readers)
    (nonce : Json) (cache : ImaCache) : Except PyExn (List (Text × Json)) × ImaCache :=
  match first16 nonce >>= fun head => py.log .collecting [head] with
  | .error e => (.error e, cache)
  | .ok () =>
    match readers.collectReport sha256 machineId nonce cache with
    | (.error e, cache) => (.error e, cache)
    | (.ok report, cache) => ((py.log .collected [nonce]).map fun _ => report, cache)

/-- What `_post_report` makes of the reply. -/
def readReply (attest : Reply) : Except PyExn Json :=
  match attest with
  | .body b | .httpError _ _ b =>
    match py.loadsAt .attest b with
    | .error (.jsonDecodeError _) => .error (.runtimeError (.nonJsonBody b))
    | r => r
  | .unreachable reason => .error (.runtimeError (.attestUnreachable reason))
  | .failed => .error .connectionError

/-- `_post_report`, and what it posts. -/
def postReport (attest : Reply) (report : Json) : Except PyExn Json × List Bytes :=
  match dumps py.floatRepr py.reportLimit report with
  | none => (.error .recursionError, [])
  | some payload => (readReply py attest, [encode payload])

/-- `{"valid": True, "token": token}` or `{"valid": False, "reason": reason}`. -/
def response (valid : Bool) (value : Json) : Json :=
  .dict [(text "valid", .bool valid), (text (if valid then "token" else "reason"), value)]

/-- The verdict in the items of the server's answer, with the token or the reason. -/
def verdictOf (items : List (Text × Json)) : Bool × Json :=
  match getItem "valid" items with
  | some (.bool true) => (true, (getItem "token" items).getD (.str []))
  | _ => (false, (getItem "reason" items).getD (.str (text "attestation failed")))

/-- The verdict in the server's answer, which need not be a dict. -/
def verdict : Json → Except PyExn (Bool × Json)
  | .dict items => .ok (verdictOf items)
  | _ => .error .attributeError

/-- The last stage, up to the response. -/
def chooseResponse (result : Json) : Except PyExn (Bool × Json) := do
  let (valid, value) ← verdict result
  py.log (if valid then .token else .reason) [value]
  return (valid, value)

/-! ## The handler -/

/-- An exception leaves the handler. -/
def escape (e : PyExn) (cache : ImaCache) (posted : List Bytes) : Outcome :=
  ⟨.error e, cache, posted, [], false⟩

/-- `_send_response`, and the end of the handler. -/
def respond (sendFails : Bool) (cache : ImaCache) (posted : List Bytes) (payload : Json) : Outcome :=
  match dumps py.floatRepr py.responseLimit payload with
  | none => escape .recursionError cache posted
  | some data => ⟨.ok (), cache, posted, if sendFails then [] else [encode data], true⟩

/-- A response of the handler's own, which says that it is invalid. -/
def refuse (sendFails : Bool) (cache : ImaCache) (posted : List Bytes) (reason : String) : Outcome :=
  respond py sendFails cache posted (response false (.str (text reason)))

/-- The handler from the server's answer on. -/
def finish (sendFails : Bool) (cache : ImaCache) (posted : List Bytes)
    (posting : Except PyExn Json) : Outcome :=
  match posting >>= fun result => do py.log .result [result]; return result with
  | .error e =>
    if e.isRuntimeError then refuse py sendFails cache posted "attestation server unreachable"
    else escape e cache posted
  | .ok result =>
    match chooseResponse py result with
    | .error e => escape e cache posted
    | .ok (valid, value) => respond py sendFails cache posted (response valid value)

/-- The handler from the third stage on. -/
def serveNonce (sha256 : Bytes → Digest) (machineId : String) (conn : Connection)
    (handshake nonce : Json) (cache : ImaCache) : Outcome :=
  match generateReport py sha256 machineId conn.readers nonce cache with
  | (.error e, cache) =>
    if e.isRuntimeError || e.isValueError then
      refuse py conn.sendFails cache [] "attestation report generation failed"
    else escape e cache []
  | (.ok report, cache) =>
    match postReport py conn.attest (.dict (report ++ [(text "eac_handshake", handshake)])) with
    | (posting, posted) => finish py conn.sendFails cache posted posting

/-- `_handle_client`. -/
def handleClient (sha256 : Bytes → Digest) (machineId : String) (conn : Connection)
    (cache : ImaCache) : Outcome :=
  match conn.received with
  | none => ⟨.ok (), cache, [], [], true⟩
  | some received =>
    match parseHandshake py (decodeReplace received) with
    | .error e => escape e cache []
    | .ok handshake =>
      match getChallenge py conn.challenge with
      | .error e =>
        if e.isRuntimeError then refuse py conn.sendFails cache [] "challenge fetch failed"
        else escape e cache []
      | .ok nonce => serveNonce py sha256 machineId conn handshake nonce cache

/-- The accept loop of `run_server`, on the connections that come: an exception ends
it. -/
def runServer (sha256 : Bytes → Digest) (machineId : String) (cache : ImaCache) :
    List Connection → List Outcome
  | [] => []
  | conn :: conns =>
    let outcome := handleClient py sha256 machineId conn cache
    match outcome.result with
    | .ok () => outcome :: runServer sha256 machineId outcome.cache conns
    | .error _ => [outcome]

end
end TpmAttest.Shim
