import TpmAttest.ServerRuns
import TpmAttest.ShimHandler
import TpmAttest.PcrAgreement
import TpmAttest.WritableJson

/-! # Requests and responses over HTTP

The server is a FastAPI application: it decodes the body of a request as JSON, validates
it against a model, and writes the content of the response as JSON.  FastAPI is not part of
the repository.  `Http` stands for it, and `Http.Faithful` is what the programs rely on: a
body whose members have the declared types becomes the report with these values
(`AttestationReport.ofItems`), the content of a response is read back, and the pages that
FastAPI writes itself have no member `valid` or `reason`.
-/
namespace TpmAttest

open Python Transactional Program

/-! ## Responses -/

/-- The status code. -/
def Response.status : Response → Nat
  | .registerRejected _ | .invalid _ | .enrollRejected _ => 400
  | _ => 200

/-- The members of the content. -/
def Response.members : Response → List (String × Json)
  | .health => [("status", .str (text "ok")), ("version", .str (text "1.1"))]
  | .challenge nonce expiresInSeconds =>
    [("nonce", .str (text nonce)), ("expires_in_seconds", .int expiresInSeconds)]
  | .registered machineId ekVerified ekInfo =>
    [("registered", .bool true), ("machine_id", .str (text machineId)),
      ("ek_verified", .bool ekVerified), ("ek_info", .str (text ekInfo))]
  | .registerRejected reason => [("registered", .bool false), ("reason", .str (text reason))]
  | .valid token expiresAt =>
    [("valid", .bool true), ("token", .str (text token)), ("expires_at", .str (text expiresAt))]
  | .invalid reason => [("valid", .bool false), ("reason", .str (text reason.text))]
  | .enrolled imaRoot => [("enrolled", .bool true), ("ima_root", .str (text imaRoot))]
  | .enrollRejected reason => [("enrolled", .bool false), ("reason", .str (text reason.text))]

/-- A dict with keys that are texts. -/
def ofMembers (members : List (String × Json)) : Json :=
  .dict (members.map fun p => (text p.1, p.2))

theorem getItem_ofMembers (key : String) (members : List (String × Json)) :
    getItem key (members.map fun p => (text p.1, p.2)) = members.lookup key := by
  unfold getItem
  induction members with
  | nil => rfl
  | cons p members ih =>
    rw [List.map_cons, List.lookup_cons, List.lookup_cons, ih]
    have hkey : (text key == text p.1) = (key == p.1) := by
      rw [Bool.eq_iff_iff, beq_iff_eq, beq_iff_eq]
      exact ⟨fun h => text_injective h, congrArg text⟩
    rw [hkey]

def Response.content (r : Response) : Json := ofMembers r.members

/-! ## Requests -/

/-- A string without surrogates. -/
def strOf : Json → Option String
  | .str s =>
    let t := String.ofList (s.map fun c => Char.ofNat c.val)
    if text t = s then some t else none
  | _ => none

/-- A string, or nothing. -/
def optionalStr : Option Json → Option (Option String)
  | none | some .null => some none
  | some value => (strOf value).map some

def intOf : Json → Option Int
  | .int n => some n
  | _ => none

/-- An integer of at least 0. -/
def natOf : Json → Option Nat
  | .int (.ofNat n) => some n
  | _ => none

def boolOf : Json → Option Bool
  | .bool b => some b
  | _ => none

def itemsOf : Json → Option (List (Text × Json))
  | .dict items => some items
  | _ => none

/-- `dict[str, str]`. -/
def dictOfStr (items : List (Text × Json)) : Option Dict := do
  let pairs ← items.mapM fun item => return (← strOf (.str item.1), ← strOf item.2)
  if h : (pairs.map Prod.fst).Nodup then some ⟨pairs, h⟩ else none

/-- `ImaSummary`, of members of its types. -/
def ImaSummary.ofItems (items : List (Text × Json)) : Option ImaSummary := do
  return {
    totalEntries := ← intOf (← getItem "total_entries" items)
    uniqueFiles := ← intOf (← getItem "unique_files" items)
    hasBootAggregate := ← boolOf (← getItem "has_boot_aggregate" items)
    modulesMeasured := ← intOf (← getItem "modules_measured" items) }

/-- `AttestationReport`, of members of its types; others are ignored. -/
def AttestationReport.ofItems (items : List (Text × Json)) : Option AttestationReport := do
  return {
    version := ← strOf (← getItem "version" items)
    timestamp := ← strOf (← getItem "timestamp" items)
    nonce := ← strOf (← getItem "nonce" items)
    pcrs := ← dictOfStr (← itemsOf (← getItem "pcrs" items))
    imaSummary := ← ImaSummary.ofItems (← itemsOf (← getItem "ima_summary" items))
    imaMerkleRoot := ← strOf (← getItem "ima_merkle_root" items)
    imaMerkleDepth := ← natOf (← getItem "ima_merkle_depth" items)
    imaLeafCount := ← natOf (← getItem "ima_leaf_count" items)
    quoteAvailable := ← boolOf (← getItem "quote_available" items)
    quoteMsgB64 := ← optionalStr (getItem "quote_msg_b64" items)
    quoteSigB64 := ← optionalStr (getItem "quote_sig_b64" items)
    machineId := ← optionalStr (getItem "machine_id" items) }

/-- `RegisterRequest`, of members of its types. -/
def RegisterRequest.ofItems (items : List (Text × Json)) : Option RegisterRequest := do
  return {
    machineId := ← strOf (← getItem "machine_id" items)
    akPubB64 := ← strOf (← getItem "ak_pub_b64" items)
    ekCertB64 := ← optionalStr (getItem "ek_cert_b64" items) }

/-! ## The framework -/

/-- What FastAPI does: how it reads the bodies of `/attest` and `/register`, how it writes the
content of a response, and which pages it writes itself. -/
structure Http where
  parseReport : Bytes → Option AttestationReport
  parseRegister : Bytes → Option RegisterRequest
  render : Json → Bytes
  errorPage : Bytes → Prop
  /-- How deep a body may nest. -/
  bodyLimit : Nat

/-- What the programs rely on. -/
structure Http.Faithful (http : Http) : Prop where
  report : ∀ b items report, loads http.bodyLimit b = .ok (.dict items) →
    AttestationReport.ofItems items = some report → http.parseReport b = some report
  register : ∀ b items req, loads http.bodyLimit b = .ok (.dict items) →
    RegisterRequest.ofItems items = some req → http.parseRegister b = some req
  /-- What is no JSON is rejected. -/
  reportJson : ∀ b report, http.parseReport b = some report →
    ∃ value, loads http.bodyLimit b = .ok value
  registerJson : ∀ b req, http.parseRegister b = some req →
    ∃ value, loads http.bodyLimit b = .ok value
  render : ∀ (r : Response) limit, r.content.Fits → 0 < limit →
    loads limit (http.render r.content) = .ok r.content
  errorPage : ∀ b limit items, http.errorPage b → loads limit b = .ok (.dict items) →
    getItem "valid" items = none ∧ getItem "reason" items = none

/-- The client gets the answer of a request, or an error of the framework or of the network. -/
def Http.Delivers (http : Http) (p : ServerM Response) : Shim.Reply → Prop
  | .body b => ∃ r, p = .ret r ∧ r.status = 200 ∧ b = http.render r.content
  | .httpError code _ b =>
    (∃ r, p = .ret r ∧ r.status = code ∧ b = http.render r.content) ∨ http.errorPage b
  | .unreachable _ | .failed => True

end TpmAttest
