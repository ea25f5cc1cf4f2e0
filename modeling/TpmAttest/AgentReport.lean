import TpmAttest.ShimCache
import TpmAttest.PcrReader
import TpmAttest.Base64Encoding

/-! # The agent's reports

`generate_report` reads the whole log on each call; the shim's
`_collect_report_incremental` keeps the leaves of what it has read.  Both take the PCRs
from `read_pcrs` and the quote from `_run_tpm_quote`, which raises unless `tpm2_quote`
succeeds and leaves both its files.

The log may grow between two readings of one call, and a call may fail at any of its
readings.  As long as no unparseable line stands before a parseable one, the two make the
same reports, and raise the same exceptions (`agent_agreement`).
-/
namespace TpmAttest

open Python

/-! ## The TPM tools -/

/-- What `tpm2_quote` leaves; a file that cannot be read has the text of its `OSError`. -/
structure QuoteRun where
  returncode : Int
  stderr : String
  msg : Except String Bytes
  sig : Except String Bytes

/-- `_run_tpm_quote`. -/
def runTpmQuote (quote : String → Except Exn QuoteRun) (nonceHex : String) :
    Except Exn (String × String) := do
  let result ← quote nonceHex
  if result.returncode ≠ 0 then
    throw (.runtimeError s!"tpm2_quote failed (exit {result.returncode}) - is the AK provisioned at 0x81000000?\nstderr: {String.ofList (strip result.stderr.toList)}")
  match result.msg, result.sig with
  | .ok msg, .ok sig => return (b64encode msg, b64encode sig)
  | .error exc, _ | .ok _, .error exc =>
    throw (.runtimeError s!"tpm2_quote succeeded but output files are missing: {exc}")

/-- A tool that writes one file: its exit code, and what reading the file gives. -/
structure ToolRun where
  returncode : Int
  file : Except Exn Bytes

/-- The tools that read the endorsement key; starting one may raise, too. -/
structure EkTools where
  /-- `tpm2_nvread` of an index. -/
  nvread : String → Except Exn ToolRun
  /-- `tpm2_readpublic` of the handle `0x81010001`. -/
  readpublic : Except Exn ToolRun

/-- The first of the indices that can be read. -/
def readNvram (nvread : String → Except Exn ToolRun) : List String → Except Exn (Option String)
  | [] => .ok none
  | nvIndex :: rest => do
    let res ← nvread nvIndex
    if res.returncode = 0 then return some (b64encode (← res.file)) else readNvram nvread rest

/-- `read_ek_cert`, within its `try`. -/
def tryEkCert (tools : EkTools) : Except Exn (Option String) := do
  match ← readNvram tools.nvread ["0x1c00002", "0x1c0000a"] with
  | some cert => return some cert
  | none =>
    let res ← tools.readpublic
    if res.returncode = 0 then return some (b64encode (← res.file)) else return none

/-- `read_ek_cert`. -/
def readEkCert (tools : EkTools) : Option String :=
  -- `except Exception`, and what comes after it
  match tryEkCert tools with
  | .ok cert => cert
  | .error _ => none

/-- The report of the agent. -/
structure AgentReport where
  version : String
  timestamp : String
  nonce : String
  pcrs : List (Nat × String)
  imaSummary : ImaSummary
  imaMerkleRoot : String
  imaMerkleDepth : Nat
  imaLeafCount : Nat
  quoteAvailable : Bool
  quoteMsgB64 : String
  quoteSigB64 : String
  ekCertB64 : Option String

/-- `generate_report`. -/
def generateReport (sha256 : Bytes → Digest) (readings : Readings) (ek : EkTools) (nonce : String) :
    Except Exn AgentReport := do
  if nonce.length ≠ 64 then
    throw (.valueError s!"nonce must be a 64-character hex string; got {nonce.length} chars")
  let pcrs ← readings.pcrs
  let imaSummary ← readImaSummary readings.summaryLog
  let imaEntries ← readImaLog readings.entriesLog 0
  let imaTree ← buildImaMerkleTree sha256 imaEntries
  let (quoteMsgB64, quoteSigB64) ← readings.quote nonce
  return {
    version := "1.1", timestamp := readings.timestamp, nonce, pcrs, imaSummary,
    imaMerkleRoot := imaTree.root, imaMerkleDepth := imaTree.depth,
    imaLeafCount := imaTree.leafCount, quoteAvailable := true, quoteMsgB64, quoteSigB64,
    ekCertB64 := readEkCert ek }

/-- The same report as the shim sends it: with the machine, and without the key. -/
def AgentReport.forMachine (r : AgentReport) (machineId : String) : ShimReport where
  version := r.version
  timestamp := r.timestamp
  nonce := r.nonce
  machineId
  pcrs := r.pcrs
  imaSummary := r.imaSummary
  imaMerkleRoot := r.imaMerkleRoot
  imaMerkleDepth := r.imaMerkleDepth
  imaLeafCount := r.imaLeafCount
  quoteAvailable := r.quoteAvailable
  quoteMsgB64 := r.quoteMsgB64
  quoteSigB64 := r.quoteSigB64

/-! ## Calls that may fail -/

/-- What the tools do during one call.  Each of the readers runs `sudo cat` itself. -/
structure AgentCall where
  nonce : String
  pcrread : CompletedProcess
  summaryLog : CompletedProcess
  countLog : CompletedProcess
  entriesLog : CompletedProcess
  quote : String → Except Exn QuoteRun
  timestamp : String
  machineId : String
  ek : EkTools

namespace AgentCall

def readings (call : AgentCall) : Readings where
  pcrs := (readPcrs call.pcrread).map (·.items)
  summaryLog := call.summaryLog
  countLog := call.countLog
  entriesLog := call.entriesLog
  quote := runTpmQuote call.quote
  timestamp := call.timestamp
  machineId := call.machineId

/-- The logs that the call sees, in the order in which it reads them. -/
def logs (call : AgentCall) : List String :=
  ([call.summaryLog, call.countLog, call.entriesLog].filter (·.returncode = 0)).map (·.stdout)

theorem mem_logs {call : AgentCall} {result : CompletedProcess}
    (hmem : result ∈ [call.summaryLog, call.countLog, call.entriesLog]) (h : result.returncode = 0) :
    result.stdout ∈ call.logs :=
  List.mem_map_of_mem (List.mem_filter.mpr ⟨hmem, decide_eq_true h⟩)

end AgentCall

section
variable (sha256 : Bytes → Digest)

/-- What successive calls of `_collect_report_incremental` return. -/
def collectedReports (cache : ImaCache) : List AgentCall → List (Except Exn ShimReport)
  | [] => []
  | call :: calls =>
    (collectReportIncremental sha256 call.readings call.nonce cache).1 ::
      collectedReports (collectReportIncremental sha256 call.readings call.nonce cache).2 calls

/-- What `generate_report` returns instead. -/
def AgentCall.fullReport (call : AgentCall) : Except Exn ShimReport :=
  (generateReport sha256 call.readings call.ek call.nonce).map (·.forMachine call.machineId)

end

/-! ## Readings of a log -/

theorem RawLogExtends.trans {a b c : String} (h : RawLogExtends a b) (h' : RawLogExtends b c) :
    RawLogExtends a c := by
  obtain ⟨hend, t, rfl⟩ := h
  obtain ⟨-, t', rfl⟩ := h'
  exact ⟨hend, t ++ t', String.append_assoc⟩

instance : IsTrans String RawLogExtends := ⟨fun _ _ _ => RawLogExtends.trans⟩

/-- A longer log has no fewer entries. -/
theorem length_logEntries_mono {prev log : String} (h : RawLogExtends prev log) :
    (logEntries prev).length ≤ (logEntries log).length := by
  obtain ⟨t, ht⟩ := rawLines_append h
  rw [logEntries, logEntries, ht, List.filterMap_append, List.length_append]
  exact Nat.le_add_right _ _

/-- A finished `sudo cat` is an error for every reader, or the text of a log. -/
theorem readRawLines_cases (result : CompletedProcess) :
    (result.returncode = 0 ∧ readRawLines result = .ok (rawLines result.stdout)) ∨
      result.returncode ≠ 0 ∧ ∃ e, readRawLines result = .error e := by
  unfold readRawLines
  by_cases h : result.returncode = 0
  · rw [if_neg (not_not.mpr h)]
    exact Or.inl ⟨h, rfl⟩
  · rw [if_pos h]
    exact Or.inr ⟨h, _, rfl⟩

section
variable {sha256 : Bytes → Digest} {prev : String} {countLog entriesLog : CompletedProcess}

/-- **The IMA step on a log that has grown**, perhaps between the two readings too. -/
theorem updateTree_grown (hfirst : ParseableFirst prev)
    (hcount : countLog.returncode = 0) (hcountLog : RawLogExtends prev countLog.stdout)
    (hentries : entriesLog.returncode = 0) (hentriesLog : RawLogExtends prev entriesLog.stdout) :
    updateTree sha256 countLog entriesLog (cacheOf sha256 prev) =
      (.ok (treeOf sha256 (leaves sha256 (logEntries entriesLog.stdout))),
        cacheOf sha256 entriesLog.stdout) := by
  have hread : ∀ {r : CompletedProcess}, r.returncode = 0 →
      readRawLines r = .ok (rawLines r.stdout) := by
    intro r hr
    rcases readRawLines_cases r with ⟨-, h⟩ | ⟨h, -⟩
    · exact h
    · exact absurd hr h
  have hlines : readImaLogLineCount countLog = .ok (logEntries countLog.stdout).length := by
    rw [readImaLogLineCount, hread hcount]
    exact readImaLogLineCount_ofLog countLog.stdout
  have hlog : ∀ n, readImaLog entriesLog n =
      .ok (((rawLines entriesLog.stdout).drop n).filterMap parseLine) := by
    intro n
    rw [readImaLog, hread hentries]
    rfl
  have hkept : ¬ (logEntries countLog.stdout).length < (cacheOf sha256 prev).lineOffset :=
    Nat.not_lt.mpr (length_logEntries_mono hcountLog)
  -- the leaves are those of a call that sees the longer log twice
  have hleaves := (nextLeaves_extends sha256 hentriesLog).1 hfirst
  have hnext := nextLeaves_cacheOf sha256 (length_logEntries_mono hentriesLog)
  rw [hleaves, leaves_append] at hnext
  unfold updateTree
  rw [hlines]
  dsimp only
  rw [if_neg hkept, hlog]
  dsimp only
  rw [buildIncrementalMerkleTree_eq]
  dsimp only [cacheOf]
  rw [← hnext]
  have hlen := length_leaves sha256 (logEntries entriesLog.stdout)
  exact congrArg (fun n => (Except.ok _, ImaCache.mk _ n)) hlen

/-- A reading that fails leaves the cache as it is. -/
theorem updateTree_failed (hcountLog : countLog.returncode = 0 → RawLogExtends prev countLog.stdout)
    (h : countLog.returncode ≠ 0 ∨ entriesLog.returncode ≠ 0) :
    ∃ e, updateTree sha256 countLog entriesLog (cacheOf sha256 prev) =
        (.error e, cacheOf sha256 prev) ∧
      (countLog.returncode = 0 → readImaLog entriesLog 0 = .error e) := by
  unfold updateTree
  rcases readRawLines_cases countLog with ⟨hcount, hlines⟩ | ⟨hcount, e, hlines⟩
  · rcases readRawLines_cases entriesLog with ⟨hentries, -⟩ | ⟨-, e, hlog⟩
    · rcases h with h | h
      · exact absurd hcount h
      · exact absurd hentries h
    · have htotal : readImaLogLineCount countLog = .ok (logEntries countLog.stdout).length := by
        rw [readImaLogLineCount, hlines]
        exact readImaLogLineCount_ofLog countLog.stdout
      have hkept : ¬ (logEntries countLog.stdout).length < (cacheOf sha256 prev).lineOffset :=
        Nat.not_lt.mpr (length_logEntries_mono (hcountLog hcount))
      have hread : ∀ n, readImaLog entriesLog n = .error e := by
        intro n
        rw [readImaLog, hlog]
        rfl
      rw [htotal]
      dsimp only
      rw [if_neg hkept, hread]
      exact ⟨e, rfl, fun _ => hread 0⟩
  · have htotal : readImaLogLineCount countLog = .error e := by
      rw [readImaLogLineCount, hlines]
      rfl
    rw [htotal]
    exact ⟨e, rfl, fun h => absurd h hcount⟩

end

/-! ## The two ways to make a report -/

/-- What a call of the shim returns, against `generate_report`: the same, unless the
nonce is malformed or the reading that `generate_report` does not need fails. -/
def AgreesWithFull (sha256 : Bytes → Digest) (call : AgentCall) (r : Except Exn ShimReport) : Prop :=
  (call.countLog.returncode = 0 → call.nonce.length = 64 → r = call.fullReport sha256) ∧
    (call.countLog.returncode ≠ 0 → ∃ e, r = .error e)

section
variable (sha256 : Bytes → Digest) {prev : String} {call : AgentCall}

/-- The end of a report. -/
def AgentCall.withTree (call : AgentCall) (pcrs : List (Nat × String)) (imaSummary : ImaSummary)
    (imaTree : ImaTree) : Except Exn ShimReport :=
  (call.readings.quote call.nonce).map fun quote => {
    version := "1.1", timestamp := call.timestamp, nonce := call.nonce,
    machineId := call.machineId, pcrs, imaSummary, imaMerkleRoot := imaTree.root,
    imaMerkleDepth := imaTree.depth, imaLeafCount := imaTree.leafCount,
    quoteAvailable := true, quoteMsgB64 := quote.1, quoteSigB64 := quote.2 }

/-- `generate_report`, for a nonce of 64 characters. -/
theorem fullReport_eq (h : call.nonce.length = 64) : call.fullReport sha256 =
    (do
      let pcrs ← call.readings.pcrs
      let imaSummary ← readImaSummary call.summaryLog
      let imaEntries ← readImaLog call.entriesLog 0
      call.withTree pcrs imaSummary (treeOf sha256 (leaves sha256 imaEntries))) := by
  unfold AgentCall.fullReport generateReport
  rw [if_neg (not_not.mpr h)]
  cases call.readings.pcrs with
  | error e => rfl
  | ok pcrs =>
    change Except.map _ (readImaSummary call.summaryLog >>= _) = readImaSummary call.summaryLog >>= _
    cases readImaSummary call.summaryLog with
    | error e => rfl
    | ok imaSummary =>
      change Except.map _ (readImaLog call.entriesLog 0 >>= _) = readImaLog call.entriesLog 0 >>= _
      cases readImaLog call.entriesLog 0 with
      | error e => rfl
      | ok entries =>
        change Except.map _ (buildImaMerkleTree sha256 entries >>= _) = call.withTree _ _ _
        rw [buildImaMerkleTree_eq]
        unfold AgentCall.withTree
        change Except.map _ (call.readings.quote call.nonce >>= _) = _
        cases call.readings.quote call.nonce <;> rfl

/-- The shim's report, from the tree that its IMA step computes. -/
theorem collectReportIncremental_eq (cache : ImaCache) :
    collectReportIncremental sha256 call.readings call.nonce cache =
      match call.readings.pcrs, readImaSummary call.summaryLog with
      | .error e, _ | .ok _, .error e => (.error e, cache)
      | .ok pcrs, .ok imaSummary =>
        ((updateTree sha256 call.countLog call.entriesLog cache).1 >>= call.withTree pcrs imaSummary,
          (updateTree sha256 call.countLog call.entriesLog cache).2) := by
  unfold collectReportIncremental
  cases call.readings.pcrs with
  | error e => rfl
  | ok pcrs =>
    have hsummaryLog : call.readings.summaryLog = call.summaryLog := rfl
    have htree : updateTree sha256 call.readings.countLog call.readings.entriesLog cache =
        updateTree sha256 call.countLog call.entriesLog cache := rfl
    rw [hsummaryLog, htree]
    cases readImaSummary call.summaryLog with
    | error e => rfl
    | ok imaSummary =>
      dsimp only [bind, Except.bind, pure, Except.pure, AgentCall.withTree]
      rcases updateTree sha256 call.countLog call.entriesLog cache with ⟨e | tree, cache'⟩
      · rfl
      · cases call.readings.quote call.nonce <;> rfl

/-- **One call**, from a cache that holds an earlier log. -/
theorem collect_grown (hfirst : ParseableFirst prev)
    (hlogs : ∀ log ∈ call.logs, RawLogExtends prev log) :
    AgreesWithFull sha256 call
        (collectReportIncremental sha256 call.readings call.nonce (cacheOf sha256 prev)).1 ∧
      ∃ prev', (prev' = prev ∨ prev' ∈ call.logs) ∧
        (collectReportIncremental sha256 call.readings call.nonce (cacheOf sha256 prev)).2 =
          cacheOf sha256 prev' := by
  have hcountLog : call.countLog.returncode = 0 → RawLogExtends prev call.countLog.stdout := by
    intro h
    exact hlogs _ (AgentCall.mem_logs (by simp) h)
  have hentriesLog : call.entriesLog.returncode = 0 → call.entriesLog.stdout ∈ call.logs := by
    intro h
    exact AgentCall.mem_logs (by simp) h
  have hfails : ∀ {r : Except Exn ShimReport} {e}, r = .error e →
      (call.nonce.length = 64 → call.countLog.returncode = 0 → call.fullReport sha256 = .error e) →
        AgreesWithFull sha256 call r := by
    intro r e hr hfull
    exact ⟨fun hcount hnonce => hr.trans (hfull hnonce hcount).symm, fun _ => ⟨e, hr⟩⟩
  rw [collectReportIncremental_eq]
  cases hpcrs : call.readings.pcrs with
  | error e =>
    refine ⟨hfails rfl fun hnonce _ => ?_, prev, Or.inl rfl, rfl⟩
    rw [fullReport_eq sha256 hnonce, hpcrs]
    rfl
  | ok pcrs =>
    cases hsummary : readImaSummary call.summaryLog with
    | error e =>
      refine ⟨hfails rfl fun hnonce _ => ?_, prev, Or.inl rfl, rfl⟩
      rw [fullReport_eq sha256 hnonce, hpcrs, hsummary]
      rfl
    | ok imaSummary =>
      dsimp only
      by_cases hread : call.countLog.returncode = 0 ∧ call.entriesLog.returncode = 0
      · have hlog := hentriesLog hread.2
        rw [updateTree_grown hfirst hread.1 (hcountLog hread.1) hread.2 (hlogs _ hlog)]
        refine ⟨⟨fun _ hnonce => ?_, fun h => absurd hread.1 h⟩, _, Or.inr hlog, rfl⟩
        have hentries : readImaLog call.entriesLog 0 = .ok (logEntries call.entriesLog.stdout) := by
          rcases readRawLines_cases call.entriesLog with ⟨-, h⟩ | ⟨h, -⟩
          · rw [readImaLog, h]
            rfl
          · exact absurd hread.2 h
        rw [fullReport_eq sha256 hnonce, hpcrs, hsummary, hentries]
        rfl
      · obtain ⟨e, htree, hsame⟩ := @updateTree_failed sha256 _ _ _ hcountLog
          (not_and_or.mp hread)
        rw [htree]
        refine ⟨hfails rfl fun hnonce hcount => ?_, prev, Or.inl rfl, rfl⟩
        rw [fullReport_eq sha256 hnonce, hpcrs, hsummary, hsame hcount]
        rfl

end

/-! ## Runs of calls -/

/-- Calls on a growing log, from a cache that holds an earlier one. -/
theorem collectedReports_grown (sha256 : Bytes → Digest) {prev : String} {calls : List AgentCall}
    (hlogs : (prev :: calls.flatMap AgentCall.logs).Pairwise RawLogExtends)
    (hfirst : ∀ log ∈ prev :: calls.flatMap AgentCall.logs, ParseableFirst log) :
    List.Forall₂ (AgreesWithFull sha256) calls
      (collectedReports sha256 (cacheOf sha256 prev) calls) := by
  induction calls generalizing prev with
  | nil => exact .nil
  | cons call calls ih =>
    rw [List.flatMap_cons, List.pairwise_cons] at hlogs
    obtain ⟨hprev, hrest⟩ := hlogs
    obtain ⟨-, hcalls, hcross⟩ := List.pairwise_append.mp hrest
    obtain ⟨hagrees, prev', hprev', hcache⟩ := collect_grown sha256
      (hfirst prev List.mem_cons_self) fun log hlog => hprev log (List.mem_append_left _ hlog)
    refine .cons hagrees ?_
    rw [hcache]
    apply ih
    · rw [List.pairwise_cons]
      refine ⟨fun log hlog => ?_, hcalls⟩
      rcases hprev' with rfl | hmem
      · exact hprev log (List.mem_append_right _ hlog)
      · exact hcross prev' hmem log hlog
    · intro log hlog
      apply hfirst
      rw [List.flatMap_cons]
      rcases List.mem_cons.mp hlog with rfl | hlog
      · rcases hprev' with rfl | hmem
        · exact List.mem_cons_self
        · exact List.mem_cons_of_mem _ (List.mem_append_left _ hmem)
      · exact List.mem_cons_of_mem _ (List.mem_append_right _ hlog)

/-- **The shim makes the agent's reports.**  If the log only grows, also between the
readings of one call, and no unparseable line stands before a parseable one, then every
call of the shim returns the report of `generate_report`, or raises its exception,
whichever readings and quotes have failed in the calls before. -/
theorem agent_agreement (sha256 : Bytes → Digest) (calls : List AgentCall)
    (hlogs : (calls.flatMap AgentCall.logs).IsChain RawLogExtends)
    (hfirst : ∀ log ∈ calls.flatMap AgentCall.logs, ParseableFirst log) :
    List.Forall₂ (AgreesWithFull sha256) calls (collectedReports sha256 .empty calls) := by
  rw [← cacheOf_empty]
  apply collectedReports_grown
  · rw [List.pairwise_cons]
    exact ⟨fun log _ => rawLogExtends_empty log, List.isChain_iff_pairwise.mp hlogs⟩
  · intro log hlog
    rcases List.mem_cons.mp hlog with rfl | hlog
    · exact parseableFirst_empty
    · exact hfirst log hlog

/-- A call that sees a log, with a quote that fails or does not. -/
def AgentCall.onLog (log : String) (quoteFails : Bool) : AgentCall where
  nonce := "0123456789abcdef0123456789abcdef0123456789abcdef0123456789abcdef"
  pcrread := ⟨0, "sha256:\n  0 : 0x01\n  1 : 0x01\n  4 : 0x01\n  7 : 0x01\n  9 : 0x01\n  10: 0x01\n", ""⟩
  summaryLog := .ofLog log
  countLog := .ofLog log
  entriesLog := .ofLog log
  quote _ := .ok ⟨if quoteFails then 1 else 0, "", .ok [1], .ok [2]⟩
  timestamp := ""
  machineId := "desktop"
  ek := ⟨fun _ => .ok ⟨1, .ok []⟩, .ok ⟨0, .ok [3]⟩⟩

/-- Two calls on a log that grows while the second one reads it; the quote of the
first one fails. -/
def grownAgentCalls : List AgentCall :=
  [.onLog bootLog true, { AgentCall.onLog grownLog false with summaryLog := .ofLog bootLog }]

theorem logs_grownAgentCalls :
    grownAgentCalls.flatMap AgentCall.logs = List.replicate 4 bootLog ++ List.replicate 2 grownLog :=
  rfl

theorem grownAgentCalls_extend : (grownAgentCalls.flatMap AgentCall.logs).IsChain RawLogExtends := by
  have hboot : RawLogExtends bootLog bootLog := by simpa using bootLog_extends ""
  have hgrown : RawLogExtends grownLog grownLog := by simpa using grownLog_extends ""
  rw [logs_grownAgentCalls, List.isChain_iff_pairwise, List.pairwise_append,
    List.pairwise_replicate, List.pairwise_replicate]
  refine ⟨Or.inr hboot, Or.inr hgrown, fun log hlog log' hlog' => ?_⟩
  rw [List.eq_of_mem_replicate hlog, List.eq_of_mem_replicate hlog']
  exact bootLog_extends resetLog

theorem grownAgentCalls_parseableFirst :
    ∀ log ∈ grownAgentCalls.flatMap AgentCall.logs, ParseableFirst log := by
  rw [logs_grownAgentCalls]
  unfold ParseableFirst
  decide +kernel

theorem agent_agreement_grownAgentCalls :
    List.Forall₂ (AgreesWithFull sha256) grownAgentCalls
      (collectedReports sha256 .empty grownAgentCalls) :=
  agent_agreement sha256 grownAgentCalls grownAgentCalls_extend grownAgentCalls_parseableFirst

end TpmAttest
