import TpmAttest.MerkleBinding

/-! # The shim's incremental IMA cache

The shim keeps the leaf hashes of the log it has seen and an offset into the log,
and on each call hashes only the lines from the offset on.  The state is two
module variables, so what a failing call wrote stays: the cache is updated before
the TPM quote, and a quote that fails does not undo it.

Three notions of position meet here.  The offset is a count of *leaves*, it is
used to cut the *raw lines*, and it is compared with a count of *parseable* lines
to notice that the log was reset.  The results of this file say exactly when they
agree: `incremental_iff_parseableFirst` for a log that only grows, and
`incremental_of_noHiddenReset` for a log that is replaced.
-/
namespace TpmAttest

open Python HashLayers

/-- `_IMA_LEAF_CACHE` and `_IMA_LINE_OFFSET`. -/
structure ImaCache where
  leafCache : List Digest
  lineOffset : Nat

/-- The cache of a shim that has just started. -/
def ImaCache.empty : ImaCache := ⟨[], 0⟩

/-- What the readers answer during one call: the PCRs, the log as each of the
three readers of it gets it, and the quote for a nonce. -/
structure Readings where
  pcrs : Except Exn (List (Nat × String))
  summaryLog : CompletedProcess
  countLog : CompletedProcess
  entriesLog : CompletedProcess
  quote : String → Except Exn (String × String)
  timestamp : String
  machineId : String

/-- The report the shim sends. -/
structure ShimReport where
  version : String
  timestamp : String
  nonce : String
  machineId : String
  pcrs : List (Nat × String)
  imaSummary : ImaSummary
  imaMerkleRoot : String
  imaMerkleDepth : Nat
  imaLeafCount : Nat
  quoteAvailable : Bool
  quoteMsgB64 : String
  quoteSigB64 : String

section
variable (sha256 : Bytes → Digest)

/-- The IMA step of `_collect_report_incremental`.  An exception does not undo
what was written to the cache before it. -/
def updateTree (countLog entriesLog : CompletedProcess) (cache : ImaCache) :
    Except Exn ImaTree × ImaCache :=
  match readImaLogLineCount countLog with
  | .error e => (.error e, cache)
  | .ok totalLineCount =>
    let cache := if totalLineCount < cache.lineOffset then .empty else cache
    match readImaLog entriesLog cache.lineOffset with
    | .error e => (.error e, cache)
    | .ok newEntries =>
      match buildIncrementalMerkleTree sha256 cache.leafCache newEntries cache.lineOffset with
      | .error e => (.error e, cache)
      | .ok (updatedCache, imaTree) => (.ok imaTree, ⟨updatedCache, imaTree.leafCount⟩)

/-- `_collect_report_incremental`. -/
def collectReportIncremental (readings : Readings) (nonce : String) (cache : ImaCache) :
    Except Exn ShimReport × ImaCache :=
  let reads := do return (← readings.pcrs, ← readImaSummary readings.summaryLog)
  match reads with
  | .error e => (.error e, cache)
  | .ok (pcrs, imaSummary) =>
    match updateTree sha256 readings.countLog readings.entriesLog cache with
    | (.error e, cache) => (.error e, cache)
    | (.ok imaTree, cache) =>
      match readings.quote nonce with
      | .error e => (.error e, cache)
      | .ok (quoteMsg, quoteSig) =>
        (.ok {
          version := "1.1", timestamp := readings.timestamp, nonce,
          machineId := readings.machineId, pcrs, imaSummary, imaMerkleRoot := imaTree.root,
          imaMerkleDepth := imaTree.depth, imaLeafCount := imaTree.leafCount,
          quoteAvailable := true, quoteMsgB64 := quoteMsg, quoteSigB64 := quoteSig }, cache)

end

/-! ## Runs of calls -/

/-- A call whose readers work and see one log, up to the quote, which may fail. -/
structure Call where
  nonce : String
  log : String
  pcrs : List (Nat × String)
  quote : String → Except Exn (String × String)
  timestamp : String
  machineId : String

def Call.readings (call : Call) : Readings :=
  ⟨.ok call.pcrs, .ofLog call.log, .ofLog call.log, .ofLog call.log, call.quote, call.timestamp,
    call.machineId⟩

/-- The numbers of a tree that go into a report. -/
def ImaTree.summary (t : ImaTree) : String × Nat × Nat := (t.root, t.depth, t.leafCount)

section
variable (sha256 : Bytes → Digest)

/-- `build_ima_merkle_tree(read_ima_log())` on a log. -/
def fullTree (log : String) : Except Exn ImaTree := do
  let entries ← readImaLog (.ofLog log) 0
  buildImaMerkleTree sha256 entries

/-- The trees that successive calls compute, each with the cache the previous
call left, whether or not it got as far as a report. -/
def computedTrees (cache : ImaCache) : List Call → List (Except Exn ImaTree)
  | [] => []
  | call :: calls =>
    (updateTree sha256 call.readings.countLog call.readings.entriesLog cache).1 ::
      computedTrees (collectReportIncremental sha256 call.readings call.nonce cache).2 calls

/-- Every call computes the root, the depth and the leaf count of the full tree
over its log. -/
def IncrementalEqualsFull (cache : ImaCache) (calls : List Call) : Prop :=
  (computedTrees sha256 cache calls).map (Except.map ImaTree.summary) =
    calls.map fun call => (fullTree sha256 call.log).map ImaTree.summary

/-- The leaves after a call that sees `log`. -/
def nextLeaves (cache : ImaCache) (log : String) : List Digest :=
  let cache := if (logEntries log).length < cache.lineOffset then .empty else cache
  cache.leafCache ++ (((rawLines log).drop cache.lineOffset).filterMap parseLine).mapIdx
    fun i e => leafHash sha256 e (cache.lineOffset + i)

/-- The cache after a call that sees `log`. -/
def nextCache (cache : ImaCache) (log : String) : ImaCache :=
  ⟨nextLeaves sha256 cache log, (nextLeaves sha256 cache log).length⟩

/-- **The IMA step in closed form.** -/
theorem updateTree_ofLog (cache : ImaCache) (log : String) :
    updateTree sha256 (.ofLog log) (.ofLog log) cache =
      (.ok (treeOf sha256 (nextLeaves sha256 cache log)), nextCache sha256 cache log) := by
  simp only [updateTree, readImaLogLineCount_ofLog, readImaLog_ofLog,
    buildIncrementalMerkleTree_eq]
  rfl

/-- The cache after a call does not depend on how its quote ends. -/
theorem collectReportIncremental_cache (call : Call) (cache : ImaCache) :
    (collectReportIncremental sha256 call.readings call.nonce cache).2 =
      nextCache sha256 cache call.log := by
  change (match updateTree sha256 (.ofLog call.log) (.ofLog call.log) cache with
    | (.error e, cache) => (Except.error e, cache)
    | (.ok imaTree, cache) => _).2 = _
  rw [updateTree_ofLog]
  dsimp only
  cases call.readings.quote call.nonce with
  | error e => rfl
  | ok q => rfl

theorem fullTree_eq (log : String) :
    fullTree sha256 log = .ok (treeOf sha256 (leaves sha256 (logEntries log))) :=
  buildImaMerkleTree_eq sha256 _

theorem incrementalEqualsFull_cons (cache : ImaCache) (call : Call) (calls : List Call) :
    IncrementalEqualsFull sha256 cache (call :: calls) ↔
      (treeOf sha256 (nextLeaves sha256 cache call.log)).summary =
          (treeOf sha256 (leaves sha256 (logEntries call.log))).summary ∧
        IncrementalEqualsFull sha256 (nextCache sha256 cache call.log) calls := by
  unfold IncrementalEqualsFull
  rw [computedTrees, List.map_cons, List.map_cons, List.cons.injEq, collectReportIncremental_cache,
    fullTree_eq]
  change Except.map _ (updateTree sha256 (.ofLog call.log) (.ofLog call.log) cache).1 = _ ∧ _ ↔ _
  rw [updateTree_ofLog]
  change Except.ok _ = Except.ok _ ∧ _ ↔ _
  rw [Except.ok.injEq]

/-- The cache that holds a log. -/
def cacheOf (log : String) : ImaCache :=
  ⟨leaves sha256 (logEntries log), (logEntries log).length⟩

theorem cacheOf_empty : cacheOf sha256 "" = .empty := rfl

/-- A call that computes the right leaves leaves the cache holding its log. -/
theorem nextCache_eq_cacheOf {cache : ImaCache} {log : String}
    (h : nextLeaves sha256 cache log = leaves sha256 (logEntries log)) :
    nextCache sha256 cache log = cacheOf sha256 log := by
  rw [nextCache, h, length_leaves]
  rfl

/-- A call on a log with no fewer entries than are cached. -/
theorem nextLeaves_cacheOf {prev log : String}
    (h : (logEntries prev).length ≤ (logEntries log).length) :
    nextLeaves sha256 (cacheOf sha256 prev) log =
      leaves sha256 (logEntries prev ++
        ((rawLines log).drop (logEntries prev).length).filterMap parseLine) := by
  rw [leaves_append, nextLeaves, cacheOf, if_neg (Nat.not_lt.mpr h)]

end

/-! ## A log that grows -/

/-- No line that does not parse stands before one that does. -/
def ParseableFirst (log : String) : Prop :=
  (rawLines log).Pairwise fun a b => (parseLine b).isSome → (parseLine a).isSome

/-- The elements with a property come first exactly when the first so many
elements all have it. -/
theorem pairwise_iff_take {α : Type} (p : α → Bool) (l : List α) :
    l.Pairwise (fun a b => p b → p a) ↔ ∀ x ∈ l.take (l.countP p), p x := by
  induction l with
  | nil => simp
  | cons a l ih =>
    rw [List.pairwise_cons, ih]
    by_cases ha : p a
    · simp [ha]
    · rw [List.countP_cons_of_neg ha]
      constructor
      · rintro ⟨hfirst, -⟩ x hx
        have hnone : l.countP p = 0 := by
          rw [List.countP_eq_zero]
          exact fun b hb hpb => ha (hfirst b hb hpb)
        rw [hnone] at hx
        cases hx
      · intro htake
        cases hn : l.countP p with
        | zero =>
          rw [List.countP_eq_zero] at hn
          exact ⟨fun b hb hpb => absurd hpb (hn b hb), by simp⟩
        | succ n =>
          rw [hn] at htake
          exact absurd (htake a (by simp)) ha

theorem parseableFirst_iff (log : String) :
    ParseableFirst log ↔
      ∀ ln ∈ (rawLines log).take (logEntries log).length, (parseLine ln).isSome := by
  rw [ParseableFirst, pairwise_iff_take fun ln => (parseLine ln).isSome, logEntries,
    List.length_filterMap_eq_countP]

/-- The parseable lines among the first lines of a log, and the rest of them. -/
theorem logEntries_split (log : String) (n : Nat) :
    logEntries log =
      ((rawLines log).take n).filterMap parseLine ++ ((rawLines log).drop n).filterMap parseLine := by
  rw [← List.filterMap_append, List.take_append_drop]
  rfl

theorem length_logEntries_le (log : String) : (logEntries log).length ≤ (rawLines log).length :=
  List.length_filterMap_le _ _

section
variable (sha256 : Bytes → Digest) {prev log : String}

/-- **One call on a grown log.**  Its leaf count is right exactly when the
previous log's unparseable lines all came last, and then so are its leaves. -/
theorem nextLeaves_extends (h : RawLogExtends prev log) :
    (ParseableFirst prev →
      nextLeaves sha256 (cacheOf sha256 prev) log = leaves sha256 (logEntries log)) ∧
    ((nextLeaves sha256 (cacheOf sha256 prev) log).length = (logEntries log).length →
      ParseableFirst prev) := by
  obtain ⟨t, ht⟩ := rawLines_append h
  have hn := length_logEntries_le prev
  have happ : logEntries log = logEntries prev ++ t.filterMap parseLine := by
    rw [logEntries, ht, List.filterMap_append]
    rfl
  have hle : (logEntries prev).length ≤ (logEntries log).length := by
    rw [happ, List.length_append]
    omega
  have htake : (rawLines log).take (logEntries prev).length =
      (rawLines prev).take (logEntries prev).length := by
    rw [ht, List.take_append_of_le_length hn]
  rw [nextLeaves_cacheOf sha256 hle]
  constructor
  · intro hfirst
    rw [parseableFirst_iff] at hfirst
    -- the previous log's entries are its first lines, and none of the others parses
    have hall : ((rawLines prev).take (logEntries prev).length).countP
        (fun ln => (parseLine ln).isSome) = (logEntries prev).length := by
      rw [List.countP_eq_length.mpr hfirst, List.length_take, Nat.min_eq_left hn]
    have hsplit := congrArg List.length (logEntries_split prev (logEntries prev).length)
    rw [List.length_append, List.length_filterMap_eq_countP, hall] at hsplit
    have hnone : ((rawLines prev).drop (logEntries prev).length).filterMap parseLine = [] :=
      List.length_eq_zero_iff.mp (by omega)
    rw [ht, List.drop_append_of_le_length hn, List.filterMap_append, hnone, happ]
    rfl
  · intro hlen
    rw [parseableFirst_iff, ← htake, ← List.countP_eq_length, htake, List.length_take,
      Nat.min_eq_left hn, ← htake, ← List.length_filterMap_eq_countP]
    rw [length_leaves, List.length_append] at hlen
    have hsplit := congrArg List.length (logEntries_split log (logEntries prev).length)
    rw [List.length_append] at hsplit
    omega

/-- Calls on a growing log, from a cache that holds the log before them. -/
theorem incrementalEqualsFull_cacheOf {prev : String} {calls : List Call}
    (h : (prev :: calls.map Call.log).IsChain RawLogExtends) :
    IncrementalEqualsFull sha256 (cacheOf sha256 prev) calls ↔
      calls = [] ∨ (ParseableFirst prev ∧ ∀ call ∈ calls.dropLast, ParseableFirst call.log) := by
  induction calls generalizing prev with
  | nil => simp [IncrementalEqualsFull, computedTrees]
  | cons call calls ih =>
    rw [List.map_cons, List.isChain_cons_cons] at h
    obtain ⟨hext, hchain⟩ := h
    obtain ⟨hright, hcount⟩ := nextLeaves_extends sha256 hext
    rw [incrementalEqualsFull_cons]
    by_cases hfirst : ParseableFirst prev
    · rw [nextCache_eq_cacheOf sha256 (hright hfirst), hright hfirst, ih hchain]
      cases calls with
      | nil => simp [hfirst]
      | cons call' calls => simp [hfirst]
    · -- the first call is wrong already, by its leaf count
      constructor
      · rintro ⟨hsum, -⟩
        have hlen := congrArg (fun s => s.2.2) hsum
        exact absurd (hcount (by simpa [ImaTree.summary, treeOf] using hlen)) hfirst
      · rintro (h | ⟨h, -⟩)
        · cases h
        · exact absurd h hfirst

end

theorem rawLogExtends_empty (log : String) : RawLogExtends "" log :=
  ⟨Or.inl rfl, log, by simp⟩

theorem parseableFirst_empty : ParseableFirst "" := List.Pairwise.nil

/-- **When incremental hashing is full hashing**, for a log that only grows and
whichever quotes fail: exactly when, in the log of every call but the last, no
line that does not parse stands before one that does. -/
theorem incremental_iff_parseableFirst (sha256 : Bytes → Digest) (calls : List Call)
    (h : (calls.map Call.log).IsChain RawLogExtends) :
    IncrementalEqualsFull sha256 .empty calls ↔
      ∀ call ∈ calls.dropLast, ParseableFirst call.log := by
  have hchain : ("" :: calls.map Call.log).IsChain RawLogExtends := by
    cases calls with
    | nil => exact .singleton _
    | cons call calls => exact .cons_cons (rawLogExtends_empty _) h
  have key := incrementalEqualsFull_cacheOf sha256 hchain
  rw [cacheOf_empty] at key
  rw [key]
  cases calls with
  | nil => simp
  | cons call calls => simp [parseableFirst_empty]

/-- A call that sees a log and gets a quote. -/
def Call.onLog (log : String) : Call := ⟨"", log, [], fun _ => .ok ("", ""), "", ""⟩

/-- A log of one entry. -/
def bootLog : String := "10 1d8d ima-ng sha256:0f2a boot_aggregate\n"

/-- Another log of one entry. -/
def resetLog : String := "10 7c3e ima-ng sha256:a91b /usr/bin/tool\n"

/-- The first log with the other one's entry behind it. -/
def grownLog : String := bootLog ++ resetLog

theorem bootLog_extends (t : String) : RawLogExtends bootLog (bootLog ++ t) :=
  ⟨Or.inr ⟨bootLog.toList.dropLast, by decide⟩, t, rfl⟩

theorem grownLog_extends (t : String) : RawLogExtends grownLog (grownLog ++ t) :=
  ⟨Or.inr ⟨grownLog.toList.dropLast, by decide +kernel⟩, t, rfl⟩

/-- A log whose first line does not parse. -/
def junkLog : String := "10 1d8d ima-ng\n10 1d8d ima-ng sha256:0f2a boot_aggregate\n"

theorem junkLog_extends : RawLogExtends junkLog junkLog :=
  ⟨Or.inr ⟨junkLog.toList.dropLast, by decide⟩, "", by simp⟩

/-- A log that grows from call to call, the last time by a line that does not parse;
the quote of the second call fails. -/
def grownCalls : List Call :=
  [.onLog bootLog, { Call.onLog grownLog with quote := fun _ => .error (.runtimeError "no AK") },
    .onLog (grownLog ++ "10 7c3e\n")]

theorem incremental_iff_parseableFirst_grownCalls :
    IncrementalEqualsFull sha256 .empty grownCalls ↔
      ∀ call ∈ grownCalls.dropLast, ParseableFirst call.log :=
  incremental_iff_parseableFirst sha256 grownCalls
    (.cons_cons (bootLog_extends resetLog) (.cons_cons (grownLog_extends _) (.singleton _)))

/-- Two calls on the log whose first line does not parse: the second hashes its
entry a second time. -/
theorem incremental_ne_full_junkLog :
    ([Call.onLog junkLog, .onLog junkLog].map Call.log).IsChain RawLogExtends ∧
      ¬ IncrementalEqualsFull sha256 .empty [.onLog junkLog, .onLog junkLog] := by
  refine ⟨.cons_cons junkLog_extends (.singleton _), ?_⟩
  have hchain : ("" :: [Call.onLog junkLog, .onLog junkLog].map Call.log).IsChain RawLogExtends :=
    .cons_cons (rawLogExtends_empty junkLog) (.cons_cons junkLog_extends (.singleton _))
  have key := incrementalEqualsFull_cacheOf sha256 hchain
  rw [cacheOf_empty] at key
  rw [key]
  rintro (h | ⟨-, h⟩)
  · cases h
  · have hfirst : ParseableFirst junkLog := h _ List.mem_cons_self
    unfold ParseableFirst at hfirst
    revert hfirst
    decide

/-! ## A log that is replaced -/

/-- What the shim does tell apart: the next log has fewer entries than the
previous one, a reset that it notices, or begins with the previous one's entries,
as far as these are hashed. -/
def NoHiddenReset (prev log : String) : Prop :=
  (logEntries log).length < (logEntries prev).length ∨
    leafPreimages (logEntries prev) <+: leafPreimages (logEntries log)

/-- The log that the cache and the new lines make up together. -/
def mixedEntries (prev log : String) : List Entry :=
  logEntries prev ++ (logEntries log).drop (logEntries prev).length

/-- In a log without unparseable lines, lines and entries are at the same place. -/
theorem filterMap_drop {log : String} (h : AllParse log) (n : Nat) :
    ((rawLines log).drop n).filterMap parseLine = (logEntries log).drop n := by
  have hpos : ∀ {l : List (List Char)}, (∀ ln ∈ l, (parseLine ln).isSome) →
      (l.filterMap parseLine).length = l.length := by
    intro l hl
    rw [List.length_filterMap_eq_countP, List.countP_eq_length]
    exact hl
  rw [logEntries_split log n]
  have htake : (((rawLines log).take n).filterMap parseLine).length =
      min n (rawLines log).length := by
    rw [hpos fun ln hln => h ln (List.mem_of_mem_take hln), List.length_take]
  by_cases hn : n ≤ (rawLines log).length
  · rw [List.drop_left' (by rw [htake, Nat.min_eq_left hn])]
  · rw [List.drop_eq_nil_of_le (by omega : (rawLines log).length ≤ n)]
    simp only [List.filterMap_nil, List.append_nil]
    exact (List.drop_eq_nil_of_le (by rw [htake]; omega)).symm

section
variable (sha256 : Bytes → Digest) {prev log : String}

/-- A call on a log with fewer entries starts afresh. -/
theorem nextLeaves_of_lt (h : (logEntries log).length < (logEntries prev).length) :
    nextLeaves sha256 (cacheOf sha256 prev) log = leaves sha256 (logEntries log) := by
  rw [nextLeaves, cacheOf, if_pos h]
  simp [ImaCache.empty, leaves, logEntries]

/-- A call on a log with no fewer entries keeps every leaf it has. -/
theorem nextLeaves_of_le (hlog : AllParse log)
    (h : (logEntries prev).length ≤ (logEntries log).length) :
    nextLeaves sha256 (cacheOf sha256 prev) log = leaves sha256 (mixedEntries prev log) := by
  rw [nextLeaves_cacheOf sha256 h, filterMap_drop hlog]
  rfl

/-- The mixed log has the new log's length. -/
theorem length_mixedEntries (h : (logEntries prev).length ≤ (logEntries log).length) :
    (mixedEntries prev log).length = (logEntries log).length := by
  rw [mixedEntries, List.length_append, List.length_drop]
  omega

/-- The mixed log hashes as the new log exactly when this begins with the cached
entries. -/
theorem leafPreimages_mixed (h : (logEntries prev).length ≤ (logEntries log).length) :
    leafPreimages (mixedEntries prev log) = leafPreimages (logEntries log) ↔
      leafPreimages (logEntries prev) <+: leafPreimages (logEntries log) := by
  have hcut : ∀ es fs : List Entry, leafPreimages (es ++ fs) =
      leafPreimages es ++ fs.mapIdx fun i e => leafPreimage e (i + es.length) :=
    fun es fs => List.mapIdx_append
  have hlen : ∀ es : List Entry, (leafPreimages es).length = es.length :=
    fun es => List.length_mapIdx
  constructor
  · intro heq
    rw [← heq, mixedEntries, hcut]
    exact List.prefix_append _ _
  · intro hpre
    have htake : leafPreimages (logEntries prev) =
        leafPreimages ((logEntries log).take (logEntries prev).length) := by
      rw [List.prefix_iff_eq_take.mp hpre, hlen]
      conv_lhs => rw [← List.take_append_drop (logEntries prev).length (logEntries log), hcut]
      rw [List.take_left' (by rw [hlen, List.length_take, Nat.min_eq_left h])]
    rw [mixedEntries, hcut, htake]
    conv_rhs => rw [← List.take_append_drop (logEntries prev).length (logEntries log), hcut]
    rw [List.length_take, Nat.min_eq_left h]

/-- **One call on any log without unparseable lines**: it is right when no reset
is hidden from it, and when it is right and one was, two byte strings collide. -/
theorem nextLeaves_replaced (hlog : AllParse log) :
    (NoHiddenReset prev log →
      nextLeaves sha256 (cacheOf sha256 prev) log = leaves sha256 (logEntries log)) ∧
    ((treeOf sha256 (nextLeaves sha256 (cacheOf sha256 prev) log)).summary =
        (treeOf sha256 (leaves sha256 (logEntries log))).summary →
      NoHiddenReset prev log ∨
        HashCollision sha256 (preimages sha256 (mixedEntries prev log))
          (preimages sha256 (logEntries log))) := by
  by_cases hlt : (logEntries log).length < (logEntries prev).length
  · exact ⟨fun _ => nextLeaves_of_lt sha256 hlt, fun _ => Or.inl (Or.inl hlt)⟩
  · have hle := Nat.not_lt.mp hlt
    have hlen := length_mixedEntries hle
    rw [nextLeaves_of_le sha256 hlog hle]
    constructor
    · rintro (h | h)
      · exact absurd h hlt
      · rw [leaves_eq_map, leaves_eq_map, (leafPreimages_mixed hle).mpr h]
    · intro hsum
      by_cases hnil : logEntries log = []
      · -- nothing is cached either
        rw [hnil] at hle
        have hprev : logEntries prev = [] := List.length_eq_zero_iff.mp (Nat.le_zero.mp hle)
        exact Or.inl (Or.inr (by rw [hprev]; exact List.nil_prefix))
      · have hmixed : mixedEntries prev log ≠ [] := by
          rw [← List.length_pos_iff, hlen]
          exact List.length_pos_iff.mpr hnil
        have hroot : rootDigest sha256 (leaves sha256 (mixedEntries prev log)) =
            rootDigest sha256 (leaves sha256 (logEntries log)) :=
          Subtype.ext (hex_injective (congrArg Prod.fst hsum))
        have hdepth := congrArg (fun s => s.2.1) hsum
        rcases leafPreimages_eq_of_depth_eq hmixed hnil hlen.le hdepth hroot with heq | hc
        · exact Or.inl (Or.inr ((leafPreimages_mixed hle).mp heq))
        · exact Or.inr hc

/-- Calls on any logs without unparseable lines, from a cache that holds one. -/
theorem incrementalEqualsFull_replaced {prev : String} {calls : List Call}
    (h : ∀ call ∈ calls, AllParse call.log) :
    ((prev :: calls.map Call.log).IsChain NoHiddenReset →
      IncrementalEqualsFull sha256 (cacheOf sha256 prev) calls) ∧
    (IncrementalEqualsFull sha256 (cacheOf sha256 prev) calls →
      (prev :: calls.map Call.log).IsChain NoHiddenReset ∨
        ∃ a b, [a, b] <:+: prev :: calls.map Call.log ∧
          HashCollision sha256 (preimages sha256 (mixedEntries a b))
            (preimages sha256 (logEntries b))) := by
  induction calls generalizing prev with
  | nil => exact ⟨fun _ => rfl, fun _ => Or.inl (.singleton _)⟩
  | cons call calls ih =>
    obtain ⟨hright, hwrong⟩ := @nextLeaves_replaced sha256 prev call.log (h call List.mem_cons_self)
    obtain ⟨hto, hfrom⟩ := @ih call.log fun c hc => h c (List.mem_cons_of_mem _ hc)
    rw [List.map_cons, List.isChain_cons_cons, incrementalEqualsFull_cons]
    constructor
    · rintro ⟨hstep, hchain⟩
      rw [nextCache_eq_cacheOf sha256 (hright hstep), hright hstep]
      exact ⟨rfl, hto hchain⟩
    · rintro ⟨hsum, hrest⟩
      rcases hwrong hsum with hstep | hc
      · rw [nextCache_eq_cacheOf sha256 (hright hstep)] at hrest
        rcases hfrom hrest with hchain | ⟨a, b, hab, hc⟩
        · exact Or.inl ⟨hstep, hchain⟩
        · exact Or.inr ⟨a, b, hab.trans (List.suffix_cons _ _).isInfix, hc⟩
      · exact Or.inr ⟨prev, call.log, ⟨[], calls.map Call.log, rfl⟩, hc⟩

end

/-- **When incremental hashing is full hashing over resets**, for logs without
unparseable lines: if every log has fewer entries than the one before or begins
with its entries; and only then, unless two byte strings collide. -/
theorem incremental_of_noHiddenReset (sha256 : Bytes → Digest) (calls : List Call)
    (h : ∀ call ∈ calls, AllParse call.log) :
    ((calls.map Call.log).IsChain NoHiddenReset → IncrementalEqualsFull sha256 .empty calls) ∧
    (IncrementalEqualsFull sha256 .empty calls →
      (calls.map Call.log).IsChain NoHiddenReset ∨
        ∃ a b, [a, b] <:+: "" :: calls.map Call.log ∧
          HashCollision sha256 (preimages sha256 (mixedEntries a b))
            (preimages sha256 (logEntries b))) := by
  have key := @incrementalEqualsFull_replaced sha256 "" calls h
  rw [cacheOf_empty] at key
  have hfirst : ∀ log, NoHiddenReset "" log := fun log => Or.inr List.nil_prefix
  cases calls with
  | nil => exact ⟨fun _ => rfl, fun _ => Or.inl .nil⟩
  | cons call calls =>
    rw [List.map_cons, List.isChain_cons_cons] at key
    exact ⟨fun hchain => key.1 ⟨hfirst _, hchain⟩,
      fun hall => (key.2 hall).imp_left And.right⟩

theorem allParse_bootLog : AllParse bootLog := by
  unfold AllParse
  decide

theorem allParse_resetLog : AllParse resetLog := by
  unfold AllParse
  decide

theorem allParse_grownLog : AllParse grownLog := by
  unfold AllParse
  decide +kernel

/-- The log grows, and is then replaced by a shorter one. -/
def resetCalls : List Call := [.onLog bootLog, .onLog grownLog, .onLog resetLog]

theorem incremental_of_noHiddenReset_resetCalls :
    IncrementalEqualsFull sha256 .empty resetCalls := by
  have hparse : ∀ call ∈ resetCalls, AllParse call.log := by
    simpa [resetCalls, Call.onLog] using
      ⟨allParse_bootLog, allParse_grownLog, allParse_resetLog⟩
  have hgrown : NoHiddenReset bootLog grownLog := Or.inr (by decide +kernel)
  have hreset : NoHiddenReset grownLog resetLog := Or.inl (by decide +kernel)
  exact (incremental_of_noHiddenReset sha256 resetCalls hparse).1
    (.cons_cons hgrown (.cons_cons hreset (.singleton _)))

def resetEntry : Entry := ⟨"10", "7c3e", "ima-ng", "sha256:a91b", "/usr/bin/tool"⟩

/-- The log is replaced by one of the same length: the second call reports the
root of the log that is gone. -/
theorem incremental_ne_full_resetLog :
    (∀ call ∈ [Call.onLog bootLog, .onLog resetLog], AllParse call.log) ∧
      ¬ IncrementalEqualsFull sha256 .empty [.onLog bootLog, .onLog resetLog] := by
  refine ⟨by simpa [Call.onLog] using ⟨allParse_bootLog, allParse_resetLog⟩, ?_⟩
  have hboot : logEntries bootLog = [bootAggregate] := by decide
  have hreset : logEntries resetLog = [resetEntry] := by decide
  have hmixed : mixedEntries bootLog resetLog = [bootAggregate] := by
    rw [mixedEntries, hboot, hreset]
    rfl
  have hfirst : nextLeaves sha256 (cacheOf sha256 "") bootLog = leaves sha256 (logEntries bootLog) :=
    (nextLeaves_replaced sha256 allParse_bootLog).1 (Or.inr List.nil_prefix)
  have hsecond : nextLeaves sha256 (cacheOf sha256 bootLog) resetLog =
      leaves sha256 (mixedEntries bootLog resetLog) :=
    nextLeaves_of_le sha256 allParse_resetLog (by decide)
  rw [incrementalEqualsFull_cons, incrementalEqualsFull_cons, ← cacheOf_empty]
  rintro ⟨-, hsum, -⟩
  rw [show (Call.onLog bootLog).log = bootLog from rfl, nextCache_eq_cacheOf sha256 hfirst,
    show (Call.onLog resetLog).log = resetLog from rfl, hsecond, hmixed, hreset] at hsum
  have hroot : rootDigest sha256 (leaves sha256 [bootAggregate]) =
      rootDigest sha256 (leaves sha256 [resetEntry]) :=
    Subtype.ext (hex_injective (congrArg Prod.fst hsum))
  rw [rootDigest_single, rootDigest_single] at hroot
  revert hroot
  decide +kernel

end TpmAttest
