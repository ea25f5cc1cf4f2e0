import TpmAttest.AgentReport
import TpmAttest.HandlerAnswers

/-! # The daemon without its cache

The shim keeps the leaves of the log from one connection to the next.  On a log that only
grows, nothing outside the daemon can tell: its posts, its responses, which connections it
closes and where an exception ends its loop are those of a daemon that forgets the leaves
before every connection (`daemon_uncached`), whatever the clients send, the endpoints reply
and the readers raise.
-/
namespace TpmAttest.Shim

open Python

/-- What can be seen of a connection from outside. -/
def Outcome.visible (o : Outcome) : Except PyExn Unit × List Bytes × List Bytes × Bool :=
  (o.result, o.posted, o.sent, o.closed)

/-- The accept loop of a daemon that forgets the leaves. -/
def runUncached (py : Interpreter) (sha256 : Bytes → Digest) (machineId : String) :
    List Connection → List Outcome
  | [] => []
  | conn :: conns =>
    let outcome := handleClient py sha256 machineId conn .empty
    match outcome.result with
    | .ok () => outcome :: runUncached py sha256 machineId conns
    | .error _ => [outcome]

/-! ## The IMA step -/

section
variable {sha256 : Bytes → Digest} {prev : String} {countLog entriesLog : CompletedProcess}

/-- The tree, or the exception, is that of an empty cache; and the cache holds a log that
has been seen. -/
theorem updateTree_uncached (hfirst : ParseableFirst prev)
    (hcountLog : countLog.returncode = 0 → RawLogExtends prev countLog.stdout)
    (hentriesLog : entriesLog.returncode = 0 → RawLogExtends prev entriesLog.stdout) :
    (updateTree sha256 countLog entriesLog (cacheOf sha256 prev)).1 =
        (updateTree sha256 countLog entriesLog .empty).1 ∧
      ∃ prev', (prev' = prev ∨ entriesLog.returncode = 0 ∧ prev' = entriesLog.stdout) ∧
        (updateTree sha256 countLog entriesLog (cacheOf sha256 prev)).2 = cacheOf sha256 prev' := by
  have hempty : ∀ log, RawLogExtends "" log := rawLogExtends_empty
  rw [← cacheOf_empty]
  by_cases hread : countLog.returncode = 0 ∧ entriesLog.returncode = 0
  · obtain ⟨hcount, hentries⟩ := hread
    rw [updateTree_grown hfirst hcount (hcountLog hcount) hentries (hentriesLog hentries),
      updateTree_grown parseableFirst_empty hcount (hempty _) hentries (hempty _)]
    exact ⟨rfl, _, Or.inr ⟨hentries, rfl⟩, rfl⟩
  · have hfails := not_and_or.mp hread
    obtain ⟨e, htree, hsame⟩ := @updateTree_failed sha256 _ _ _ hcountLog hfails
    obtain ⟨e', htree', hsame'⟩ := @updateTree_failed sha256 _ _ _ (fun _ => hempty countLog.stdout)
      hfails
    refine ⟨?_, prev, Or.inl rfl, by rw [htree]⟩
    rw [htree, htree']
    show Except.error e = Except.error e'
    by_cases hcount : countLog.returncode = 0
    · exact congrArg Except.error (Except.error.inj ((hsame hcount).symm.trans (hsame' hcount)))
    · -- the exception of the first reading
      rcases readRawLines_cases countLog with ⟨h, -⟩ | ⟨-, e₀, hlines⟩
      · exact absurd h hcount
      · have hraise : ∀ cache, updateTree sha256 countLog entriesLog cache = (.error e₀, cache) := by
          intro cache
          unfold updateTree readImaLogLineCount
          rw [hlines]
          rfl
        rw [hraise] at htree htree'
        exact (congrArg Prod.fst htree).symm.trans (congrArg Prod.fst htree')

end

/-! ## The report -/

section
variable {sha256 : Bytes → Digest} {machineId : String} {prev : String} {call : AgentCall}

/-- The log that the cache holds after a call. -/
def HoldsSeen (sha256 : Bytes → Digest) (prev : String) (call : AgentCall) (cache : ImaCache) : Prop :=
  ∃ prev', (prev' = prev ∨ prev' ∈ call.logs) ∧ cache = cacheOf sha256 prev'

theorem holdsSeen_prev : HoldsSeen sha256 prev call (cacheOf sha256 prev) := ⟨prev, Or.inl rfl, rfl⟩

theorem collectReport_uncached (hfirst : ParseableFirst prev)
    (hlogs : ∀ log ∈ call.logs, RawLogExtends prev log) (nonce : Json) :
    ((Readers.ofReadings call.readings).collectReport sha256 machineId nonce (cacheOf sha256 prev)).1 =
        ((Readers.ofReadings call.readings).collectReport sha256 machineId nonce .empty).1 ∧
      HoldsSeen sha256 prev call
        ((Readers.ofReadings call.readings).collectReport sha256 machineId nonce
          (cacheOf sha256 prev)).2 := by
  have hcountLog : call.countLog.returncode = 0 → RawLogExtends prev call.countLog.stdout :=
    fun h => hlogs _ (AgentCall.mem_logs (by simp) h)
  have hentries : call.entriesLog.returncode = 0 → call.entriesLog.stdout ∈ call.logs :=
    fun h => AgentCall.mem_logs (by simp) h
  obtain ⟨hsame, prev', hprev', hcache⟩ := @updateTree_uncached sha256 prev call.countLog
    call.entriesLog hfirst hcountLog fun h => hlogs _ (hentries h)
  have hseen : HoldsSeen sha256 prev call
      (updateTree sha256 call.countLog call.entriesLog (cacheOf sha256 prev)).2 :=
    ⟨prev', hprev'.imp id fun ⟨hcode, hlog⟩ => hlog ▸ hentries hcode, hcache⟩
  have htree : ∀ cache, (Readers.ofReadings call.readings).updateTree sha256 cache =
      updateTree sha256 call.countLog call.entriesLog cache := fun _ => rfl
  unfold Readers.collectReport
  cases (do return (← (Readers.ofReadings call.readings).pcrs,
      ← (Readers.ofReadings call.readings).imaSummary) : Except Exn _) with
  | error e => exact ⟨rfl, holdsSeen_prev⟩
  | ok reads =>
    dsimp only
    rw [htree, htree]
    revert hsame hseen
    rcases updateTree sha256 call.countLog call.entriesLog (cacheOf sha256 prev) with ⟨tree, cache⟩
    rcases updateTree sha256 call.countLog call.entriesLog .empty with ⟨tree', cache'⟩
    rintro (rfl : tree = tree') hseen
    cases tree with
    | error e => exact ⟨rfl, hseen⟩
    | ok tree =>
      dsimp only
      cases (Readers.ofReadings call.readings).runTpmQuote nonce with
      | error e => exact ⟨rfl, hseen⟩
      | ok quote => exact ⟨rfl, hseen⟩

end

/-! ## The handler -/

section
variable {py : Interpreter} {sha256 : Bytes → Digest} {machineId : String} {prev : String}
  {call : AgentCall}

theorem generateReport_uncached (hfirst : ParseableFirst prev)
    (hlogs : ∀ log ∈ call.logs, RawLogExtends prev log) (nonce : Json) :
    (generateReport py sha256 machineId (.ofReadings call.readings) nonce (cacheOf sha256 prev)).1 =
        (generateReport py sha256 machineId (.ofReadings call.readings) nonce .empty).1 ∧
      HoldsSeen sha256 prev call (generateReport py sha256 machineId (.ofReadings call.readings) nonce
        (cacheOf sha256 prev)).2 := by
  obtain ⟨hsame, hseen⟩ := @collectReport_uncached sha256 machineId prev call hfirst hlogs nonce
  unfold generateReport
  cases first16 nonce >>= fun head => py.log .collecting [head] with
  | error e => exact ⟨rfl, holdsSeen_prev⟩
  | ok u =>
    revert hsame hseen
    dsimp only
    rcases (Readers.ofReadings call.readings).collectReport sha256 machineId nonce
      (cacheOf sha256 prev) with ⟨report, cache⟩
    rcases (Readers.ofReadings call.readings).collectReport sha256 machineId nonce .empty with
      ⟨report', cache'⟩
    rintro (rfl : report = report') hseen
    cases report with
    | error e => exact ⟨rfl, hseen⟩
    | ok report => exact ⟨rfl, hseen⟩

/-- The end of the handler hands the cache on. -/
theorem respond_cache (sendFails : Bool) (cache cache' : ImaCache) (posted : List Bytes) (payload : Json) :
    respond py sendFails cache posted payload =
      { respond py sendFails cache' posted payload with cache } := by
  unfold respond
  cases dumps py.floatRepr py.responseLimit payload <;> rfl

theorem finish_cache (sendFails : Bool) (cache cache' : ImaCache) (posted : List Bytes)
    (posting : Except PyExn Json) :
    finish py sendFails cache posted posting = { finish py sendFails cache' posted posting with cache } := by
  unfold finish
  cases posting >>= fun result => do py.log .result [result]; return result with
  | error e =>
    dsimp only
    by_cases he : e.isRuntimeError = true
    · rw [if_pos he, if_pos he]
      exact respond_cache _ _ _ _ _
    · rw [if_neg he, if_neg he]
      rfl
  | ok result =>
    dsimp only
    cases chooseResponse py result with
    | error e => rfl
    | ok verdict => exact respond_cache _ _ _ _ _

/-- **One connection.** -/
theorem handleClient_uncached {conn : Connection} (hreaders : conn.readers = .ofReadings call.readings)
    (hfirst : ParseableFirst prev) (hlogs : ∀ log ∈ call.logs, RawLogExtends prev log) :
    (handleClient py sha256 machineId conn (cacheOf sha256 prev)).visible =
        (handleClient py sha256 machineId conn .empty).visible ∧
      HoldsSeen sha256 prev call (handleClient py sha256 machineId conn (cacheOf sha256 prev)).cache := by
  have hown : ∀ {cache : ImaCache} {o o' : Outcome}, o = { o' with cache } →
      HoldsSeen sha256 prev call cache →
        o.visible = o'.visible ∧ HoldsSeen sha256 prev call o.cache := by
    rintro cache o o' rfl hseen
    exact ⟨rfl, hseen⟩
  have hrefused : ∀ (catches : Bool) e cache cache' reason, HoldsSeen sha256 prev call cache →
      (if catches then refuse py conn.sendFails cache [] reason else escape e cache []).visible =
          (if catches then refuse py conn.sendFails cache' [] reason else escape e cache' []).visible ∧
        HoldsSeen sha256 prev call
          (if catches then refuse py conn.sendFails cache [] reason else escape e cache []).cache := by
    intro catches e cache cache' reason hseen
    cases catches with
    | true => exact hown (respond_cache conn.sendFails cache cache' [] _) hseen
    | false => exact ⟨rfl, hseen⟩
  unfold handleClient
  cases conn.received with
  | none => exact ⟨rfl, holdsSeen_prev⟩
  | some received =>
    dsimp only
    cases parseHandshake py (decodeReplace received) with
    | error e => exact ⟨rfl, holdsSeen_prev⟩
    | ok handshake =>
      dsimp only
      cases getChallenge py conn.challenge with
      | error e => exact hrefused _ e _ _ _ holdsSeen_prev
      | ok nonce =>
        dsimp only [serveNonce]
        rw [hreaders]
        obtain ⟨hsame, hseen⟩ :=
          @generateReport_uncached py sha256 machineId prev call hfirst hlogs nonce
        revert hsame hseen
        rcases generateReport py sha256 machineId (.ofReadings call.readings) nonce
          (cacheOf sha256 prev) with ⟨report, cache⟩
        rcases generateReport py sha256 machineId (.ofReadings call.readings) nonce .empty with
          ⟨report', cache'⟩
        rintro (rfl : report = report') hseen
        cases report with
        | error e => exact hrefused _ e _ _ _ hseen
        | ok report => exact hown (finish_cache _ _ _ _ _) hseen

/-! ## The daemon -/

/-- The accept loop, from a cache that holds an earlier log. -/
theorem runServer_uncached {items : List (AgentCall × Connection)}
    (hreaders : ∀ item ∈ items, item.2.readers = .ofReadings item.1.readings)
    (hlogs : (prev :: items.flatMap fun item => item.1.logs).Pairwise RawLogExtends)
    (hfirst : ∀ log ∈ prev :: items.flatMap fun item => item.1.logs, ParseableFirst log) :
    (runServer py sha256 machineId (cacheOf sha256 prev) (items.map Prod.snd)).map Outcome.visible =
      (runUncached py sha256 machineId (items.map Prod.snd)).map Outcome.visible := by
  induction items generalizing prev with
  | nil => rfl
  | cons item items ih =>
    rw [List.forall_mem_cons] at hreaders
    rw [List.flatMap_cons] at hlogs hfirst
    rw [List.pairwise_cons] at hlogs
    obtain ⟨hprev, hrest⟩ := hlogs
    obtain ⟨-, hitems, hcross⟩ := List.pairwise_append.mp hrest
    obtain ⟨hsame, prev', hprev', hcache⟩ := @handleClient_uncached py sha256 machineId prev item.1 _
      hreaders.1 (hfirst prev List.mem_cons_self) fun log hlog => hprev log (List.mem_append_left _ hlog)
    have hresult := congrArg Prod.fst hsame
    change (handleClient py sha256 machineId item.2 (cacheOf sha256 prev)).result =
      (handleClient py sha256 machineId item.2 .empty).result at hresult
    rw [List.map_cons]
    unfold runServer runUncached
    dsimp only
    rw [hresult, hcache]
    cases (handleClient py sha256 machineId item.2 .empty).result with
    | error e =>
      rw [List.map_singleton, List.map_singleton, hsame]
    | ok u =>
      rw [List.map_cons, List.map_cons, hsame, ih hreaders.2]
      · rw [List.pairwise_cons]
        refine ⟨fun log hlog => ?_, hitems⟩
        rcases hprev' with rfl | hmem
        · exact hprev log (List.mem_append_right _ hlog)
        · exact hcross prev' hmem log hlog
      · intro log hlog
        apply hfirst
        rcases List.mem_cons.mp hlog with rfl | hlog
        · rcases hprev' with rfl | hmem
          · exact List.mem_cons_self
          · exact List.mem_cons_of_mem _ (List.mem_append_left _ hmem)
        · exact List.mem_cons_of_mem _ (List.mem_append_right _ hlog)

end

/-- **The cache cannot be seen.** -/
theorem daemon_uncached (py : Interpreter) (sha256 : Bytes → Digest) (machineId : String)
    (items : List (AgentCall × Connection))
    (hreaders : ∀ item ∈ items, item.2.readers = .ofReadings item.1.readings)
    (hlogs : (items.flatMap fun item => item.1.logs).IsChain RawLogExtends)
    (hfirst : ∀ log ∈ items.flatMap fun item => item.1.logs, ParseableFirst log) :
    (runServer py sha256 machineId .empty (items.map Prod.snd)).map Outcome.visible =
      (runUncached py sha256 machineId (items.map Prod.snd)).map Outcome.visible := by
  rw [← cacheOf_empty]
  apply runServer_uncached hreaders
  · rw [List.pairwise_cons]
    exact ⟨fun log _ => rawLogExtends_empty log, List.isChain_iff_pairwise.mp hlogs⟩
  · intro log hlog
    rcases List.mem_cons.mp hlog with rfl | hlog
    · exact parseableFirst_empty
    · exact hfirst log hlog

/-- A client for each of the two calls on the growing log. -/
def grownClients : List (AgentCall × Connection) :=
  grownAgentCalls.map fun call => (call,
    { sampleConnection "\x7b\x7d" sampleChallenge "\x7b\x7d" with
      readers := .ofReadings call.readings })

theorem daemon_uncached_grownClients :
    (runServer sampleInterpreter sha256 "desktop" .empty
        (grownClients.map Prod.snd)).map Outcome.visible =
      (runUncached sampleInterpreter sha256 "desktop" (grownClients.map Prod.snd)).map
        Outcome.visible := by
  apply daemon_uncached
  · intro item hitem
    obtain ⟨call, -, rfl⟩ := List.mem_map.mp hitem
    rfl
  · exact grownAgentCalls_extend
  · exact grownAgentCalls_parseableFirst

end TpmAttest.Shim
