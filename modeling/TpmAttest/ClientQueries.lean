import TpmAttest.ByteStreams
import TpmAttest.ClientSession
import TpmAttest.EacHook
import TpmAttest.TruncatedJson

/-! # The queries of the game's side

The hook, the mock client and the game's bridge each send the shim a request and read its
response from a stream socket.  The hook reads once, the mock client until its buffer is
full or the shim has closed, and the bridge until the shim has closed.  The response may
arrive in any pieces, and its end may be lost: then no client takes a rejection for an
approval (`verdict_of_stream`), and the bridge approves only what has arrived whole.
-/
namespace TpmAttest.Shim

open Python JsonGrammar ByteStreams
open EacHook (parseJsonBool strstr cString cString_of_notMem shimBufSize)

/-- How a client's calls go: the exception of a call before the response is read, how much
each read delivers that succeeds, and the exception of the one behind them. -/
structure SocketCalls where
  failure : Option Text
  grants : List Nat
  broken : Text

/-- `shim_query`, when `pending` arrives on the socket. -/
def SocketCalls.shimQuery (calls : SocketCalls) (pending : Bytes) : Bool :=
  if calls.failure.isSome then false
  else calls.grants.head?.elim false fun grant =>
    let resp := recv (shimBufSize - 1) grant pending
    if resp.isEmpty then false else parseJsonBool resp (bytes "valid")

/-- The handshake of the mock client, up to the time. -/
def mockHandshakeStart : String :=
  "\x7b\"type\":\"eac_handshake\",\"game_id\":\"splitgate\",\"player_id\":\"test_player_123\"," ++
    "\"platform\":\"linux\",\"timestamp\":"

def mockHandshake (ts : Int) : Bytes := encode (mockHandshakeStart ++ toString ts ++ "\x7d")

/-- `main` of the mock client: its exit status. -/
def SocketCalls.mockMain (calls : SocketCalls) (ts : Int) (pending : Bytes) : Nat :=
  -- the handshake has a buffer of 512 bytes, the response one of 4096, each with a NUL
  if 512 ≤ (mockHandshake ts).length then 1
  else if calls.failure.isSome then 1
  else (recvInto 4095 calls.grants [] pending).elim 1 fun response =>
    if response.isEmpty then 1 else if responseIsValid response then 0 else 1

namespace Bridge
variable (game : Bridge)

/-- `_query_shim_direct`. -/
def queryShim (calls : SocketCalls) (pending : Bytes) : Json :=
  let failed e := .dict [(text "valid", .bool false), (text "reason", .str e)]
  calls.failure.elim
    ((recvAll 4096 calls.grants [] pending).elim (failed calls.broken) game.queryShimDirect) failed

end Bridge

/-- `valid`, `reason` and `token` of a response, as `begin_attestation` reads them. -/
def readResponse (resp : Json) : Except PyExn (Json × Json × Json) := do
  let valid := (← getKey "valid" resp).getD (.bool false)
  let reason := (← getKey "reason" resp).getD (.str (text "unknown"))
  let token := (← getKey "token" resp).getD (.str [])
  return (valid, reason, token)

theorem beginAttestation_eq (game : Bridge) (data : Bytes) :
    game.beginAttestation data = readResponse (game.queryShimDirect data) := rfl

/-! ## The beginning of a response -/

section
variable {valid : Bool} {s : Text} {pending : Bytes}

/-- A prefix of a response is the text of a prefix. -/
theorem prefix_responseBytes (h : pending <+: responseBytes valid s) :
    ∃ n, pending = utf8 ((responseChars valid s).take n) ∧
      ((responseChars valid s).length ≤ n → pending = responseBytes valid s) := by
  refine ⟨pending.length, ?_, fun hn => ?_⟩
  · rw [utf8_ascii fun c hc => Nat.lt_of_le_of_lt (mem_responseChars (List.mem_of_mem_take hc)).2
      (by decide), List.map_take, map_responseChars]
    exact List.prefix_iff_eq_take.mp h
  · apply h.eq_of_length_le
    rwa [← map_responseChars, List.length_map]

/-- The whole response is read. -/
theorem decodeJson_response (valid : Bool) (s : Text) :
    ∃ limit value, decodeJson limit (chars (responseChars valid s)) = .ok value := by
  have hitems : ItemsRead (fun _ => "") 0
      [(text "valid", .bool valid), (text (if valid then "token" else "reason"), .str s)]
      [(readBack (text "valid"), .bool valid),
        (readBack (text (if valid then "token" else "reason")), .str (readBack s))] :=
    .cons ⟨rfl, reads_bool _ 0 valid⟩ (.cons ⟨rfl, reads_str _ 0 s⟩ .nil)
  have hloads := loadsText_dict hitems
  change loadsText 1 (chars (jsonChars (fun _ => "") (response valid (.str s)))) = _ at hloads
  rw [jsonChars_response, loadsText] at hloads
  by_cases hbom : (chars (responseChars valid s)).head? = some (codePoint 0xfeff)
  · rw [if_pos hbom] at hloads
    cases hloads
  · rw [if_neg hbom] at hloads
    exact ⟨1, _, hloads⟩

/-- **The bridge rejects a response that was cut off.** -/
theorem queryShimDirect_cut (game : Bridge) (h : pending <+: responseBytes valid s)
    (hcut : pending ≠ responseBytes valid s) :
    ∃ e, game.queryShimDirect pending =
      .dict [(text "valid", .bool false), (text "reason", .str (game.describe e))] := by
  obtain ⟨n, hn, hwhole⟩ := prefix_responseBytes h
  have htruncated : ∃ e, decodeJson game.loadsLimit (chars ((responseChars valid s).take n)) =
      .error e := by
    obtain ⟨limit, value, hvalue⟩ := decodeJson_response valid s
    have htake : chars ((responseChars valid s).take n) ++ chars ((responseChars valid s).drop n) =
        chars (responseChars valid s) := by
      rw [chars, chars, ← List.map_append, List.take_append_drop]
      rfl
    obtain ⟨u, hu⟩ : ∃ u, chars (responseChars valid s) = char '{' :: (u ++ [char '}']) := by
      rw [← jsonChars_response fun _ => "", chars]
      exact ⟨_, by rw [response, jsonChars, List.map_cons, List.map_append]; rfl⟩
    apply decodeJson_truncated (htake.trans hu)
    · intro hnil
      exact hcut (hwhole (List.drop_eq_nil_iff.mp (List.map_eq_nil_iff.mp hnil)))
    · rw [htake]
      exact hvalue
  obtain ⟨e, he⟩ : ∃ e, loadsText game.loadsLimit (chars ((responseChars valid s).take n)) =
      .error e := by
    unfold loadsText
    by_cases hbom : (chars ((responseChars valid s).take n)).head? = some (codePoint 0xfeff)
    · rw [if_pos hbom]
      exact ⟨_, rfl⟩
    · rw [if_neg hbom]
      exact htruncated
  refine ⟨e, ?_⟩
  rw [Bridge.queryShimDirect, hn, decodeUtf8_utf8]
  dsimp only
  rw [he]

/-- What the mock client finds in the beginning of a text, it finds in the text. -/
theorem responseIsValid_prefix {json : Bytes} (h : pending <+: json) (hzero : 0 ∉ json)
    (hvalid : responseIsValid pending = true) : responseIsValid json = true := by
  have hfound : ∀ needle : List UInt8, needle ≠ [] →
      (strstr needle (cString pending)).isSome = true → (strstr needle (cString json)).isSome = true := by
    intro needle hne hfound
    rw [cString_of_notMem fun h0 => hzero (h.subset h0), strstr_isSome_iff hne] at hfound
    rw [cString_of_notMem hzero, strstr_isSome_iff hne]
    exact hfound.trans h.isInfix
  unfold responseIsValid at hvalid ⊢
  rw [Bool.or_eq_true] at hvalid ⊢
  exact hvalid.imp (hfound _ (by decide)) (hfound _ (by decide))

end

/-! ## The verdict -/

/-- The handshake fits its buffer, at a time of 64 bits. -/
theorem mockHandshake_length_lt {ts : Int} (hts : ts.natAbs ≤ 2 ^ 63) :
    (mockHandshake ts).length < 512 := by
  have hdigits : (Nat.toDigits 10 ts.natAbs).length ≤ 19 :=
    (Nat.length_toDigits_le_iff (by decide) (by decide)).mpr (by omega)
  have hnumber : (toString ts).toList.length ≤ 20 := by
    have hlength := congrArg List.length (chars_toString ts)
    rw [chars, List.length_map, intText, List.length_append, digitsOf, chars, List.length_map] at hlength
    rw [hlength]
    split
    · rw [List.length_singleton]
      omega
    · rw [List.length_nil]
      omega
  have hprintable : ∀ c ∈ (mockHandshakeStart ++ toString ts ++ "\x7d").toList, Printable c := by
    rw [String.toList_append, String.toList_append]
    exact printable_append (printable_append (printable_all (by decide +kernel)) (printable_int ts))
      (printable_all (by decide))
  have hlength : mockHandshakeStart.toList.length + 21 < 512 := by decide +kernel
  rw [mockHandshake, encode_toList,
    utf8_ascii fun c hc => Nat.lt_of_le_of_lt (hprintable c hc).2 (by decide), List.length_map,
    String.toList_append, String.toList_append, List.length_append, List.length_append]
  change _ + (toString ts).toList.length + 1 < 512
  omega

section
variable {py : Interpreter} {game : Bridge} {calls : SocketCalls} {ts : Int} {pending : Bytes}
  {valid : Bool} {s : Text}

/-- The programs that ask the shim. -/
inductive Client where
  | hook
  | mockClient
  | bridge

/-- The client takes what it reads for an approval. -/
def Client.Approves (game : Bridge) (calls : SocketCalls) (ts : Int) (pending : Bytes) : Client → Prop
  | hook => calls.shimQuery pending = true
  | mockClient => calls.mockMain ts pending = 0
  | bridge => ∃ value, (readResponse (game.queryShim calls pending)).map (·.1) = .ok value ∧
      value.truthy = true

/-- No call of the client fails while it reads the response, and the one read of the hook
delivers the literal. -/
def Client.Reads (calls : SocketCalls) (resp : Bytes) : Client → Prop
  | hook => calls.failure = none ∧ ∃ grant ∈ calls.grants.head?, 13 ≤ grant
  | mockClient => calls.failure = none ∧ (recvInto 4095 calls.grants [] resp).isSome
  | bridge => calls.failure = none ∧ (recvAll 4096 calls.grants [] resp).isSome

/-- The hook approves only what the shim approves. -/
theorem shimQuery_safe (h : pending <+: responseBytes valid s)
    (happroves : Client.Approves game calls ts pending .hook) : valid = true := by
  change calls.shimQuery pending = true at happroves
  unfold SocketCalls.shimQuery at happroves
  by_cases hfailure : calls.failure.isSome = true
  · rw [if_pos hfailure] at happroves
    cases happroves
  · rw [if_neg hfailure] at happroves
    cases hgrants : calls.grants.head? with
    | none =>
      rw [hgrants] at happroves
      cases happroves
    | some grant =>
      rw [hgrants] at happroves
      dsimp only [Option.elim] at happroves
      by_cases hempty : (recv (shimBufSize - 1) grant pending).isEmpty = true
      · rw [if_pos hempty] at happroves
        cases happroves
      · rw [if_neg hempty] at happroves
        have hprefix : recv (shimBufSize - 1) grant pending <+: responseBytes valid s :=
          (List.take_prefix _ _).trans h
        rw [List.prefix_iff_eq_take.mp hprefix] at happroves hempty
        refine (agreement_response game valid s).safe _ ?_ happroves
        apply Nat.pos_of_ne_zero
        intro hzero
        rw [hzero, List.take_zero] at hempty
        exact hempty rfl

theorem mockMain_safe (h : pending <+: responseBytes valid s)
    (happroves : Client.Approves game calls ts pending .mockClient) : valid = true := by
  change calls.mockMain ts pending = 0 at happroves
  unfold SocketCalls.mockMain at happroves
  by_cases hlong : 512 ≤ (mockHandshake ts).length
  · rw [if_pos hlong] at happroves
    cases happroves
  · rw [if_neg hlong] at happroves
    by_cases hfailure : calls.failure.isSome = true
    · rw [if_pos hfailure] at happroves
      cases happroves
    · rw [if_neg hfailure] at happroves
      cases hread : recvInto 4095 calls.grants [] pending with
      | none =>
        rw [hread] at happroves
        cases happroves
      | some response =>
        rw [hread] at happroves
        dsimp only [Option.elim] at happroves
        have hresponse := recvInto_eq_some (Nat.zero_le 4095) hread
        by_cases hempty : response.isEmpty = true
        · rw [if_pos hempty] at happroves
          cases happroves
        · rw [if_neg hempty] at happroves
          by_cases hvalid : responseIsValid response = true
          · have hprefix : response <+: responseBytes valid s := by
              rw [hresponse, List.nil_append]
              exact (List.take_prefix _ _).trans h
            rw [← (agreement_response game valid s).mock]
            exact responseIsValid_prefix hprefix (zero_notMem_responseBytes valid s) hvalid
          · rw [if_neg hvalid] at happroves
            cases happroves

/-- What the bridge stores of a response, or of an exception. -/
theorem valid_of_failed {e : Text} {value : Json} (h : (readResponse (.dict
    [(text "valid", .bool false), (text "reason", .str e)])).map (·.1) = .ok value) :
    value.truthy = false := by
  obtain rfl : Json.bool false = value := Except.ok.inj h
  rfl

theorem queryShim_safe (h : pending <+: responseBytes valid s)
    (happroves : Client.Approves game calls ts pending .bridge) :
    valid = true ∧ pending = responseBytes valid s := by
  obtain ⟨value, hvalue, htruthy⟩ := happroves
  have hfailed : ∀ e, game.queryShim calls pending ≠
      .dict [(text "valid", .bool false), (text "reason", .str e)] := by
    intro e he
    rw [he] at hvalue
    rw [valid_of_failed hvalue] at htruthy
    cases htruthy
  unfold Bridge.queryShim at hvalue hfailed
  cases hfailure : calls.failure with
  | some e =>
    rw [hfailure] at hfailed
    exact absurd rfl (hfailed e)
  | none =>
    rw [hfailure] at hvalue hfailed
    cases hread : recvAll 4096 calls.grants [] pending with
    | none =>
      rw [hread] at hfailed
      exact absurd rfl (hfailed calls.broken)
    | some data =>
      obtain rfl : data = pending := recvAll_eq_some (by decide) hread
      rw [hread] at hvalue hfailed
      by_cases hwhole : data = responseBytes valid s
      · subst hwhole
        have hstored := (agreement_response game valid s).bridge
        rw [beginAttestation_eq] at hstored
        dsimp only [Option.elim] at hvalue
        rw [hstored] at hvalue
        obtain rfl := Except.ok.inj hvalue
        exact ⟨htruthy, rfl⟩
      · obtain ⟨e, he⟩ := queryShimDirect_cut game h hwhole
        exact absurd he (hfailed _)

/-- **Whatever arrives of a response**: a client that approves has been sent an approval, and
the bridge has received all of it. -/
theorem approves_safe (h : pending <+: responseBytes valid s) (client : Client)
    (happroves : client.Approves game calls ts pending) :
    valid = true ∧ (client = .bridge → pending = responseBytes valid s) := by
  cases client with
  | hook => exact ⟨shimQuery_safe h happroves, Client.noConfusion⟩
  | mockClient => exact ⟨mockMain_safe h happroves, Client.noConfusion⟩
  | bridge =>
    obtain ⟨hvalid, hwhole⟩ := queryShim_safe h happroves
    exact ⟨hvalid, fun _ => hwhole⟩

/-- The mock client finds the member in any beginning that has it. -/
theorem responseIsValid_take {n : Nat} (hn : 14 ≤ n) (s : Text) :
    responseIsValid ((responseBytes true s).take n) = true := by
  obtain ⟨x, hx⟩ := responseBytes_eq true s
  have hmember : bytes "\"valid\": true" <:+: header ++ (literal true).render :=
    ⟨bytes "\x7b", [], by decide⟩
  have hprefix : header ++ (literal true).render <+: (responseBytes true s).take n := by
    rw [List.prefix_take_iff, hx, ← List.append_assoc]
    exact ⟨List.prefix_append _ _, hn⟩
  have hzero : 0 ∉ (responseBytes true s).take n := fun h0 =>
    zero_notMem_responseBytes true s (List.mem_of_mem_take h0)
  unfold responseIsValid
  rw [cString_of_notMem hzero, (strstr_isSome_iff (by decide) _).mpr (hmember.trans hprefix.isInfix),
    Bool.or_true]

/-- Enough calls that succeed, whatever each of them delivers. -/
theorem reads_of_length_lt {resp : Bytes} (hfailure : calls.failure = none)
    (hgrants : resp.length < calls.grants.length) (client : Client)
    (hfirst : client = .hook → ∀ grant ∈ calls.grants.head?, 13 ≤ grant) :
    client.Reads calls resp := by
  cases client with
  | hook =>
    obtain ⟨grant, grants, hlist⟩ := List.exists_cons_of_length_pos (Nat.zero_lt_of_lt hgrants)
    have hgrant : grant ∈ calls.grants.head? := by rw [hlist]; rfl
    exact ⟨hfailure, grant, hgrant, hfirst rfl grant hgrant⟩
  | mockClient =>
    refine ⟨hfailure, ?_⟩
    rw [recvInto_of_lt (Nat.zero_le 4095) hgrants]
    rfl
  | bridge =>
    refine ⟨hfailure, ?_⟩
    rw [recvAll_of_lt (by decide) hgrants]
    rfl

/-- **When a client approves** that reads all of the response. -/
theorem approves_complete (hts : ts.natAbs ≤ 2 ^ 63) (client : Client)
    (hreads : client.Reads calls (responseBytes valid s)) :
    client.Approves game calls ts (responseBytes valid s) ↔ valid = true := by
  refine ⟨fun happroves => (approves_safe (List.prefix_refl _) client happroves).1, ?_⟩
  rintro rfl
  cases client with
  | hook =>
    obtain ⟨hfailure, grant, hgrant, hfirst⟩ := hreads
    have hn : 14 ≤ min (grant + 1) (shimBufSize - 1) :=
      Nat.le_min.mpr ⟨Nat.succ_le_succ hfirst, by decide⟩
    have htrue := (agreement_response game true s).complete rfl _ hn
    change calls.shimQuery _ = true
    rw [SocketCalls.shimQuery, hfailure, if_neg (by decide), Option.mem_def.mp hgrant]
    dsimp only [Option.elim]
    rw [recv_isEmpty (by decide)]
    exact htrue
  | mockClient =>
    obtain ⟨hfailure, hread⟩ := hreads
    obtain ⟨d, hd⟩ := Option.isSome_iff_exists.mp hread
    have hlong := mockHandshake_length_lt hts
    change calls.mockMain ts _ = 0
    rw [SocketCalls.mockMain, if_neg (Nat.not_le.mpr hlong), hfailure, if_neg (by decide), hd,
      recvInto_eq_some (Nat.zero_le 4095) hd, List.nil_append]
    dsimp only [Option.elim]
    have hvalid := responseIsValid_take (n := 4095) (by decide) s
    rw [if_neg, if_pos hvalid]
    intro hempty
    rw [List.isEmpty_iff.mp hempty] at hvalid
    cases hvalid
  | bridge =>
    obtain ⟨hfailure, hread⟩ := hreads
    obtain ⟨d, hd⟩ := Option.isSome_iff_exists.mp hread
    refine ⟨.bool true, ?_, rfl⟩
    rw [Bridge.queryShim, hfailure, hd, recvAll_eq_some (by decide) hd]
    exact (agreement_response game true s).bridge

end

/-- **The verdict of a client**: whatever the shim sends, it says valid only if the server
does; and if its token or reason is a string, then however the stream delivers it, and
wherever it ends, a client approves only what is valid, and the bridge only what has arrived
whole; and each approves what is valid if nothing is lost. -/
theorem verdict_of_stream (py : Interpreter) (game : Bridge) (sha256 : Bytes → Digest)
    (machineId : String) (conn : Connection) (cache : ImaCache) (resp : Bytes)
    (h : resp ∈ (handleClient py sha256 machineId conn cache).sent) :
    ∃ valid value, IsResponse py resp valid value ∧ (valid = true → ServerAccepts py conn.attest) ∧
      ∀ s, value = .str s → ∀ (calls : SocketCalls) (ts : Int) (client : Client),
        (∀ pending, pending <+: resp → client.Approves game calls ts pending →
          valid = true ∧ (client = .bridge → pending = resp)) ∧
        (ts.natAbs ≤ 2 ^ 63 → client.Reads calls resp →
          (client.Approves game calls ts resp ↔ valid = true)) := by
  obtain ⟨valid, value, hresponse, hvalid⟩ := sent_handleClient h
  refine ⟨valid, value, hresponse, hvalid, ?_⟩
  rintro s rfl calls ts client
  obtain rfl := TpmAttest.isResponse_eq hresponse
  exact ⟨fun pending hpending => approves_safe hpending client,
    fun hts => approves_complete hts client⟩

/-- An approval. -/
def approval : String := "\x7b\"valid\": true, \"token\": \"token\"\x7d"

theorem verdict_of_stream_approval : ∃ valid value,
    IsResponse sampleInterpreter (encode approval) valid value ∧
      (valid = true → ServerAccepts sampleInterpreter (.body (encode approval))) ∧
      ∀ s, value = .str s → ∀ (calls : SocketCalls) (ts : Int) (client : Client),
        (∀ pending, pending <+: encode approval → client.Approves sampleBridge calls ts pending →
          valid = true ∧ (client = .bridge → pending = encode approval)) ∧
        (ts.natAbs ≤ 2 ^ 63 → client.Reads calls (encode approval) →
          (client.Approves sampleBridge calls ts (encode approval) ↔ valid = true)) :=
  verdict_of_stream sampleInterpreter sampleBridge sha256 "host"
    (sampleConnection "\x7b\x7d" sampleChallenge approval) .empty (encode approval) (by decide +kernel)

end TpmAttest.Shim
