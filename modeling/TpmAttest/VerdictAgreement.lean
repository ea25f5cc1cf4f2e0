import TpmAttest.HandlerAnswers
import TpmAttest.ParseJsonBool
import TpmAttest.RawStrings

/-! # What the game's side makes of a verdict

Three programs read the shim's response: the hook, with `parse_json_bool`, perhaps from
a part of it; the mock client, which looks for the member in either of two spellings;
and the game's bridge, with `json.loads`.  They agree on a response whose token or
reason is a string (`verdict_agreement`): the encoder escapes every quote in a string,
so the text of a member does not occur in it.
-/
namespace TpmAttest.Shim

open Python JsonGrammar QuotedStrings
open EacHook (parseJsonBool strstr cString cString_of_notMem)

/-- `response_is_valid` of the mock client. -/
def responseIsValid (json : List UInt8) : Bool :=
  (strstr (bytes "\"valid\":true") (cString json)).isSome ||
    (strstr (bytes "\"valid\": true") (cString json)).isSome

/-- The interpreter of the game: how deep a response may nest, and `str` of an
exception. -/
structure Bridge where
  loadsLimit : Nat
  describe : LoadsError → Text
  loadsLimit_pos : 0 < loadsLimit

namespace Bridge
variable (game : Bridge)

/-- `_query_shim_direct`, from the bytes that it has received on. -/
def queryShimDirect (data : Bytes) : Json :=
  let failed e := .dict [(text "valid", .bool false), (text "reason", .str (game.describe e))]
  match decodeUtf8 strict 0 data with
  | none => failed .unicode
  | some s =>
    match loadsText game.loadsLimit s with
    | .error e => failed e
    | .ok resp => resp

/-- What `begin_attestation` stores: `valid`, `reason` and `token`. -/
def beginAttestation (data : Bytes) : Except PyExn (Json × Json × Json) := do
  let resp := game.queryShimDirect data
  let valid := (← getKey "valid" resp).getD (.bool false)
  let reason := (← getKey "reason" resp).getD (.str (text "unknown"))
  let token := (← getKey "token" resp).getD (.str [])
  return (valid, reason, token)

end Bridge

/-! ## The bytes of a response -/

/-- The response with a string. -/
def responseBytes (valid : Bool) (s : Text) : Bytes :=
  bytes "\x7b" ++ byte '"' :: (bytes "valid" ++ byte '"' ::
    (bytes (if valid then ": true, " else ": false, ") ++ byte '"' ::
      (bytes (if valid then "token" else "reason") ++ byte '"' :: (bytes ": " ++ byte '"' ::
        ((escapeText s).map byte ++ byte '"' :: bytes "\x7d")))))

/-- Every quote in an escape comes after a backslash. -/
theorem escaped_escapeUnit (n : Nat) (previous : UInt8) :
    Escaped (byte '"') (byte '\\') previous ((escapeUnit n).map byte) := by
  have hhex : ∀ d < 16, byte '"' ≠ byte (hexDigit d) := by decide
  rcases escapeUnit_cases n with ⟨hn, -, hmax, hquote, -⟩ | ⟨e, he, hn, -, -⟩ | hn
  · rw [hn]
    refine escaped_of_notMem (fun h => hquote ?_) previous
    have hbyte : 0x22 = (byte (Char.ofNat n)).toNat :=
      congrArg UInt8.toNat (List.mem_singleton.mp h)
    rw [byte, toNat_ofNat_ascii (by omega), UInt8.toNat_ofNat',
      Nat.mod_eq_of_lt (by omega : n < 2 ^ 8)] at hbyte
    exact hbyte.symm
  · rw [hn]
    exact ⟨fun h => absurd h (by decide), fun _ => rfl, trivial⟩
  · rw [hn]
    refine escaped_of_notMem ?_ previous
    have hstart : byte '"' ≠ byte '\\' ∧ byte '"' ≠ byte 'u' := by decide
    simp [hexDigits, hstart, hhex _ (Nat.mod_lt _ (by decide : 0 < 16))]

theorem escaped_escapeText (s : Text) (previous : UInt8) :
    Escaped (byte '"') (byte '\\') previous ((escapeText s).map byte) := by
  rw [escapeText, List.map_flatMap]
  exact escaped_flatMap (fun n _ => escaped_escapeUnit n) previous

/-- The text of a response with a string. -/
def responseChars (valid : Bool) (s : Text) : List Char :=
  "\x7b".toList ++ '"' :: ("valid".toList ++ '"' ::
    ((if valid then ": true, " else ": false, ").toList ++ '"' ::
      ((if valid then "token" else "reason").toList ++ '"' :: (": ".toList ++ '"' ::
        (escapeText s ++ '"' :: "\x7d".toList)))))

theorem jsonChars_response (floatRepr : Decimal → String) (valid : Bool) (s : Text) :
    jsonChars floatRepr (response valid (.str s)) = responseChars valid s := by
  have hassoc : ((escapeText s ++ ['"']) ++ []) ++ ['}'] = escapeText s ++ '"' :: ['}'] := by simp
  cases valid with
  | true =>
    change "\x7b\"valid\": true, \"token\": \"".toList ++ (((escapeText s ++ ['"']) ++ []) ++ ['}']) = _
    rw [hassoc]
    rfl
  | false =>
    change "\x7b\"valid\": false, \"reason\": \"".toList ++ (((escapeText s ++ ['"']) ++ []) ++ ['}']) = _
    rw [hassoc]
    rfl

theorem mem_responseChars {valid : Bool} {s : Text} {c : Char} (h : c ∈ responseChars valid s) :
    0x20 ≤ c.toNat ∧ c.toNat ≤ 0x7e := by
  have hfixed : ∀ l ∈ ["\x7b\"valid\": true, \"token\": \"", "\x7b\"valid\": false, \"reason\": \"",
      "\"\x7d"], l.toList.all (fun c => 0x20 ≤ c.toNat ∧ c.toNat ≤ 0x7e) := by decide +kernel
  have hsplit : ∃ l ∈ ["\x7b\"valid\": true, \"token\": \"", "\x7b\"valid\": false, \"reason\": \""],
      responseChars valid s = l.toList ++ (escapeText s ++ "\"\x7d".toList) := by
    cases valid with
    | true => exact ⟨_, List.mem_cons_self, rfl⟩
    | false => exact ⟨_, List.mem_cons_of_mem _ List.mem_cons_self, rfl⟩
  obtain ⟨l, hl, hsplit⟩ := hsplit
  rw [hsplit, List.mem_append, List.mem_append] at h
  rcases h with h | h | h
  · exact List.all_iff_forall_prop.mp (hfixed l (List.mem_append_left ["\"\x7d"] hl)) c h
  · exact mem_escapeText h
  · exact List.all_iff_forall_prop.mp (hfixed _ (by simp)) c h

theorem map_responseChars (valid : Bool) (s : Text) :
    (responseChars valid s).map byte = responseBytes valid s := by
  unfold responseChars responseBytes
  simp only [List.map_append, List.map_cons]
  cases valid <;> rfl

theorem utf8_responseChars (valid : Bool) (s : Text) :
    utf8 (responseChars valid s) = responseBytes valid s := by
  rw [utf8_ascii, map_responseChars]
  intro c hc
  have hmax := (mem_responseChars hc).2
  omega

theorem encode_response (floatRepr : Decimal → String) (valid : Bool) (s : Text) :
    encode (String.ofList (jsonChars floatRepr (response valid (.str s)))) =
      responseBytes valid s := by
  rw [jsonChars_response, encode_eq, utf8_responseChars]

theorem zero_notMem_responseBytes (valid : Bool) (s : Text) : 0 ∉ responseBytes valid s := by
  rw [← map_responseChars]
  intro h
  obtain ⟨c, hc, hzero⟩ := List.mem_map.mp h
  obtain ⟨hmin, hmax⟩ := mem_responseChars hc
  have hbyte := toNat_byte (c := c) (by omega)
  rw [hzero] at hbyte
  change 0 = c.toNat at hbyte
  omega

/-! ## The hook -/

/-- The literal of a truth value. -/
def literal (valid : Bool) : Value := if valid then .true else .false

/-- What stands before the literal. -/
def header : Bytes := bytes "\x7b\"valid\": "

theorem responseBytes_eq (valid : Bool) (s : Text) :
    ∃ x, responseBytes valid s = header ++ ((literal valid).render ++ byte ',' :: x) := by
  cases valid with
  | true => exact ⟨_, rfl⟩
  | false => exact ⟨_, rfl⟩

theorem strstr_append {needle : List UInt8} (h : needle ≠ []) (s : List UInt8) :
    strstr needle (needle ++ s) = some (needle ++ s) := by
  obtain ⟨b, rest, rfl⟩ := List.exists_cons_of_ne_nil h
  exact if_pos (List.prefix_append _ s)

/-- An object whose first member is `valid`, or the beginning of one. -/
theorem parseJsonBool_header (v : Value) {x : List UInt8} (hx : Tail (bytes ",\x7d") x)
    (hzero : 0 ∉ header ++ (v.render ++ x)) :
    parseJsonBool (header ++ (v.render ++ x)) (bytes "valid") = EacHook.isTrue v := by
  have hpattern : quoted (byte '"') (cString (bytes "valid")) = bytes "\"valid\"" := by decide
  have hlength : ¬ 128 ≤ (bytes "\"valid\"").length := by decide
  have hfound : strstr (bytes "\"valid\"") (header ++ (v.render ++ x)) =
      some (bytes "\"valid\"" ++ (byte ':' :: (renderSpaces [.space] ++ (v.render ++ x)))) := by
    have hskip : ∀ t, strstr (bytes "\"valid\"") (byte '\x7b' :: t) = strstr (bytes "\"valid\"") t := by
      intro t
      exact if_neg fun h => absurd (List.cons_prefix_cons.mp h).1 (by decide)
    exact (hskip _).trans (strstr_append (by decide) _)
  unfold parseJsonBool
  rw [hpattern, cString_of_notMem hzero]
  dsimp only
  rw [if_neg hlength, hfound]
  rw [Option.elim_some, List.drop_left]
  exact EacHook.valueIsTrue_member [] [.space] v hx

/-- A prefix of a response that has the literal. -/
theorem parseJsonBool_take (valid : Bool) (s : Text) {n : Nat}
    (h : (header ++ (literal valid).render).length ≤ n) :
    parseJsonBool ((responseBytes valid s).take n) (bytes "valid") = valid := by
  have hzero : 0 ∉ (responseBytes valid s).take n := fun h0 =>
    zero_notMem_responseBytes valid s (List.mem_of_mem_take h0)
  obtain ⟨x, hx⟩ := responseBytes_eq valid s
  obtain ⟨k, rfl⟩ := Nat.exists_eq_add_of_le h
  rw [hx, ← List.append_assoc, List.take_length_add_append, List.append_assoc] at hzero ⊢
  have htail : Tail (bytes ",\x7d") ((byte ',' :: x).take k) := by
    cases k with
    | zero => exact ⟨[], [], rfl, by simp⟩
    | succ k => exact Tail.of_cons (by decide) _
  rw [parseJsonBool_header (literal valid) htail hzero]
  cases valid <;> rfl

/-- A prefix of a rejection that does not have the literal. -/
theorem parseJsonBool_short (s : Text) {n : Nat}
    (h : n < (header ++ (literal false).render).length) :
    parseJsonBool ((responseBytes false s).take n) (bytes "valid") = false := by
  have hshort : ∀ n < (header ++ (literal false).render).length,
      parseJsonBool ((header ++ (literal false).render).take n) (bytes "valid") = false := by
    decide +kernel
  obtain ⟨x, hx⟩ := responseBytes_eq false s
  rw [hx, ← List.append_assoc, List.take_append_of_le_length (Nat.le_of_lt h)]
  exact hshort n h

/-! ## The mock client -/

theorem strstr_isSome_iff {needle : List UInt8} (h : needle ≠ []) (s : List UInt8) :
    (strstr needle s).isSome = true ↔ needle <:+: s := by
  induction s with
  | nil => simp [strstr, h]
  | cons b s ih =>
    rw [List.infix_cons_iff, ← ih]
    by_cases hp : needle <+: b :: s
    · simp [strstr, hp]
    · simp [strstr, hp]

/-- Where a rejection has the key `valid`: at its first member, and perhaps at the end
of the reason. -/
theorem behind_rejection (s : Text) {r : List UInt8}
    (h : r ∈ behind (quoted (byte '"') (bytes "valid")) (responseBytes false s)) :
    (∃ x, r = bytes ": false" ++ x) ∨ r = bytes "\x7d" := by
  have hfound : ∀ {name rest : List UInt8}, Escaped (byte '"') (byte '\\') (byte '"') name →
      (∃ b t, rest = b :: t ∧ b ≠ byte 'v') →
      behind (quoted (byte '"') (bytes "valid")) (byte '"' :: (name ++ byte '"' :: rest)) =
        (if EndsInKey (byte '"') (bytes "valid") name then [rest] else []) ++
          behind (quoted (byte '"') (bytes "valid")) rest := by
    rintro name rest hname ⟨b, t, rfl, hb⟩
    refine behind_string (by decide) (by decide) (by decide) hname ?_
    exact fun hp => hb (List.cons_prefix_cons.mp hp).1.symm
  have hend : behind (quoted (byte '"') (bytes "valid")) (bytes "\x7d") = [] := by decide
  have hvalid : EndsInKey (byte '"') (bytes "valid") (bytes "valid") := by decide
  have hreason : ¬ EndsInKey (byte '"') (bytes "valid")
      (bytes (if false then "token" else "reason")) := by decide
  unfold responseBytes at h
  rw [behind_append (by decide), hfound (escaped_of_notMem (by decide) _) (by exact ⟨_, _, rfl, by decide⟩),
    behind_append (by decide), hfound (escaped_of_notMem (by decide) _) (by exact ⟨_, _, rfl, by decide⟩),
    behind_append (by decide), hfound (escaped_escapeText s _) (by exact ⟨_, _, rfl, by decide⟩), hend,
    if_pos hvalid, if_neg hreason, List.nil_append, List.append_nil] at h
  rcases List.mem_append.mp h with h | h
  · obtain rfl := List.mem_singleton.mp h
    exact Or.inl ⟨_, rfl⟩
  · split at h
    · exact Or.inr (List.mem_singleton.mp h)
    · cases h

theorem responseIsValid_response (valid : Bool) (s : Text) :
    responseIsValid (responseBytes valid s) = valid := by
  unfold responseIsValid
  rw [cString_of_notMem (zero_notMem_responseBytes valid s)]
  cases valid with
  | true =>
    have hinfix : bytes "\"valid\": true" <:+: responseBytes true s := ⟨bytes "\x7b", _, rfl⟩
    rw [(strstr_isSome_iff (by decide) _).mpr hinfix, Bool.or_true]
  | false =>
    have hnone : ∀ tail ∈ [bytes ":true", bytes ": true"],
        (strstr (quoted (byte '"') (bytes "valid") ++ tail) (responseBytes false s)).isSome = false := by
      intro tail htail
      have hmismatch : ∀ tail ∈ [bytes ":true", bytes ": true"],
          (∀ x, ¬ tail <+: bytes ": false" ++ x) ∧ ¬ tail <+: bytes "\x7d" := by
        intro tail htail
        simp only [List.mem_cons, List.not_mem_nil, or_false] at htail
        rcases htail with rfl | rfl
        · exact ⟨fun x hp => absurd (List.cons_prefix_cons.mp (List.cons_prefix_cons.mp hp).2).1
            (by decide), by decide⟩
        · exact ⟨fun x hp => absurd (List.cons_prefix_cons.mp (List.cons_prefix_cons.mp
            (List.cons_prefix_cons.mp hp).2).2).1 (by decide), by decide⟩
      have hne : quoted (byte '"') (bytes "valid") ≠ [] := List.cons_ne_nil _ _
      rw [Bool.eq_false_iff, Ne, strstr_isSome_iff (List.append_ne_nil_of_left_ne_nil hne tail),
        append_infix_iff hne]
      rintro ⟨r, hr, hp⟩
      rcases behind_rejection s hr with ⟨x, rfl⟩ | rfl
      · exact (hmismatch tail htail).1 x hp
      · exact (hmismatch tail htail).2 hp
    have hfirst := hnone (bytes ":true") (by simp)
    have hsecond := hnone (bytes ": true") (by simp)
    change ((strstr (quoted (byte '"') (bytes "valid") ++ bytes ":true") _).isSome ||
      (strstr (quoted (byte '"') (bytes "valid") ++ bytes ": true") _).isSome) = false
    rw [hfirst, hsecond]
    rfl

/-! ## The bridge -/

theorem beginAttestation_response (game : Bridge) (valid : Bool) (s : Text) :
    (game.beginAttestation (responseBytes valid s)).map (·.1) = .ok (.bool valid) := by
  obtain ⟨limit, hlimit⟩ := Nat.exists_eq_add_one_of_ne_zero (Nat.ne_of_gt game.loadsLimit_pos)
  have hdecode : decodeUtf8 strict 0 (responseBytes valid s) = some (chars (responseChars valid s)) := by
    rw [← utf8_responseChars]
    exact decodeUtf8_utf8 strict (responseChars valid s)
  have hitems : ItemsRead (fun _ => "") limit
      [(text "valid", .bool valid), (text (if valid then "token" else "reason"), .str s)]
      [(readBack (text "valid"), .bool valid),
        (readBack (text (if valid then "token" else "reason")), .str (readBack s))] :=
    .cons ⟨rfl, reads_bool _ limit valid⟩ (.cons ⟨rfl, reads_str _ limit s⟩ .nil)
  have hloads := loadsText_dict hitems
  rw [show Json.dict [(text "valid", .bool valid), (text (if valid then "token" else "reason"), .str s)] =
    response valid (.str s) from rfl, jsonChars_response, ← hlimit] at hloads
  unfold Bridge.beginAttestation Bridge.queryShimDirect
  rw [hdecode]
  dsimp only
  rw [hloads]
  cases valid with
  | true => rfl
  | false => rfl

/-! ## What the handler sends -/

section
variable (py : Interpreter)

/-- The bytes are a response with this verdict, and this token or reason. -/
def IsResponse (resp : Bytes) (valid : Bool) (value : Json) : Prop :=
  ∃ data, dumps py.floatRepr py.responseLimit (response valid value) = some data ∧
    resp = encode data

/-- The server's reply is an object with `valid` true. -/
def ServerAccepts (attest : Reply) : Prop :=
  ∃ b items, (attest = .body b ∨ ∃ code reason, attest = .httpError code reason b) ∧
    loads (py.loadsLimit .attest) b = .ok (.dict items) ∧
    getItem "valid" items = some (.bool true)

/-- `readReply` succeeds only on the JSON of a body. -/
theorem readReply_eq_ok {attest : Reply} {result : Json} (h : readReply py attest = .ok result) :
    ∃ b, (attest = .body b ∨ ∃ code reason, attest = .httpError code reason b) ∧
      loads (py.loadsLimit .attest) b = .ok result := by
  have hbody : ∀ b, readReply py (.body b) = .ok result →
      loads (py.loadsLimit .attest) b = .ok result := by
    intro b hb
    cases hloads : loads (py.loadsLimit .attest) b with
    | ok v =>
      rw [readReply_of_ok py hloads] at hb
      exact congrArg Except.ok (Except.ok.inj hb)
    | error e =>
      obtain ⟨e', hread, -⟩ := readReply_of_error py hloads
      rw [hread] at hb
      cases hb
  cases attest with
  | body b => exact ⟨b, Or.inl rfl, hbody b h⟩
  | httpError code reason b => exact ⟨b, Or.inr ⟨code, reason, rfl⟩, hbody b h⟩
  | unreachable reason => cases h
  | failed => cases h

variable {py} {resp : Bytes} {sendFails : Bool} {cache : ImaCache} {posted : List Bytes}

theorem sent_respond {valid : Bool} {value : Json}
    (h : resp ∈ (respond py sendFails cache posted (response valid value)).sent) :
    IsResponse py resp valid value := by
  unfold respond at h
  cases hdumps : dumps py.floatRepr py.responseLimit (response valid value) with
  | none =>
    rw [hdumps] at h
    cases h
  | some data =>
    rw [hdumps] at h
    cases sendFails with
    | true => cases h
    | false => exact ⟨data, hdumps, List.mem_singleton.mp h⟩

theorem sent_finish {posting : Except PyExn Json}
    (h : resp ∈ (finish py sendFails cache posted posting).sent) :
    ∃ valid value, IsResponse py resp valid value ∧ (valid = true → ∃ items,
      posting = .ok (.dict items) ∧ getItem "valid" items = some (.bool true)) := by
  unfold finish at h
  have hrefused : ∀ e reason, resp ∈ (if PyExn.isRuntimeError e then
      refuse py sendFails cache posted reason else escape e cache posted).sent →
      ∃ valid value, IsResponse py resp valid value ∧ (valid = true → ∃ items,
        posting = .ok (.dict items) ∧ getItem "valid" items = some (.bool true)) := by
    intro e reason h
    split at h
    · exact ⟨false, _, sent_respond h, Bool.noConfusion⟩
    · cases h
  cases posting with
  | error e => exact hrefused e _ h
  | ok result =>
    dsimp only [bind, Except.bind] at h
    rcases log_eq py .result [result] with ⟨-, hlog⟩ | ⟨-, hlog⟩
    · rw [hlog] at h
      dsimp only [pure, Except.pure] at h
      cases result with
      | dict items =>
        cases hchoose : chooseResponse py (.dict items) with
        | error e =>
          rw [hchoose] at h
          cases h
        | ok verdict =>
          rw [hchoose] at h
          refine ⟨verdict.1, verdict.2, sent_respond h, fun hvalid => ⟨items, rfl, ?_⟩⟩
          have hverdict : verdict = verdictOf items := by
            dsimp only [chooseResponse, Shim.verdict, bind, Except.bind] at hchoose
            rcases log_eq py (if (verdictOf items).1 then .token else .reason) [(verdictOf items).2] with
              ⟨-, hlog'⟩ | ⟨-, hlog'⟩
            · rw [hlog'] at hchoose
              exact (Except.ok.inj hchoose).symm
            · rw [hlog'] at hchoose
              cases hchoose
          rw [hverdict] at hvalid
          unfold verdictOf at hvalid
          split at hvalid
          · assumption
          · cases hvalid
      | _ => cases h
    · rw [hlog] at h
      exact hrefused .recursionError _ h

theorem sent_handleClient {sha256 : Bytes → Digest} {machineId : String} {conn : Connection}
    (h : resp ∈ (handleClient py sha256 machineId conn cache).sent) :
    ∃ valid value, IsResponse py resp valid value ∧
      (valid = true → ServerAccepts py conn.attest) := by
  have hrefused : ∀ (catches : Bool) e cache reason, resp ∈ (if catches then
      refuse py conn.sendFails cache [] reason else escape e cache []).sent →
      ∃ valid value, IsResponse py resp valid value ∧
        (valid = true → ServerAccepts py conn.attest) := by
    intro catches e cache reason h
    split at h
    · exact ⟨false, _, sent_respond h, Bool.noConfusion⟩
    · cases h
  unfold handleClient at h
  cases hreceived : conn.received with
  | none =>
    rw [hreceived] at h
    cases h
  | some received =>
    rw [hreceived] at h
    dsimp only at h
    cases hhandshake : parseHandshake py (decodeReplace received) with
    | error e =>
      rw [hhandshake] at h
      cases h
    | ok handshake =>
      rw [hhandshake] at h
      dsimp only at h
      cases hnonce : getChallenge py conn.challenge with
      | error e =>
        rw [hnonce] at h
        exact hrefused _ e _ _ h
      | ok nonce =>
        rw [hnonce] at h
        dsimp only [serveNonce] at h
        rcases hreport : generateReport py sha256 machineId conn.readers nonce cache with
          ⟨e | report, cache'⟩
        · rw [hreport] at h
          exact hrefused _ e _ _ h
        · rw [hreport] at h
          dsimp only at h
          obtain ⟨valid, value, hresponse, hvalid⟩ := sent_finish h
          refine ⟨valid, value, hresponse, fun hv => ?_⟩
          obtain ⟨items, hposting, hitem⟩ := hvalid hv
          have hread : readReply py conn.attest = .ok (.dict items) := by
            unfold postReport at hposting
            split at hposting
            · cases hposting
            · exact hposting
          obtain ⟨b, hb, hloads⟩ := readReply_eq_ok py hread
          exact ⟨b, items, hb, hloads, hitem⟩

end

/-! ## Agreement -/

/-- What the three readers make of a response: the hook, from a prefix of it and from
all of it, the mock client and the bridge. -/
structure Agreement (game : Bridge) (valid : Bool) (resp : Bytes) : Prop where
  safe : ∀ n, 0 < n → parseJsonBool (resp.take n) (bytes "valid") = true → valid = true
  /-- The literal `true` ends at the fourteenth byte. -/
  complete : valid = true → ∀ n, 14 ≤ n → parseJsonBool (resp.take n) (bytes "valid") = true
  hook : parseJsonBool resp (bytes "valid") = valid
  mock : responseIsValid resp = valid
  bridge : (game.beginAttestation resp).map (·.1) = .ok (.bool valid)

theorem agreement_response (game : Bridge) (valid : Bool) (s : Text) :
    Agreement game valid (responseBytes valid s) where
  safe n _ htrue := by
    cases valid with
    | true => rfl
    | false =>
      by_cases h : n < (header ++ (literal false).render).length
      · rwa [parseJsonBool_short s h] at htrue
      · rwa [parseJsonBool_take false s (Nat.le_of_not_lt h)] at htrue
  complete hvalid n hn := by
    subst hvalid
    exact parseJsonBool_take true s hn
  hook := by
    have hlength : (header ++ (literal valid).render).length ≤ (responseBytes valid s).length := by
      obtain ⟨x, hx⟩ := responseBytes_eq valid s
      rw [hx]
      simp only [List.length_append]
      omega
    have htake := parseJsonBool_take valid s hlength
    rwa [List.take_length] at htake
  mock := responseIsValid_response valid s
  bridge := beginAttestation_response game valid s

/-- **The readers agree with the shim**, and the shim with the server: whatever a client
is sent says `valid` true only if the server does, and if its token or reason is a
string, the readers find in it what it says. -/
theorem verdict_agreement (py : Interpreter) (game : Bridge) (sha256 : Bytes → Digest)
    (machineId : String) (conn : Connection) (cache : ImaCache) (resp : Bytes)
    (h : resp ∈ (handleClient py sha256 machineId conn cache).sent) :
    ∃ valid value, IsResponse py resp valid value ∧
      (valid = true → ServerAccepts py conn.attest) ∧
      ∀ s, value = .str s → Agreement game valid resp := by
  obtain ⟨valid, value, hresponse, hvalid⟩ := sent_handleClient h
  refine ⟨valid, value, hresponse, hvalid, ?_⟩
  rintro s rfl
  obtain ⟨data, hdata, rfl⟩ := hresponse
  have htext : data = String.ofList (jsonChars py.floatRepr (response valid (.str s))) := by
    unfold dumps at hdata
    split at hdata
    · exact (Option.some.inj hdata).symm
    · cases hdata
  rw [htext, encode_response]
  exact agreement_response game valid s

/-- A rejection whose reason is the text of a member, as the server and the shim write
it. -/
def imitation : String := "\x7b\"valid\": false, \"reason\": \"\\\"valid\\\": true\"\x7d"

def sampleBridge : Bridge :=
  ⟨sampleInterpreter.responseLimit, fun _ => [], sampleInterpreter.responseLimit_pos⟩

theorem verdict_agreement_imitation : ∃ valid value,
    IsResponse sampleInterpreter (encode imitation) valid value ∧
      (valid = true → ServerAccepts sampleInterpreter (.body (encode imitation))) ∧
      ∀ s, value = .str s → Agreement sampleBridge valid (encode imitation) :=
  verdict_agreement sampleInterpreter sampleBridge sha256 "host"
    (sampleConnection "\x7b\x7d" sampleChallenge imitation) .empty (encode imitation) (by decide +kernel)

end TpmAttest.Shim
