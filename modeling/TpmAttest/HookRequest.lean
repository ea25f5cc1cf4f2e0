import TpmAttest.HexBuffer

/-! # What a request of the hook says

`build_json` puts the player's name between quotes as it is.  So the request tells the
player and the message, to a reader of the JSON grammar and to the shim's `json.loads`,
exactly if the name is a text with nothing to escape (`faithful_iff`); any other name
makes no JSON, or names members of its own.
-/
namespace TpmAttest.EacHook

open Python JsonGrammar

/-- The object has a member of this name that is a string of this text. -/
def Says (t : ObjectText) (name s : String) : Prop :=
  ∃ m ∈ t.members.toList, m.name = codeUnits name.toList ∧
    ∃ v, m.value = .string v ∧ units v = codeUnits s.toList

/-- The request is a JSON object with just these members, which tells the player and
the message, and the shim reads it so. -/
structure Tells (playerId message req : Bytes) (player hexMessage : String) : Prop where
  player_eq : encode player = playerId
  message_eq : fromhex hexMessage = some message
  object : ∃ t : ObjectText, t.render = req ∧
    (t.members.toList.map Member.name).Perm
      (["type", "player_id", "original_message"].map fun name => codeUnits name.toList) ∧
    Says t "type" "eac_intercept" ∧ Says t "player_id" player ∧ Says t "original_message" hexMessage
  read : ∀ limit, loadsText (limit + 1) (decodeReplace req) = .ok (.dict
    [(text "type", .str (text "eac_intercept")), (text "player_id", .str (text player)),
      (text "original_message", .str (text hexMessage))])

def Faithful (playerId message req : Bytes) : Prop :=
  ∃ player hexMessage, Tells playerId message req player hexMessage

/-- The name is a text that may stand between quotes as it is. -/
def Plain (playerId : Bytes) : Prop :=
  ∃ player : String, encode player = playerId ∧ ∀ c ∈ player.toList, IsUnescaped c

/-- The request for a message. -/
def requestOf (playerId message : Bytes) : Bytes :=
  encode "\x7b\"type\":\"eac_intercept\",\"player_id\":\"" ++ playerId ++
    encode "\",\"original_message\":\"" ++ encode (hex message) ++ encode "\"\x7d"

theorem length_requestOf (playerId message : Bytes) :
    (requestOf playerId message).length = 61 + playerId.length + 2 * message.length := by
  have h₁ : (encode "\x7b\"type\":\"eac_intercept\",\"player_id\":\"").length = 37 := by
    decide +kernel
  have h₂ : (encode "\",\"original_message\":\"").length = 22 := by decide +kernel
  have h₃ : (encode "\"\x7d").length = 2 := by decide +kernel
  simp only [requestOf, List.length_append, h₁, h₂, h₃, encode_hex, length_flatMap_hexText]
  omega

/-! ## A plain name -/

/-- The members of a request. -/
def requestItems (player hexMessage : List Char) : List (List Char × List Char) :=
  [("player_id".toList, player), ("original_message".toList, hexMessage)]

theorem utf8_append (s t : List Char) : utf8 (s ++ t) = utf8 s ++ utf8 t := List.flatMap_append

theorem requestOf_eq (player : String) (message : Bytes) :
    requestOf (encode player) message = utf8 (compactObject "type".toList "eac_intercept".toList
      (requestItems player.toList (hex message).toList)) := by
  have htext : compactObject "type".toList "eac_intercept".toList
      (requestItems player.toList (hex message).toList) =
        "\x7b\"type\":\"eac_intercept\",\"player_id\":\"".toList ++ player.toList ++
          "\",\"original_message\":\"".toList ++ (hex message).toList ++ "\"\x7d".toList := by
    simp [compactObject, compactMember, compactRest, requestItems]
  rw [htext, requestOf]
  simp only [encode_toList, utf8_append]

theorem unescaped_hexDigit {n : Nat} (h : n < 16) :
    (hexDigit n).toNat < 128 ∧ IsUnescaped (hexDigit n) := by
  revert n
  decide

theorem unescaped_hex (message : Bytes) :
    ∀ c ∈ (hex message).toList, c.toNat < 128 ∧ IsUnescaped c := by
  intro c hc
  obtain ⟨n, hn, rfl⟩ := mem_hex hc
  exact unescaped_hexDigit hn

theorem utf8_cons {c : Char} (h : c.toNat < 128) (s : List Char) : utf8 (c :: s) = byte c :: utf8 s :=
  congrArg (· ++ utf8 s) (utf8EncodeChar_ascii h)

/-- A member of strings without escapes. -/
def rawMember (k v : List Char) (hk : ∀ c ∈ k, IsUnescaped c) (hv : ∀ c ∈ v, IsUnescaped c) :
    Members → Members :=
  .cons [] (rawText k hk) [] [] (.string (rawText v hv)) []

theorem render_rawMember {k v : List Char} (hk : ∀ c ∈ k, IsUnescaped c)
    (hv : ∀ c ∈ v, IsUnescaped c) (rest : Members) (separator : List UInt8) :
    (rawMember k v hk hv rest).render separator =
      separator ++ (utf8 (compactMember k v) ++ rest.render [byte ',']) := by
  have hquote : ('"').toNat < 128 := by decide
  have hcolon : (':').toNat < 128 := by decide
  simp [rawMember, Members.render, Value.render, renderString, renderSpaces, body_rawText,
    compactMember, utf8_append, utf8_cons hquote, utf8_cons hcolon, show utf8 [] = [] from rfl]

/-- The literals of a request. -/
theorem unescaped_literals : ∀ s ∈ ["type", "eac_intercept", "player_id", "original_message"],
    s.toList.all fun c => c.toNat < 128 ∧ IsUnescaped c := by
  decide +kernel

theorem unescaped_literal {s : String}
    (h : s ∈ ["type", "eac_intercept", "player_id", "original_message"]) :
    ∀ c ∈ s.toList, c.toNat < 128 ∧ IsUnescaped c :=
  List.all_iff_forall_prop.mp (unescaped_literals s h)

theorem unescaped_items {player : List Char} (h : ∀ c ∈ player, IsUnescaped c) (message : Bytes) :
    ∀ item ∈ ("type".toList, "eac_intercept".toList) :: requestItems player (hex message).toList,
      (∀ c ∈ item.1, IsUnescaped c) ∧ ∀ c ∈ item.2, IsUnescaped c := by
  have hliteral : ∀ s ∈ ["type", "eac_intercept", "player_id", "original_message"],
      ∀ c ∈ s.toList, IsUnescaped c := fun s hs c hc => (unescaped_literal hs c hc).2
  simp only [List.forall_mem_cons] at hliteral
  obtain ⟨htype, heac, hid, horiginal, -⟩ := hliteral
  simp only [requestItems, List.forall_mem_cons]
  exact ⟨⟨htype, heac⟩, ⟨hid, h⟩, ⟨horiginal, fun c hc => (unescaped_hex message c hc).2⟩, by simp⟩

/-- The members of the request of a plain name, as the grammar has them. -/
theorem exists_members {player : List Char} (h : ∀ c ∈ player, IsUnescaped c) (message : Bytes) :
    ∃ members : Members, ∃ v₁ v₂ v₃, utf8 (compactObject "type".toList "eac_intercept".toList
        (requestItems player (hex message).toList)) = (Value.object [] members).render ∧
      members.toList = [⟨codeUnits "type".toList, .string v₁⟩, ⟨codeUnits "player_id".toList, .string v₂⟩,
        ⟨codeUnits "original_message".toList, .string v₃⟩] ∧
      units v₁ = codeUnits "eac_intercept".toList ∧ units v₂ = codeUnits player ∧
        units v₃ = codeUnits (hex message).toList := by
  have hitems := unescaped_items h message
  simp only [requestItems, List.forall_mem_cons] at hitems
  obtain ⟨⟨htype, heac⟩, ⟨hid, -⟩, ⟨horiginal, hhex⟩, -⟩ := hitems
  refine ⟨rawMember "type".toList "eac_intercept".toList htype heac
    (rawMember "player_id".toList player hid h
      (rawMember "original_message".toList (hex message).toList horiginal hhex .nil)), _, _, _, ?_, ?_,
    units_rawText _ heac, units_rawText _ h, units_rawText _ hhex⟩
  · have hbrace : ('{').toNat < 128 := by decide
    have hcomma : (',').toNat < 128 := by decide
    have hclose : ('}').toNat < 128 := by decide
    simp [Value.render, renderSpaces, render_rawMember, Members.render, compactObject, compactRest,
      requestItems, utf8_append, utf8_cons hbrace, utf8_cons hcomma, utf8_cons hclose,
      show utf8 [] = [] from rfl]
  · simp only [rawMember, Members.toList, units_rawText]

theorem says_of_mem {t : ObjectText} {name s : String} {v : StringText}
    (h : ⟨codeUnits name.toList, .string v⟩ ∈ t.members.toList) (hv : units v = codeUnits s.toList) :
    Says t name s := ⟨_, h, rfl, v, rfl, hv⟩

/-- **A plain name is told.** -/
theorem tells_of_plain {player : String} (h : ∀ c ∈ player.toList, IsUnescaped c) (message : Bytes) :
    Tells (encode player) message (requestOf (encode player) message) player (hex message) where
  player_eq := rfl
  message_eq := fromhex_hex message
  object := by
    obtain ⟨members, v₁, v₂, v₃, hrender, hlist, hv₁, hv₂, hv₃⟩ := exists_members h message
    have hnames : members.toList.map Member.name =
        ["type", "player_id", "original_message"].map fun name => codeUnits name.toList := by
      rw [hlist]
      rfl
    have hdistinct : (members.toList.map Member.name).Nodup := by
      rw [hnames]
      decide +kernel
    refine ⟨⟨[], [], members, [], hdistinct⟩, ?_, ?_, ?_, ?_, ?_⟩
    · rw [requestOf_eq, hrender]
      exact List.append_nil _
    · rw [hnames]
    · refine says_of_mem ?_ hv₁
      rw [hlist]
      exact List.mem_cons_self
    · refine says_of_mem ?_ hv₂
      rw [hlist]
      exact List.mem_cons_of_mem _ List.mem_cons_self
    · refine says_of_mem ?_ hv₃
      rw [hlist]
      exact List.mem_cons_of_mem _ (List.mem_cons_of_mem _ List.mem_cons_self)
  read limit := by
    rw [requestOf_eq, decodeReplace_utf8, loadsText_compactObject limit (unescaped_items h message)]
    rfl

/-- The request up to the name, and behind it. -/
theorem requestOf_split (playerId message : Bytes) : ∃ y, requestOf playerId message =
    byte '{' :: byte '"' :: ("type".toList.map byte ++ byte '"' :: byte ':' :: byte '"' ::
      ("eac_intercept".toList.map byte ++ byte '"' :: byte ',' :: byte '"' ::
        ("player_id".toList.map byte ++ byte '"' :: byte ':' :: byte '"' ::
          (playerId ++ byte '"' :: y)))) := by
  have hhead : encode "\x7b\"type\":\"eac_intercept\",\"player_id\":\"" =
      byte '{' :: byte '"' :: ("type".toList.map byte ++ byte '"' :: byte ':' :: byte '"' ::
        ("eac_intercept".toList.map byte ++ byte '"' :: byte ',' :: byte '"' ::
          ("player_id".toList.map byte ++ byte '"' :: byte ':' :: [byte '"']))) := by
    decide +kernel
  have hmiddle : encode "\",\"original_message\":\"" =
      byte '"' :: encode ",\"original_message\":\"" := by
    decide +kernel
  refine ⟨encode ",\"original_message\":\"" ++ encode (hex message) ++ encode "\"\x7d", ?_⟩
  rw [requestOf, hhead, hmiddle]
  simp

/-- The object that a request is: the name is the text of a member. -/
theorem member_of_render {t : ObjectText} {playerId message : Bytes}
    (h : t.render = requestOf playerId message) : ∃ v x y,
    ⟨codeUnits "player_id".toList, .string v⟩ ∈ t.members.toList ∧
      body v ++ byte '"' :: x = playerId ++ byte '"' :: y := by
  obtain ⟨before, ws, members, after, hdistinct⟩ := t
  obtain ⟨y, hsplit⟩ := requestOf_split playerId message
  have hrender : renderSpaces before ++ byte '{' :: (renderSpaces ws ++ (members.render [] ++
      byte '}' :: renderSpaces after)) = requestOf playerId message := by
    rw [← h]
    simp [ObjectText.render, Value.render]
  rw [hsplit] at hrender
  obtain ⟨rfl, hbrace⟩ := spaces_eq_nil (by decide) hrender
  obtain ⟨rfl, hmembers⟩ := spaces_eq_nil (by decide) (List.cons.inj hbrace).2
  -- the first member, and the string behind its key
  obtain ⟨key₁, v₁, after₁, rest, rfl, -, hvalue⟩ := members_of_render (Or.inl rfl)
    (unescaped_literal (by simp)) hmembers
  obtain ⟨-, hrest⟩ := string_of_body (unescaped_literal (by simp)) hvalue
  obtain ⟨rfl, hrest⟩ := spaces_eq_nil (by decide) hrest
  -- the second member
  obtain ⟨key₂, v₂, after₂, rest, rfl, hkey, hvalue⟩ := members_of_render (Or.inr rfl)
    (unescaped_literal (by simp)) hrest
  refine ⟨v₂, _, y, ?_, hvalue⟩
  rw [← hkey]
  exact List.mem_cons_of_mem _ List.mem_cons_self

/-- **A name that is told is plain.** -/
theorem plain_of_faithful {playerId message : Bytes}
    (h : Faithful playerId message (requestOf playerId message)) : Plain playerId := by
  obtain ⟨player, hexMessage, rfl, -, ⟨t, hrender, -, -, ⟨m, hm, hname, v, hvalue, hunits⟩, -⟩, -⟩ := h
  refine ⟨player, rfl, ?_⟩
  obtain ⟨v', x, y, hmem, hbody⟩ := member_of_render hrender
  have hsame : m = ⟨codeUnits "player_id".toList, .string v'⟩ :=
    List.inj_on_of_nodup_map t.distinct hm hmem hname
  rw [hsame] at hvalue
  obtain rfl : v' = v := Value.string.inj hvalue
  rw [encode_toList] at hbody
  exact unescaped_of_body hbody hunits

/-- **When a request tells the player and the message.** -/
theorem faithful_iff (playerId message : Bytes) :
    Faithful playerId message (requestOf playerId message) ↔ Plain playerId := by
  constructor
  · exact plain_of_faithful
  · rintro ⟨player, rfl, hplain⟩
    exact ⟨player, hex message, tells_of_plain hplain message⟩

/-! ## The hook -/

variable {Callback : Type}

/-- The hook after `BeginSession`. -/
def Hook.began (s : Hook Callback) (userId : Bytes) : Hook Callback :=
  { s with playerId := .ofUserId userId }

/-- It is the one that the call leads to. -/
theorem step_beginSession (s : Hook Callback) (userId : Bytes) :
    s.step (.beginSession (some userId)) = some (s.began userId) := rfl

/-- What the hook does with a message, after a session has begun: a request that it
makes tells the player and the message, and if it makes none the message is blocked
and nothing waits for an answer. -/
structure Transmits (s : Hook Callback) (userId message : Bytes) : Prop where
  sent : ∀ req, (s.began userId).messageJson message = some req →
    Faithful (userId.take 255) message req
  blocked : (s.began userId).messageJson message = none →
    ∀ allocated, (s.began userId).message message allocated = s.began userId

theorem messageJson_began (s : Hook Callback) (userId message : Bytes) :
    (s.began userId).messageJson message =
      if shimBufSize ≤ (requestOf (userId.take 255) message).length then none
      else some (requestOf (userId.take 255) message) := by
  rw [messageJson_eq]
  rfl

/-- **When requests tell the truth**: exactly for a user id whose first 255 bytes are
the UTF-8 of a text without quotation marks, backslashes and control characters, and
for messages that are too long to be sent. -/
theorem transmits_iff (s : Hook Callback) (userId message : Bytes) :
    Transmits s userId message ↔
      Plain (userId.take 255) ∨ 8192 ≤ 61 + min 255 userId.length + 2 * message.length := by
  have hlength := length_requestOf (userId.take 255) message
  rw [List.length_take] at hlength
  have hjson := messageJson_began s userId message
  rw [hlength] at hjson
  constructor
  · intro h
    by_cases hlong : shimBufSize ≤ 61 + min 255 userId.length + 2 * message.length
    · exact Or.inr hlong
    · rw [if_neg hlong] at hjson
      exact Or.inl ((faithful_iff _ _).mp (h.sent _ hjson))
  · intro h
    refine ⟨fun req hreq => ?_, fun hnone allocated => ?_⟩
    · by_cases hlong : shimBufSize ≤ 61 + min 255 userId.length + 2 * message.length
      · rw [hjson, if_pos hlong] at hreq
        cases hreq
      · rw [hjson, if_neg hlong] at hreq
        obtain rfl := Option.some.inj hreq
        exact (faithful_iff _ _).mpr (h.resolve_right hlong)
    · rw [Hook.message, hnone]
      exact if_neg fun hsome => absurd hsome.2 (by decide)

/-- A user id that closes the string and names a member of its own. -/
def forgedUserId : Bytes := encode "x\",\"player_id\":\"victim"

/-- The shim reads the name that the user id has forged. -/
theorem forged_not_transmitted :
    ¬ Transmits (Hook.init : Hook Unit) forgedUserId [1] ∧
      (((Hook.init : Hook Unit).began forgedUserId).messageJson [1]).map
        (fun req => (loadsText 1 (decodeReplace req)).toOption.bind (dumps (fun _ => "") 1)) =
          some (some "\x7b\"type\": \"eac_intercept\", \"player_id\": \"victim\", \"original_message\": \"01\"\x7d") := by
  refine ⟨fun h => ?_, by decide +kernel⟩
  have hjson : ((Hook.init : Hook Unit).began forgedUserId).messageJson [1] =
      some (requestOf (forgedUserId.take 255) [1]) := by
    decide +kernel
  obtain ⟨player, hplayer, hplain⟩ := plain_of_faithful (h.sent _ hjson)
  obtain rfl : player = "x\",\"player_id\":\"victim" := encode_injective hplayer
  exact absurd (hplain '"' (by decide)) (by decide)

end TpmAttest.EacHook
