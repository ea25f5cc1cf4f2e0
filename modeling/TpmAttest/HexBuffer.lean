import Mathlib.Algebra.Group.Nat.Defs
import TpmAttest.ParseJsonBool
import TpmAttest.RawStrings
import TpmAttest.EacHook

/-! # The buffer of `bytes_to_hex`

`EacHook.bytesToHex` is the text that `bytes_to_hex` leaves before the NUL.  Here is
the function on the buffer itself, with the arithmetic of `size_t` and a store that
fails outside the buffer.  Two bytes of the text and a NUL are written at a time, at
an even offset that leaves room for them (`hexLoop_eq`), so no store fails, no sum
wraps around, and with the capacity of `hook_callback` no byte of the message is left
out.
-/
namespace TpmAttest.EacHook

open Python JsonGrammar

/-! ## The text -/

/-- The two digits of a byte. -/
def hexText (x : UInt8) : Bytes := [x.toNat / 16, x.toNat % 16].map fun n => byte (hexDigit n)

theorem encode_hex (data : Bytes) : encode (hex data) = data.flatMap hexText := by
  have hdigit : ∀ n < 16, (hexDigit n).toNat < 128 := by decide
  have hascii : ∀ c ∈ (hex data).toList, c.toNat < 128 := by
    intro c hc
    obtain ⟨n, hn, rfl⟩ := mem_hex hc
    exact hdigit n hn
  rw [encode_toList, utf8_ascii hascii, hex, String.toList_ofList, List.map_flatMap]
  rfl

theorem length_hexText (x : UInt8) : (hexText x).length = 2 := rfl

theorem length_flatMap_hexText (data : Bytes) : (data.flatMap hexText).length = 2 * data.length := by
  induction data with
  | nil => rfl
  | cons x data ih =>
    rw [List.flatMap_cons, List.length_append, length_hexText, ih, List.length_cons]
    omega

/-- The text is that of the first bytes. -/
theorem bytesToHex_eq (cap : Nat) (data out : Bytes) :
    ∃ k, bytesToHex cap out data = out ++ (data.take k).flatMap hexText ∧ k ≤ data.length := by
  induction data generalizing out with
  | nil => exact ⟨0, (List.append_nil out).symm, Nat.le_refl 0⟩
  | cons x data ih =>
    by_cases hroom : out.length + 3 < cap
    · obtain ⟨k, hk, hle⟩ := ih (out ++ hexText x)
      refine ⟨k + 1, ?_, Nat.succ_le_succ hle⟩
      rw [List.append_assoc] at hk
      rw [bytesToHex, if_pos hroom]
      exact hk
    · refine ⟨0, ?_, Nat.zero_le _⟩
      rw [bytesToHex, if_neg hroom]
      exact (List.append_nil out).symm

/-- If there is room for them, it is the text of all bytes. -/
theorem bytesToHex_whole {cap : Nat} {data out : Bytes}
    (h : out.length + 2 * data.length + 2 ≤ cap) :
    bytesToHex cap out data = out ++ data.flatMap hexText := by
  induction data generalizing out with
  | nil => exact (List.append_nil out).symm
  | cons x data ih =>
    rw [List.length_cons] at h
    have hroom : (out ++ hexText x).length + 2 * data.length + 2 ≤ cap := by
      rw [List.length_append, length_hexText]
      omega
    rw [bytesToHex, if_pos (by omega)]
    change bytesToHex cap (out ++ hexText x) data = _
    rw [ih hroom, List.append_assoc]
    rfl

/-! ## The buffer -/

/-- `buf[i] = b`, if that is in the buffer. -/
def store (buf : Bytes) (i : Nat) (b : UInt8) : Option Bytes :=
  if i < buf.length then some (buf.set i b) else none

/-- Bytes one after another, from an offset on. -/
def storeAll (buf : Bytes) (i : Nat) : Bytes → Option Bytes
  | [] => some buf
  | b :: s => (store buf i b).bind fun buf => storeAll buf (i + 1) s

/-- `snprintf(buf + i, n, ..)` of a text: it is cut off before its NUL if it does not
fit into `n` bytes, and its length is returned. -/
def snprintf (buf : Bytes) (i n : Nat) (text : Bytes) : Option (UInt64 × Bytes) :=
  (if n = 0 then some buf else storeAll buf i (text.take (n - 1) ++ [0])).map
    (UInt64.ofNat text.length, ·)

/-- The loop of `bytes_to_hex`. -/
def hexLoop (cap w : UInt64) (out : Bytes) : Bytes → Option (UInt64 × Bytes)
  | [] => some (w, out)
  | x :: data =>
    if w + 3 < cap then
      (snprintf out w.toNat (cap - w).toNat (hexText x)).bind fun r => hexLoop cap (w + r.1) r.2 data
    else some (w, out)

/-- `bytes_to_hex`: the offset of the NUL, and the buffer. -/
def bytesToHexBuffer (cap : UInt64) (out data : Bytes) : Option (UInt64 × Bytes) :=
  (hexLoop cap 0 out data).bind fun r => (store r.2 r.1.toNat 0).map (r.1, ·)

theorem store_append (s t : Bytes) (a b : UInt8) :
    store (s ++ a :: t) s.length b = some (s ++ b :: t) := by
  rw [store, if_pos (by simp), List.set_append_right s.length b (Nat.le_refl _), Nat.sub_self]
  rfl

/-- Bytes that are stored over as many others. -/
theorem storeAll_append (s t : Bytes) {u v : Bytes} (h : u.length = v.length) :
    storeAll (s ++ (u ++ t)) s.length v = some (s ++ (v ++ t)) := by
  induction v generalizing s u with
  | nil =>
    obtain rfl := List.length_eq_zero_iff.mp h
    rfl
  | cons b v ih =>
    cases u with
    | nil => cases h
    | cons a u =>
      have hshift : ∀ w : Bytes, s ++ b :: (w ++ t) = (s ++ [b]) ++ (w ++ t) := fun w => by simp
      have hstep := ih (s ++ [b]) (Nat.succ.inj h)
      rw [List.length_append, List.length_singleton] at hstep
      rw [storeAll, List.cons_append, store_append, Option.bind_some, hshift, hstep,
        List.cons_append, hshift]

/-- What the loop makes of a buffer that begins with text. -/
structure HexState (cap w : UInt64) (text out : Bytes) : Prop where
  begins : ∃ rest, out = text ++ rest
  offset : text.length = w.toNat
  even : w.toNat % 2 = 0
  length : out.length = cap.toNat
  /-- There is room for the NUL, and behind text for one byte more. -/
  room : w.toNat < cap.toNat
  roomAfter : w.toNat = 0 ∨ w.toNat + 1 < cap.toNat

/-- The sum in the loop's condition does not wrap around. -/
theorem HexState.add_three {cap w : UInt64} {text out : Bytes} (h : HexState cap w text out) :
    (w + 3).toNat = w.toNat + 3 := by
  have hcap := cap.toNat_lt
  have heven := h.even
  have hroom := h.roomAfter
  rw [UInt64.toNat_add]
  change (w.toNat + 3) % 2 ^ 64 = _
  omega

theorem HexState.lt_iff {cap w : UInt64} {text out : Bytes} (h : HexState cap w text out) :
    w + 3 < cap ↔ text.length + 3 < cap.toNat := by
  rw [UInt64.lt_iff_toNat_lt, h.add_three, h.offset]

/-- **One turn of the loop** stores two digits and a NUL in the buffer. -/
theorem HexState.step {cap w : UInt64} {text out : Bytes} (h : HexState cap w text out)
    (hguard : w + 3 < cap) (x : UInt8) : ∃ out',
    snprintf out w.toNat (cap - w).toNat (hexText x) = some (2, out') ∧
      HexState cap (w + 2) (text ++ hexText x) out' := by
  have hcap := cap.toNat_lt
  have hroom := h.lt_iff.mp hguard
  obtain ⟨⟨rest, rfl⟩, hoffset, heven, hlength, hnul, -⟩ := h
  rw [List.length_append] at hlength
  have hsub : (cap - w).toNat = cap.toNat - w.toNat :=
    UInt64.toNat_sub_of_le cap w (UInt64.le_iff_toNat_le.mpr (by omega))
  have hadd : (w + 2).toNat = w.toNat + 2 := by
    rw [UInt64.toNat_add]
    change (w.toNat + 2) % 2 ^ 64 = _
    omega
  have htake : (hexText x).take (cap.toNat - w.toNat - 1) = hexText x :=
    List.take_of_length_le (by rw [length_hexText]; omega)
  have hover : (rest.take 3).length = (hexText x ++ [0]).length := by
    rw [List.length_take, List.length_append, length_hexText, List.length_singleton]
    omega
  have hstore := storeAll_append text (rest.drop 3) hover
  rw [List.take_append_drop, hoffset] at hstore
  refine ⟨text ++ ((hexText x ++ [0]) ++ rest.drop 3), ?_, ⟨[0] ++ rest.drop 3, by simp⟩, ?_, ?_, ?_,
    ?_, ?_⟩
  · rw [snprintf, hsub, if_neg (by omega), htake, hstore]
    rfl
  · rw [List.length_append, length_hexText, hadd, hoffset]
  · omega
  · simp only [List.length_append, length_hexText, List.length_singleton, List.length_drop]
    omega
  · omega
  · exact Or.inr (by omega)

/-- **The loop** makes the text of `bytesToHex`, and stores nothing outside the
buffer. -/
theorem hexLoop_eq {cap w : UInt64} {text out : Bytes} (h : HexState cap w text out) (data : Bytes) :
    ∃ w' out', hexLoop cap w out data = some (w', out') ∧
      HexState cap w' (bytesToHex cap.toNat text data) out' := by
  induction data generalizing w text out with
  | nil => exact ⟨w, out, rfl, h⟩
  | cons x data ih =>
    by_cases hguard : w + 3 < cap
    · obtain ⟨out₁, hstep, hstate⟩ := h.step hguard x
      obtain ⟨w', out', hloop, hfinal⟩ := ih hstate
      refine ⟨w', out', ?_, ?_⟩
      · rw [hexLoop, if_pos hguard, hstep]
        exact hloop
      · rw [bytesToHex, if_pos (h.lt_iff.mp hguard)]
        exact hfinal
    · refine ⟨w, out, ?_, ?_⟩
      · rw [hexLoop, if_neg hguard]
      · rw [bytesToHex, if_neg (mt h.lt_iff.mpr hguard)]
        exact h

/-- What `bytes_to_hex` leaves in its buffer: text and a NUL behind it. -/
theorem bytesToHexBuffer_eq {cap : UInt64} (hcap : 1 ≤ cap) {out : Bytes}
    (hout : out.length = cap.toNat) (data : Bytes) : ∃ w rest,
    bytesToHexBuffer cap out data = some (w, bytesToHex cap.toNat [] data ++ 0 :: rest) ∧
      w < cap ∧ w.toNat % 2 = 0 ∧ (bytesToHex cap.toNat [] data).length = w.toNat := by
  have hpos : 0 < cap.toNat := UInt64.le_iff_toNat_le.mp hcap
  have hinit : HexState cap 0 [] out := ⟨⟨out, rfl⟩, rfl, rfl, hout, hpos, Or.inl rfl⟩
  obtain ⟨w, out', hloop, ⟨rest, hrest⟩, hoffset, heven, hlength, hroom, -⟩ := hexLoop_eq hinit data
  cases rest with
  | nil =>
    rw [hrest, List.append_nil] at hlength
    omega
  | cons a rest =>
    have hstore := store_append (bytesToHex cap.toNat [] data) rest a 0
    rw [← hrest, hoffset] at hstore
    refine ⟨w, rest, ?_, UInt64.lt_iff_toNat_lt.mpr hroom, heven, hoffset⟩
    rw [bytesToHexBuffer, hloop, Option.bind_some, hstore]
    rfl

/-- The digits before the NUL are those of the first bytes. -/
theorem bytesToHexBuffer_take {cap : UInt64} (hcap : 1 ≤ cap) {out : Bytes}
    (hout : out.length = cap.toNat) (data : Bytes) : ∃ w final,
    bytesToHexBuffer cap out data = some (w, final) ∧ w < cap ∧ w.toNat % 2 = 0 ∧
      final[w.toNat]? = some 0 ∧ final.take w.toNat = encode (hex (data.take (w.toNat / 2))) := by
  obtain ⟨w, rest, hfinal, hw, heven, hlength⟩ := bytesToHexBuffer_eq hcap hout data
  obtain ⟨k, hk, hle⟩ := bytesToHex_eq cap.toNat data []
  have hcount : w.toNat = 2 * k := by
    rw [← hlength, hk, List.nil_append, length_flatMap_hexText, List.length_take]
    omega
  refine ⟨w, _, hfinal, hw, heven, ?_, ?_⟩
  · rw [← hlength, List.getElem?_append_right (Nat.le_refl _), Nat.sub_self]
    rfl
  · rw [← hlength, List.take_left, hlength, hk, List.nil_append, encode_hex,
      show w.toNat / 2 = k by omega]

/-! ## `hook_callback` -/

/-- The capacity that `hook_callback` allocates. -/
def hexCap (length : UInt64) : UInt64 := length * 2 + 4

/-- `hook_callback`, from the allocated buffer to what `build_json` makes. -/
def hookCallbackJson (playerId out message : Bytes) : Option (Option Bytes) :=
  (bytesToHexBuffer (hexCap (.ofNat message.length)) out message).map fun r =>
    buildJson playerId (cString r.2)

theorem hexCap_toNat {n : Nat} (h : 2 * n + 4 < 2 ^ 64) :
    (hexCap (.ofNat n)).toNat = 2 * n + 4 := by
  have hn : (UInt64.ofNat n).toNat = n := UInt64.toNat_ofNat_of_lt' (by change n < 2 ^ 64; omega)
  rw [hexCap, UInt64.toNat_add, UInt64.toNat_mul, hn]
  change (n * 2 % 2 ^ 64 + 4) % 2 ^ 64 = _
  omega

theorem zero_notMem_encode_hex (data : Bytes) : 0 ∉ encode (hex data) := by
  have hdigit : ∀ n < 16, byte (hexDigit n) ≠ 0 := by decide
  rw [encode_hex]
  intro h
  obtain ⟨x, -, hx⟩ := List.mem_flatMap.mp h
  have hlt := x.toNat_lt
  obtain ⟨n, hn, h0⟩ := List.mem_map.mp hx
  have hn16 : n < 16 := by
    simp only [List.mem_cons, List.not_mem_nil, or_false] at hn
    omega
  exact hdigit n hn16 h0

/-- With this capacity the digits are those of the whole message. -/
theorem bytesToHexBuffer_message {message out : Bytes} (h : 2 * message.length + 4 < 2 ^ 64)
    (hout : out.length = (hexCap (.ofNat message.length)).toNat) : ∃ w final,
    bytesToHexBuffer (hexCap (.ofNat message.length)) out message = some (w, final) ∧
      cString final = encode (hex message) := by
  have hcap := hexCap_toNat h
  have hpos : 1 ≤ hexCap (.ofNat message.length) := by
    apply UInt64.le_iff_toNat_le.mpr
    rw [hcap]
    exact Nat.le_add_left 1 _
  obtain ⟨w, rest, hfinal, -, -, -⟩ := bytesToHexBuffer_eq hpos hout message
  refine ⟨w, _, hfinal, ?_⟩
  rw [hcap, bytesToHex_whole (by rw [List.length_nil]; omega), List.nil_append, ← encode_hex, cString,
    List.takeWhile_append_of_pos]
  · exact List.append_nil _
  · intro b hb
    have hne : b ≠ 0 := fun h0 => zero_notMem_encode_hex message (h0 ▸ hb)
    simpa using hne

theorem messageJson_eq {Callback : Type} (s : Hook Callback) (message : Bytes) :
    s.messageJson message = buildJson s.playerId.bytes (encode (hex message)) := by
  rw [Hook.messageJson, bytesToHex_whole (by rw [List.length_nil]; omega), List.nil_append, encode_hex]

/-- The function on the buffer makes the request of the model of the hook. -/
theorem hookCallbackJson_eq {Callback : Type} (s : Hook Callback) {message out : Bytes}
    (h : 2 * message.length + 4 < 2 ^ 64)
    (hout : out.length = (hexCap (.ofNat message.length)).toNat) :
    hookCallbackJson s.playerId.bytes out message = some (s.messageJson message) := by
  obtain ⟨w, final, hfinal, htext⟩ := bytesToHexBuffer_message h hout
  rw [hookCallbackJson, hfinal, Option.map_some, htext, messageJson_eq]

/-- **`bytes_to_hex` is complete and stays in its buffer**: it stores nothing outside,
and ends with a NUL at an even offset, before which are the digits of the first bytes.
With the capacity of `hook_callback` they are the digits of all bytes, and the request
has them all, or there is none and the message is blocked. -/
theorem bytesToHex_complete (Callback : Type) :
    (∀ (cap : UInt64) (out data : Bytes), 1 ≤ cap → out.length = cap.toNat → ∃ w final,
      bytesToHexBuffer cap out data = some (w, final) ∧ w < cap ∧ w.toNat % 2 = 0 ∧
        final[w.toNat]? = some 0 ∧ final.take w.toNat = encode (hex (data.take (w.toNat / 2)))) ∧
    ∀ (s : Hook Callback) (out message : Bytes), 2 * message.length + 4 < 2 ^ 64 →
      out.length = (hexCap (.ofNat message.length)).toNat →
      (∃ w final, bytesToHexBuffer (hexCap (.ofNat message.length)) out message = some (w, final) ∧
        cString final = encode (hex message)) ∧
      hookCallbackJson s.playerId.bytes out message = some (s.messageJson message) ∧
      (s.messageJson message = none ∧ (∀ allocated, s.message message allocated = s) ∨
        s.messageJson message = some (encode "\x7b\"type\":\"eac_intercept\",\"player_id\":\"" ++
          s.playerId.bytes ++ encode "\",\"original_message\":\"" ++ encode (hex message) ++
            encode "\"\x7d")) := by
  refine ⟨fun cap out data hcap hout => bytesToHexBuffer_take hcap hout data, ?_⟩
  intro s out message h hout
  refine ⟨bytesToHexBuffer_message h hout, hookCallbackJson_eq s h hout, ?_⟩
  by_cases hnone : s.messageJson message = none
  · refine Or.inl ⟨hnone, fun allocated => ?_⟩
    rw [Hook.message, hnone]
    exact if_neg fun hsome => absurd hsome.2 (by decide)
  · refine Or.inr ?_
    rw [messageJson_eq, buildJson] at hnone ⊢
    exact if_neg fun hlong => hnone (if_pos hlong)

/-- Three bytes into six, and one byte of a message. -/
theorem bytesToHex_complete_short :
    (∃ w final, bytesToHexBuffer 6 (.replicate 6 0xff) [0xab, 0x01, 0x02] = some (w, final) ∧ w < 6 ∧
      w.toNat % 2 = 0 ∧ final[w.toNat]? = some 0 ∧
        final.take w.toNat = encode (hex (List.take (w.toNat / 2) [0xab, 0x01, 0x02]))) ∧
    hookCallbackJson PlayerId.unknown.bytes (.replicate 6 0xff) [0xab] =
      some ((Hook.init : Hook Unit).messageJson [0xab]) :=
  ⟨(bytesToHex_complete Unit).1 6 (.replicate 6 0xff) [0xab, 0x01, 0x02] (by decide) (by decide),
    ((bytesToHex_complete Unit).2 Hook.init (.replicate 6 0xff) [0xab] (by decide) (by decide)).2.1⟩

end TpmAttest.EacHook
