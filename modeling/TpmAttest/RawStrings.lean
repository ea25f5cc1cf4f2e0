import TpmAttest.JsonKeys
import TpmAttest.JsonStrings

/-! # Strings that are written without escapes

A text between quotes is a string that says the text, exactly if no character of the
text must be escaped: an escape takes more bytes than it says, so a string that has
one falls behind the text and never catches up (`units_ne_of_ahead`).  `json.loads`
reads such strings, and compact members made of them, character by character.
-/
namespace TpmAttest.JsonGrammar

/-- The text in UTF-8. -/
def utf8 (s : List Char) : List UInt8 := s.flatMap String.utf8EncodeChar

/-- The text in UTF-16. -/
def codeUnits (s : List Char) : List Nat := s.flatMap (utf16 ·.toNat)

/-- A text without escapes. -/
def rawText (s : List Char) (h : ∀ c ∈ s, IsUnescaped c) : StringText := s.pmap .raw h

theorem body_rawText (s : List Char) (h : ∀ c ∈ s, IsUnescaped c) : body (rawText s h) = utf8 s := by
  induction s with
  | nil => rfl
  | cons c s ih => exact congrArg (String.utf8EncodeChar c ++ ·) (ih (List.forall_mem_cons.mp h).2)

theorem units_rawText (s : List Char) (h : ∀ c ∈ s, IsUnescaped c) :
    units (rawText s h) = codeUnits s := by
  induction s with
  | nil => rfl
  | cons c s ih => exact congrArg (utf16 c.toNat ++ ·) (ih (List.forall_mem_cons.mp h).2)

/-! ## What a string of a given text says -/

theorem utf16_ascii {c : Char} (h : c.toNat < 128) : utf16 c.toNat = [c.toNat] :=
  if_pos (Nat.lt_trans h (by decide))

theorem utf16_ne_nil (n : Nat) : utf16 n ≠ [] := by
  unfold utf16
  split
  · exact List.cons_ne_nil _ _
  · exact List.cons_ne_nil _ _

/-- The code units of a character are no beginning of those of another. -/
theorem utf16_append_inj {c d : Char} {s t : List Nat}
    (h : utf16 c.toNat ++ s = utf16 d.toNat ++ t) : c = d ∧ s = t := by
  have hscalar : ∀ e : Char, e.toNat < 0xd800 ∨ 0xdfff < e.toNat ∧ e.toNat < 0x110000 :=
    fun e => e.valid
  have hc := hscalar c
  have hd := hscalar d
  unfold utf16 at h
  split_ifs at h
  · obtain ⟨hcd, hst⟩ := List.cons.inj h
    exact ⟨Char.toNat_inj.mp hcd, hst⟩
  · have hcd := (List.cons.inj h).1
    omega
  · have hcd := (List.cons.inj h).1
    omega
  · obtain ⟨hhigh, h⟩ := List.cons.inj h
    obtain ⟨hlow, hst⟩ := List.cons.inj h
    exact ⟨Char.toNat_inj.mp (by omega), hst⟩

/-- The first byte of a text and a quote, if it is an ASCII character and no quote. -/
theorem cons_of_utf8_eq {s : List Char} {b : UInt8} {r y : List UInt8} (hascii : b.toNat < 128)
    (hquote : b ≠ byte '"') (h : b :: r = utf8 s ++ byte '"' :: y) :
    ∃ c s', s = c :: s' ∧ c.toNat = b.toNat ∧ r = utf8 s' ++ byte '"' :: y := by
  cases s with
  | nil => exact absurd (List.cons.inj h).1 hquote
  | cons c s =>
    have hflat : utf8 (c :: s) = String.utf8EncodeChar c ++ utf8 s := rfl
    obtain ⟨b', r', hc⟩ := List.exists_cons_of_ne_nil (String.utf8EncodeChar_ne_nil (c := c))
    rw [hflat, hc, List.append_assoc, List.cons_append] at h
    obtain ⟨rfl, hr⟩ := List.cons.inj h
    have hnat : c.toNat = b.toNat := mem_utf8EncodeChar (by rw [hc]; exact List.mem_cons_self) hascii
    rw [utf8EncodeChar_ascii (by omega)] at hc
    obtain ⟨-, rfl⟩ := List.cons.inj hc
    exact ⟨c, s, rfl, hnat, hr⟩

theorem byte_of_hexDigit (d : HexDigit) : d.byte.toNat < 128 ∧ d.byte ≠ byte '"' := by
  obtain ⟨value, upper⟩ := d
  revert value upper
  decide

/-- An item whose first code unit is that of an ASCII character says that character. -/
theorem units_eq_of_ascii {i : StringItem} {c : Char} {s t : List Nat} (hc : c.toNat < 128)
    (h : i.units ++ s = utf16 c.toNat ++ t) : i.units = utf16 c.toNat ∧ s = t := by
  cases i with
  | raw c' hc' =>
    obtain ⟨rfl, hst⟩ := utf16_append_inj (c := c') h
    exact ⟨rfl, hst⟩
  | _ =>
    rw [utf16_ascii hc] at h ⊢
    obtain ⟨hunit, hst⟩ := List.cons.inj h
    exact ⟨congrArg ([·]) hunit, hst⟩

/-- An item that says an ASCII character other than a quote is written in such
characters. -/
theorem render_ascii {i : StringItem} {c : Char} (h : i.units = utf16 c.toNat) (hc : c.toNat < 128)
    (hquote : c ≠ '"') : i.render ≠ [] ∧ ∀ b ∈ i.render, b.toNat < 128 ∧ b ≠ byte '"' := by
  cases i with
  | raw c' hc' =>
    have hunits : utf16 c'.toNat ++ [] = utf16 c.toNat ++ [] := congrArg (· ++ []) h
    obtain ⟨rfl, -⟩ := utf16_append_inj hunits
    have hrender : (StringItem.raw c' hc').render = [byte c'] := utf8EncodeChar_ascii hc
    rw [hrender]
    refine ⟨List.cons_ne_nil _ _, fun b hb => ?_⟩
    obtain rfl := List.mem_singleton.mp hb
    refine ⟨by rwa [toNat_byte hc], fun heq => hquote ?_⟩
    apply Char.toNat_inj.mp
    rw [← toNat_byte hc, heq]
    rfl
  | escape e =>
    refine ⟨List.cons_ne_nil _ _, ?_⟩
    rw [utf16_ascii hc] at h
    have hunit : e.unit = c.toNat := (List.cons.inj h).1
    cases e
    case quote => exact absurd (Char.toNat_inj.mp hunit.symm) hquote
    all_goals
      exact List.forall_mem_cons.mpr ⟨by decide, List.forall_mem_singleton.mpr (by decide)⟩
  | unicode d₁ d₂ d₃ d₄ =>
    refine ⟨List.cons_ne_nil _ _, ?_⟩
    have hstart : ((byte '\\').toNat < 128 ∧ byte '\\' ≠ byte '"') ∧
        (byte 'u').toNat < 128 ∧ byte 'u' ≠ byte '"' := by decide
    simpa [StringItem.render, byte_of_hexDigit] using hstart

/-- A string that is behind the text that it should say never catches up: `z` is what
it still has to say. -/
theorem units_ne_of_ahead {v : StringText} {s : List Char} {z x y : List UInt8} (hz : z ≠ [])
    (hascii : ∀ b ∈ z, b.toNat < 128 ∧ b ≠ byte '"')
    (h : z ++ (body v ++ byte '"' :: x) = utf8 s ++ byte '"' :: y) : units v ≠ codeUnits s := by
  intro hunits
  induction v generalizing s z with
  | nil =>
    obtain ⟨b, z, rfl⟩ := List.exists_cons_of_ne_nil hz
    have hb := hascii b List.mem_cons_self
    obtain ⟨c, s, rfl, -, -⟩ := cons_of_utf8_eq hb.1 hb.2 h
    exact absurd (List.append_eq_nil_iff.mp hunits.symm).1 (utf16_ne_nil _)
  | cons i v ih =>
    obtain ⟨b, z, rfl⟩ := List.exists_cons_of_ne_nil hz
    have hb := hascii b List.mem_cons_self
    obtain ⟨c, s, rfl, hc, hrest⟩ := cons_of_utf8_eq hb.1 hb.2 h
    have hcascii : c.toNat < 128 := hc ▸ hb.1
    have hcquote : c ≠ '"' := by
      rintro rfl
      exact hb.2 (UInt8.toNat_inj.mp hc.symm)
    obtain ⟨hi, hunits⟩ := units_eq_of_ascii hcascii
      (show i.units ++ units v = utf16 c.toNat ++ codeUnits s from hunits)
    obtain ⟨hne, hrender⟩ := render_ascii hi hcascii hcquote
    refine ih (z := z ++ i.render) (List.append_ne_nil_of_right_ne_nil z hne) ?_ ?_ hunits
    · intro b' hb'
      rcases List.mem_append.mp hb' with hb' | hb'
      · exact hascii b' (List.mem_cons_of_mem b hb')
      · exact hrender b' hb'
    · rw [← hrest]
      simp [body]

/-- **A string that is written as the text that it says has no escapes.** -/
theorem unescaped_of_body {v : StringText} {s : List Char} {x y : List UInt8}
    (h : body v ++ byte '"' :: x = utf8 s ++ byte '"' :: y) (hunits : units v = codeUnits s) :
    ∀ c ∈ s, IsUnescaped c := by
  induction v generalizing s with
  | nil =>
    cases s with
    | nil => exact fun c hc => absurd hc List.not_mem_nil
    | cons c s =>
      exact absurd (List.append_eq_nil_iff.mp hunits.symm).1 (utf16_ne_nil _)
  | cons i v ih =>
    have hbehind : ∀ z, i.render = byte '\\' :: z → z ≠ [] → (∀ c, i.units = utf16 c.toNat →
        c = '\\' → ∀ b ∈ z, b.toNat < 128 ∧ b ≠ byte '"') → False := by
      intro z hi hz hascii
      have hflat : body (i :: v) = i.render ++ body v := rfl
      rw [hflat, hi, List.cons_append, List.cons_append] at h
      obtain ⟨c, s, rfl, hc, hrest⟩ := cons_of_utf8_eq (by decide) (by decide) h
      obtain rfl : c = '\\' := Char.toNat_inj.mp hc
      obtain ⟨hiunits, hunits⟩ := units_eq_of_ascii (by decide)
        (show i.units ++ units v = utf16 ('\\').toNat ++ codeUnits s from hunits)
      rw [List.append_assoc] at hrest
      exact units_ne_of_ahead hz (hascii _ hiunits rfl) hrest hunits
    cases i with
    | raw c hc =>
      cases s with
      | nil => exact absurd (List.append_eq_nil_iff.mp hunits).1 (utf16_ne_nil _)
      | cons d s =>
        obtain ⟨rfl, hrestUnits⟩ := utf16_append_inj
          (show utf16 c.toNat ++ units v = utf16 d.toNat ++ codeUnits s from hunits)
        have hrest : body v ++ byte '"' :: x = utf8 s ++ byte '"' :: y := by
          refine (List.append_right_inj (String.utf8EncodeChar c)).mp ?_
          simpa [body, utf8, StringItem.render] using h
        exact List.forall_mem_cons.mpr ⟨hc, ih hrest hrestUnits⟩
    | escape e =>
      refine (hbehind [byte e.letter] rfl (List.cons_ne_nil _ _) fun c he hc => ?_).elim
      subst hc
      cases e
      case quote => cases he
      all_goals exact List.forall_mem_singleton.mpr (by decide)
    | unicode d₁ d₂ d₃ d₄ =>
      refine (hbehind _ rfl (List.cons_ne_nil _ _) fun _ _ _ => ?_).elim
      have hstart : (byte 'u').toNat < 128 ∧ byte 'u' ≠ byte '"' := by decide
      simpa [byte_of_hexDigit] using hstart

/-! ## What an object of strings begins with -/

open QuotedStrings in
/-- A string whose text up to a quote is plain. -/
theorem string_of_body {k : List Char} (hk : ∀ c ∈ k, c.toNat < 128 ∧ IsUnescaped c) {v : StringText}
    {x y : List UInt8} (h : body v ++ byte '"' :: x = k.map byte ++ byte '"' :: y) :
    units v = codeUnits k ∧ x = y := by
  have hplain : ∀ d : Char, d.toNat < 128 → (∀ c ∈ k, c ≠ d) → byte d ∉ k.map byte := by
    intro d hd hne hmem
    obtain ⟨c, hc, hcd⟩ := List.mem_map.mp hmem
    refine hne c hc (Char.toNat_inj.mp ?_)
    rw [← toNat_byte (hk c hc).1, hcd, toNat_byte hd]
  have hprefix : k.map byte ++ [byte '"'] <+: body v ++ byte '"' :: x := by
    rw [h]
    exact ⟨y, by simp⟩
  have hbody : k.map byte = body v := (key_prefix_iff (escaped_body v 0) (by decide)
    (hplain '"' (by decide) fun c hc => (hk c hc).2.2.1)
    (hplain '\\' (by decide) fun c hc => (hk c hc).2.2.2)).mp hprefix
  refine ⟨units_of_body (fun c hc => ⟨(hk c hc).1, (hk c hc).2.2.2⟩) hbody.symm, ?_⟩
  rw [← hbody] at h
  exact (List.cons.inj (List.append_cancel_left h)).2

/-- White space before a byte that is none. -/
theorem spaces_eq_nil {ws : Spaces} {b : UInt8} {x y : List UInt8} (hb : b ∉ bytes " \t\n\r")
    (h : renderSpaces ws ++ x = b :: y) : ws = [] ∧ x = b :: y := by
  cases ws with
  | nil => exact ⟨rfl, h⟩
  | cons w ws =>
    obtain rfl : w.byte = b := (List.cons.inj h).1
    exact absurd (by cases w <;> decide) hb

/-- Only a string begins with a quote. -/
theorem value_of_quote {v : Value} {x y : List UInt8} (h : v.render ++ x = byte '"' :: y) :
    ∃ s, v = .string s ∧ body s ++ byte '"' :: x = y := by
  cases v with
  | string s =>
    refine ⟨s, rfl, ?_⟩
    have hrender : (Value.string s).render ++ x = byte '"' :: (body s ++ byte '"' :: x) := by
      simp [Value.render, renderString]
    rw [hrender] at h
    exact (List.cons.inj h).2
  | number n =>
    obtain ⟨b, r, hn⟩ := List.exists_cons_of_ne_nil (renderNumber_ne_nil n)
    rw [Value.render, hn] at h
    obtain rfl : b = byte '"' := (List.cons.inj h).1
    exact absurd (by rw [hn]; exact List.mem_cons_self) (quote_notMem_renderNumber n)
  | _ => exact absurd (List.cons.inj h).1 (by decide)

/-- Members that begin with a plain key and a string, without white space. -/
theorem members_of_render {separator tail r : List UInt8} {ms : Members} {k : List Char}
    (hseparator : separator = [] ∨ separator = [byte ','])
    (hk : ∀ c ∈ k, c.toNat < 128 ∧ IsUnescaped c)
    (h : ms.render separator ++ byte '}' :: tail =
      separator ++ byte '"' :: (k.map byte ++ byte '"' :: byte ':' :: byte '"' :: r)) :
    ∃ key v after rest, ms = .cons [] key [] [] (.string v) after rest ∧ units key = codeUnits k ∧
      body v ++ byte '"' :: (renderSpaces after ++ (rest.render [byte ','] ++ byte '}' :: tail)) = r := by
  cases ms with
  | nil =>
    rcases hseparator with rfl | rfl
    · exact absurd (List.cons.inj h).1 (by decide)
    · exact absurd (List.cons.inj h).1 (by decide)
  | cons before key beforeColon afterColon value after rest =>
    simp only [Members.render, renderString, List.append_assoc, List.cons_append, List.nil_append] at h
    obtain ⟨rfl, hquote⟩ := spaces_eq_nil (by decide) (List.append_cancel_left h)
    obtain ⟨hkey, hcolon⟩ := string_of_body hk (List.cons.inj hquote).2
    obtain ⟨rfl, hcolon⟩ := spaces_eq_nil (by decide) hcolon
    obtain ⟨rfl, hvalue⟩ := spaces_eq_nil (by decide) (List.cons.inj hcolon).2
    obtain ⟨v, rfl, hrest⟩ := value_of_quote hvalue
    exact ⟨key, v, after, rest, rfl, hkey, hrest⟩

end TpmAttest.JsonGrammar

namespace TpmAttest.Python

open JsonGrammar (byte utf8 utf8EncodeChar_ascii IsUnescaped)

theorem encode_eq (s : List Char) : encode (String.ofList s) = utf8 s := by
  simp [encode, String.toUTF8, List.utf8Encode, utf8]

theorem encode_toList (s : String) : encode s = utf8 s.toList := by
  rw [← encode_eq, String.ofList_toList]

/-- ASCII text is encoded a character at a time. -/
theorem utf8_ascii {s : List Char} (h : ∀ c ∈ s, c.toNat < 128) : utf8 s = s.map byte := by
  rw [utf8, List.map_eq_flatMap]
  exact List.flatMap_congr fun c hc => utf8EncodeChar_ascii (h c hc)

/-- A continuation byte. -/
theorem utf8Continue_cons {lo hi m : Nat} (hlo : lo ≤ m) (hhi : m ≤ hi) (hm : m < 256)
    (length value more : Nat) (s : Bytes) :
    utf8Continue length value lo hi (more + 1) (UInt8.ofNat m :: s) =
      utf8Continue (length + 1) (value * 64 + (m - 0x80)) 0x80 0xbf more s := by
  have hnat : (UInt8.ofNat m).toNat = m := UInt8.toNat_ofNat_of_lt' hm
  rw [utf8Continue, hnat, if_pos ⟨hlo, hhi⟩]

/-- The lead byte of a sequence of three bytes. -/
theorem utf8Lead_three {n : Nat} (hmin : 0x7ff < n) (hmax : n ≤ 0xffff)
    (hscalar : n < 0xd800 ∨ 0xdfff < n) : ∃ lo hi,
    utf8Lead (n / 4096 % 16 + 0xe0) = some (2, n / 4096, lo, hi) ∧
      lo ≤ n / 64 % 64 + 0x80 ∧ n / 64 % 64 + 0x80 ≤ hi := by
  unfold utf8Lead
  rw [if_neg (by omega), if_neg (by omega)]
  by_cases he0 : n / 4096 % 16 + 0xe0 = 0xe0
  · refine ⟨0xa0, 0xbf, ?_, by omega, by omega⟩
    rw [if_pos he0, show n / 4096 = 0 by omega]
  · by_cases hed : n / 4096 % 16 + 0xe0 = 0xed
    · refine ⟨0x80, 0x9f, ?_, by omega, by omega⟩
      rw [if_neg he0, if_pos hed, show n / 4096 = 0xd by omega]
    · refine ⟨0x80, 0xbf, ?_, by omega, by omega⟩
      rw [if_neg he0, if_neg hed, if_pos (by omega), show n / 4096 % 16 + 0xe0 - 0xe0 = n / 4096 by omega]

/-- The lead byte of a sequence of four bytes. -/
theorem utf8Lead_four {n : Nat} (hmin : 0xffff < n) (hmax : n < 0x110000) : ∃ lo hi,
    utf8Lead (n / 262144 % 8 + 0xf0) = some (3, n / 262144, lo, hi) ∧
      lo ≤ n / 4096 % 64 + 0x80 ∧ n / 4096 % 64 + 0x80 ≤ hi := by
  unfold utf8Lead
  rw [if_neg (by omega), if_neg (by omega), if_neg (by omega), if_neg (by omega), if_neg (by omega)]
  by_cases hf0 : n / 262144 % 8 + 0xf0 = 0xf0
  · refine ⟨0x90, 0xbf, ?_, by omega, by omega⟩
    rw [if_pos hf0, show n / 262144 = 0 by omega]
  · by_cases hf4 : n / 262144 % 8 + 0xf0 = 0xf4
    · refine ⟨0x80, 0x8f, ?_, by omega, by omega⟩
      rw [if_neg hf0, if_neg (by omega), if_pos hf4, show n / 262144 = 4 by omega]
    · refine ⟨0x80, 0xbf, ?_, by omega, by omega⟩
      rw [if_neg hf0, if_pos (by omega), show n / 262144 % 8 + 0xf0 - 0xf0 = n / 262144 by omega]

/-- The sequence of a character is decoded to it. -/
theorem utf8Next_utf8EncodeChar (c : Char) (rest : Bytes) : ∃ b s,
    String.utf8EncodeChar c = b :: s ∧ utf8Next b (s ++ rest) = .ok (char c, s.length + 1) := by
  have hscalar : c.toNat < 0xd800 ∨ 0xdfff < c.toNat ∧ c.toNat < 0x110000 := c.valid
  have hnat : ∀ m, m < 256 → (UInt8.ofNat m).toNat = m := fun m hm => UInt8.toNat_ofNat_of_lt' hm
  unfold String.utf8EncodeChar char
  rw [show c.val.toNat = c.toNat from rfl]
  dsimp only
  generalize c.toNat = n at hscalar
  split_ifs with h₁ h₂ h₃
  · refine ⟨_, _, rfl, ?_⟩
    unfold utf8Next utf8Lead
    rw [hnat n (by omega), if_pos (by omega)]
    rfl
  · refine ⟨_, _, rfl, ?_⟩
    have hlead : utf8Lead (n / 64 % 32 + 0xc0) = some (1, n / 64, 0x80, 0xbf) := by
      unfold utf8Lead
      rw [if_neg (by omega), if_pos (by omega), show n / 64 % 32 + 0xc0 - 0xc0 = n / 64 by omega]
    rw [utf8Next, hnat _ (by omega), hlead]
    dsimp only [List.cons_append, List.nil_append]
    rw [utf8Continue_cons (by omega) (by omega) (by omega), utf8Continue]
    rw [show n / 64 * 64 + (n % 64 + 0x80 - 0x80) = n by omega]
    rfl
  · obtain ⟨lo, hi, hlead, hlo, hhi⟩ := utf8Lead_three (by omega) h₃ (by omega)
    refine ⟨_, _, rfl, ?_⟩
    rw [utf8Next, hnat _ (by omega), hlead]
    dsimp only [List.cons_append, List.nil_append]
    rw [utf8Continue_cons hlo hhi (by omega), utf8Continue_cons (by omega) (by omega) (by omega),
      utf8Continue]
    rw [show (n / 4096 * 64 + (n / 64 % 64 + 0x80 - 0x80)) * 64 + (n % 64 + 0x80 - 0x80) = n by omega]
    rfl
  · obtain ⟨lo, hi, hlead, hlo, hhi⟩ := utf8Lead_four (by omega) (show n < 0x110000 by omega)
    refine ⟨_, _, rfl, ?_⟩
    rw [utf8Next, hnat _ (by omega), hlead]
    dsimp only [List.cons_append, List.nil_append]
    rw [utf8Continue_cons hlo hhi (by omega), utf8Continue_cons (by omega) (by omega) (by omega),
      utf8Continue_cons (by omega) (by omega) (by omega), utf8Continue]
    rw [show ((n / 262144 * 64 + (n / 4096 % 64 + 0x80 - 0x80)) * 64 + (n / 64 % 64 + 0x80 - 0x80)) * 64 +
      (n % 64 + 0x80 - 0x80) = n by omega]
    rfl

theorem decodeUtf8_skip (errors : ErrorHandler) (s t : Bytes) :
    decodeUtf8 errors s.length (s ++ t) = decodeUtf8 errors 0 t := by
  induction s with
  | nil => rfl
  | cons b s ih => exact ih

/-- **What a text is encoded to is decoded to the text**, whatever handles errors. -/
theorem decodeUtf8_utf8 (errors : ErrorHandler) (s : List Char) :
    decodeUtf8 errors 0 (utf8 s) = some (chars s) := by
  induction s with
  | nil => rfl
  | cons c s ih =>
    obtain ⟨b, r, hc, hnext⟩ := utf8Next_utf8EncodeChar c (utf8 s)
    have hflat : utf8 (c :: s) = b :: (r ++ utf8 s) := by
      rw [utf8, List.flatMap_cons, hc]
      rfl
    rw [hflat, decodeUtf8, hnext]
    dsimp only
    rw [Nat.add_sub_cancel, decodeUtf8_skip, ih]
    rfl

theorem decodeReplace_utf8 (s : List Char) : decodeReplace (utf8 s) = chars s := by
  apply Option.some.inj
  rw [decodeReplace, Option.some_get, decodeUtf8_utf8]

/-! ## Reading them -/

theorem char_val (c : Char) : (char c).val = c.toNat := by
  have hscalar : c.toNat < 0xd800 ∨ 0xdfff < c.toNat ∧ c.toNat < 0x110000 := c.valid
  exact Nat.mod_eq_of_lt (by omega)

theorem char_ne {c d : Char} (h : c ≠ d) : char c ≠ char d := by
  intro heq
  apply h
  apply Char.toNat_inj.mp
  rw [← char_val, heq, char_val]

theorem scanString_raw {s : List Char} (h : ∀ c ∈ s, IsUnescaped c) (t : Text) :
    scanString 0 (chars s ++ char '"' :: t) = .ok (chars s, s.length + 1) := by
  induction s with
  | nil => rfl
  | cons c s ih =>
    obtain ⟨⟨hcontrol, hquote, hbackslash⟩, h⟩ := List.forall_mem_cons.mp h
    change scanString 0 (char c :: (chars s ++ char '"' :: t)) = _
    rw [scanString, if_neg (char_ne hquote), if_neg (char_ne hbackslash), char_val,
      if_neg (by omega), ih h]
    rfl

/-- A member of strings, without white space. -/
def compactMember (k v : List Char) : List Char := '"' :: (k ++ '"' :: ':' :: '"' :: (v ++ ['"']))

theorem scanMembers_compact (limit : Nat) (first : Bool) {k v : List Char}
    (hk : ∀ c ∈ k, IsUnescaped c) (hv : ∀ c ∈ v, IsUnescaped c) (t : Text) :
    scanMembers (scanOnce limit) (.key first) 0 (chars (compactMember k v) ++ t) =
      ((scanMembers (scanOnce limit) .delimiter 0 t).map fun p =>
        ((chars k, .str (chars v)) :: p.1, p.2 + (compactMember k v).length)) := by
  obtain ⟨scan, hscan⟩ := scanOnce_eq limit
  have htext : chars (compactMember k v) ++ t = char '"' :: ((chars k ++ [char '"']) ++
      char ':' :: ([] ++ ((char '"' :: (chars v ++ [char '"'])) ++ t))) := by
    simp [compactMember, chars]
  have hkey : scanString 0 ((chars k ++ [char '"']) ++
      char ':' :: ([] ++ ((char '"' :: (chars v ++ [char '"'])) ++ t))) =
        .ok (chars k, (chars k ++ [char '"']).length) := by
    rw [List.append_assoc, List.singleton_append, scanString_raw hk]
    simp [chars]
  have hvalue : scanOnce limit ((char '"' :: (chars v ++ [char '"'])) ++ t) =
      .ok (.str (chars v), (char '"' :: (chars v ++ [char '"'])).length) := by
    rw [hscan, List.cons_append, scanValue.eq_def]
    dsimp only
    rw [if_pos rfl, List.append_assoc, List.singleton_append, scanString_raw hv]
    change Except.ok _ = Except.ok _
    simp [chars]
  have hhead : ∃ c s, char '"' :: (chars v ++ [char '"']) = c :: s ∧ isJsonSpace c = false :=
    ⟨_, _, rfl, by decide⟩
  rw [htext, scanMembers_item first (by simp) hkey hhead hvalue]
  cases scanMembers (scanOnce limit) .delimiter 0 t <;> simp [Except.map, compactMember, chars]; omega

/-- Members behind the first. -/
def compactRest (items : List (List Char × List Char)) : List Char :=
  items.flatMap fun item => ',' :: compactMember item.1 item.2

theorem scanMembers_compactRest (limit : Nat) {items : List (List Char × List Char)}
    (h : ∀ item ∈ items, (∀ c ∈ item.1, IsUnescaped c) ∧ ∀ c ∈ item.2, IsUnescaped c) :
    scanMembers (scanOnce limit) .delimiter 0 (chars (compactRest items ++ ['}'])) =
      .ok (items.map fun item => (chars item.1, .str (chars item.2)),
        (compactRest items).length + 1) := by
  induction items with
  | nil => rfl
  | cons item items ih =>
    obtain ⟨hitem, h⟩ := List.forall_mem_cons.mp h
    have htext : chars (compactRest (item :: items) ++ ['}']) =
        char ',' :: (chars (compactMember item.1 item.2) ++ chars (compactRest items ++ ['}'])) := by
      simp [compactRest, chars]
    have hcomma : ∀ t, scanMembers (scanOnce limit) .delimiter 0 (char ',' :: t) =
        (scanMembers (scanOnce limit) (.key false) 0 t).advance := fun t => rfl
    rw [htext, hcomma, scanMembers_compact limit false hitem.1 hitem.2, ih h]
    change Except.ok _ = Except.ok _
    simp [compactRest]
    omega

/-- An object of strings, without white space. -/
def compactObject (k v : List Char) (items : List (List Char × List Char)) : List Char :=
  '{' :: (compactMember k v ++ (compactRest items ++ ['}']))

/-- **A compact object of unescaped strings is read as its members.** -/
theorem loadsText_compactObject (limit : Nat) {k v : List Char} {items : List (List Char × List Char)}
    (h : ∀ item ∈ (k, v) :: items, (∀ c ∈ item.1, IsUnescaped c) ∧ ∀ c ∈ item.2, IsUnescaped c) :
    loadsText (limit + 1) (chars (compactObject k v items)) =
      .ok (.dict (dictOf (((k, v) :: items).map fun item => (chars item.1, .str (chars item.2))))) := by
  obtain ⟨hitem, hitems⟩ := List.forall_mem_cons.mp h
  have htext : chars (compactObject k v items) =
      char '{' :: (chars (compactMember k v) ++ chars (compactRest items ++ ['}'])) := by
    simp [compactObject, chars]
  have hmembers : scanMembers (scanOnce limit) (.key true) 0
      (chars (compactMember k v) ++ chars (compactRest items ++ ['}'])) =
        .ok (((k, v) :: items).map fun item => (chars item.1, .str (chars item.2)),
          (chars (compactMember k v) ++ chars (compactRest items ++ ['}'])).length) := by
    rw [scanMembers_compact limit true hitem.1 hitem.2, scanMembers_compactRest limit hitems]
    change Except.ok _ = Except.ok _
    simp [chars]
    omega
  rw [htext, loadsText_members hmembers]

end TpmAttest.Python
