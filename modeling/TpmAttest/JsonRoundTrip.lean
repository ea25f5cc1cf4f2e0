import TpmAttest.JsonIntegers

/-! # The round trip of `json.dumps` and `json.loads`

`loads_dumps`: what `json.dumps` writes, `json.loads` reads back, for every value whose
integers are not too long.  Strings come back with their surrogate pairs joined, so two
keys of a dict may become one; floats come back as what their texts say
(`FloatsRead`).
-/
namespace TpmAttest.Python

open JsonGrammar (byte utf8 toNat_byte)

/-! ## Values -/

section
variable (floatRepr : Decimal → String) (limit : Nat)

/-- The text of a value is read as a value, up to what may stand behind one. -/
structure ReadsAs (value value' : Json) : Prop where
  head : ∃ c s, jsonChars floatRepr value = c :: s ∧ isJsonSpace (char c) = false ∧
    char c ≠ char ']'
  scan : ∀ rest, Delimited rest → scanOnce limit (chars (jsonChars floatRepr value) ++ rest) =
    .ok (value', (jsonChars floatRepr value).length)

/-- What an integer begins with begins nothing else. -/
theorem special_of_intChar {c : CodePoint} (h : c = char '-' ∨ isDigit c = true) :
    isJsonSpace c = false ∧ c ≠ char ']' ∧ c ≠ char '"' ∧ c ≠ char '\x7b' ∧ c ≠ char '[' := by
  have hne : ∀ d : Char, isDigit (char d) = false → char d ≠ char '-' → c ≠ char d := by
    rintro d hd hminus rfl
    rcases h with h | h
    · exact hminus h
    · rw [hd] at h
      exact absurd h (by decide)
  have hspace : isJsonSpace c = false := by
    simp [isJsonSpace, hne ' ' (by decide) (by decide), hne '\t' (by decide) (by decide),
      hne '\n' (by decide) (by decide), hne '\r' (by decide) (by decide)]
  exact ⟨hspace, hne ']' (by decide) (by decide), hne '"' (by decide) (by decide),
    hne '\x7b' (by decide) (by decide), hne '[' (by decide) (by decide)⟩

theorem intText_cons (negative : Bool) (n : Nat) : ∃ c s, intText negative n = c :: s ∧
    (c = char '-' ∨ isDigit c = true) ∧ ∀ rest, ∃ d ∈ (c :: (s ++ rest)).take 2, isDigit d = true := by
  obtain ⟨d, ds, htext, hdigit⟩ := digitsOf_cons n
  cases negative
  · exact ⟨d, ds, htext, Or.inr hdigit, fun rest => ⟨d, List.mem_cons_self, hdigit⟩⟩
  · refine ⟨char '-', digitsOf n, rfl, Or.inl rfl, fun rest => ⟨d, ?_, hdigit⟩⟩
    rw [htext]
    exact List.mem_cons_of_mem _ List.mem_cons_self

theorem readsAs_int {n : Int} (h : (Nat.toDigits 10 n.natAbs).length ≤ 4300) :
    ReadsAs floatRepr limit (.int n) (.int n) := by
  have hchars : chars (jsonChars floatRepr (.int n)) = intText (decide (n < 0)) n.natAbs :=
    chars_toString n
  have hlength : (jsonChars floatRepr (.int n)).length = (intText (decide (n < 0)) n.natAbs).length := by
    rw [← hchars, chars, List.length_map]
  have hvalue : (if decide (n < 0) = true then -(n.natAbs : Int) else n.natAbs) = n := by
    by_cases hn : n < 0
    · rw [if_pos (decide_eq_true hn)]
      omega
    · rw [if_neg (by rwa [decide_eq_true_eq])]
      omega
  obtain ⟨c, s, htext, hc, hdigit⟩ := intText_cons (decide (n < 0)) n.natAbs
  obtain ⟨hspace, hbracket, hquote, hbrace, hlist⟩ := special_of_intChar hc
  constructor
  · rw [htext] at hchars
    obtain ⟨d, ds, hd⟩ := List.exists_cons_of_ne_nil (l := jsonChars floatRepr (.int n)) (by
      intro hnil
      rw [hnil] at hchars
      cases hchars)
    rw [hd] at hchars
    obtain ⟨rfl, -⟩ := List.cons.inj hchars
    exact ⟨d, ds, hd, hspace, hbracket⟩
  · intro rest hrest
    obtain ⟨scan, hscan⟩ := scanOnce_eq limit
    have hnumber := scanNumber_intText (decide (n < 0)) h hrest
    rw [hvalue, htext] at hnumber
    rw [hscan, hchars, hlength, htext, List.cons_append, scanValue.eq_def]
    dsimp only
    rw [if_neg hquote, if_neg hbrace, if_neg hlist, find?_literals (hdigit rest)]
    exact hnumber

theorem Reads.readsAs {floatRepr : Decimal → String} {limit : Nat} {value value' : Json}
    (h : Reads floatRepr limit value value')
    (hbracket : ∃ c s, jsonChars floatRepr value = c :: s ∧ char c ≠ char ']') :
    ReadsAs floatRepr limit value value' := by
  obtain ⟨⟨c, s, hc, hspace⟩, hscan⟩ := h
  obtain ⟨d, t, hd, hbracket⟩ := hbracket
  rw [hc] at hd
  obtain ⟨rfl, -⟩ := List.cons.inj hd
  exact ⟨⟨c, s, hc, hspace, hbracket⟩, fun rest _ => hscan rest⟩

/-- The texts of floats are printable, and are read as floats. -/
structure FloatsRead (floatRepr : Decimal → String) (floatBack : Decimal → FloatValue) : Prop where
  printable : ∀ d, ∀ c ∈ (floatRepr d).toList, 0x20 ≤ c.toNat ∧ c.toNat ≤ 0x7e
  reads : ∀ limit d, ReadsAs floatRepr limit (.float (.nearest d)) (.float (floatBack d))

variable {floatRepr limit}

theorem readsAs_float {floatBack : Decimal → FloatValue} (h : FloatsRead floatRepr floatBack)
    (f : FloatValue) :
    ReadsAs floatRepr limit (.float f) (match f with
      | .nearest d => .float (floatBack d)
      | f => .float f) := by
  obtain ⟨scan, hscan⟩ := scanOnce_eq limit
  cases f with
  | nearest d => exact h.reads limit d
  | nan => exact ⟨⟨'N', _, rfl, rfl, by decide⟩, fun rest _ => by rw [hscan]; rfl⟩
  | infinity negative =>
    cases negative
    · exact ⟨⟨'I', _, rfl, rfl, by decide⟩, fun rest _ => by rw [hscan]; rfl⟩
    · exact ⟨⟨'-', _, rfl, rfl, by decide⟩, fun rest _ => by rw [hscan]; rfl⟩

/-! ## Lists -/

theorem scanElements_skip (scan : Text → Scan Json) (phase : ElementPhase) (xs ys : Text) :
    scanElements scan phase xs.length (xs ++ ys) = (scanElements scan phase 0 ys).after xs.length := by
  induction xs with
  | nil => exact (Scan.after_zero _).symm
  | cons x xs ih =>
    change (scanElements scan phase xs.length (xs ++ ys)).advance = _
    rw [ih, Scan.advance_after]
    rfl

/-- One element. -/
theorem scanElements_item (first : Bool) {value value' : Json}
    (h : ReadsAs floatRepr limit value value') {t : Text} (ht : Delimited t) :
    scanElements (scanOnce limit) (.value first) 0 (chars (jsonChars floatRepr value) ++ t) =
      ((scanElements (scanOnce limit) .delimiter 0 t).map fun p =>
        (value' :: p.1, p.2 + (jsonChars floatRepr value).length)) := by
  obtain ⟨⟨c, s, hc, hspace, hbracket⟩, hscan⟩ := h
  have hvalue := hscan t ht
  rw [hc] at hvalue ⊢
  change scanElements (scanOnce limit) (.value first) 0 (char c :: (chars s ++ t)) = _
  rw [scanElements, if_neg (by simp [hspace]), if_neg fun hc => hbracket hc.2]
  change scanOnce limit (char c :: (chars s ++ t)) = _ at hvalue
  have hskip := scanElements_skip (scanOnce limit) .delimiter (chars s) t
  rw [chars, List.length_map] at hskip
  rw [hvalue]
  dsimp only
  rw [List.length_cons, Nat.add_sub_cancel]
  change (scanElements (scanOnce limit) .delimiter s.length (List.map char s ++ t)).map _ = _
  rw [hskip]
  cases scanElements (scanOnce limit) .delimiter 0 t <;> simp [Scan.after, Except.map]; omega

/-- The elements behind the first. -/
theorem scanElements_rest {items items' : List Json}
    (h : List.Forall₂ (ReadsAs floatRepr limit) items items') (rest : Text) :
    Delimited (chars (elementChars floatRepr [',', ' '] items ++ [']']) ++ rest) ∧
    scanElements (scanOnce limit) .delimiter 0
        (chars (elementChars floatRepr [',', ' '] items ++ [']']) ++ rest) =
      .ok (items', (elementChars floatRepr [',', ' '] items).length + 1) := by
  induction h with
  | nil => exact ⟨delimited_cons (Or.inr (Or.inl rfl)) _, rfl⟩
  | @cons item item' items items' hitem h ih =>
    obtain ⟨hdelimited, ih⟩ := ih
    have htext : chars (elementChars floatRepr [',', ' '] (item :: items) ++ [']']) ++ rest =
        char ',' :: char ' ' :: (chars (jsonChars floatRepr item) ++
          (chars (elementChars floatRepr [',', ' '] items ++ [']']) ++ rest)) := by
      simp [elementChars, chars]
    have hcomma : ∀ t, scanElements (scanOnce limit) .delimiter 0 (char ',' :: char ' ' :: t) =
        (scanElements (scanOnce limit) (.value false) 0 t).advance.advance := fun t => rfl
    rw [htext]
    refine ⟨delimited_cons (Or.inl rfl) _, ?_⟩
    rw [hcomma, scanElements_item false hitem hdelimited, ih]
    change Except.ok _ = Except.ok _
    simp [elementChars]
    omega

/-- **The elements of a list.** -/
theorem scanElements_elementChars {items items' : List Json}
    (h : List.Forall₂ (ReadsAs floatRepr limit) items items') (rest : Text) :
    scanElements (scanOnce limit) (.value true) 0
        (chars (elementChars floatRepr [] items ++ [']']) ++ rest) =
      .ok (items', (elementChars floatRepr [] items).length + 1) := by
  cases h with
  | nil => rfl
  | @cons item item' items items' hitem h =>
    obtain ⟨hdelimited, hrest⟩ := scanElements_rest h rest
    have htext : chars (elementChars floatRepr [] (item :: items) ++ [']']) ++ rest =
        chars (jsonChars floatRepr item) ++
          (chars (elementChars floatRepr [',', ' '] items ++ [']']) ++ rest) := by
      simp [elementChars, chars]
    rw [htext, scanElements_item true hitem hdelimited, hrest]
    change Except.ok _ = Except.ok _
    simp [elementChars]
    omega

/-! ## Dicts -/

/-- A member is read as a member. -/
def MemberReads (floatRepr : Decimal → String) (limit : Nat) (item item' : Text × Json) : Prop :=
  item'.1 = readBack item.1 ∧ ReadsAs floatRepr limit item.2 item'.2

/-- One member. -/
theorem scanMembers_delimited (first : Bool) {item item' : Text × Json}
    (h : MemberReads floatRepr limit item item') {t : Text} (ht : Delimited t) :
    scanMembers (scanOnce limit) (.key first) 0
        (chars (quoteText item.1 ++ (':' :: ' ' :: jsonChars floatRepr item.2)) ++ t) =
      ((scanMembers (scanOnce limit) .delimiter 0 t).map fun p => (item' :: p.1,
        p.2 + (quoteText item.1 ++ (':' :: ' ' :: jsonChars floatRepr item.2)).length)) := by
  obtain ⟨key, value⟩ := item
  obtain ⟨key', value'⟩ := item'
  obtain ⟨hkey, ⟨c, s, hc, hspace, -⟩, hscan⟩ := h
  dsimp only at hkey hc hscan ⊢
  subst hkey
  have htext : chars (quoteText key ++ (':' :: ' ' :: jsonChars floatRepr value)) ++ t =
      char '"' :: ((chars (escapeText key) ++ [char '"']) ++ char ':' :: ([char ' '] ++
        (chars (jsonChars floatRepr value) ++ t))) := by
    simp [quoteText, chars]
  have hkey : scanString 0 ((chars (escapeText key) ++ [char '"']) ++ char ':' :: ([char ' '] ++
      (chars (jsonChars floatRepr value) ++ t))) =
        .ok (readBack key, (chars (escapeText key) ++ [char '"']).length) := by
    rw [List.append_assoc, List.singleton_append, scanString_escapeText]
    simp [chars]
  have hvalue : scanOnce limit (chars (jsonChars floatRepr value) ++ t) =
      .ok (value', (chars (jsonChars floatRepr value)).length) := by
    rw [hscan t ht, chars, List.length_map]
  have hhead : ∃ c s, chars (jsonChars floatRepr value) = c :: s ∧ isJsonSpace c = false :=
    ⟨char c, chars s, by rw [hc]; rfl, hspace⟩
  rw [htext, scanMembers_item first (List.forall_mem_singleton.mpr rfl) hkey hhead hvalue]
  cases scanMembers (scanOnce limit) .delimiter 0 t <;> simp [Except.map, quoteText, chars]; omega

/-- The members behind the first. -/
theorem scanMembers_delimitedRest {items items' : List (Text × Json)}
    (h : List.Forall₂ (MemberReads floatRepr limit) items items') (rest : Text) :
    Delimited (chars (memberChars floatRepr [',', ' '] items ++ ['}']) ++ rest) ∧
    scanMembers (scanOnce limit) .delimiter 0
        (chars (memberChars floatRepr [',', ' '] items ++ ['}']) ++ rest) =
      .ok (items', (memberChars floatRepr [',', ' '] items).length + 1) := by
  induction h with
  | nil => exact ⟨delimited_cons (Or.inr (Or.inr rfl)) _, rfl⟩
  | @cons item item' items items' hitem h ih =>
    obtain ⟨hdelimited, ih⟩ := ih
    have htext : chars (memberChars floatRepr [',', ' '] (item :: items) ++ ['}']) ++ rest =
        char ',' :: char ' ' ::
          (chars (quoteText item.1 ++ (':' :: ' ' :: jsonChars floatRepr item.2)) ++
            (chars (memberChars floatRepr [',', ' '] items ++ ['}']) ++ rest)) := by
      simp [memberChars, chars]
    have hcomma : ∀ t, scanMembers (scanOnce limit) .delimiter 0 (char ',' :: char ' ' :: t) =
        (scanMembers (scanOnce limit) (.key false) 0 t).advance.advance := fun t => rfl
    rw [htext]
    refine ⟨delimited_cons (Or.inl rfl) _, ?_⟩
    rw [hcomma, scanMembers_delimited false hitem hdelimited, ih]
    change Except.ok _ = Except.ok _
    simp [memberChars]
    omega

/-- **The members of a dict**, of any values. -/
theorem scanMembers_delimitedAll {items items' : List (Text × Json)}
    (h : List.Forall₂ (MemberReads floatRepr limit) items items') (rest : Text) :
    scanMembers (scanOnce limit) (.key true) 0
        (chars (memberChars floatRepr [] items ++ ['}']) ++ rest) =
      .ok (items', (memberChars floatRepr [] items).length + 1) := by
  cases h with
  | nil => rfl
  | @cons item item' items items' hitem h =>
    obtain ⟨hdelimited, hrest⟩ := scanMembers_delimitedRest h rest
    have htext : chars (memberChars floatRepr [] (item :: items) ++ ['}']) ++ rest =
        chars (quoteText item.1 ++ (':' :: ' ' :: jsonChars floatRepr item.2)) ++
          (chars (memberChars floatRepr [',', ' '] items ++ ['}']) ++ rest) := by
      simp [memberChars, chars]
    rw [htext, scanMembers_delimited true hitem hdelimited, hrest]
    change Except.ok _ = Except.ok _
    simp [memberChars]
    omega

end

/-! ## What is read back -/

mutual
/-- The integers are short enough to be read. -/
def Json.Fits : Json → Prop
  | .int n => (Nat.toDigits 10 n.natAbs).length ≤ 4300
  | .list items => FitsList items
  | .dict items => FitsDict items
  | _ => True

def FitsList : List Json → Prop
  | [] => True
  | item :: items => item.Fits ∧ FitsList items

def FitsDict : List (Text × Json) → Prop
  | [] => True
  | (_, value) :: items => value.Fits ∧ FitsDict items
end

section
variable (floatBack : Decimal → FloatValue)

mutual
/-- A value that has been written and read. -/
def Json.readBack : Json → Json
  | .float (.nearest d) => .float (floatBack d)
  | .str s => .str (Python.readBack s)
  | .list items => .list (readBackList items)
  | .dict items => .dict (dictOf (readBackDict items))
  | value => value

def readBackList : List Json → List Json
  | [] => []
  | item :: items => item.readBack :: readBackList items

def readBackDict : List (Text × Json) → List (Text × Json)
  | [] => []
  | (key, value) :: items => (Python.readBack key, value.readBack) :: readBackDict items
end

variable {floatRepr : Decimal → String} {floatBack}

mutual
/-- **A value is read back**, up to what may stand behind it. -/
theorem readsAs_readBack (h : FloatsRead floatRepr floatBack) : ∀ (value : Json) (limit : Nat),
    value.nesting ≤ limit → value.Fits → ReadsAs floatRepr limit value (value.readBack floatBack)
  | .null, limit, _, _ => by
    obtain ⟨scan, hscan⟩ := scanOnce_eq limit
    exact ⟨⟨'n', _, rfl, rfl, by decide⟩, fun rest _ => by rw [hscan]; rfl⟩
  | .bool b, limit, _, _ => (reads_bool floatRepr limit b).readsAs (by
      cases b
      · exact ⟨'f', _, rfl, by decide⟩
      · exact ⟨'t', _, rfl, by decide⟩)
  | .int n, limit, _, hfits => readsAs_int floatRepr limit hfits
  | .float f, _, _, _ => by
    have hfloat := fun limit => @readsAs_float floatRepr limit floatBack h f
    cases f <;> exact hfloat _
  | .str s, limit, _, _ => (reads_str floatRepr limit s).readsAs ⟨'"', _, rfl, by decide⟩
  | .list items, 0, hlimit, _ => absurd hlimit (Nat.not_succ_le_zero _)
  | .list items, limit + 1, hlimit, hfits => by
    have hitems := readsAs_list h items limit (Nat.le_of_succ_le_succ hlimit) hfits
    refine ⟨⟨'[', _, rfl, rfl, by decide⟩, fun rest _ => ?_⟩
    have htext : chars (jsonChars floatRepr (.list items)) ++ rest =
        char '[' :: (chars (elementChars floatRepr [] items ++ [']']) ++ rest) := by
      simp [jsonChars, chars]
    rw [htext]
    change (scanElements (scanOnce limit) (.value true) 0 _).map _ = _
    rw [scanElements_elementChars hitems]
    change Except.ok _ = Except.ok _
    simp [jsonChars, Json.readBack]
  | .dict items, 0, hlimit, _ => absurd hlimit (Nat.not_succ_le_zero _)
  | .dict items, limit + 1, hlimit, hfits => by
    have hitems := readsAs_dict h items limit (Nat.le_of_succ_le_succ hlimit) hfits
    refine ⟨⟨'{', _, rfl, rfl, by decide⟩, fun rest _ => ?_⟩
    have htext : chars (jsonChars floatRepr (.dict items)) ++ rest =
        char '{' :: (chars (memberChars floatRepr [] items ++ ['}']) ++ rest) := by
      simp [jsonChars, chars]
    rw [htext]
    change (scanMembers (scanOnce limit) (.key true) 0 _).map _ = _
    rw [scanMembers_delimitedAll hitems]
    change Except.ok _ = Except.ok _
    simp [jsonChars, Json.readBack]

theorem readsAs_list (h : FloatsRead floatRepr floatBack) : ∀ (items : List Json) (limit : Nat),
    Json.nestingList items ≤ limit → FitsList items →
      List.Forall₂ (ReadsAs floatRepr limit) items (readBackList floatBack items)
  | [], _, _, _ => .nil
  | item :: items, limit, hlimit, hfits =>
    .cons (readsAs_readBack h item limit (Nat.max_le.mp hlimit).1 hfits.1)
      (readsAs_list h items limit (Nat.max_le.mp hlimit).2 hfits.2)

theorem readsAs_dict (h : FloatsRead floatRepr floatBack) : ∀ (items : List (Text × Json))
    (limit : Nat), Json.nestingDict items ≤ limit → FitsDict items →
      List.Forall₂ (MemberReads floatRepr limit) items (readBackDict floatBack items)
  | [], _, _, _ => .nil
  | (_, value) :: items, limit, hlimit, hfits =>
    .cons ⟨rfl, readsAs_readBack h value limit (Nat.max_le.mp hlimit).1 hfits.1⟩
      (readsAs_dict h items limit (Nat.max_le.mp hlimit).2 hfits.2)
end

theorem dropWhile_space {c : Char} {s : Text} (h : isJsonSpace (char c) = false) :
    (char c :: s).dropWhile isJsonSpace = char c :: s :=
  List.dropWhile_cons_of_neg (by rw [h]; exact Bool.false_ne_true)

/-- **The text of a value is decoded to it.** -/
theorem decodeJson_jsonChars (h : FloatsRead floatRepr floatBack) {value : Json} {limit : Nat}
    (hlimit : value.nesting ≤ limit) (hfits : value.Fits) :
    decodeJson limit (chars (jsonChars floatRepr value)) = .ok (value.readBack floatBack) := by
  obtain ⟨⟨c, s, hc, hspace, -⟩, hscan⟩ := readsAs_readBack h value limit hlimit hfits
  have hscan := hscan [] delimited_nil
  have hdrop : (chars (jsonChars floatRepr value)).dropWhile isJsonSpace =
      chars (jsonChars floatRepr value) := by
    rw [hc]
    exact dropWhile_space hspace
  rw [List.append_nil] at hscan
  rw [decodeJson, hdrop, hscan]
  dsimp only
  rw [List.drop_of_length_le (by rw [chars, List.length_map])]
  rfl

/-! ## The bytes -/

/-- A character that is printed. -/
def Printable (c : Char) : Prop := 0x20 ≤ c.toNat ∧ c.toNat ≤ 0x7e

instance : DecidablePred Printable := fun _ => inferInstanceAs (Decidable (_ ∧ _))

theorem printable_all {s : List Char} (h : s.all Printable = true) : ∀ c ∈ s, Printable c :=
  List.all_iff_forall_prop.mp h

theorem printable_append {s t : List Char} (hs : ∀ c ∈ s, Printable c) (ht : ∀ c ∈ t, Printable c) :
    ∀ c ∈ s ++ t, Printable c := by
  intro c hc
  rcases List.mem_append.mp hc with hc | hc
  · exact hs c hc
  · exact ht c hc

theorem printable_cons {d : Char} {s : List Char} (hd : Printable d) (hs : ∀ c ∈ s, Printable c) :
    ∀ c ∈ d :: s, Printable c := List.forall_mem_cons.mpr ⟨hd, hs⟩

theorem printable_quoteText (s : Text) : ∀ c ∈ quoteText s, Printable c :=
  printable_cons (by decide) (printable_append (fun _ => mem_escapeText) (printable_all (by decide)))

theorem printable_int (n : Int) : ∀ c ∈ (toString n).toList, Printable c := by
  have hnat : ∀ m : Nat, ∀ c ∈ (toString m).toList, Printable c := by
    intro m c hc
    rw [Nat.toString_eq_ofList_toDigits, String.toList_ofList] at hc
    obtain ⟨hmin, hmax⟩ := digit_range (Nat.isDigit_of_mem_toDigits (by decide) (by decide) hc)
    constructor <;> omega
  cases n with
  | ofNat m => exact hnat m
  | negSucc m =>
    change ∀ c ∈ ("-" ++ toString (m + 1)).toList, Printable c
    rw [String.toList_append]
    exact printable_append (printable_all (by decide)) (hnat (m + 1))

mutual
/-- The text of a value is printable. -/
theorem printable_jsonChars (h : FloatsRead floatRepr floatBack) :
    ∀ value : Json, ∀ c ∈ jsonChars floatRepr value, Printable c
  | .null => printable_all (s := "null".toList) (by decide)
  | .bool true => printable_all (s := "true".toList) (by decide)
  | .bool false => printable_all (s := "false".toList) (by decide)
  | .int n => printable_int n
  | .float (.nearest d) => h.printable d
  | .float .nan => printable_all (s := "NaN".toList) (by decide)
  | .float (.infinity true) => printable_all (s := "-Infinity".toList) (by decide)
  | .float (.infinity false) => printable_all (s := "Infinity".toList) (by decide)
  | .str s => printable_quoteText s
  | .list items => printable_cons (by decide)
    (printable_append (printable_elementChars h items _ (by decide)) (printable_all (by decide)))
  | .dict items => printable_cons (by decide)
    (printable_append (printable_memberChars h items _ (by decide)) (printable_all (by decide)))

theorem printable_elementChars (h : FloatsRead floatRepr floatBack) :
    ∀ (items : List Json) (separator : List Char), separator.all Printable = true →
      ∀ c ∈ elementChars floatRepr separator items, Printable c
  | [], _, _ => List.forall_mem_nil _
  | item :: items, _, hseparator => printable_append (printable_all hseparator)
    (printable_append (printable_jsonChars h item) (printable_elementChars h items _ (by decide)))

theorem printable_memberChars (h : FloatsRead floatRepr floatBack) :
    ∀ (items : List (Text × Json)) (separator : List Char), separator.all Printable = true →
      ∀ c ∈ memberChars floatRepr separator items, Printable c
  | [], _, _ => List.forall_mem_nil _
  | (key, value) :: items, _, hseparator => printable_append (printable_all hseparator)
    (printable_append (printable_quoteText key) (printable_cons (by decide) (printable_cons (by decide)
      (printable_append (printable_jsonChars h value) (printable_memberChars h items _ (by decide))))))
end

/-- Printable text is taken for UTF-8. -/
theorem detectEncoding_printable {b : Bytes} (h : ∀ x ∈ b, 0x20 ≤ x.toNat ∧ x.toNat ≤ 0x7e) :
    detectEncoding b = (.utf8, 0) := by
  have hmark : ∀ (x : UInt8) (mark : Bytes), ¬ (0x20 ≤ x.toNat ∧ x.toNat ≤ 0x7e) →
      ¬ (x :: mark <+: b) := by
    rintro x mark hx ⟨t, rfl⟩
    exact hx (h x List.mem_cons_self)
  have hzero : ∀ x ∈ b, x ≠ 0 := by
    rintro x hx rfl
    exact absurd (h 0 hx).1 (by decide)
  unfold detectEncoding
  rw [if_neg (hmark _ _ (by decide)), if_neg (hmark _ _ (by decide)), if_neg (hmark _ _ (by decide)),
    if_neg (hmark _ _ (by decide)), if_neg (hmark _ _ (by decide))]
  split
  · rw [if_neg (hzero _ (by simp)), if_neg (hzero _ (by simp))]
  · rw [if_neg (hzero _ (by simp)), if_neg (hzero _ (by simp))]
  · rfl

/-- Printable text that is encoded is decoded to itself. -/
theorem loads_encode {s : List Char} (h : ∀ c ∈ s, Printable c) (limit : Nat) :
    loads limit (encode (String.ofList s)) = decodeJson limit (chars s) := by
  have hbytes : utf8 s = s.map byte := utf8_ascii fun c hc => Nat.lt_of_le_of_lt (h c hc).2 (by decide)
  have hdetect : detectEncoding (utf8 s) = (.utf8, 0) := by
    rw [hbytes]
    refine detectEncoding_printable fun x hx => ?_
    obtain ⟨c, hc, rfl⟩ := List.mem_map.mp hx
    have hmax := (h c hc).2
    rw [toNat_byte (by omega)]
    exact h c hc
  rw [loads, encode_eq, decodeDetected, hdetect]
  dsimp only
  rw [List.drop_zero, decodeUtf8_utf8]

/-- **What `json.dumps` writes, `json.loads` reads back.** -/
theorem loads_dumps (h : FloatsRead floatRepr floatBack) {value : Json} {depth limit : Nat}
    {payload : String} (hdumps : dumps floatRepr depth value = some payload)
    (hlimit : value.nesting ≤ limit) (hfits : value.Fits) :
    loads limit (encode payload) = .ok (value.readBack floatBack) := by
  unfold dumps at hdumps
  split at hdumps
  · obtain rfl := Option.some.inj hdumps
    rw [loads_encode (printable_jsonChars h value), decodeJson_jsonChars h hlimit hfits]
  · cases hdumps

end

end TpmAttest.Python
