import TpmAttest.JsonRoundTrip

/-! # What `json.loads` returns can be written

The scanner reads no integer of more than 4300 digits, and no value that nests deeper
than it may call itself.  So `json.dumps` can write what `json.loads` has read
(`writable_of_decodeJson`), and it is read back.
-/
namespace TpmAttest.Python

theorem fitsList_iff (items : List Json) : FitsList items ↔ ∀ item ∈ items, item.Fits := by
  induction items with
  | nil => exact iff_of_true trivial (List.forall_mem_nil _)
  | cons item items ih => rw [FitsList, ih, List.forall_mem_cons]

theorem fitsDict_iff (items : List (Text × Json)) : FitsDict items ↔ ∀ item ∈ items, item.2.Fits := by
  induction items with
  | nil => exact iff_of_true trivial (List.forall_mem_nil _)
  | cons item items ih => rw [FitsDict, ih, List.forall_mem_cons]

theorem nestingList_le_iff (items : List Json) (limit : Nat) :
    Json.nestingList items ≤ limit ↔ ∀ item ∈ items, item.nesting ≤ limit := by
  induction items with
  | nil => exact iff_of_true (Nat.zero_le _) (List.forall_mem_nil _)
  | cons item items ih => rw [Json.nestingList, Nat.max_le, ih, List.forall_mem_cons]

theorem nestingDict_le_iff (items : List (Text × Json)) (limit : Nat) :
    Json.nestingDict items ≤ limit ↔ ∀ item ∈ items, item.2.nesting ≤ limit := by
  induction items with
  | nil => exact iff_of_true (Nat.zero_le _) (List.forall_mem_nil _)
  | cons item items ih => rw [Json.nestingDict, Nat.max_le, ih, List.forall_mem_cons]

section
variable {P : Json → Prop}

theorem dictOf_values {items : List (Text × Json)} (h : ∀ item ∈ items, P item.2) :
    ∀ item ∈ dictOf items, P item.2 := by
  have hset : ∀ (key : Text) (value : Json) (d : List (Text × Json)), P value →
      (∀ item ∈ d, P item.2) → ∀ item ∈ setItem key value d, P item.2 := by
    intro key value d hvalue
    induction d with
    | nil => exact fun _ => List.forall_mem_singleton.mpr hvalue
    | cons item d ih =>
      intro hd
      rw [List.forall_mem_cons] at hd
      rw [setItem]
      by_cases hkey : item.1 = key
      · rw [if_pos hkey]
        exact List.forall_mem_cons.mpr ⟨hvalue, hd.2⟩
      · rw [if_neg hkey]
        exact List.forall_mem_cons.mpr ⟨hd.1, ih hd.2⟩
  have hfold : ∀ (items d : List (Text × Json)), (∀ item ∈ items, P item.2) →
      (∀ item ∈ d, P item.2) →
        ∀ item ∈ items.foldl (fun d item => setItem item.1 item.2 d) d, P item.2 := by
    intro items
    induction items with
    | nil => exact fun d _ hd => hd
    | cons item items ih =>
      intro d hitems hd
      rw [List.forall_mem_cons] at hitems
      exact ih _ hitems.2 (hset item.1 item.2 d hitems.1 hd)
  exact hfold items [] h (List.forall_mem_nil _)

theorem Scan.advance_eq_ok {α : Type} {r : Scan α} {p : α × Nat} (h : r.advance = .ok p) :
    ∃ n, r = .ok (p.1, n) := by
  cases r with
  | error e => cases h
  | ok q =>
    obtain rfl := Except.ok.inj h
    exact ⟨q.2, rfl⟩

theorem Scan.map_eq_ok {α β : Type} {r : Scan α} {f : α × Nat → β × Nat} {p : β × Nat}
    (h : r.map f = .ok p) : ∃ q, r = .ok q ∧ f q = p := by
  cases r with
  | error e => cases h
  | ok q => exact ⟨q, rfl, Except.ok.inj h⟩

/-- What holds of every value that is read holds of the elements of a list. -/
theorem scanElements_values {scan : Text → Scan Json}
    (hscan : ∀ s p, scan s = .ok p → P p.1) {phase : ElementPhase} {skip : Nat} {s : Text}
    {p : List Json × Nat} (h : scanElements scan phase skip s = .ok p) : ∀ v ∈ p.1, P v := by
  induction s generalizing phase skip p with
  | nil => rw [scanElements] at h; cases h
  | cons c s ih =>
    cases skip with
    | succ skip =>
      obtain ⟨n, hn⟩ := Scan.advance_eq_ok h
      exact ih (p := (p.1, n)) hn
    | zero =>
      rw [scanElements.eq_def] at h
      dsimp only at h
      split at h
      · obtain ⟨n, hn⟩ := Scan.advance_eq_ok h
        exact ih (p := (p.1, n)) hn
      · cases phase with
        | value first =>
          dsimp only at h
          split at h
          · obtain rfl := Except.ok.inj h
            exact List.forall_mem_nil _
          · cases hvalue : scan (c :: s) with
            | error e => rw [hvalue] at h; cases h
            | ok q =>
              rw [hvalue] at h
              obtain ⟨r, hr, rfl⟩ := Scan.map_eq_ok h
              exact List.forall_mem_cons.mpr ⟨hscan _ _ hvalue, ih hr⟩
        | delimiter =>
          dsimp only at h
          split at h
          · obtain rfl := Except.ok.inj h
            exact List.forall_mem_nil _
          · split at h
            · obtain ⟨n, hn⟩ := Scan.advance_eq_ok h
              exact ih (p := (p.1, n)) hn
            · cases h

/-- And of the values of a dict. -/
theorem scanMembers_values {scan : Text → Scan Json}
    (hscan : ∀ s p, scan s = .ok p → P p.1) {phase : MemberPhase} {skip : Nat} {s : Text}
    {p : List (Text × Json) × Nat} (h : scanMembers scan phase skip s = .ok p) :
    ∀ item ∈ p.1, P item.2 := by
  induction s generalizing phase skip p with
  | nil => rw [scanMembers] at h; cases h
  | cons c s ih =>
    cases skip with
    | succ skip =>
      obtain ⟨n, hn⟩ := Scan.advance_eq_ok h
      exact ih (p := (p.1, n)) hn
    | zero =>
      rw [scanMembers.eq_def] at h
      dsimp only at h
      split at h
      · obtain ⟨n, hn⟩ := Scan.advance_eq_ok h
        exact ih (p := (p.1, n)) hn
      · cases phase with
        | key first =>
          dsimp only at h
          split at h
          · cases hkey : scanString 0 s with
            | error e => rw [hkey] at h; cases h
            | ok q =>
              rw [hkey] at h
              obtain ⟨n, hn⟩ := Scan.advance_eq_ok h
              exact ih (p := (p.1, n)) hn
          · split at h
            · obtain rfl := Except.ok.inj h
              exact List.forall_mem_nil _
            · cases h
        | colon key =>
          dsimp only at h
          split at h
          · obtain ⟨n, hn⟩ := Scan.advance_eq_ok h
            exact ih (p := (p.1, n)) hn
          · cases h
        | value key =>
          dsimp only at h
          cases hvalue : scan (c :: s) with
          | error e => rw [hvalue] at h; cases h
          | ok q =>
            rw [hvalue] at h
            obtain ⟨r, hr, rfl⟩ := Scan.map_eq_ok h
            exact List.forall_mem_cons.mpr ⟨hscan _ _ hvalue, ih hr⟩
        | delimiter =>
          dsimp only at h
          split at h
          · obtain rfl := Except.ok.inj h
            exact List.forall_mem_nil _
          · split at h
            · obtain ⟨n, hn⟩ := Scan.advance_eq_ok h
              exact ih (p := (p.1, n)) hn
            · cases h

end

theorem decimalNumber_lt {digits : Text} (h : ∀ c ∈ digits, isDigit c = true) :
    decimalNumber digits < 10 ^ digits.length := by
  have hfold : ∀ (digits : Text) (n k : Nat), (∀ c ∈ digits, isDigit c = true) → n < 10 ^ k →
      digits.foldl (fun n c => 10 * n + (c.val - 0x30)) n < 10 ^ (k + digits.length) := by
    intro digits
    induction digits with
    | nil => exact fun n k _ hn => hn
    | cons c digits ih =>
      intro n k hdigits hn
      rw [List.forall_mem_cons] at hdigits
      have hc := hdigits.1
      rw [isDigit, Bool.and_eq_true, decide_eq_true_eq, decide_eq_true_eq] at hc
      have hnext : 10 * n + (c.val - 0x30) < 10 ^ (k + 1) := by
        rw [Nat.pow_succ]
        omega
      have hlast := ih _ (k + 1) hdigits.2 hnext
      rwa [Nat.add_assoc, Nat.add_comm 1] at hlast
  have hlt := hfold digits 0 0 h (by decide)
  rwa [Nat.zero_add] at hlt

theorem isDigit_integerDigits (s : Text) : ∀ c ∈ integerDigits s, isDigit c = true := by
  cases s with
  | nil => exact List.forall_mem_nil _
  | cons c s =>
    rw [integerDigits]
    by_cases hc : c = char '0'
    · rw [if_pos hc, hc]
      exact List.forall_mem_singleton.mpr rfl
    · rw [if_neg hc]
      exact fun d hd => List.mem_takeWhile_imp hd

/-- A number is a float, or an integer that is not too long. -/
theorem scanNumber_cases {s : Text} {p : Json × Nat} (h : scanNumber s = .ok p) :
    (∃ f, p.1 = .float f) ∨ ∃ n : Int, p.1 = .int n ∧ (Nat.toDigits 10 n.natAbs).length ≤ 4300 := by
  unfold scanNumber at h
  dsimp only at h
  generalize (if s.head? = some (char '-') then s.drop 1 else s) = t at h
  by_cases hempty : (integerDigits t).isEmpty = true
  · rw [if_pos hempty] at h
    cases h
  · rw [if_neg hempty] at h
    split at h
    · exact Or.inl ⟨_, congrArg Prod.fst (Except.ok.inj h).symm⟩
    · by_cases hfraction : (fractionDigits (t.drop (integerDigits t).length)).isEmpty = true
      · rw [if_pos hfraction] at h
        by_cases hlong : 4300 < (integerDigits t).length
        · rw [if_pos hlong] at h
          cases h
        · rw [if_neg hlong, List.isEmpty_iff.mp hfraction, List.append_nil] at h
          have hlt := decimalNumber_lt (isDigit_integerDigits t)
          have hpos : 0 < (integerDigits t).length := by
            rw [List.length_pos_iff, ne_eq, ← List.isEmpty_iff]
            exact hempty
          refine Or.inr ⟨_, congrArg Prod.fst (Except.ok.inj h).symm, ?_⟩
          have hlength : (Nat.toDigits 10 (decimalNumber (integerDigits t))).length ≤ 4300 :=
            ((Nat.length_toDigits_le_iff (by decide) hpos).mpr hlt).trans (Nat.le_of_not_lt hlong)
          split
          · rwa [Int.natAbs_neg]
          · exact hlength
      · rw [if_neg hfraction] at h
        exact Or.inl ⟨_, congrArg Prod.fst (Except.ok.inj h).symm⟩

/-- A value that can be written, and does not nest too deep. -/
def Writable (limit : Nat) (value : Json) : Prop := value.Fits ∧ value.nesting ≤ limit

theorem writable_list {limit : Nat} {items : List Json} (h : ∀ item ∈ items, Writable limit item) :
    Writable (limit + 1) (.list items) :=
  ⟨(fitsList_iff items).mpr fun item hitem => (h item hitem).1,
    Nat.succ_le_succ ((nestingList_le_iff items limit).mpr fun item hitem => (h item hitem).2)⟩

theorem writable_dict {limit : Nat} {items : List (Text × Json)}
    (h : ∀ item ∈ items, Writable limit item.2) : Writable (limit + 1) (.dict items) :=
  ⟨(fitsDict_iff items).mpr fun item hitem => (h item hitem).1,
    Nat.succ_le_succ ((nestingDict_le_iff items limit).mpr fun item hitem => (h item hitem).2)⟩

theorem writable_scanValue {scan : Option (Text → Scan Json)} {limit : Nat}
    (hscan : ∀ f ∈ scan, 0 < limit ∧ ∀ s p, f s = .ok p → Writable (limit - 1) p.1) {s : Text}
    {p : Json × Nat} (h : scanValue scan s = .ok p) : Writable limit p.1 := by
  have hliterals : ∀ l ∈ literals, Writable limit l.2 := by
    intro l hl
    simp only [literals, List.mem_cons, List.not_mem_nil, or_false] at hl
    rcases hl with rfl | rfl | rfl | rfl | rfl | rfl <;> exact ⟨trivial, Nat.zero_le _⟩
  cases s with
  | nil => cases h
  | cons c s =>
    rw [scanValue.eq_def] at h
    dsimp only at h
    split at h
    · obtain ⟨q, -, rfl⟩ := Scan.map_eq_ok h
      exact ⟨trivial, Nat.zero_le _⟩
    · split at h
      · cases scan with
        | none => cases h
        | some f =>
          obtain ⟨hpos, hf⟩ := hscan f rfl
          obtain ⟨q, hq, rfl⟩ := Scan.map_eq_ok h
          have hdict := writable_dict (dictOf_values (scanMembers_values hf hq))
          rwa [Nat.sub_add_cancel hpos] at hdict
      · split at h
        · cases scan with
          | none => cases h
          | some f =>
            obtain ⟨hpos, hf⟩ := hscan f rfl
            obtain ⟨q, hq, rfl⟩ := Scan.map_eq_ok h
            have hlist := writable_list (scanElements_values hf hq)
            rwa [Nat.sub_add_cancel hpos] at hlist
        · split at h
          · rename_i l hfind
            obtain rfl := Except.ok.inj h
            exact hliterals _ (List.mem_of_find?_eq_some hfind)
          · obtain ⟨p, n⟩ := p
            rcases scanNumber_cases h with ⟨f, rfl⟩ | ⟨k, rfl, hk⟩
            · exact ⟨trivial, Nat.zero_le _⟩
            · exact ⟨hk, Nat.zero_le _⟩

theorem writable_scanOnce {limit : Nat} {s : Text} {p : Json × Nat}
    (h : scanOnce limit s = .ok p) : Writable limit p.1 := by
  induction limit generalizing s p with
  | zero =>
    refine writable_scanValue ?_ h
    intro f hf
    cases hf
  | succ limit ih =>
    refine writable_scanValue ?_ h
    intro f hf
    obtain rfl := Option.some.inj hf
    exact ⟨Nat.succ_pos limit, fun s p hp => ih hp⟩

/-- **What is read can be written.** -/
theorem writable_of_decodeJson {limit : Nat} {s : Text} {value : Json}
    (h : decodeJson limit s = .ok value) : Writable limit value := by
  unfold decodeJson at h
  dsimp only at h
  cases hscan : scanOnce limit (s.dropWhile isJsonSpace) with
  | error e =>
    rw [hscan] at h
    cases h
  | ok p =>
    rw [hscan] at h
    dsimp only at h
    split at h
    · obtain rfl := Except.ok.inj h
      exact writable_scanOnce hscan
    · cases h

/-! ## Deeper nesting -/

/-- What the one reads, the other reads. -/
def Scan.Le {α : Type} (r r' : Scan α) : Prop := ∀ p, r = .ok p → r' = .ok p

theorem Scan.Le.map {α β : Type} {r r' : Scan α} (h : r.Le r') (f : α × Nat → β × Nat) :
    Scan.Le (r.map f) (r'.map f) := by
  intro p hp
  obtain ⟨q, hq, rfl⟩ := Scan.map_eq_ok hp
  rw [h q hq]
  rfl

section
variable {scan scan' : Text → Scan Json} (hscan : ∀ s, (scan s).Le (scan' s))
include hscan

theorem scanElements_le (phase : ElementPhase) (skip : Nat) (s : Text) :
    (scanElements scan phase skip s).Le (scanElements scan' phase skip s) := by
  induction s generalizing phase skip with
  | nil => exact fun _ h => by rw [scanElements] at h; cases h
  | cons c s ih =>
    cases skip with
    | succ skip => exact (ih phase skip).map _
    | zero =>
      rw [scanElements.eq_def, scanElements.eq_def scan']
      dsimp only
      by_cases hspace : isJsonSpace c
      · rw [if_pos hspace, if_pos hspace]
        exact (ih phase 0).map _
      · rw [if_neg hspace, if_neg hspace]
        cases phase with
        | value first =>
          dsimp only
          by_cases hend : first = true ∧ c = char ']'
          · rw [if_pos hend, if_pos hend]
            exact fun _ => id
          · rw [if_neg hend, if_neg hend]
            cases hvalue : scan (c :: s) with
            | error e => exact fun _ h => by cases h
            | ok q =>
              rw [hscan _ q hvalue]
              exact (ih .delimiter (q.2 - 1)).map _
        | delimiter =>
          dsimp only
          by_cases hend : c = char ']'
          · rw [if_pos hend, if_pos hend]
            exact fun _ => id
          · rw [if_neg hend, if_neg hend]
            by_cases hcomma : c = char ','
            · rw [if_pos hcomma, if_pos hcomma]
              exact (ih (.value false) 0).map _
            · rw [if_neg hcomma, if_neg hcomma]
              exact fun _ => id

theorem scanMembers_le (phase : MemberPhase) (skip : Nat) (s : Text) :
    (scanMembers scan phase skip s).Le (scanMembers scan' phase skip s) := by
  induction s generalizing phase skip with
  | nil => exact fun _ h => by rw [scanMembers] at h; cases h
  | cons c s ih =>
    cases skip with
    | succ skip => exact (ih phase skip).map _
    | zero =>
      rw [scanMembers.eq_def, scanMembers.eq_def scan']
      dsimp only
      by_cases hspace : isJsonSpace c
      · rw [if_pos hspace, if_pos hspace]
        exact (ih phase 0).map _
      · rw [if_neg hspace, if_neg hspace]
        cases phase with
        | key first =>
          dsimp only
          by_cases hquote : c = char '"'
          · rw [if_pos hquote, if_pos hquote]
            cases scanString 0 s with
            | error e => exact fun _ => id
            | ok q => exact (ih (.colon q.1) q.2).map _
          · rw [if_neg hquote, if_neg hquote]
            exact fun _ => id
        | colon key =>
          dsimp only
          by_cases hcolon : c = char ':'
          · rw [if_pos hcolon, if_pos hcolon]
            exact (ih (.value key) 0).map _
          · rw [if_neg hcolon, if_neg hcolon]
            exact fun _ => id
        | value key =>
          dsimp only
          cases hvalue : scan (c :: s) with
          | error e => exact fun _ h => by cases h
          | ok q =>
            rw [hscan _ q hvalue]
            exact (ih .delimiter (q.2 - 1)).map _
        | delimiter =>
          dsimp only
          by_cases hend : c = char '\x7d'
          · rw [if_pos hend, if_pos hend]
            exact fun _ => id
          · rw [if_neg hend, if_neg hend]
            by_cases hcomma : c = char ','
            · rw [if_pos hcomma, if_pos hcomma]
              exact (ih (.key false) 0).map _
            · rw [if_neg hcomma, if_neg hcomma]
              exact fun _ => id

end

theorem scanValue_le {scan scan' : Option (Text → Scan Json)}
    (hscan : ∀ f ∈ scan, ∃ f' ∈ scan', ∀ s, (f s).Le (f' s)) (s : Text) :
    (scanValue scan s).Le (scanValue scan' s) := by
  cases s with
  | nil => exact fun _ => id
  | cons c s =>
    rw [scanValue.eq_def, scanValue.eq_def scan']
    dsimp only
    by_cases hquote : c = char '"'
    · rw [if_pos hquote, if_pos hquote]
      exact fun _ => id
    · rw [if_neg hquote, if_neg hquote]
      cases scan with
      | none =>
        by_cases hbrace : c = char '\x7b'
        · rw [if_pos hbrace]
          exact fun _ h => by cases h
        · rw [if_neg hbrace, if_neg hbrace]
          by_cases hbracket : c = char '['
          · rw [if_pos hbracket]
            exact fun _ h => by cases h
          · rw [if_neg hbracket, if_neg hbracket]
            exact fun _ => id
      | some f =>
        obtain ⟨f', hf', hle⟩ := hscan f rfl
        obtain rfl := Option.mem_def.mp hf'
        by_cases hbrace : c = char '\x7b'
        · rw [if_pos hbrace, if_pos hbrace]
          exact (scanMembers_le hle _ 0 s).map _
        · rw [if_neg hbrace, if_neg hbrace]
          by_cases hbracket : c = char '['
          · rw [if_pos hbracket, if_pos hbracket]
            exact (scanElements_le hle _ 0 s).map _
          · rw [if_neg hbracket, if_neg hbracket]
            exact fun _ => id

theorem scanOnce_le {limit limit' : Nat} (h : limit ≤ limit') (s : Text) :
    (scanOnce limit s).Le (scanOnce limit' s) := by
  induction limit generalizing limit' s with
  | zero =>
    obtain ⟨scan, hscan⟩ := scanOnce_eq limit'
    rw [hscan]
    apply scanValue_le
    intro f hf
    cases hf
  | succ limit ih =>
    obtain ⟨limit', rfl⟩ := Nat.exists_eq_succ_of_ne_zero (Nat.ne_of_gt (Nat.zero_lt_of_lt h))
    apply scanValue_le
    intro f hf
    obtain rfl := Option.some.inj hf
    exact ⟨_, rfl, ih (Nat.le_of_succ_le_succ h)⟩

/-- **A deeper limit reads the same.** -/
theorem decodeJson_le {limit limit' : Nat} (h : limit ≤ limit') {s : Text} {value : Json}
    (hread : decodeJson limit s = .ok value) : decodeJson limit' s = .ok value := by
  unfold decodeJson at hread ⊢
  dsimp only at hread ⊢
  cases hscan : scanOnce limit (s.dropWhile isJsonSpace) with
  | error e =>
    rw [hscan] at hread
    cases hread
  | ok p =>
    rw [hscan] at hread
    rw [scanOnce_le h _ p hscan]
    exact hread

theorem loads_le {limit limit' : Nat} (h : limit ≤ limit') {b : Bytes} {value : Json}
    (hread : loads limit b = .ok value) : loads limit' b = .ok value := by
  unfold loads at hread ⊢
  cases hdecode : decodeDetected b with
  | none =>
    rw [hdecode] at hread
    cases hread
  | some s =>
    rw [hdecode] at hread
    exact decodeJson_le h hread

/-- What is read of a value that was written is the value, whatever the limit. -/
theorem loads_dumps_eq {floatRepr : Decimal → String} {floatBack : Decimal → FloatValue}
    (h : FloatsRead floatRepr floatBack) {value value' : Json} {depth limit : Nat} {payload : String}
    (hdumps : dumps floatRepr depth value = some payload) (hfits : value.Fits)
    (hread : loads limit (encode payload) = .ok value') : value' = value.readBack floatBack := by
  have hdeep := loads_dumps h hdumps (Nat.le_max_right limit value.nesting) hfits
  rw [loads_le (Nat.le_max_left limit value.nesting) hread] at hdeep
  exact Except.ok.inj hdeep

end TpmAttest.Python
