import Mathlib.Data.List.Find
import TpmAttest.WritableJson

/-! # Truncated JSON

A value in quotes, brackets or braces carries its own end: once the scanner has read it,
it would read the same with anything behind it.  So if the text of such a value goes on,
it is read as before or it has extra data (`decodeJson_append`), and of a dict that was
cut off nothing is read (`decodeJson_truncated`).
-/
namespace TpmAttest.Python

/-- What the first scan reads, the second reads too, and no more than `length` characters
are taken. -/
def Scan.Keeps {α : Type} (length : Nat) (r r' : Scan α) : Prop :=
  ∀ p, r = .ok p → p.2 ≤ length ∧ r' = .ok p

section
variable {α β : Type} {r r' : Scan α} {length : Nat}

theorem Scan.keeps_error {e : LoadsError} (r' : Scan α) : Scan.Keeps length (.error e) r' := by
  intro p hp
  cases hp

theorem Scan.Keeps.map (h : r.Keeps length r') (f : α → β) (k : Nat) :
    Scan.Keeps (length + k) (r.map fun p => (f p.1, p.2 + k))
      (r'.map fun p => (f p.1, p.2 + k)) := by
  intro p hp
  obtain ⟨q, hq, rfl⟩ := Scan.map_eq_ok hp
  obtain ⟨hle, hsame⟩ := h q hq
  rw [hsame]
  exact ⟨Nat.add_le_add_right hle k, rfl⟩

theorem Scan.Keeps.advance (h : r.Keeps length r') : Scan.Keeps (length + 1) r.advance r'.advance :=
  h.map id 1

end

/-! ## Strings -/

section
variable {s : Text} (t : Text)

theorem scanHex_append {n : Nat} (h : scanHex s = some n) :
    5 ≤ s.length ∧ scanHex (s ++ t) = some n := by
  match s with
  | a :: b :: c :: d :: e :: s => exact ⟨by simp, h⟩
  | [] | [_] | [_, _] | [_, _, _] | [_, _, _, _] => cases h

/-- The second escape of a pair, if it does not begin behind the text. -/
theorem scanLow_append {low : Option Nat} (h : scanLow s = .ok low)
    (hstart : (s ++ t).take 2 = [char '\\', char 'u'] → s.take 2 = [char '\\', char 'u']) :
    scanLow (s ++ t) = .ok low := by
  unfold scanLow at h ⊢
  by_cases hu : s.take 2 = [char '\\', char 'u']
  · have hlength : 2 ≤ s.length := by
      have hl := congrArg List.length hu
      rw [List.length_take] at hl
      rw [List.length_cons, List.length_singleton] at hl
      omega
    rw [if_pos hu] at h
    rw [List.take_append_of_le_length hlength, if_pos hu, List.drop_append_of_le_length hlength]
    cases hhex : scanHex (s.drop 2) with
    | none =>
      rw [hhex] at h
      cases h
    | some n =>
      rw [hhex] at h
      rw [(scanHex_append t hhex).2]
      exact h
  · rw [if_neg hu] at h
    rw [if_neg fun h' => hu (hstart h')]
    exact h

/-- A string that ends does not end with a backslash. -/
theorem escapeStart_of_append {p : Text × Nat} (h : scanString 0 s = .ok p)
    (hstart : (s ++ t).take 2 = [char '\\', char 'u']) : s.take 2 = [char '\\', char 'u'] := by
  match s with
  | [] => cases h
  | [c] =>
    obtain ⟨rfl, -⟩ := List.cons.inj hstart
    rw [scanString.eq_def] at h
    dsimp only at h
    rw [if_neg (by decide), if_pos rfl, scanEscape] at h
    cases h
  | _ :: _ :: _ => exact hstart

/-- If there is a second escape, it begins in the text. -/
theorem escapeStart_of_scanLow {m : Nat} (h : scanLow s = .ok (some m)) :
    s.take 2 = [char '\\', char 'u'] := by
  by_contra hu
  rw [scanLow, if_neg hu] at h
  cases h

/-- An escape in a string that ends. -/
theorem scanEscape_append {c : CodePoint} {n : Nat} (hescape : scanEscape s = .ok (c, n))
    {p : Text × Nat} (h : scanString n s = .ok p) : scanEscape (s ++ t) = .ok (c, n) := by
  cases s with
  | nil => cases hescape
  | cons d s =>
    rw [List.cons_append]
    rw [scanEscape] at hescape ⊢
    by_cases hu : d = char 'u'
    · rw [if_pos hu] at hescape ⊢
      cases hhex : scanHex s with
      | none =>
        rw [hhex] at hescape
        cases hescape
      | some m =>
        obtain ⟨hlength, hsame⟩ := scanHex_append t hhex
        rw [hhex] at hescape
        rw [hsame]
        dsimp only at hescape ⊢
        by_cases hhigh : isHighSurrogate m = true
        · rw [if_pos hhigh] at hescape ⊢
          rw [List.drop_append_of_le_length (by omega)]
          cases hlow : scanLow (s.drop 4) with
          | error e =>
            rw [hlow] at hescape
            cases hescape
          | ok low =>
            rw [hlow] at hescape
            have hlow' : scanLow (s.drop 4 ++ t) = .ok low := by
              apply scanLow_append t hlow
              cases low with
              | some m' => exact fun _ => escapeStart_of_scanLow hlow
              | none =>
                obtain ⟨-, rfl⟩ := Prod.mk.inj (Except.ok.inj hescape)
                -- the rest of the string begins behind the escape
                have hfive : (d :: s.take 4).length = 5 := by
                  rw [List.length_cons, List.length_take, Nat.min_eq_left (by omega)]
                have hsplit : d :: s = (d :: s.take 4) ++ s.drop 4 := by
                  rw [List.cons_append, List.take_append_drop]
                rw [hsplit, ← hfive, scanString_skip] at h
                obtain ⟨q, hq, -⟩ := Scan.map_eq_ok h
                exact escapeStart_of_append t hq
            rw [hlow']
            exact hescape
        · rw [if_neg hhigh] at hescape ⊢
          exact hescape
    · rw [if_neg hu] at hescape ⊢
      exact hescape

/-- **A string ends with its quote.** -/
theorem scanString_append (skip : Nat) (s : Text) :
    Scan.Keeps s.length (scanString skip s) (scanString skip (s ++ t)) := by
  induction s generalizing skip with
  | nil =>
    rw [scanString]
    exact Scan.keeps_error _
  | cons c s ih =>
    cases skip with
    | succ skip => exact (ih skip).advance
    | zero =>
      rw [List.cons_append, scanString.eq_def, scanString.eq_def]
      dsimp only
      by_cases hquote : c = char '"'
      · rw [if_pos hquote, if_pos hquote]
        intro p hp
        obtain rfl := Except.ok.inj hp
        exact ⟨Nat.succ_le_succ (Nat.zero_le _), rfl⟩
      · rw [if_neg hquote, if_neg hquote]
        by_cases hescape : c = char '\\'
        · rw [if_pos hescape, if_pos hescape]
          cases hread : scanEscape s with
          | error e => exact Scan.keeps_error _
          | ok q =>
            intro p hp
            obtain ⟨r, hr, -⟩ := Scan.map_eq_ok hp
            rw [scanEscape_append t hread hr]
            exact (ih q.2).map (q.1 :: ·) 1 p hp
        · rw [if_neg hescape, if_neg hescape]
          by_cases hcontrol : c.val < 0x20
          · rw [if_pos hcontrol]
            exact Scan.keeps_error _
          · rw [if_neg hcontrol, if_neg hcontrol]
            exact (ih 0).map (c :: ·) 1

end

/-! ## Numbers and literals -/

/-- A character that ends a number or a literal. -/
def Stop (c : CodePoint) : Prop :=
  isJsonSpace c = true ∨ c = char ',' ∨ c = char ']' ∨ c = char '}'

instance : DecidablePred Stop := fun _ => inferInstanceAs (Decidable (_ ∨ _))

theorem Stop.ne {c d : CodePoint} (h : Stop c) (hd : ¬ Stop d) : c ≠ d := by
  rintro rfl
  exact hd h

theorem Stop.isDigit {c : CodePoint} (h : Stop c) : isDigit c = false := by
  unfold Stop isJsonSpace at h
  simp only [Bool.or_eq_true, decide_eq_true_eq] at h
  rcases h with (((rfl | rfl) | rfl) | rfl) | rfl | rfl | rfl <;> rfl

section
variable {c : CodePoint} (hc : Stop c) (r : Text)
include hc

theorem takeWhile_stop (s : Text) : (s ++ c :: r).takeWhile isDigit = s.takeWhile isDigit := by
  induction s with
  | nil => exact List.takeWhile_cons_of_neg (by rw [hc.isDigit]; exact Bool.false_ne_true)
  | cons d s ih => rw [List.cons_append, List.takeWhile_cons, List.takeWhile_cons, ih]

theorem head_stop {d : CodePoint} (hd : ¬ Stop d) (s : Text) :
    (s ++ c :: r).head? = some d ↔ s.head? = some d := by
  cases s with
  | nil => exact iff_of_false (fun h => hc.ne hd (Option.some.inj h)) (by rintro ⟨⟩)
  | cons _ _ => exact Iff.rfl

theorem integerDigits_stop (s : Text) : integerDigits (s ++ c :: r) = integerDigits s := by
  cases s with
  | nil =>
    have hzero : c ≠ char '0' := hc.ne (by decide)
    rw [List.nil_append, integerDigits, integerDigits, if_neg hzero]
    exact takeWhile_stop hc r []
  | cons d s =>
    rw [List.cons_append, integerDigits, integerDigits, ← List.cons_append, takeWhile_stop hc]

theorem fractionDigits_stop (s : Text) : fractionDigits (s ++ c :: r) = fractionDigits s := by
  cases s with
  | nil =>
    have hpoint : c ≠ char '.' := hc.ne (by decide)
    rw [List.nil_append, fractionDigits, fractionDigits, if_neg hpoint]
  | cons d s => rw [List.cons_append, fractionDigits, fractionDigits, takeWhile_stop hc]

theorem scanExponent_stop (s : Text) : scanExponent (s ++ c :: r) = scanExponent s := by
  cases s with
  | nil =>
    rw [List.nil_append, scanExponent, scanExponent,
      if_neg (not_or.mpr ⟨hc.ne (by decide), hc.ne (by decide)⟩)]
  | cons d s =>
    rw [List.cons_append]
    unfold scanExponent
    simp only [head_stop hc r (d := char '-') (by decide), head_stop hc r (d := char '+') (by decide)]
    have hsigned : (if s.head? = some (char '-') ∨ s.head? = some (char '+') then 1 else 0) ≤
        s.length := by
      cases s with
      | nil => decide
      | cons _ _ => split <;> simp
    rw [List.drop_append_of_le_length hsigned, takeWhile_stop hc]

end

theorem integerDigits_length_le (s : Text) : (integerDigits s).length ≤ s.length := by
  cases s with
  | nil => exact Nat.le_refl 0
  | cons c s =>
    rw [integerDigits]
    by_cases hzero : c = char '0'
    · rw [if_pos hzero]
      exact Nat.succ_le_succ (Nat.zero_le _)
    · rw [if_neg hzero]
      exact (List.takeWhile_sublist _).length_le

/-- The point and the digits behind it. -/
theorem point_le (s : Text) :
    (if (fractionDigits s).isEmpty then 0 else (fractionDigits s).length + 1) ≤ s.length := by
  cases s with
  | nil => exact Nat.le_refl 0
  | cons c s =>
    rw [fractionDigits]
    by_cases hpoint : c = char '.'
    · rw [if_pos hpoint]
      split
      · exact Nat.zero_le _
      · exact Nat.succ_le_succ (List.takeWhile_sublist _).length_le
    · rw [if_neg hpoint]
      exact Nat.zero_le _

/-- **A number ends where it is stopped.** -/
theorem scanNumber_stop {c : CodePoint} (hc : Stop c) (s r : Text) :
    scanNumber (s ++ c :: r) = scanNumber s := by
  have hdrop : ∀ P : Prop, [Decidable P] → (P → s ≠ []) →
      (if P then (s ++ c :: r).drop 1 else s ++ c :: r) =
        (if P then s.drop 1 else s) ++ c :: r := by
    intro P _ hP
    by_cases h : P
    · rw [if_pos h, if_pos h, List.drop_append_of_le_length (List.length_pos_of_ne_nil (hP h))]
    · rw [if_neg h, if_neg h]
  unfold scanNumber
  simp only [head_stop hc r (d := char '-') (by decide)]
  rw [hdrop _ (by rintro h rfl; cases h)]
  generalize (if s.head? = some (char '-') then s.drop 1 else s) = t
  rw [integerDigits_stop hc, List.drop_append_of_le_length (integerDigits_length_le t),
    fractionDigits_stop hc]
  have hpoint := point_le (t.drop (integerDigits t).length)
  have hinteger := integerDigits_length_le t
  rw [List.length_drop] at hpoint
  rw [List.drop_append_of_le_length (by omega), scanExponent_stop hc]

/-- What is no string, list or dict. -/
def Bare (c : CodePoint) : Prop := c ≠ char '"' ∧ c ≠ char '\x7b' ∧ c ≠ char '['

instance : DecidablePred Bare := fun _ => inferInstanceAs (Decidable (_ ∧ _))

theorem prefix_stop {c : CodePoint} {l s r : Text} (hc : c ∉ l) :
    l <+: s ++ c :: r ↔ l <+: s := by
  constructor
  · intro h
    have hs : s ++ [c] <+: s ++ c :: r := ⟨r, by simp⟩
    rcases List.prefix_or_prefix_of_prefix h hs with h | h
    · rcases List.prefix_concat_iff.mp h with rfl | h
      · exact absurd (List.mem_append_right _ List.mem_cons_self) hc
      · exact h
    · exact absurd (h.subset (List.mem_append_right _ List.mem_cons_self)) hc
  · exact fun h => h.trans (List.prefix_append s _)

theorem notMem_literals {c : CodePoint} (hc : Stop c) : ∀ l ∈ literals, c ∉ text l.1 := by
  have hletters : ∀ l ∈ literals.map fun l => text l.1, l.all (fun c => !Stop c) = true :=
    List.all_iff_forall_prop.mp (by decide +kernel)
  intro l hl hmem
  have hno := List.all_eq_true.mp (hletters _ (List.mem_map_of_mem hl)) c hmem
  rw [decide_eq_true hc] at hno
  exact absurd hno (by decide)

/-- **A bare value ends where it is stopped.** -/
theorem scanValue_stop (scan : Option (Text → Scan Json)) {c d : CodePoint} (hc : Stop c)
    (hd : Bare d) (s r : Text) :
    scanValue scan (d :: (s ++ c :: r)) = scanValue scan (d :: s) := by
  have hfind : (literals.find? fun l => text l.1 <+: d :: (s ++ c :: r)) =
      literals.find? fun l => text l.1 <+: d :: s := by
    apply List.find?_congr
    intro l hl
    exact decide_eq_decide.mpr (@prefix_stop c (text l.1) (d :: s) r (notMem_literals hc l hl))
  rw [scanValue.eq_def, scanValue.eq_def]
  dsimp only
  rw [if_neg hd.1, if_neg hd.1, if_neg hd.2.1, if_neg hd.2.1, if_neg hd.2.2,
    if_neg hd.2.2, hfind, ← List.cons_append, scanNumber_stop hc]

/-! ## Lists and dicts -/

/-- A character that ends a number or a literal comes next. -/
def Stopped (s : Text) : Prop := ∃ c r, s = c :: r ∧ Stop c

/-- What `scan` reads before such a character, it reads before anything that begins so. -/
def Local (scan : Text → Scan Json) : Prop :=
  ∀ c s p, scan (c :: s) = .ok p → Stopped (s.drop (p.2 - 1)) → ∀ t, scan (c :: (s ++ t)) = .ok p

section
variable {scan : Text → Scan Json}

theorem stopped_of_scanElements {skip : Nat} {s : Text} {p : List Json × Nat}
    (h : scanElements scan .delimiter skip s = .ok p) : Stopped (s.drop skip) := by
  induction s generalizing skip p with
  | nil => cases h
  | cons c s ih =>
    cases skip with
    | succ skip =>
      obtain ⟨n, hn⟩ := Scan.advance_eq_ok h
      exact ih hn
    | zero =>
      refine ⟨c, s, rfl, ?_⟩
      rw [scanElements.eq_def] at h
      dsimp only at h
      by_contra hc
      simp only [Stop, not_or] at hc
      rw [if_neg hc.1, if_neg hc.2.2.1, if_neg hc.2.1] at h
      cases h

theorem stopped_of_scanMembers {skip : Nat} {s : Text} {p : List (Text × Json) × Nat}
    (h : scanMembers scan .delimiter skip s = .ok p) : Stopped (s.drop skip) := by
  induction s generalizing skip p with
  | nil => cases h
  | cons c s ih =>
    cases skip with
    | succ skip =>
      obtain ⟨n, hn⟩ := Scan.advance_eq_ok h
      exact ih hn
    | zero =>
      refine ⟨c, s, rfl, ?_⟩
      rw [scanMembers.eq_def] at h
      dsimp only at h
      by_contra hc
      simp only [Stop, not_or] at hc
      rw [if_neg hc.1, if_neg hc.2.2.2, if_neg hc.2.1] at h
      cases h

variable (hscan : Local scan) (t : Text)
include hscan

/-- **A list ends with its bracket.** -/
theorem scanElements_append (phase : ElementPhase) (skip : Nat) (s : Text) :
    Scan.Keeps s.length (scanElements scan phase skip s) (scanElements scan phase skip (s ++ t)) := by
  induction s generalizing phase skip with
  | nil =>
    rw [scanElements]
    exact Scan.keeps_error _
  | cons c s ih =>
    cases skip with
    | succ skip => exact (ih phase skip).advance
    | zero =>
      have hend : Scan.Keeps (s.length + 1) (.ok (([] : List Json), 1)) (.ok ([], 1)) := by
        intro p hp
        obtain rfl := Except.ok.inj hp
        exact ⟨Nat.succ_le_succ (Nat.zero_le _), rfl⟩
      rw [List.cons_append, scanElements.eq_def, scanElements.eq_def]
      dsimp only
      by_cases hspace : isJsonSpace c = true
      · rw [if_pos hspace, if_pos hspace]
        exact (ih phase 0).advance
      · rw [if_neg hspace, if_neg hspace]
        cases phase with
        | value first =>
          dsimp only
          by_cases hempty : first = true ∧ c = char ']'
          · rw [if_pos hempty, if_pos hempty]
            exact hend
          · rw [if_neg hempty, if_neg hempty]
            cases hvalue : scan (c :: s) with
            | error e => exact Scan.keeps_error _
            | ok q =>
              intro p hp
              obtain ⟨r, hr, -⟩ := Scan.map_eq_ok hp
              rw [hscan c s q hvalue (stopped_of_scanElements hr) t]
              exact (ih .delimiter (q.2 - 1)).map (q.1 :: ·) 1 p hp
        | delimiter =>
          dsimp only
          by_cases hbracket : c = char ']'
          · rw [if_pos hbracket, if_pos hbracket]
            exact hend
          · rw [if_neg hbracket, if_neg hbracket]
            by_cases hcomma : c = char ','
            · rw [if_pos hcomma, if_pos hcomma]
              exact (ih (.value false) 0).advance
            · rw [if_neg hcomma]
              exact Scan.keeps_error _

/-- **A dict ends with its brace.** -/
theorem scanMembers_append (phase : MemberPhase) (skip : Nat) (s : Text) :
    Scan.Keeps s.length (scanMembers scan phase skip s) (scanMembers scan phase skip (s ++ t)) := by
  induction s generalizing phase skip with
  | nil =>
    rw [scanMembers]
    exact Scan.keeps_error _
  | cons c s ih =>
    cases skip with
    | succ skip => exact (ih phase skip).advance
    | zero =>
      have hend : Scan.Keeps (s.length + 1) (.ok (([] : List (Text × Json)), 1)) (.ok ([], 1)) := by
        intro p hp
        obtain rfl := Except.ok.inj hp
        exact ⟨Nat.succ_le_succ (Nat.zero_le _), rfl⟩
      rw [List.cons_append, scanMembers.eq_def, scanMembers.eq_def]
      dsimp only
      by_cases hspace : isJsonSpace c = true
      · rw [if_pos hspace, if_pos hspace]
        exact (ih phase 0).advance
      · rw [if_neg hspace, if_neg hspace]
        cases phase with
        | key first =>
          dsimp only
          by_cases hquote : c = char '"'
          · rw [if_pos hquote, if_pos hquote]
            cases hkey : scanString 0 s with
            | error e => exact Scan.keeps_error _
            | ok q =>
              rw [(scanString_append t 0 s q hkey).2]
              exact (ih (.colon q.1) q.2).advance
          · rw [if_neg hquote, if_neg hquote]
            by_cases hempty : first = true ∧ c = char '}'
            · rw [if_pos hempty]
              exact hend
            · rw [if_neg hempty]
              exact Scan.keeps_error _
        | colon key =>
          dsimp only
          by_cases hcolon : c = char ':'
          · rw [if_pos hcolon, if_pos hcolon]
            exact (ih (.value key) 0).advance
          · rw [if_neg hcolon]
            exact Scan.keeps_error _
        | value key =>
          dsimp only
          cases hvalue : scan (c :: s) with
          | error e => exact Scan.keeps_error _
          | ok q =>
            intro p hp
            obtain ⟨r, hr, -⟩ := Scan.map_eq_ok hp
            rw [hscan c s q hvalue (stopped_of_scanMembers hr) t]
            exact (ih .delimiter (q.2 - 1)).map ((key, q.1) :: ·) 1 p hp
        | delimiter =>
          dsimp only
          by_cases hbrace : c = char '}'
          · rw [if_pos hbrace, if_pos hbrace]
            exact hend
          · rw [if_neg hbrace, if_neg hbrace]
            by_cases hcomma : c = char ','
            · rw [if_pos hcomma, if_pos hcomma]
              exact (ih (.key false) 0).advance
            · rw [if_neg hcomma]
              exact Scan.keeps_error _

end

/-! ## Values -/

section
variable {scan : Option (Text → Scan Json)}

/-- A value in quotes, brackets or braces. -/
theorem scanValue_append (hscan : ∀ f ∈ scan, Local f) {c : CodePoint} (hc : ¬ Bare c) (s t : Text) :
    Scan.Keeps (s.length + 1) (scanValue scan (c :: s)) (scanValue scan (c :: (s ++ t))) := by
  rw [scanValue.eq_def, scanValue.eq_def]
  dsimp only
  by_cases hquote : c = char '"'
  · rw [if_pos hquote, if_pos hquote]
    exact (scanString_append t 0 s).map Json.str 1
  · rw [if_neg hquote, if_neg hquote]
    by_cases hbrace : c = char '{'
    · rw [if_pos hbrace, if_pos hbrace]
      cases scan with
      | none => exact Scan.keeps_error _
      | some f => exact (scanMembers_append (hscan f rfl) t _ 0 s).map (Json.dict ∘ dictOf) 1
    · rw [if_neg hbrace, if_neg hbrace]
      by_cases hbracket : c = char '['
      · rw [if_pos hbracket, if_pos hbracket]
        cases scan with
        | none => exact Scan.keeps_error _
        | some f => exact (scanElements_append (hscan f rfl) t _ 0 s).map Json.list 1
      · exact absurd ⟨hquote, hbrace, hbracket⟩ hc

theorem local_scanValue (hscan : ∀ f ∈ scan, Local f) : Local (scanValue scan) := by
  intro c s p hp hstopped t
  by_cases hc : Bare c
  · obtain ⟨d, r, hdrop, hd⟩ := hstopped
    have hs : s = s.take (p.2 - 1) ++ d :: r := by rw [← hdrop, List.take_append_drop]
    rw [hs, scanValue_stop scan hd hc] at hp
    rw [hs, List.append_assoc, List.cons_append, scanValue_stop scan hd hc]
    exact hp
  · exact (scanValue_append hscan hc s t p hp).2

end

theorem local_scanOnce (limit : Nat) : Local (scanOnce limit) := by
  induction limit with
  | zero => exact local_scanValue fun f hf => by cases hf
  | succ limit ih =>
    apply local_scanValue
    intro f hf
    obtain rfl := Option.some.inj hf
    exact ih

/-- **A value in quotes, brackets or braces ends itself.** -/
theorem scanOnce_append (limit : Nat) {c : CodePoint} (hc : ¬ Bare c) (s t : Text) :
    Scan.Keeps (s.length + 1) (scanOnce limit (c :: s)) (scanOnce limit (c :: (s ++ t))) := by
  cases limit with
  | zero => exact scanValue_append (fun f hf => by cases hf) hc s t
  | succ limit =>
    refine scanValue_append ?_ hc s t
    intro f hf
    obtain rfl := Option.some.inj hf
    exact local_scanOnce limit

/-- **The text goes on**: if it could be read before, and is a value in quotes, brackets or
braces, only blanks may follow. -/
theorem decodeJson_append {limit : Nat} {s : Text} {value : Json} (h : decodeJson limit s = .ok value)
    (hself : ∀ c ∈ (s.dropWhile isJsonSpace).head?, ¬ Bare c) (t : Text) :
    decodeJson limit (s ++ t) =
      if t.all isJsonSpace then .ok value else .error (.json "Extra data") := by
  unfold decodeJson at h ⊢
  dsimp only at h ⊢
  cases hdrop : s.dropWhile isJsonSpace with
  | nil =>
    obtain ⟨scan, hscan⟩ := scanOnce_eq limit
    rw [hdrop, hscan, scanValue] at h
    cases h
  | cons c u =>
    rw [hdrop] at h hself
    rw [List.dropWhile_append, hdrop, List.isEmpty_cons, if_neg Bool.false_ne_true,
      List.cons_append]
    cases hread : scanOnce limit (c :: u) with
    | error e =>
      rw [hread] at h
      cases h
    | ok p =>
      obtain ⟨hle, hsame⟩ := scanOnce_append limit (hself c rfl) u t p hread
      rw [hread] at h
      rw [hsame]
      dsimp only at h ⊢
      by_cases hblank : ((c :: u).drop p.2).all isJsonSpace = true
      · rw [if_pos hblank] at h
        rw [← List.cons_append, List.drop_append_of_le_length hle, List.all_append, hblank,
          Bool.true_and, Except.ok.inj h]
      · rw [if_neg hblank] at h
        cases h

/-- **A dict that was cut off is not read.** -/
theorem decodeJson_truncated {limit limit' : Nat} {s t u : Text} {value : Json}
    (htext : s ++ t = char '{' :: (u ++ [char '}'])) (ht : t ≠ [])
    (hwhole : decodeJson limit' (s ++ t) = .ok value) : ∃ e, decodeJson limit s = .error e := by
  cases hread : decodeJson limit s with
  | error e => exact ⟨e, rfl⟩
  | ok value' =>
    exfalso
    have hself : ∀ c ∈ (s.dropWhile isJsonSpace).head?, ¬ Bare c := by
      intro c hc
      cases s with
      | nil => cases hc
      | cons d s =>
        obtain ⟨rfl, -⟩ := List.cons.inj htext
        obtain rfl := Option.some.inj hc
        decide
    have hdeep := decodeJson_append (decodeJson_le (Nat.le_max_left limit limit') hread) hself t
    rw [decodeJson_le (Nat.le_max_right limit limit') hwhole] at hdeep
    by_cases hblank : t.all isJsonSpace = true
    · have hlast : char '}' ∈ t.getLast? := by
        rw [← List.getLast?_append_of_ne_nil s ht, htext, ← List.cons_append]
        exact List.getLast?_concat
      exact absurd (List.all_eq_true.mp hblank _ (List.mem_of_getLast? hlast)) (by decide)
    · rw [if_neg hblank] at hdeep
      cases hdeep

end TpmAttest.Python
