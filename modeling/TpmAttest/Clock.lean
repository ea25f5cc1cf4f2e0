import Mathlib
import TpmAttest.PythonText

/-! # UTC times and their texts

The server stores times as `isoformat` texts, and compares them both as texts, in
SQL, and as times, after `fromisoformat`.  A `DateTime` is a valid date and time
of day in UTC; it carries its validity, so the arithmetic below cannot leave the
calendar.

`fromisoformat_isoformat` is the round trip: what is read back from a stored text
is the time that was written.
-/
namespace TpmAttest

/-- Days of a month of the Gregorian calendar. -/
def daysInMonth (year month : Nat) : Nat :=
  if month = 2 then
    if year % 4 = 0 ∧ (year % 100 ≠ 0 ∨ year % 400 = 0) then 29 else 28
  else if month ∈ [4, 6, 9, 11] then 30
  else 31

theorem daysInMonth_pos (year month : Nat) : 0 < daysInMonth year month := by
  unfold daysInMonth
  split_ifs <;> omega

theorem daysInMonth_le (year month : Nat) : daysInMonth year month ≤ 31 := by
  unfold daysInMonth
  split_ifs <;> omega

/-- A `datetime` in UTC. -/
@[ext] structure DateTime where
  year : Nat
  month : Nat
  day : Nat
  hour : Nat
  minute : Nat
  second : Nat
  microsecond : Nat
  year_valid : 1 ≤ year ∧ year ≤ 9999 := by decide
  month_valid : 1 ≤ month ∧ month ≤ 12 := by decide
  day_valid : 1 ≤ day ∧ day ≤ daysInMonth year month := by decide
  time_valid : hour < 24 ∧ minute < 60 ∧ second < 60 ∧ microsecond < 1000000 := by decide
deriving DecidableEq

namespace DateTime

/-- The fields, in the order of comparison. -/
def fields (d : DateTime) : List Nat :=
  [d.year, d.month, d.day, d.hour, d.minute, d.second, d.microsecond]

/-- Times compare field by field. -/
instance : LT DateTime := ⟨fun a b => a.fields < b.fields⟩

instance (a b : DateTime) : Decidable (a < b) := inferInstanceAs (Decidable (a.fields < b.fields))

/-! ## Adding a timedelta -/

/-- The same time of the next day, if the calendar has one. -/
def nextDay (d : DateTime) : Option DateTime :=
  if hd : d.day < daysInMonth d.year d.month then
    some { d with day := d.day + 1, day_valid := ⟨by omega, hd⟩ }
  else if hm : d.month < 12 then
    some { d with
      month := d.month + 1, day := 1, month_valid := ⟨by omega, hm⟩
      day_valid := ⟨Nat.le_refl 1, daysInMonth_pos _ _⟩ }
  else if hy : d.year < 9999 then
    some { d with
      year := d.year + 1, month := 1, day := 1, year_valid := ⟨by omega, hy⟩
      month_valid := ⟨Nat.le_refl 1, by omega⟩
      day_valid := ⟨Nat.le_refl 1, daysInMonth_pos _ _⟩ }
  else none

/-- The same time `n` days later. -/
def addDays : Nat → DateTime → Option DateTime
  | 0, d => some d
  | n + 1, d => d.nextDay.bind (addDays n)

/-- `d + timedelta(seconds=n)`. -/
def addSeconds (d : DateTime) (n : Nat) : Except Exn DateTime :=
  let total := (d.hour * 60 + d.minute) * 60 + d.second + n
  let time : DateTime := { d with
    hour := total / 3600 % 24, minute := total / 60 % 60, second := total % 60
    time_valid := ⟨by omega, by omega, by omega, d.time_valid.2.2.2⟩ }
  match time.addDays (total / 86400) with
  | some d' => .ok d'
  | none => .error (.overflowError "date value out of range")

/-- The only thing that can go wrong is the end of the calendar. -/
theorem addSeconds_error {d : DateTime} {n : Nat} {e : Exn} (h : d.addSeconds n = .error e) :
    ∃ text, e = .overflowError text := by
  unfold addSeconds at h
  dsimp only at h
  split at h
  · cases h
  · exact ⟨_, (Except.error.inj h).symm⟩

/-! ## The difference of two times -/

/-- `d.toordinal()`. -/
def toordinal (d : DateTime) : Nat :=
  let y := d.year - 1
  y * 365 + y / 4 - y / 100 + y / 400
    + ((List.range' 1 (d.month - 1)).map (daysInMonth d.year)).sum + d.day

/-- Microseconds since the start of the calendar. -/
def microseconds (d : DateTime) : Nat :=
  (((d.toordinal * 24 + d.hour) * 60 + d.minute) * 60 + d.second) * 1000000 + d.microsecond

/-- `f"{(a - b).total_seconds():.0f}"` for `b` not after `a`: rounded to the
nearest second, and a half to the even one. -/
def secondsAfter (a b : DateTime) : String :=
  let delta := a.microseconds - b.microseconds
  let s := delta / 1000000
  let r := delta % 1000000
  toString (if r < 500000 ∨ (r = 500000 ∧ s % 2 = 0) then s else s + 1)

/-! ## Texts -/

/-- A number in `k` decimal digits. -/
def digits : Nat → Nat → List Char
  | 0, _ => []
  | k + 1, n => digits k (n / 10) ++ [Char.ofNat (48 + n % 10)]

/-- `d.isoformat()`. -/
def isoformat (d : DateTime) : String :=
  String.ofList (digits 4 d.year ++ '-' :: (digits 2 d.month ++ '-' :: (digits 2 d.day ++
    'T' :: (digits 2 d.hour ++ ':' :: (digits 2 d.minute ++ ':' :: (digits 2 d.second ++
      ((if d.microsecond = 0 then [] else '.' :: digits 6 d.microsecond) ++
        "+00:00".toList)))))))

/-- The number that `k` decimal digits at the front stand for, and the rest. -/
def number : Nat → List Char → Option (Nat × List Char)
  | 0, s => some (0, s)
  | k + 1, s => do
    let (n, s) ← number k s
    match s with
    | c :: s => if '0' ≤ c ∧ c ≤ '9' then some (10 * n + (c.toNat - 48), s) else none
    | [] => none

/-- The given character at the front, and the rest. -/
def expect (c : Char) : List Char → Option (List Char)
  | d :: s => if d = c then some s else none
  | [] => none

/-- The microseconds at the front, if there are any. -/
def fraction : List Char → Option (Nat × List Char)
  | '.' :: s => number 6 s
  | s => some (0, s)

/-- The time with these fields, if they are valid. -/
def ofFields (year month day hour minute second microsecond : Nat) : Option DateTime :=
  if h : (1 ≤ year ∧ year ≤ 9999) ∧ (1 ≤ month ∧ month ≤ 12) ∧
      (1 ≤ day ∧ day ≤ daysInMonth year month) ∧
      (hour < 24 ∧ minute < 60 ∧ second < 60 ∧ microsecond < 1000000) then
    some ⟨year, month, day, hour, minute, second, microsecond, h.1, h.2.1, h.2.2.1, h.2.2.2⟩
  else none

/-- `datetime.fromisoformat`, on the texts that `isoformat` writes. -/
def parse (s : List Char) : Option DateTime := do
  let (year, s) ← number 4 s
  let (month, s) ← number 2 (← expect '-' s)
  let (day, s) ← number 2 (← expect '-' s)
  let (hour, s) ← number 2 (← expect 'T' s)
  let (minute, s) ← number 2 (← expect ':' s)
  let (second, s) ← number 2 (← expect ':' s)
  let (microsecond, s) ← fraction s
  if s = "+00:00".toList then ofFields year month day hour minute second microsecond else none

/-- `datetime.fromisoformat(s)`. -/
def fromisoformat (s : String) : Except Exn DateTime :=
  match parse s.toList with
  | some d => .ok d
  | none => .error (.valueError s!"Invalid isoformat string: '{s}'")

theorem number_digits {k n : Nat} (h : n < 10 ^ k) (s : List Char) :
    number k (digits k n ++ s) = some (n, s) := by
  induction k generalizing n s with
  | zero =>
    obtain rfl : n = 0 := by simpa using h
    rfl
  | succ k ih =>
    have hdiv : n / 10 < 10 ^ k := by
      rw [Nat.pow_succ] at h
      omega
    have hdigit : ∀ d < 10, '0' ≤ Char.ofNat (48 + d) ∧ Char.ofNat (48 + d) ≤ '9' ∧
        (Char.ofNat (48 + d)).toNat - 48 = d := by decide
    -- the last digit, after the number that the others make
    obtain ⟨hlo, hhi, hval⟩ := hdigit (n % 10) (Nat.mod_lt n (by omega))
    rw [digits, List.append_assoc, number, ih hdiv]
    simp only [Option.bind_eq_bind, Option.bind_some, List.singleton_append, hlo, hhi, hval,
      and_self, if_true, Option.some.injEq, Prod.mk.injEq, and_true]
    omega

@[simp] theorem expect_cons (c : Char) (s : List Char) : expect c (c :: s) = some s := if_pos rfl

theorem ofFields_eq (d : DateTime) :
    ofFields d.year d.month d.day d.hour d.minute d.second d.microsecond = some d :=
  dif_pos ⟨d.year_valid, d.month_valid, d.day_valid, d.time_valid⟩

theorem parse_isoformat (d : DateTime) : parse d.isoformat.toList = some d := by
  have hy := d.year_valid
  have hm := d.month_valid
  have hd := d.day_valid
  have hdm := daysInMonth_le d.year d.month
  obtain ⟨h1, h2, h3, h4⟩ := d.time_valid
  have hfrac : fraction ((if d.microsecond = 0 then [] else '.' :: digits 6 d.microsecond) ++
      "+00:00".toList) = some (d.microsecond, "+00:00".toList) := by
    split_ifs with h0
    · rw [h0]
      rfl
    · exact number_digits (by omega) _
  unfold isoformat parse
  rw [String.toList_ofList]
  generalize "+00:00".toList = zone at hfrac ⊢
  rw [number_digits (by omega)]
  simp only [Option.bind_eq_bind, Option.bind_some, expect_cons]
  rw [number_digits (by omega)]
  simp only [Option.bind_some, expect_cons]
  rw [number_digits (by omega)]
  simp only [Option.bind_some, expect_cons]
  rw [number_digits (by omega)]
  simp only [Option.bind_some, expect_cons]
  rw [number_digits (by omega)]
  simp only [Option.bind_some, expect_cons]
  rw [number_digits (by omega)]
  simp only [Option.bind_some, hfrac, if_true, ofFields_eq]

/-- **A stored time is read back as it was.** -/
theorem fromisoformat_isoformat (d : DateTime) : fromisoformat d.isoformat = .ok d := by
  rw [fromisoformat, parse_isoformat]

example : (DateTime.mk 2024 12 31 23 59 0 250).isoformat = "2024-12-31T23:59:00.000250+00:00" := by
  decide

/-! ## The order of the texts -/

/-- Numbers of as many digits are ordered as their texts are. -/
theorem digits_append_lt {k m n : Nat} (hm : m < 10 ^ k) (hn : n < 10 ^ k) (s t : List Char) :
    digits k m ++ s < digits k n ++ t ↔ m < n ∨ (m = n ∧ s < t) := by
  induction k generalizing m n s t with
  | zero =>
    obtain rfl : m = 0 := by simpa using hm
    obtain rfl : n = 0 := by simpa using hn
    simp [digits]
  | succ k ih =>
    have hdiv : m / 10 < 10 ^ k ∧ n / 10 < 10 ^ k := by
      rw [Nat.pow_succ] at hm hn
      omega
    have hdigit : ∀ d < 10, ∀ e < 10,
        (Char.ofNat (48 + d) < Char.ofNat (48 + e) ↔ d < e) ∧
        (Char.ofNat (48 + d) = Char.ofNat (48 + e) ↔ d = e) := by decide
    -- the numbers that the other digits make come first, then the last digits
    obtain ⟨hlt, heq⟩ := hdigit (m % 10) (Nat.mod_lt m (by omega)) (n % 10) (Nat.mod_lt n (by omega))
    rw [digits, digits, List.append_assoc, List.append_assoc, ih hdiv.1 hdiv.2,
      List.singleton_append, List.singleton_append, List.cons_lt_cons_iff, hlt, heq]
    by_cases hst : s < t
    · simp only [hst, and_true]
      omega
    · simp only [hst, and_false, or_false]
      omega

/-- A time of a full second is written without a fraction, and is the first of
its second: a sign comes before a point. -/
theorem fraction_lt_iff {m n : Nat} (hm : m < 1000000) (hn : n < 1000000) :
    (if m = 0 then [] else '.' :: digits 6 m) ++ "+00:00".toList <
      (if n = 0 then [] else '.' :: digits 6 n) ++ "+00:00".toList ↔ m < n := by
  by_cases hm0 : m = 0
  · by_cases hn0 : n = 0
    · simp [hm0, hn0]
    · have hsign : ∀ s : List Char, "+00:00".toList < '.' :: s := by
        intro s
        exact List.cons_lt_cons_iff.mpr (Or.inl (by decide))
      rw [if_pos hm0, if_neg hn0]
      exact iff_of_true (hsign _) (by omega)
  · by_cases hn0 : n = 0
    · have hpoint : ∀ s : List Char, ¬ '.' :: s < "+00:00".toList := by
        intro s hs
        rcases List.cons_lt_cons_iff.mp hs with h | ⟨h, -⟩
        · exact absurd h (by decide)
        · exact absurd h (by decide)
      rw [if_neg hm0, if_pos hn0]
      exact iff_of_false (hpoint _) (by omega)
    · rw [if_neg hm0, if_neg hn0, List.cons_append, List.cons_append, List.cons_lt_cons_self,
        digits_append_lt (by omega) (by omega)]
      simp

theorem toList_isoformat (d : DateTime) : d.isoformat.toList =
    digits 4 d.year ++ '-' :: (digits 2 d.month ++ '-' :: (digits 2 d.day ++
      'T' :: (digits 2 d.hour ++ ':' :: (digits 2 d.minute ++ ':' :: (digits 2 d.second ++
        ((if d.microsecond = 0 then [] else '.' :: digits 6 d.microsecond) ++
          "+00:00".toList)))))) := String.toList_ofList

/-- **Stored times are ordered as texts the way they are as times.** -/
theorem isoformat_lt_iff (a b : DateTime) : a.isoformat < b.isoformat ↔ a < b := by
  have hday : ∀ d : DateTime, d.year < 10 ^ 4 ∧ d.month < 10 ^ 2 ∧ d.day < 10 ^ 2 := by
    intro d
    have hdm := daysInMonth_le d.year d.month
    have hy := d.year_valid
    have hm := d.month_valid
    have hd := d.day_valid
    omega
  obtain ⟨hay, ham, had⟩ := hday a
  obtain ⟨hby, hbm, hbd⟩ := hday b
  obtain ⟨hah, hami, has, hau⟩ := a.time_valid
  obtain ⟨hbh, hbmi, hbs, hbu⟩ := b.time_valid
  change _ ↔ a.fields < b.fields
  rw [String.lt_iff_toList_lt, toList_isoformat, toList_isoformat,
    digits_append_lt hay hby, List.cons_lt_cons_self, digits_append_lt ham hbm, List.cons_lt_cons_self,
    digits_append_lt had hbd, List.cons_lt_cons_self, digits_append_lt (by omega) (by omega),
    List.cons_lt_cons_self, digits_append_lt (by omega) (by omega), List.cons_lt_cons_self,
    digits_append_lt (by omega) (by omega), fraction_lt_iff hau hbu]
  simp [fields, List.cons_lt_cons_iff]

end DateTime
end TpmAttest
