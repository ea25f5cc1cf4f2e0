import Mathlib.Algebra.Group.Nat.Defs
import Mathlib.Data.List.Nodup
import TpmAttest.ImaLog

/-! # Reading the PCRs

`read_pcrs` takes the lines of `tpm2_pcrread` that its regular expression matches, and
keeps those of the six selected indices.  Whatever the output is, a map that it returns
has exactly these keys (`keys_of_readPcrs`).
-/
namespace TpmAttest

open Python

/-- `_PCR_INDICES`. -/
def pcrIndices : List Nat := [0, 1, 4, 7, 9, 10]

/-- A dict from indices to digests, in the order of insertion. -/
structure PcrMap where
  items : List (Nat × String)
  nodup : (items.map Prod.fst).Nodup

namespace PcrMap

def empty : PcrMap := ⟨[], List.nodup_nil⟩

/-- `pcrs.get(index)`. -/
def get (pcrs : PcrMap) (index : Nat) : Option String := pcrs.items.lookup index

/-- `pcrs[index] = digest`: a key keeps its place. -/
def insert (pcrs : PcrMap) (index : Nat) (digest : String) : PcrMap where
  items :=
    if index ∈ pcrs.items.map Prod.fst then
      pcrs.items.map fun p => if p.1 = index then (index, digest) else p
    else pcrs.items ++ [(index, digest)]
  nodup := by
    have hkeys : (pcrs.items.map fun p => if p.1 = index then (index, digest) else p).map Prod.fst =
        pcrs.items.map Prod.fst := by
      rw [List.map_map]
      refine List.map_congr_left fun p _ => ?_
      by_cases hp : p.1 = index
      · simp [hp]
      · simp [hp]
    split_ifs with hmem
    · rw [hkeys]
      exact pcrs.nodup
    · rw [List.map_append, List.nodup_append]
      refine ⟨pcrs.nodup, List.nodup_singleton _, ?_⟩
      rintro i hi j hj rfl
      rw [List.mem_singleton.mp hj] at hi
      exact hmem hi

end PcrMap

/-! ## `read_pcrs` -/

/-- `\d`. -/
def isDecimal (c : Char) : Bool := (decimalValue c).isSome

/-- `[0-9A-Fa-f]`. -/
def isHexDigit (c : Char) : Bool := (hexValue c).isSome

/-- `_PCR_LINE_RE`: the groups of a line that matches. -/
def matchPcrLine (line : List Char) : Option (List Char × List Char) :=
  let s := line.dropWhile isSpace
  let index := s.takeWhile isDecimal
  if line.head?.any isSpace && !index.isEmpty then
    match (s.dropWhile isDecimal).dropWhile isSpace with
    | ':' :: s =>
      match s.dropWhile isSpace with
      | '0' :: 'x' :: s =>
        let digits := s.takeWhile isHexDigit
        if !digits.isEmpty && (s.dropWhile isHexDigit).all isSpace then
          some (index, '0' :: 'x' :: digits)
        else none
      | _ => none
    | _ => none
  else none

/-- `int(s)` of decimal digits. -/
def intDecimal (s : List Char) : Except Exn Nat :=
  if 4300 < s.length then
    .error (.valueError s!"Exceeds the limit (4300 digits) for integer string conversion: value has {s.length} digits; use sys.set_int_max_str_digits() to increase the limit")
  else .ok (s.foldl (fun n c => 10 * n + (decimalValue c).getD 0) 0)

/-- `s.replace("0X", "0x")`. -/
def replacePrefix : List Char → List Char
  | '0' :: 'X' :: s => '0' :: 'x' :: replacePrefix s
  | c :: s => c :: replacePrefix s
  | [] => []

/-- One turn of the loop over the lines. -/
def readPcrLine (pcrs : PcrMap) (line : List Char) : Except Exn PcrMap :=
  match matchPcrLine line with
  | none => .ok pcrs
  | some (indexText, digestText) => do
    let index ← intDecimal indexText
    let digest := String.ofList (replacePrefix (digestText.map Char.toUpper))
    return if index ∈ pcrIndices then pcrs.insert index digest else pcrs

/-- `read_pcrs`. -/
def readPcrs (result : CompletedProcess) : Except Exn PcrMap :=
  if result.returncode ≠ 0 then
    .error (.runtimeError s!"tpm2_pcrread failed (exit {result.returncode}):\n{String.ofList (strip result.stderr.toList)}")
  else do
    let pcrs ← (splitlines result.stdout.toList).foldlM readPcrLine .empty
    let missing := pcrIndices.filter fun index => (pcrs.get index).isNone
    if missing.isEmpty then return pcrs
    else .error (.runtimeError s!"tpm2_pcrread output missing expected PCR indices: {missing}\nRaw output:\n{result.stdout}")

example : matchPcrLine "    7 : 0xAb".toList = some (['7'], "0xAb".toList) := by decide

/-! ## The keys -/

theorem lookup_cons_eq (p : Nat × String) (l : List (Nat × String)) (i : Nat) :
    (p :: l).lookup i = if i = p.1 then some p.2 else l.lookup i := by
  rw [List.lookup_cons]
  by_cases h : i = p.1
  · simp [h]
  · rw [beq_false_of_ne h, if_neg h]

theorem isSome_lookup {l : List (Nat × String)} {index : Nat} :
    (l.lookup index).isSome = true ↔ index ∈ l.map Prod.fst := by
  induction l with
  | nil => simp
  | cons p l ih =>
    rw [lookup_cons_eq, List.map_cons, List.mem_cons]
    by_cases h : index = p.1
    · simp [h]
    · rw [if_neg h, ih]
      exact ⟨Or.inr, fun hmem => hmem.resolve_left h⟩

theorem PcrMap.isSome_get (pcrs : PcrMap) (index : Nat) :
    (pcrs.get index).isSome = true ↔ index ∈ pcrs.items.map Prod.fst := isSome_lookup

/-- A new value for a key that is there. -/
theorem lookup_replace (l : List (Nat × String)) (index : Nat) (digest : String) (i : Nat) :
    (l.map fun p => if p.1 = index then (index, digest) else p).lookup i =
      if i = index then (l.lookup i).map fun _ => digest else l.lookup i := by
  induction l with
  | nil => simp
  | cons p l ih =>
    rw [List.map_cons, lookup_cons_eq, lookup_cons_eq, ih]
    by_cases hp : p.1 = index
    · rw [if_pos hp, hp]
      by_cases hi : i = index
      · simp [hi]
      · simp [hi]
    · rw [if_neg hp]
      by_cases hi : i = index
      · have hne : i ≠ p.1 := fun heq => hp (heq.symm.trans hi)
        rw [if_neg hne, if_neg hne]
      · simp [hi]

theorem PcrMap.get_insert (pcrs : PcrMap) (index : Nat) (digest : String) (i : Nat) :
    (pcrs.insert index digest).get i = if i = index then some digest else pcrs.get i := by
  unfold get insert
  dsimp only
  by_cases hmem : index ∈ pcrs.items.map Prod.fst
  · rw [if_pos hmem, lookup_replace]
    by_cases hi : i = index
    · obtain ⟨old, hold⟩ := Option.isSome_iff_exists.mp (isSome_lookup.mpr hmem)
      rw [if_pos hi, if_pos hi, hi, hold]
      rfl
    · rw [if_neg hi, if_neg hi]
  · rw [if_neg hmem, List.lookup_append]
    by_cases hi : i = index
    · have hnone : pcrs.items.lookup index = none := by
        rw [← Option.not_isSome_iff_eq_none, isSome_lookup]
        exact hmem
      rw [if_pos hi, hi, hnone]
      simp
    · rw [if_neg hi, lookup_cons_eq, if_neg hi]
      exact Option.or_none

/-- All keys are selected indices. -/
def PcrMap.Selected (pcrs : PcrMap) : Prop := ∀ i, (pcrs.get i).isSome = true → i ∈ pcrIndices

theorem selected_readPcrLine {pcrs pcrs' : PcrMap} {line : List Char} (h : pcrs.Selected)
    (hread : readPcrLine pcrs line = .ok pcrs') : pcrs'.Selected := by
  unfold readPcrLine at hread
  cases hmatch : matchPcrLine line with
  | none =>
    rw [hmatch] at hread
    obtain rfl := Except.ok.inj hread
    exact h
  | some groups =>
    obtain ⟨indexText, digestText⟩ := groups
    rw [hmatch] at hread
    dsimp only at hread
    cases hint : intDecimal indexText with
    | error e =>
      rw [hint] at hread
      cases hread
    | ok index =>
      rw [hint] at hread
      obtain rfl := Except.ok.inj hread
      split_ifs with hindex
      · intro i hi
        rw [PcrMap.get_insert] at hi
        by_cases heq : i = index
        · rwa [heq]
        · rw [if_neg heq] at hi
          exact h i hi
      · exact h

theorem selected_foldlM {lines : List (List Char)} {pcrs pcrs' : PcrMap} (h : pcrs.Selected)
    (hread : lines.foldlM readPcrLine pcrs = .ok pcrs') : pcrs'.Selected := by
  induction lines generalizing pcrs with
  | nil =>
    obtain rfl := Except.ok.inj hread
    exact h
  | cons line lines ih =>
    rw [List.foldlM_cons] at hread
    cases hline : readPcrLine pcrs line with
    | error e =>
      rw [hline] at hread
      cases hread
    | ok next =>
      rw [hline] at hread
      exact ih (selected_readPcrLine h hline) hread

/-- **What `read_pcrs` returns has exactly the selected keys**, whatever the output. -/
theorem keys_of_readPcrs {result : CompletedProcess} {pcrs : PcrMap}
    (h : readPcrs result = .ok pcrs) : (pcrs.items.map Prod.fst).Perm pcrIndices := by
  have hkeys : ∀ i, (pcrs.get i).isSome = true ↔ i ∈ pcrIndices := by
    unfold readPcrs at h
    split_ifs at h
    cases hfold : (splitlines result.stdout.toList).foldlM readPcrLine .empty with
    | error e =>
      rw [hfold] at h
      cases h
    | ok pcrs₀ =>
      rw [hfold] at h
      change (if _ then _ else _) = _ at h
      split_ifs at h with hmissing
      obtain rfl := Except.ok.inj h
      have hempty : PcrMap.empty.Selected := fun i hi => by cases hi
      intro i
      refine ⟨selected_foldlM hempty hfold i, fun hi => ?_⟩
      -- no selected index is missing
      have hnone := List.filter_eq_nil_iff.mp (List.isEmpty_iff.mp hmissing) i hi
      rw [Option.isNone_iff_eq_none, ← ne_eq, ← Option.isSome_iff_ne_none] at hnone
      exact hnone
  rw [List.perm_ext_iff_of_nodup pcrs.nodup (by decide)]
  intro i
  rw [← PcrMap.isSome_get, hkeys]

end TpmAttest
