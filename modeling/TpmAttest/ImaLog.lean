import TpmAttest.PythonText

/-! # Reading the IMA log

The reader runs `sudo cat` on the kernel's measurement log, cuts the output into
lines, and parses those of the five-field form.  A call of a reader is given the
finished process it got: the file is outside the model, and two calls may see
different logs.

`RawLogExtends` is what the kernel promises: the log is append-only, and grows by
whole lines.  Then the raw lines of the longer log are those of the shorter one
and some more (`rawLines_append`).
-/
namespace TpmAttest

open Python

/-- A finished subprocess with its captured output. -/
structure CompletedProcess where
  returncode : Int
  stdout : String
  stderr : String

/-- A parsed line of the log. -/
structure Entry where
  pcr : String
  templateHash : String
  templateName : String
  fileHash : String
  filename : String
  deriving DecidableEq, Repr

/-- The entry the kernel writes first. -/
def bootAggregate : Entry := ⟨"10", "1d8d", "ima-ng", "sha256:0f2a", "boot_aggregate"⟩

/-- The non-blank lines of a text. -/
def rawLines (stdout : String) : List (List Char) :=
  (splitlines stdout.toList).filter fun ln => !(strip ln).isEmpty

/-- `_read_raw_lines`. -/
def readRawLines (result : CompletedProcess) : Except Exn (List (List Char)) :=
  if result.returncode ≠ 0 then
    .error (.runtimeError s!"Failed to read IMA log (exit {result.returncode}):\n{String.ofList (strip result.stderr.toList)}")
  else .ok (rawLines result.stdout)

/-- `_parse_line`: the five fields of a line, the file name whole. -/
def parseLine (line : List Char) : Option Entry :=
  match split ' ' 4 (strip line) with
  | [pcr, templateHash, templateName, fileHash, filename] =>
    some ⟨String.ofList pcr, String.ofList templateHash, String.ofList templateName,
      String.ofList fileHash, String.ofList filename⟩
  | _ => none

/-- `read_ima_log`. -/
def readImaLog (result : CompletedProcess) (startLine : Nat) : Except Exn (List Entry) := do
  let allLines ← readRawLines result
  return (allLines.drop startLine).filterMap parseLine

/-- `read_ima_log_line_count`. -/
def readImaLogLineCount (result : CompletedProcess) : Except Exn Nat := do
  let allLines ← readRawLines result
  return allLines.countP fun ln => (parseLine ln).isSome

/-- The aggregates of a log. -/
structure ImaSummary where
  totalEntries : Int
  uniqueFiles : Int
  hasBootAggregate : Bool
  modulesMeasured : Int
  deriving DecidableEq, Repr

/-- `f.endswith(s)`. -/
def endsWith (f s : String) : Bool := s.toList.isSuffixOf f.toList

/-- `read_ima_summary`. -/
def readImaSummary (result : CompletedProcess) : Except Exn ImaSummary := do
  let entries ← readImaLog result 0
  let filenames := entries.map (·.filename)
  return {
    totalEntries := entries.length
    uniqueFiles := filenames.eraseDups.length
    hasBootAggregate := filenames.any (· == "boot_aggregate")
    modulesMeasured := filenames.countP fun f => endsWith f ".ko" || endsWith f ".ko.zst" }

example : parseLine "10 3bee ima-ng sha256:86a4 /usr/bin/a b".toList =
    some ⟨"10", "3bee", "ima-ng", "sha256:86a4", "/usr/bin/a b"⟩ := by decide

/-! ## What a reader sees of a log -/

/-- A successful `sudo cat` of a log. -/
def CompletedProcess.ofLog (log : String) : CompletedProcess := ⟨0, log, ""⟩

/-- The parsed entries of a log. -/
def logEntries (log : String) : List Entry := (rawLines log).filterMap parseLine

@[simp] theorem readRawLines_ofLog (log : String) :
    readRawLines (.ofLog log) = .ok (rawLines log) := rfl

@[simp] theorem readImaLog_ofLog (log : String) (startLine : Nat) :
    readImaLog (.ofLog log) startLine =
      .ok (((rawLines log).drop startLine).filterMap parseLine) := rfl

/-- The count of a log's parseable lines is the number of its entries. -/
theorem readImaLogLineCount_ofLog (log : String) :
    readImaLogLineCount (.ofLog log) = .ok (logEntries log).length := by
  rw [logEntries, List.length_filterMap_eq_countP]
  rfl

/-- Every line of the log is of the five-field form. -/
def AllParse (log : String) : Prop := ∀ ln ∈ rawLines log, (parseLine ln).isSome

/-- `log'` is `log` with further lines at its end, each closed by a newline. -/
def RawLogExtends (log log' : String) : Prop :=
  (log.toList = [] ∨ ∃ s, log.toList = s ++ ['\n']) ∧ ∃ t, log' = log ++ t

/-- **Appending keeps the raw lines there are.** -/
theorem rawLines_append {log log' : String} (h : RawLogExtends log log') :
    ∃ t, rawLines log' = rawLines log ++ t := by
  obtain ⟨hend, t, rfl⟩ := h
  refine ⟨rawLines t, ?_⟩
  simp only [rawLines, String.toList_append, splitlines_append hend, List.filter_append]

end TpmAttest
