import TpmAttest.ImaLog

/-! # Records of the measurement log

The kernel writes a record as five fields with a space between them, and a newline.
The reader cuts the text at every line boundary that Python knows and strips each
line, so it reads a record back exactly if its file name has no line boundary and
ends in no blank (`readImaLog_records_iff`).  What the reader returns always has such
names, so a record of another name is never among its entries.
-/
namespace TpmAttest

open Python

/-- Four fields that are words, and a file name of one line. -/
structure Record where
  entry : Entry
  fields : ∀ f ∈ [entry.pcr, entry.templateHash, entry.templateName, entry.fileHash],
    f.toList ≠ [] ∧ ∀ c ∈ f.toList, isSpace c = false
  filename : entry.filename.toList ≠ [] ∧ '\n' ∉ entry.filename.toList

/-- A record as it is written. -/
def Entry.line (e : Entry) : List Char :=
  e.pcr.toList ++ ' ' :: (e.templateHash.toList ++ ' ' :: (e.templateName.toList ++ ' ' ::
    (e.fileHash.toList ++ ' ' :: e.filename.toList)))

/-- The log of some records. -/
def logText (records : List Record) : String :=
  String.ofList (records.flatMap fun r => r.entry.line ++ ['\n'])

/-- `text=True` reads with universal newlines. -/
def universalNewlines : List Char → List Char
  | [] => []
  | '\r' :: '\n' :: s => '\n' :: universalNewlines s
  | c :: s => (if c = '\r' then '\n' else c) :: universalNewlines s

/-- A successful `sudo cat` of a text, captured as text. -/
def CompletedProcess.sudoCat (log : String) : CompletedProcess :=
  .ofLog (String.ofList (universalNewlines log.toList))

/-- The file name is read as it is written. -/
def KeepsName (filename : String) : Prop :=
  (∀ c ∈ filename.toList, isLineBoundary c = false) ∧ ∀ c ∈ filename.toList.getLast?, isSpace c = false

instance (filename : String) : Decidable (KeepsName filename) :=
  inferInstanceAs (Decidable (_ ∧ _))

/-! ## Lines -/

/-- The lines are the same without the translation of newlines. -/
theorem splitlinesFrom_universalNewlines (line s : List Char) :
    splitlinesFrom line (universalNewlines s) = splitlinesFrom line s := by
  have hnewline : ∀ line t, splitlinesFrom line ('\n' :: t) = line :: splitlinesFrom [] t :=
    fun line t => splitlinesFrom_boundary rfl fun h => absurd h (by decide)
  fun_induction universalNewlines s generalizing line with
  | case1 => rfl
  | case2 s ih =>
    rw [hnewline, splitlinesFrom, ih]
  | case3 c s hc ih =>
    by_cases hr : c = '\r'
    · subst hr
      rw [if_pos rfl, hnewline, splitlinesFrom_boundary rfl fun _ s' hs => hc s' rfl hs, ih]
    · have hno : ∀ t s', c = '\r' → t = '\n' :: s' → False := fun _ _ h _ => hr h
      rw [if_neg hr, splitlinesFrom_cons (hno _), splitlinesFrom_cons (hno _), ih, ih]

theorem rawLines_sudoCat (log : String) :
    rawLines (String.ofList (universalNewlines log.toList)) = rawLines log := by
  rw [rawLines, rawLines, String.toList_ofList, splitlines, splitlines, splitlinesFrom_universalNewlines]

/-- No line has a line boundary. -/
theorem not_boundary_of_mem {line s : List Char} (hline : ∀ c ∈ line, isLineBoundary c = false) :
    ∀ l ∈ splitlinesFrom line s, ∀ c ∈ l, isLineBoundary c = false := by
  fun_induction splitlinesFrom line s with
  | case1 => simp
  | case2 line hne =>
    intro l hl
    rw [List.mem_singleton.mp hl]
    exact hline
  | case3 line s ih =>
    rw [List.forall_mem_cons]
    exact ⟨hline, ih (by simp)⟩
  | case4 line c s hc hb ih =>
    rw [List.forall_mem_cons]
    exact ⟨hline, ih (by simp)⟩
  | case5 line c s hc hb ih =>
    refine ih fun d hd => ?_
    rcases List.mem_append.mp hd with hd | hd
    · exact hline d hd
    · rw [List.mem_singleton.mp hd]
      exact Bool.eq_false_iff.mpr hb

/-! ## Fields -/

theorem split_append {sep : Char} {s : List Char} (h : ∀ c ∈ s, c ≠ sep) (n : Nat) (t : List Char) :
    split sep (n + 1) (s ++ sep :: t) = s :: split sep n t := by
  have hpass : ∀ c ∈ s, (c != sep) = true := fun c hc => bne_iff_ne.mpr (h c hc)
  have hdrop : (s ++ sep :: t).dropWhile (· != sep) = sep :: t := by
    rw [List.dropWhile_append_of_pos hpass, List.dropWhile_cons_of_neg (by simp)]
  rw [split, hdrop, List.takeWhile_append_of_pos hpass, List.takeWhile_cons_of_neg (by simp),
    List.append_nil]

/-- The last field is the end of the text. -/
theorem suffix_of_split (sep : Char) (n : Nat) (s : List Char) :
    ∃ f, (split sep n s).getLast? = some f ∧ f <:+ s := by
  induction n generalizing s with
  | zero => exact ⟨s, rfl, List.suffix_refl s⟩
  | succ n ih =>
    rw [split]
    cases hdrop : s.dropWhile (· != sep) with
    | nil => exact ⟨s, rfl, List.suffix_refl s⟩
    | cons c rest =>
      obtain ⟨f, hf, hsuffix⟩ := ih rest
      refine ⟨f, by rw [List.getLast?_cons, hf]; rfl, ?_⟩
      have hrest : rest <:+ s := by
        refine (List.suffix_cons c rest).trans ?_
        rw [← hdrop]
        exact List.dropWhile_suffix _
      exact hsuffix.trans hrest

/-! ## What is read -/

theorem getLast_strip {line : List Char} {c : Char} (h : (strip line).getLast? = some c) :
    isSpace c = false := by
  have hne : strip line ≠ [] := by
    intro hnil
    rw [hnil] at h
    cases h
  rw [List.getLast?_eq_getLast_of_ne_nil hne] at h
  rw [← Option.some.inj h]
  exact Bool.eq_false_iff.mpr (List.rdropWhile_last_not _ _ hne)

/-- The file name of an entry is the end of its line. -/
theorem keepsName_of_parseLine {line : List Char} {e : Entry}
    (hline : ∀ c ∈ line, isLineBoundary c = false) (h : parseLine line = some e) :
    KeepsName e.filename := by
  obtain ⟨f, hlast, hsuffix⟩ := suffix_of_split ' ' 4 (strip line)
  unfold parseLine at h
  split at h
  · rename_i pcr templateHash templateName fileHash filename hsplit
    rw [hsplit] at hlast
    obtain rfl : filename = f := Option.some.inj hlast
    obtain rfl := Option.some.inj h
    rw [KeepsName, String.toList_ofList]
    have hstrip : strip line <:+: line :=
      (List.rdropWhile_prefix _ _).isInfix.trans (List.dropWhile_suffix _).isInfix
    refine ⟨fun c hc => hline c (hstrip.subset (hsuffix.subset hc)), fun c hc => ?_⟩
    obtain ⟨before, hbefore⟩ := hsuffix
    have hend : (strip line).getLast? = some c := by
      rw [← hbefore, List.getLast?_append, hc]
      rfl
    exact getLast_strip hend
  · cases h

theorem keepsName_of_mem {log : String} {e : Entry} (h : e ∈ logEntries log) :
    KeepsName e.filename := by
  obtain ⟨line, hline, he⟩ := List.mem_filterMap.mp h
  exact keepsName_of_parseLine
    (not_boundary_of_mem (by simp) line (List.mem_of_mem_filter hline)) he

/-- A line whose ends are no blanks. -/
theorem strip_eq_self {a z : Char} {s : List Char} (ha : s.head? = some a) (hz : s.getLast? = some z)
    (hahead : isSpace a = false) (hzlast : isSpace z = false) : strip s = s := by
  cases s with
  | nil => cases ha
  | cons b s =>
    obtain rfl : b = a := Option.some.inj ha
    rw [strip, List.dropWhile_cons_of_neg (by rw [hahead]; decide), List.rdropWhile_eq_self_iff]
    intro hne
    rw [List.getLast?_eq_getLast_of_ne_nil hne] at hz
    rw [Option.some.inj hz, hzlast]
    decide

namespace Record
variable (r : Record)

theorem line_head : ∃ a, r.entry.line.head? = some a ∧ isSpace a = false := by
  obtain ⟨hne, hword⟩ := r.fields r.entry.pcr List.mem_cons_self
  obtain ⟨a, s, hs⟩ := List.exists_cons_of_ne_nil hne
  refine ⟨a, by rw [Entry.line, hs]; rfl, hword a ?_⟩
  rw [hs]
  exact List.mem_cons_self

theorem line_getLast : r.entry.line.getLast? = r.entry.filename.toList.getLast? := by
  have hlast := List.getLast?_eq_getLast_of_ne_nil r.filename.1
  simp [Entry.line, List.getLast?_append, List.getLast?_cons, hlast]

variable {r}

theorem strip_line (h : KeepsName r.entry.filename) : strip r.entry.line = r.entry.line := by
  obtain ⟨a, ha, haspace⟩ := r.line_head
  have hlast := List.getLast?_eq_getLast_of_ne_nil r.filename.1
  exact strip_eq_self ha (r.line_getLast.trans hlast) haspace (h.2 _ hlast)

/-- **A record whose name is kept is parsed.** -/
theorem parseLine_line (h : KeepsName r.entry.filename) : parseLine r.entry.line = some r.entry := by
  have hword : ∀ f ∈ [r.entry.pcr, r.entry.templateHash, r.entry.templateName, r.entry.fileHash],
      ∀ c ∈ f.toList, c ≠ ' ' := by
    rintro f hf c hc rfl
    exact absurd ((r.fields f hf).2 ' ' hc) (by decide)
  simp only [List.forall_mem_cons] at hword
  obtain ⟨hpcr, hhash, hname, hfile, -⟩ := hword
  have hsplit : split ' ' 4 r.entry.line = [r.entry.pcr.toList, r.entry.templateHash.toList,
      r.entry.templateName.toList, r.entry.fileHash.toList, r.entry.filename.toList] := by
    rw [Entry.line, split_append hpcr, split_append hhash, split_append hname, split_append hfile]
    rfl
  rw [parseLine, strip_line h, hsplit]
  simp only [String.ofList_toList]

theorem line_not_boundary (h : KeepsName r.entry.filename) :
    ∀ c ∈ r.entry.line, isLineBoundary c = false := by
  have hblank : ∀ c, isSpace c = false → isLineBoundary c = false := by
    intro c hc
    simp only [isSpace, isLineBoundary, decide_eq_false_iff_not, List.mem_cons, List.not_mem_nil,
      or_false, not_or] at hc ⊢
    omega
  have hword : ∀ f ∈ [r.entry.pcr, r.entry.templateHash, r.entry.templateName, r.entry.fileHash],
      ∀ c ∈ f.toList, isLineBoundary c = false := fun f hf c hc => hblank c ((r.fields f hf).2 c hc)
  simp only [List.forall_mem_cons] at hword
  obtain ⟨hpcr, hhash, hname, hfile, -⟩ := hword
  have hspace : isLineBoundary ' ' = false := rfl
  simp only [Entry.line, List.forall_mem_append, List.forall_mem_cons]
  exact ⟨hpcr, hspace, hhash, hspace, hname, hspace, hfile, hspace, h.1⟩

/-- The line is not blank. -/
theorem strip_line_ne_nil (h : KeepsName r.entry.filename) : strip r.entry.line ≠ [] := by
  obtain ⟨a, ha, -⟩ := r.line_head
  rw [strip_line h]
  intro hnil
  rw [hnil] at ha
  cases ha

end Record

theorem rawLines_logText {records : List Record}
    (h : ∀ r ∈ records, KeepsName r.entry.filename) :
    rawLines (logText records) = records.map (·.entry.line) := by
  rw [rawLines, logText, String.toList_ofList]
  induction records with
  | nil => rfl
  | cons r records ih =>
    obtain ⟨hr, h⟩ := List.forall_mem_cons.mp h
    have hline : splitlines (r.entry.line ++ ['\n']) = [r.entry.line] :=
      splitlinesFrom_line (r.line_not_boundary hr)
    have hblank : (!(strip r.entry.line).isEmpty) = true := by
      simp [Record.strip_line_ne_nil hr]
    rw [List.flatMap_cons, splitlines_append (Or.inr ⟨_, rfl⟩), List.filter_append, ih h, hline,
      List.filter_cons_of_pos (by exact hblank)]
    rfl

/-- **When the reader returns the records of the log**: exactly if no file name has a
line boundary or ends in a blank. -/
theorem readImaLog_records_iff (records : List Record) :
    readImaLog (.sudoCat (logText records)) 0 = .ok (records.map Record.entry) ↔
      ∀ r ∈ records, KeepsName r.entry.filename := by
  have hread : readImaLog (.sudoCat (logText records)) 0 = .ok (logEntries (logText records)) := by
    rw [CompletedProcess.sudoCat, readImaLog_ofLog, rawLines_sudoCat]
    rfl
  rw [hread]
  constructor
  · intro h r hr
    have hmem : r.entry ∈ logEntries (logText records) := by
      rw [Except.ok.inj h]
      exact List.mem_map_of_mem hr
    exact keepsName_of_mem hmem
  · intro h
    rw [logEntries, rawLines_logText h, List.filterMap_map]
    congr 1
    exact List.filterMap_eq_map_iff_forall_eq_some.mpr fun r hr => r.parseLine_line (h r hr)

/-- A file whose name is a vertical tab. -/
def tabRecord : Record where
  entry := ⟨"10", "1d8d", "ima-ng", "sha256:0f2a", "\x0b"⟩
  fields := by
    have hwords : ∀ f ∈ ["10", "1d8d", "ima-ng", "sha256:0f2a"],
        f.toList ≠ [] ∧ (f.toList.all fun c => !isSpace c) = true := by decide
    intro f hf
    obtain ⟨hne, hall⟩ := hwords f hf
    exact ⟨hne, fun c hc => by simpa using List.all_eq_true.mp hall c hc⟩
  filename := by decide

/-- It is not among the entries, so it has no leaf. -/
theorem tabRecord_dropped :
    readImaLog (.sudoCat (logText [tabRecord])) 0 ≠ .ok ([tabRecord].map Record.entry) ∧
      readImaLog (.sudoCat (logText [tabRecord])) 0 = .ok [] := by
  decide +kernel

end TpmAttest
