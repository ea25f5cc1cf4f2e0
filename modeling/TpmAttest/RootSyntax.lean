import TpmAttest.HexLiterals
import TpmAttest.ImaMerkle
import TpmAttest.ReachableStates

/-! # Which Merkle roots pass the structural check

The check asks for 64 characters that `int(…, 16)` reads.  Blanks, a sign, a prefix,
underscores and the digits of other scripts all count towards the length.  A root that
has none of these passes exactly if it is 64 digits, and then the row that an enrollment
inserts has them in lower case.
-/
namespace TpmAttest

open Transactional Program Python

/-! ## Roots -/

/-- 64 digits. -/
def PlainRoot (root : String) : Prop := root.length = 64 ∧ ∀ c ∈ root.toList, IsHex c

/-- 64 digits, the letters in lower case. -/
def LowerRoot (root : String) : Prop := root.length = 64 ∧ ∀ c ∈ root.toList, IsLowerHex c

/-- 64 characters that are read as an integer with a blank, a sign, a prefix, an
underscore or a digit of another script. -/
def LooseRoot (root : String) : Prop :=
  root.length = 64 ∧ ∃ l : HexLiteral, root.toList.map toAscii = l.text ∧
    (l.Decorated ∨ ∃ c ∈ root.toList, 127 ≤ c.toNat)

theorem PlainRoot.map_toAscii {root : String} (h : PlainRoot root) :
    root.toList.map toAscii = root.toList :=
  List.map_congr_left (fun c hc => toAscii_eq (h.2 c hc).toNat_lt) |>.trans (List.map_id _)

theorem PlainRoot.rootOk {root : String} (h : PlainRoot root) : RootOk root := by
  have hne : root.toList ≠ [] := by
    intro hnil
    have hlength := h.1
    rw [← String.length_toList, hnil] at hlength
    cases hlength
  refine ⟨h.1, (intHex_isSome_iff root).mpr ⟨.ofHex root.toList hne h.2, ?_⟩⟩
  rw [h.map_toAscii]
  simp [HexLiteral.text, HexLiteral.ofHex]

/-- **A root that `int` reads** is 64 digits, unless it is loose. -/
theorem plainRoot_iff {root : String} :
    (RootOk root ↔ PlainRoot root) ↔ ¬ LooseRoot root := by
  constructor
  · rintro h ⟨hlength, l, htext, hdecorated | ⟨c, hc, hother⟩⟩
    · have hplain := h.mp ⟨hlength, (intHex_isSome_iff root).mpr ⟨l, htext⟩⟩
      rw [hplain.map_toAscii] at htext
      exact HexLiteral.not_decorated (htext ▸ hplain.2) hdecorated
    · have hplain := h.mp ⟨hlength, (intHex_isSome_iff root).mpr ⟨l, htext⟩⟩
      exact absurd (hplain.2 c hc).toNat_lt (Nat.not_lt.mpr hother)
  · intro hloose
    refine ⟨fun hok => ⟨hok.1, ?_⟩, PlainRoot.rootOk⟩
    obtain ⟨l, htext⟩ := (intHex_isSome_iff root).mp hok.2
    have hascii : ∀ c ∈ root.toList, c.toNat < 127 := by
      intro c hc
      by_contra hother
      exact hloose ⟨hok.1, l, htext, Or.inr ⟨c, hc, Nat.not_lt.mp hother⟩⟩
    have hsame : root.toList.map toAscii = root.toList :=
      (List.map_congr_left fun c hc => toAscii_eq (hascii c hc)).trans (List.map_id _)
    rw [hsame] at htext
    rw [htext]
    exact HexLiteral.isHex_of_not_decorated fun hdecorated =>
      hloose ⟨hok.1, l, hsame.trans htext, Or.inl hdecorated⟩

/-- The lower case of a root of digits. -/
theorem PlainRoot.lower {root : String} (h : PlainRoot root) (platform : Platform) :
    LowerRoot (platform.lower root) := by
  obtain ⟨n, hn⟩ := Option.isSome_iff_exists.mp h.rootOk.2
  have hplain := isPlain_of_intHex hn
  refine ⟨?_, ?_⟩
  · rw [Platform.lower, length_lower _ hplain]
    exact h.1
  · intro c hc
    rw [Platform.lower, lower_plain _ hplain, String.toList_ofList] at hc
    obtain ⟨d, hd, rfl⟩ := List.mem_map.mp hc
    exact (h.2 d hd).isLowerHex_toLower

theorem LowerRoot.plainRoot {root : String} (h : LowerRoot root) : PlainRoot root :=
  ⟨h.1, fun c hc => Or.inl (h.2 c hc)⟩

/-- The root of every tree is 64 digits in lower case. -/
theorem lowerRoot_hex (d : Digest) : LowerRoot (hex d.val) := by
  have hdigit : ∀ n < 16, IsLowerHex (hexDigit n) := by decide
  refine ⟨by rw [length_hex, d.property], fun c hc => ?_⟩
  obtain ⟨n, hn, rfl⟩ := mem_hex hc
  exact hdigit n hn

/-! ## The check -/

/-- The structural check has nothing against the root. -/
def LetsThrough (platform : Platform) (report : AttestationReport) : Prop :=
  (∀ n, checkImaRoot platform report ≠ some (.rootLength n)) ∧
    ∀ text, checkImaRoot platform report ≠ some (.rootNotHexadecimal text)

theorem letsThrough_iff (platform : Platform) (report : AttestationReport) :
    LetsThrough platform report ↔ RootOk report.imaMerkleRoot := by
  unfold LetsThrough RootOk checkImaRoot
  split_ifs with hlength hhex hcount
  · simp [hlength]
  · simpa using fun _ => hhex
  all_goals
    have hsome : (intHex report.imaMerkleRoot).isSome = true := by
      simpa [Option.isSome_iff_ne_none] using hhex
    exact iff_of_true ⟨fun n => by simp, fun text => by simp⟩ ⟨by simpa using hlength, hsome⟩

/-! ## Runs -/

/-- Every row has a root in lower case. -/
def LowerRows (t : BaselineTable) : Prop := ∀ row ∈ t.rows, LowerRoot row.imaRoot

theorem lowerRows_setActive {t : BaselineTable} (h : LowerRows t) (f : Baseline → Bool) :
    LowerRows (t.setActive f) := by
  intro row hrow
  obtain ⟨old, hold, rfl⟩ := List.mem_map.mp hrow
  exact h old hold

/-- A transaction of an enrollment whose root is not loose. -/
theorem lowerRows_onBaselines {platform : Platform} {arrival : Arrival} {op : Tx}
    (hop : Footprint platform arrival op)
    (hroot : ∀ report, arrival.request = .enroll report → ¬ LooseRoot report.imaMerkleRoot)
    {t : BaselineTable} (h : LowerRows t) : LowerRows (op.onBaselines t) := by
  cases op with
  | deactivateAll => exact lowerRows_setActive h _
  | restoreBaseline root => exact lowerRows_setActive h _
  | pinBaseline root pcrs now =>
    obtain ⟨report, hreport, hok, rfl, -⟩ := hop
    intro row hrow
    rcases List.mem_append.mp hrow with hrow | hrow
    · exact lowerRows_setActive h _ row hrow
    · -- the row that is inserted has the root of the report
      obtain rfl := List.mem_singleton.mp hrow
      have hplain := (plainRoot_iff.mpr (hroot report hreport)).mp hok
      exact (hplain.lower platform).plainRoot.lower platform
  | _ => exact h

theorem lowerRows_of_run {ι : Type} [DecidableEq ι] {platform : Platform} {policy : Policy}
    {faults : Exn → Prop} {guard : Guard Database ι Tx.Ret Exn Response} {db : Database}
    {arrivals : ι → Arrival} {tr : List (ServerEvent ι)} {c : Config Database ι Tx.Ret Exn Response}
    (hdb : LowerRows db.baselines)
    (hroot : ∀ i report, (arrivals i).request = .enroll report → ¬ LooseRoot report.imaMerkleRoot)
    (h : Run exec faults guard (start platform policy db arrivals) tr c) :
    LowerRows c.store.baselines := by
  refine h.invariant (I := fun _ c => LowerRows c.store.baselines) hdb ?_
  intro tr c c' ev hr hrows hg hs
  have hop := footprint_of_run (.step hr hg hs) ev (by simp)
  rcases hs.store with ⟨-, hstore⟩ | ⟨-, hstore⟩
  · rw [hstore, baselines_commit]
    exact lowerRows_onBaselines hop (hroot ev.thread) hrows
  · rw [hstore]
    exact hrows

/-- The databases that runs reach whose enrollments have roots of a kind. -/
inductive ReachableWith (platform : Platform) (ok : String → Prop) : Database → Prop
  | empty : ReachableWith platform ok .empty
  | run {db : Database} (h : ReachableWith platform ok db) {ι : Type} [DecidableEq ι]
      {policy : Policy} {arrivals : ι → Arrival} {tr : List (ServerEvent ι)}
      {c : Config Database ι Tx.Ret Exn Response}
      (hok : ∀ i report, (arrivals i).request = .enroll report → ok report.imaMerkleRoot)
      (hr : Run exec databaseFaults unguarded (start platform policy db arrivals) tr c) :
      ReachableWith platform ok c.store

/-- **When the structural check is exact**: the check lets a root through exactly if
it is 64 digits, if and only if the root is not loose; the root of every tree is such;
and in every state that is reached without enrolling a loose root, the pinned roots are
64 digits in lower case. -/
theorem rootSyntax_exact (platform : Platform) :
    (∀ report : AttestationReport,
      (LetsThrough platform report ↔ PlainRoot report.imaMerkleRoot) ↔
        ¬ LooseRoot report.imaMerkleRoot) ∧
    (∀ (sha256 : Bytes → Digest) (entries : List Entry) (tree : ImaTree),
      buildImaMerkleTree sha256 entries = .ok tree → LowerRoot tree.root) ∧
    ∀ db, ReachableWith platform (fun root => ¬ LooseRoot root) db →
      ∀ row ∈ db.baselines.rows, LowerRoot row.imaRoot := by
  refine ⟨fun report => ?_, fun sha256 entries tree htree => ?_, fun db h => ?_⟩
  · rw [letsThrough_iff]
    exact plainRoot_iff
  · rw [buildImaMerkleTree_eq] at htree
    obtain rfl := Except.ok.inj htree
    exact lowerRoot_hex _
  · induction h with
    | empty => exact fun row hrow => absurd hrow List.not_mem_nil
    | run _ hok hr ih => exact lowerRows_of_run ih hok hr

/-- `0x` and 62 zeros. -/
def prefixedRoot : String := String.ofList ('0' :: 'x' :: List.replicate 62 '0')

def prefixedReport : AttestationReport :=
  { sampleReport sampleEnv.token with imaMerkleRoot := prefixedRoot }

/-- A nonce, and an enrollment of this root with it. -/
def challengeThenPrefixed : Bool → Arrival
  | false => ⟨.challenge, sampleEnv⟩
  | true => ⟨.enroll prefixedReport, sampleEnv⟩

def prefixedDatabase : Database :=
  (replay exec (start lenientPlatform laxPolicy .empty challengeThenPrefixed)
    [false, true, true, true, true, true]).2.store

/-- The root passes, and is pinned. -/
theorem prefixedRoot_pinned :
    ¬ (LetsThrough lenientPlatform prefixedReport ↔ PlainRoot prefixedReport.imaMerkleRoot) ∧
      ∃ db, Reachable lenientPlatform db ∧ ∃ row ∈ db.baselines.rows, ¬ LowerRoot row.imaRoot := by
  have hplain : ¬ PlainRoot prefixedRoot := by
    rintro ⟨-, h⟩
    exact absurd (h 'x' (by decide)) (by decide)
  have hok : RootOk prefixedRoot := by
    refine ⟨by decide, by decide +kernel⟩
  refine ⟨fun h => hplain (h.mp ((letsThrough_iff _ _).mpr hok)), prefixedDatabase,
    .run .empty ((replay_run _ _ _).faulty databaseFaults),
    ⟨1, prefixedRoot, samplePcrs, "2024-06-01T12:00:00+00:00", true⟩, by decide +kernel, ?_⟩
  exact fun h => hplain h.plainRoot

end TpmAttest
