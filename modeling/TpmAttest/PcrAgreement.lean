import TpmAttest.PcrListing
import TpmAttest.JsonStrings
import TpmAttest.ZeroPcrs

/-! # PCR values from the agent to the server

The agent sends the map of `read_pcrs` as JSON, and the server compares the values that
it receives with a zero digest.  `pcr_agreement` follows a map from the listing of
`tpm2_pcrread` up to the server's verdict: it is rejected as all-zero exactly for a value
of 32 zero bytes.
-/
namespace TpmAttest

open Python Transactional Program

/-! ## What is sent -/

theorem toString_injective {i j : Nat} (h : toString i = toString j) : i = j := by
  have hdigits : Nat.toDigits 10 i = Nat.toDigits 10 j := by
    rw [Nat.toString_eq_ofList_toDigits, Nat.toString_eq_ofList_toDigits] at h
    exact String.ofList_injective h
  rw [← Nat.ofDigitChars_ten_toDigits (n := i), hdigits, Nat.ofDigitChars_ten_toDigits]

/-- The map with its indices as strings, as the JSON encoder writes the keys of a dict. -/
def PcrMap.toDict (pcrs : PcrMap) : Dict where
  items := pcrs.items.map fun p => (toString p.1, p.2)
  nodup := by
    have hkeys : (pcrs.items.map fun p => (toString p.1, p.2)).map Prod.fst =
        (pcrs.items.map Prod.fst).map toString := by rw [List.map_map, List.map_map]; rfl
    rw [hkeys]
    exact pcrs.nodup.map fun _ _ => toString_injective

theorem PcrMap.mem_toDict (pcrs : PcrMap) {p : String × String} :
    p ∈ pcrs.toDict.items ↔ ∃ i, toString i = p.1 ∧ pcrs.get i = some p.2 := by
  rw [toDict, List.mem_map]
  constructor
  · rintro ⟨q, hq, rfl⟩
    exact ⟨q.1, rfl, (mem_iff_lookup pcrs.nodup).mp hq⟩
  · rintro ⟨i, hi, hget⟩
    exact ⟨(i, p.2), (mem_iff_lookup pcrs.nodup).mpr hget, Prod.ext hi rfl⟩

/-- A `dict[str, str]` as a JSON value. -/
def Dict.toJson (d : Dict) : Json := .dict (d.items.map fun p => (text p.1, .str (text p.2)))

theorem text_injective {s t : String} (h : text s = text t) : s = t := by
  rw [← ofList_text s, h, ofList_text]

theorem Dict.toJson_injective {d e : Dict} (h : d.toJson = e.toJson) : d = e := by
  obtain ⟨items, hitems⟩ := d
  obtain ⟨items', hitems'⟩ := e
  have hinj : Function.Injective fun p : String × String => (text p.1, Json.str (text p.2)) := by
    intro p q hpq
    obtain ⟨hkey, hvalue⟩ := Prod.mk.inj hpq
    exact Prod.ext (text_injective hkey) (text_injective (Json.str.inj hvalue))
  obtain rfl : items = items' := List.map_injective_iff.mpr hinj (Json.dict.inj h)
  rfl

/-- **A dict of strings is read as it was sent.** -/
theorem loadsText_toJson (floatRepr : Decimal → String) (limit : Nat) (d : Dict) :
    loadsText (limit + 1) (chars (jsonChars floatRepr d.toJson)) = .ok d.toJson := by
  have hread : ItemsRead floatRepr limit (d.items.map fun p => (text p.1, .str (text p.2)))
      (d.items.map fun p => (text p.1, .str (text p.2))) := by
    rw [ItemsRead, List.forall₂_same]
    intro item hitem
    obtain ⟨p, -, rfl⟩ := List.mem_map.mp hitem
    have hvalue := reads_str floatRepr limit (text p.2)
    rw [readBack_text] at hvalue
    exact ⟨(readBack_text p.1).symm, hvalue⟩
  have hnodup : ((d.items.map fun p => (text p.1, Json.str (text p.2))).map Prod.fst).Nodup := by
    have hkeys : (d.items.map fun p => (text p.1, Json.str (text p.2))).map Prod.fst =
        (d.items.map Prod.fst).map text := by rw [List.map_map, List.map_map]; rfl
    rw [hkeys]
    exact d.nodup.map fun _ _ => text_injective
  rw [Dict.toJson, loadsText_dict hread, dictOf_of_nodup hnodup]

/-! ## The values -/

/-- `0x` and 64 hexadecimal digits in upper case, which stand for the digest. -/
def SpellsUpper (d : Digest) (value : String) : Prop :=
  ∃ digits : List Char, value.toList = '0' :: 'x' :: digits ∧ digits.length = 64 ∧
    (∀ c ∈ digits, ('0' ≤ c ∧ c ≤ '9') ∨ ('A' ≤ c ∧ c ≤ 'F')) ∧ bytesOfDigits digits = some d.val

theorem bytesOfDigits_map {f : Char → Char} {s : List Char}
    (hf : ∀ c ∈ s, hexValue (f c) = hexValue c) : bytesOfDigits (s.map f) = bytesOfDigits s := by
  fun_induction bytesOfDigits s with
  | case1 => rfl
  | case2 a b s ih =>
    rw [List.forall_mem_cons, List.forall_mem_cons] at hf
    rw [List.map_cons, List.map_cons, bytesOfDigits, hf.1, hf.2.1, ih hf.2.2]
  | case3 => rfl

theorem spellsUpper_pcrText (d : Digest) : SpellsUpper d (pcrText d) := by
  have hdigit : ∀ n < 16, hexValue (hexDigit n).toUpper = hexValue (hexDigit n) ∧
      (('0' ≤ (hexDigit n).toUpper ∧ (hexDigit n).toUpper ≤ '9') ∨
        ('A' ≤ (hexDigit n).toUpper ∧ (hexDigit n).toUpper ≤ 'F')) := by decide
  refine ⟨(hex d.val).toList.map Char.toUpper, ?_, ?_, ?_, ?_⟩
  · rw [pcrText, String.toList_ofList]
  · rw [List.length_map, String.length_toList, length_hex, d.property]
  · intro c hc
    obtain ⟨x, hx, rfl⟩ := List.mem_map.mp hc
    obtain ⟨n, hn, rfl⟩ := mem_hex hx
    exact (hdigit n hn).2
  · rw [bytesOfDigits_map]
    · exact fromhex_hex d.val
    · intro c hc
      obtain ⟨n, hn, rfl⟩ := mem_hex hc
      exact (hdigit n hn).1

/-- The server finds the zero digest, and no other. -/
theorem lower_pcrText (platform : Platform) (d : Digest) :
    platform.lower (pcrText d) = zeroDigestPrefixed ↔ d.val = List.replicate 32 0 := by
  have hdigit : ∀ n < 16, (hexDigit n).toUpper.toLower = hexDigit n ∧
      isPlain (hexDigit n).toUpper = true := by decide
  have hplain : (pcrText d).toList.all isPlain = true := by
    rw [pcrText, String.toList_ofList, List.all_cons, List.all_cons, List.all_eq_true.mpr]
    · rfl
    · intro c hc
      obtain ⟨x, hx, rfl⟩ := List.mem_map.mp hc
      obtain ⟨n, hn, rfl⟩ := mem_hex hx
      exact (hdigit n hn).2
  have hlower : (pcrText d).toList.map Char.toLower = '0' :: 'x' :: (hex d.val).toList := by
    rw [pcrText, String.toList_ofList, List.map_cons, List.map_cons, List.map_map]
    refine congrArg (fun s => '0' :: 'x' :: s) ((List.map_congr_left ?_).trans (List.map_id _))
    intro c hc
    obtain ⟨n, hn, rfl⟩ := mem_hex hc
    exact (hdigit n hn).1
  have hzero : zeroDigestPrefixed = String.ofList ('0' :: 'x' :: (hex (List.replicate 32 0)).toList) := by
    decide +kernel
  rw [Platform.lower, lower_plain _ hplain, hlower, hzero]
  constructor
  · intro h
    have htail := (List.cons.inj (List.cons.inj (String.ofList_injective h)).2).2
    exact hex_injective (String.toList_injective htail)
  · intro h
    rw [h]

/-! ## The verdict -/

section Verdict
variable {platform : Platform} {policy : Policy} {report : AttestationReport} {env : Env}
  {db : Database}

/-- The report passes the checks of its nonce, its quote and the EK of its machine. -/
def PassesQuote (platform : Platform) (policy : Policy) (env : Env) (db : Database)
    (report : AttestationReport) : Prop :=
  ((inOrder [consumeNonce report.nonce env.now, ret (checkQuotePresent report),
    verifyQuoteSignature platform report, checkStrictEk platform policy report]).run exec db).1 =
      .ok none

/-- The reason of a rejection is that of one of the checks. -/
theorem inOrder_rejects {checks : List (ServerM (Option Reason))} {reason : Reason}
    (h : ((inOrder checks).run exec db).1 = .ok (some reason)) :
    ∃ check ∈ checks, ∃ s, (check.run exec s).1 = .ok (some reason) := by
  induction checks generalizing db with
  | nil => cases h
  | cons check checks ih =>
    rw [inOrder, run_bind] at h
    cases hcheck : check.run exec db with
    | mk outcome s =>
      rw [hcheck] at h
      cases outcome with
      | error e => cases h
      | ok verdict =>
        cases verdict with
        | none =>
          obtain ⟨check', hmem, hrejects⟩ := ih h
          exact ⟨check', List.mem_cons_of_mem check hmem, hrejects⟩
        | some reason' => exact ⟨check, List.mem_cons_self, db, by rw [hcheck]; exact h⟩

/-- No later check rejects PCR values as all-zero. -/
theorem laterChecks_ne_pcrAllZero {check : ServerM (Option Reason)}
    (h : check ∈ [checkPinnedRoot platform report, checkPinnedPcr7 platform policy report,
      ret (checkMinimumEntries policy report)]) (s : Database) (index : String) :
    (check.run exec s).1 ≠ .ok (some (.pcrAllZero index)) := by
  have hroot : ∀ pinned, rootVerdict platform report pinned ≠ some (.pcrAllZero index) := by
    intro pinned
    cases pinned with
    | none => simp [rootVerdict]
    | some root => by_cases hroot : platform.lower report.imaMerkleRoot = platform.lower root <;>
        simp [rootVerdict, hroot]
  have hpcr7 : ∀ pinned, pcr7Verdict platform report pinned ≠ some (.pcrAllZero index) := by
    intro pinned
    cases pinned with
    | none => simp [pcr7Verdict]
    | some value => simp [pcr7Verdict]
  have hentries : checkMinimumEntries policy report ≠ some (.pcrAllZero index) := by
    simp [checkMinimumEntries]
  simp only [List.mem_cons, List.not_mem_nil, or_false] at h
  rcases h with rfl | rfl | rfl
  · intro heq
    exact hroot _ (Except.ok.inj heq)
  · unfold checkPinnedPcr7
    by_cases hpolicy : policy.requirePcr7Pinning = true
    · rw [if_pos hpolicy]
      intro heq
      exact hpcr7 _ (Except.ok.inj heq)
    · rw [if_neg hpolicy]
      intro heq
      cases heq
  · intro heq
    exact hentries (Except.ok.inj heq)

theorem checkMeasurements_pcrAllZero (s : Database) :
    (∃ index, ((checkMeasurements platform report).run exec s).1 = .ok (some (.pcrAllZero index))) ↔
      ∃ p ∈ report.pcrs.items, platform.lower p.2 = zeroDigestPrefixed ∧
        ¬ Exempt (reportedMachine report s).isSome p.1 := by
  unfold checkMeasurements
  by_cases hempty : report.pcrs.items.isEmpty = true
  · rw [if_pos hempty, List.isEmpty_iff.mp hempty]
    refine iff_of_false ?_ ?_
    · rintro ⟨index, h⟩
      cases h
    · rintro ⟨p, hp, -⟩
      cases hp
  · rw [if_neg hempty, bind_eq, run_bind, run_lookupMachine]
    change (∃ index, Except.ok ((zeroPcr platform report (reportedMachine report s).isSome).or
      ((checkBootAggregate report (reportedMachine report s).isSome).or
        (checkImaRoot platform report))) = Except.ok (some (.pcrAllZero index))) ↔ _
    cases hzero : zeroPcr platform report (reportedMachine report s).isSome with
    | none =>
      refine iff_of_false ?_ ?_
      · rintro ⟨index, h⟩
        have hother := Except.ok.inj h
        rw [Option.none_or, Option.or_eq_some_iff] at hother
        rcases hother with hboot | ⟨-, hima⟩
        · simp [checkBootAggregate] at hboot
        · unfold checkImaRoot at hima
          split_ifs at hima <;> cases hima
      · rintro ⟨p, hp, hlower, hexempt⟩
        exact hexempt (zeroPcr_eq_none.mp hzero p hp hlower)
    | some reason =>
      refine iff_of_true ?_ ?_
      · obtain ⟨p, -, rfl⟩ := Option.map_eq_some_iff.mp hzero
        exact ⟨p.1, rfl⟩
      · by_contra hnone
        have hpass := zeroPcr_eq_none.mpr fun p hp hlower => by
          by_contra hexempt
          exact hnone ⟨p, hp, hlower, hexempt⟩
        rw [hpass] at hzero
        cases hzero

/-- **When a report is rejected as all-zero**, if its nonce, quote and EK pass. -/
theorem verifyReport_pcrAllZero (h : PassesQuote platform policy env db report) :
    (∃ index, ((verifyReport platform policy report env).run exec db).1 =
        .ok (some (.pcrAllZero index))) ↔
      ∃ p ∈ report.pcrs.items, platform.lower p.2 = zeroDigestPrefixed ∧
        ¬ Exempt (reportedMachine report db).isSome p.1 := by
  -- up to the PCR values, the nonce is all that changes
  obtain ⟨s, hs⟩ : ∃ s, s = (commit exec (.consumeNonce report.nonce env.now) db).2 := ⟨_, rfl⟩
  have hmachine : reportedMachine report s = reportedMachine report db := by
    rw [hs, commit_consumeNonce]
    rfl
  have hverify : ((verifyReport platform policy report env).run exec db).1 =
      ((inOrder [checkMeasurements platform report, checkPinnedRoot platform report,
        checkPinnedPcr7 platform policy report, ret (checkMinimumEntries policy report)]).run exec
          s).1 := by
    unfold PassesQuote at h
    rw [inOrder, run_bind, run_consumeNonce, ← hs] at h
    rw [run_verifyReport, ← hs]
    cases hnonce : nonceVerdict env.now
        (purgeNonces db.activeNonces env.now.isoformat report.nonce) with
    | error e =>
      rw [hnonce] at h
      cases h
    | ok verdict =>
      rw [hnonce] at h
      cases verdict with
      | some reason => cases h
      | none =>
        have hmem : ∀ check ∈ [ret (checkQuotePresent report), verifyQuoteSignature platform report,
            checkStrictEk platform policy report], check ∈ reportChecks platform policy report := by
          intro check hcheck
          exact List.mem_append_left [checkMeasurements platform report,
            checkPinnedRoot platform report, checkPinnedPcr7 platform policy report,
            ret (checkMinimumEntries policy report)] hcheck
        have hstore : ∀ check ∈ [ret (checkQuotePresent report), verifyQuoteSignature platform report,
            checkStrictEk platform policy report], (check.run exec s).2 = s :=
          fun check hcheck => run_reportChecks (hmem check hcheck) s
        have hpass := (inOrder_passes hstore).mp h
        rw [List.forall_mem_cons, List.forall_mem_cons, List.forall_mem_singleton] at hstore hpass
        dsimp only
        rw [reportChecks, run_inOrder_pass hstore.1 hpass.1, run_inOrder_pass hstore.2.1 hpass.2.1,
          run_inOrder_pass hstore.2.2 hpass.2.2]
  have hmem : checkMeasurements platform report ∈ reportChecks platform policy report := by
    simp [reportChecks]
  rw [hverify, ← hmachine, ← checkMeasurements_pcrAllZero]
  by_cases hpass : ((checkMeasurements platform report).run exec s).1 = .ok none
  · rw [run_inOrder_pass (run_reportChecks hmem s) hpass, hpass]
    refine iff_of_false ?_ ?_
    · rintro ⟨index, hrejects⟩
      obtain ⟨check, hcheck, s', hrejects⟩ := inOrder_rejects hrejects
      exact laterChecks_ne_pcrAllZero hcheck s' index hrejects
    · rintro ⟨index, hrejects⟩
      cases hrejects
  · rw [run_inOrder_stop rfl hpass]

end Verdict

/-! ## The agreement -/

/-- What the server reads from the JSON of a map. -/
def Arrives (floatRepr : Decimal → String) (limit : Nat) (pcrs : PcrMap) (d : Dict) : Prop :=
  loadsText (limit + 1) (chars (jsonChars floatRepr pcrs.toDict.toJson)) = .ok d.toJson

theorem arrives_iff {floatRepr : Decimal → String} {limit : Nat} {pcrs : PcrMap} {d : Dict} :
    Arrives floatRepr limit pcrs d ↔ d = pcrs.toDict := by
  unfold Arrives
  rw [loadsText_toJson, Except.ok.injEq]
  exact ⟨fun h => (Dict.toJson_injective h).symm, fun h => by rw [h]⟩

/-- A zero value that counts. -/
def PcrListing.HasZero (l : PcrListing) (isEnrolled : Bool) : Prop :=
  ∃ i ∈ pcrIndices, ∃ d, l.value i = some d ∧ d.val = List.replicate 32 0 ∧
    ¬ (isEnrolled = true ∧ i = 10)

theorem PcrListing.hasZero_iff {l : PcrListing} {pcrs : PcrMap} (platform : Platform)
    (hget : ∀ i, pcrs.get i = if i ∈ pcrIndices then (l.value i).map pcrText else none)
    (isEnrolled : Bool) :
    (∃ p ∈ pcrs.toDict.items, platform.lower p.2 = zeroDigestPrefixed ∧ ¬ Exempt isEnrolled p.1) ↔
      l.HasZero isEnrolled := by
  have hten : ∀ i, toString i = "10" ↔ i = 10 :=
    fun i => ⟨fun h => toString_injective h, fun h => by rw [h]; rfl⟩
  constructor
  · rintro ⟨p, hp, hlower, hexempt⟩
    obtain ⟨i, hi, hvalue⟩ := pcrs.mem_toDict.mp hp
    rw [hget] at hvalue
    by_cases hindex : i ∈ pcrIndices
    · rw [if_pos hindex] at hvalue
      obtain ⟨d, hd, htext⟩ := Option.map_eq_some_iff.mp hvalue
      rw [← htext, lower_pcrText] at hlower
      refine ⟨i, hindex, d, hd, hlower, fun h => hexempt ⟨h.1, ?_⟩⟩
      rw [← hi, hten]
      exact h.2
    · rw [if_neg hindex] at hvalue
      cases hvalue
  · rintro ⟨i, hindex, d, hd, hzero, hexempt⟩
    refine ⟨(toString i, pcrText d), pcrs.mem_toDict.mpr ⟨i, rfl, ?_⟩,
      (lower_pcrText platform d).mpr hzero, fun h => hexempt ⟨h.1, (hten i).mp h.2⟩⟩
    rw [hget, if_pos hindex, hd]
    rfl

/-- **The agent and the server agree on the PCR values.**  A listing is read as its six
selected values in one spelling, and any other output as six values or not at all; sent
as JSON, the values arrive; and if nothing before the PCR values fails, they are
rejected as all-zero exactly if one of them is zero, PCR 10 of an enrolled machine
apart. -/
theorem pcr_agreement :
    (∀ (l : PcrListing) (stderr : String), ∃ pcrs : PcrMap,
      readPcrs ⟨0, l.text, stderr⟩ = .ok pcrs ∧
      (pcrs.items.map Prod.fst).Perm pcrIndices ∧
      (∀ i ∈ pcrIndices, ∃ d value, l.value i = some d ∧ pcrs.get i = some value ∧
        SpellsUpper d value) ∧
      (∀ floatRepr limit, Arrives floatRepr limit pcrs pcrs.toDict) ∧
      ∀ floatRepr limit platform policy env db report,
        Arrives floatRepr limit pcrs report.pcrs → PassesQuote platform policy env db report →
          ((∃ index, ((verifyReport platform policy report env).run exec db).1 =
            .ok (some (.pcrAllZero index))) ↔ l.HasZero (reportedMachine report db).isSome)) ∧
    ∀ result pcrs, readPcrs result = .ok pcrs → (pcrs.items.map Prod.fst).Perm pcrIndices := by
  refine ⟨fun l stderr => ?_, fun result pcrs => keys_of_readPcrs⟩
  obtain ⟨pcrs, hread, hget⟩ := readPcrs_listing l stderr
  refine ⟨pcrs, hread, keys_of_readPcrs hread, ?_, fun floatRepr limit => arrives_iff.mpr rfl, ?_⟩
  · intro i hi
    obtain ⟨line, hline, hindex⟩ := List.mem_map.mp (l.complete i hi)
    obtain ⟨found, hfound⟩ : ∃ found, l.lines.find? (fun line => line.index = i) = some found := by
      rw [← Option.isSome_iff_exists, List.find?_isSome]
      exact ⟨line, hline, decide_eq_true hindex⟩
    have hvalue : l.value i = some found.value := by rw [PcrListing.value, hfound]; rfl
    refine ⟨found.value, pcrText found.value, hvalue, ?_, spellsUpper_pcrText found.value⟩
    rw [hget, if_pos hi, hvalue]
    rfl
  · intro floatRepr limit platform policy env db report harrives hpasses
    rw [verifyReport_pcrAllZero hpasses, arrives_iff.mp harrives,
      PcrListing.hasZero_iff platform hget]

theorem isLineBlank_replicate (n : Nat) : ∀ c ∈ List.replicate n ' ', IsLineBlank c := by
  intro c hc
  rw [List.eq_of_mem_replicate hc]
  exact ⟨rfl, rfl⟩

/-- A listing of six zeros. -/
def zeroListing : PcrListing where
  indent := List.replicate 2 ' '
  lines := pcrIndices.attach.map fun i => {
    index := i.val
    value := ⟨List.replicate 32 0, rfl⟩
    lead := List.replicate 4 ' '
    before := List.replicate 1 ' '
    after := List.replicate 1 ' '
    digits := List.replicate 64 '0'
    trail := List.replicate 0 ' '
    index_lt := by
      have hlt : ∀ i ∈ pcrIndices, i < 2 ^ 32 := by decide
      exact hlt i.val i.property
    lead_ne := by decide
    lead_blank := isLineBlank_replicate 4
    before_blank := isLineBlank_replicate 1
    after_blank := isLineBlank_replicate 1
    trail_blank := isLineBlank_replicate 0
    digits_value := by decide +kernel }
  indent_blank := isLineBlank_replicate 2
  distinct := by decide
  complete := by decide

theorem hasZero_zeroListing : zeroListing.HasZero false :=
  ⟨0, by decide, ⟨List.replicate 32 0, rfl⟩, rfl, rfl, fun h => Bool.false_ne_true h.1⟩

/-- No check before that of the PCR values looks at them. -/
theorem passesQuote_zeroReport (pcrs : Dict) :
    PassesQuote lenientPlatform laxPolicy sampleEnv (zeroDatabase false) (zeroReport pcrs false) := by
  have hempty : PassesQuote lenientPlatform laxPolicy sampleEnv (zeroDatabase false)
      (zeroReport ⟨[], by decide⟩ false) := by
    unfold PassesQuote
    decide +kernel
  exact hempty

theorem pcr_agreement_zero : ∃ pcrs, readPcrs ⟨0, zeroListing.text, ""⟩ = .ok pcrs ∧
    ∃ index, ((verifyReport lenientPlatform laxPolicy (zeroReport pcrs.toDict false) sampleEnv).run
      exec (zeroDatabase false)).1 = .ok (some (.pcrAllZero index)) := by
  obtain ⟨pcrs, hread, -, -, harrives, hverdict⟩ := pcr_agreement.1 zeroListing ""
  refine ⟨pcrs, hread, (hverdict (fun _ => "") 0 lenientPlatform laxPolicy sampleEnv
    (zeroDatabase false) (zeroReport pcrs.toDict false) (harrives _ 0)
    (passesQuote_zeroReport pcrs.toDict)).mpr ?_⟩
  rw [isSome_reportedMachine]
  exact hasZero_zeroListing

end TpmAttest
