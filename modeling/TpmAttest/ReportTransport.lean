import TpmAttest.HttpMessages
import TpmAttest.HandlerAnswers

/-! # A report on its way to the server

The shim writes its report as JSON, with the handshake of the client in it, whatever the
client has sent.  The server reads from it the report that was collected, value by value
(`parseReport_posted`): the handshake cannot change a member of the report, and where it
nests deeper than the server reads, the body is rejected.
-/
namespace TpmAttest

open Python Shim

/-- The report, as the server reads it. -/
def ShimReport.received (r : ShimReport) (pcrs : PcrMap) : AttestationReport where
  version := r.version
  timestamp := r.timestamp
  nonce := r.nonce
  pcrs := pcrs.toDict
  imaSummary := r.imaSummary
  imaMerkleRoot := r.imaMerkleRoot
  imaMerkleDepth := r.imaMerkleDepth
  imaLeafCount := r.imaLeafCount
  quoteAvailable := r.quoteAvailable
  quoteMsgB64 := some r.quoteMsgB64
  quoteSigB64 := some r.quoteSigB64
  machineId := some r.machineId

/-- The members that are posted. -/
def postedItems (r : ShimReport) (handshake : Json) : List (Text × Json) :=
  reportItems r (.str (text r.nonce)) ++ [(text "eac_handshake", handshake)]

/-- The numbers of the report are short enough to be read. -/
def ShimReport.Fits (r : ShimReport) : Prop :=
  ∀ n ∈ [r.imaSummary.totalEntries, r.imaSummary.uniqueFiles, r.imaSummary.modulesMeasured,
    (r.imaMerkleDepth : Int), (r.imaLeafCount : Int)], (Nat.toDigits 10 n.natAbs).length ≤ 4300

section
variable {r : ShimReport} {pcrs : PcrMap} {handshake : Json}

theorem strOf_text (s : String) : strOf (.str (text s)) = some s := by
  change (if _ then _ else _) = _
  rw [ofList_text, if_pos rfl]

theorem dictOfStr_toDict (hpcrs : r.pcrs = pcrs.items) :
    dictOfStr (r.pcrs.map fun p => (text (toString p.1), .str (text p.2))) = some pcrs.toDict := by
  have hitems : ∀ l : List (Nat × String),
      ((l.map fun p => (text (toString p.1), Json.str (text p.2))).mapM fun item =>
        (do return (← strOf (.str item.1), ← strOf item.2) : Option (String × String))) =
        some (l.map fun p => (toString p.1, p.2)) := by
    intro l
    induction l with
    | nil => rfl
    | cons p l ih =>
      rw [List.map_cons, List.mapM_cons, ih, strOf_text, strOf_text]
      rfl
  rw [dictOfStr, hitems, hpcrs]
  exact dif_pos pcrs.toDict.nodup

/-- **The members are those of the report**, whatever the handshake is. -/
theorem ofItems_postedItems (hpcrs : r.pcrs = pcrs.items) :
    AttestationReport.ofItems (postedItems r handshake) = some (r.received pcrs) := by
  have hstr : ∀ p ∈ [("version", r.version), ("timestamp", r.timestamp), ("nonce", r.nonce),
      ("ima_merkle_root", r.imaMerkleRoot), ("quote_msg_b64", r.quoteMsgB64),
      ("quote_sig_b64", r.quoteSigB64), ("machine_id", r.machineId)],
      getItem p.1 (postedItems r handshake) = some (.str (text p.2)) := by
    simp only [List.forall_mem_cons]
    exact ⟨rfl, rfl, rfl, rfl, rfl, rfl, rfl, List.forall_mem_nil _⟩
  simp only [List.forall_mem_cons] at hstr
  obtain ⟨hversion, htimestamp, hnonce, hroot, hmsg, hsig, hmachine, -⟩ := hstr
  have hpcrItems : getItem "pcrs" (postedItems r handshake) =
      some (.dict (r.pcrs.map fun p => (text (toString p.1), .str (text p.2)))) := rfl
  have hsummaryItems : getItem "ima_summary" (postedItems r handshake) = some (.dict
      [(text "total_entries", .int r.imaSummary.totalEntries),
        (text "unique_files", .int r.imaSummary.uniqueFiles),
        (text "has_boot_aggregate", .bool r.imaSummary.hasBootAggregate),
        (text "modules_measured", .int r.imaSummary.modulesMeasured)]) := rfl
  have hsummary : ImaSummary.ofItems [(text "total_entries", .int r.imaSummary.totalEntries),
      (text "unique_files", .int r.imaSummary.uniqueFiles),
      (text "has_boot_aggregate", .bool r.imaSummary.hasBootAggregate),
      (text "modules_measured", .int r.imaSummary.modulesMeasured)] = some r.imaSummary := rfl
  have hdepth : getItem "ima_merkle_depth" (postedItems r handshake) =
      some (.int (.ofNat r.imaMerkleDepth)) := rfl
  have hcount : getItem "ima_leaf_count" (postedItems r handshake) =
      some (.int (.ofNat r.imaLeafCount)) := rfl
  have hquote : getItem "quote_available" (postedItems r handshake) =
      some (.bool r.quoteAvailable) := rfl
  simp only [AttestationReport.ofItems, hversion, htimestamp, hnonce, hroot, hmsg, hsig, hmachine,
    hpcrItems, hsummaryItems, hsummary, hdepth, hcount, hquote, Option.bind_eq_bind,
    Option.bind_some, strOf_text, itemsOf, dictOfStr_toDict hpcrs, natOf, boolOf, optionalStr,
    Option.map_some]
  rfl

/-- Items whose keys are texts are read back one by one. -/
theorem readBack_dict (floatBack : Decimal → FloatValue) {items : List (String × Json)}
    (hkeys : (items.map Prod.fst).Nodup) :
    (Json.dict (items.map fun p => (text p.1, p.2))).readBack floatBack =
      .dict (items.map fun p => (text p.1, p.2.readBack floatBack)) := by
  have hitems : ∀ l : List (String × Json),
      readBackDict floatBack (l.map fun p => (text p.1, p.2)) =
        l.map fun p => (text p.1, p.2.readBack floatBack) := by
    intro l
    induction l with
    | nil => rfl
    | cons p l ih =>
      rw [List.map_cons]
      change (readBack (text p.1), p.2.readBack floatBack) :: readBackDict floatBack _ = _
      rw [ih, readBack_text]
      rfl
  have hnodup : ((items.map fun p => (text p.1, p.2.readBack floatBack)).map Prod.fst).Nodup := by
    have hmap : (items.map fun p => (text p.1, p.2.readBack floatBack)).map Prod.fst =
        (items.map Prod.fst).map text := by rw [List.map_map, List.map_map]; rfl
    rw [hmap]
    exact hkeys.map fun _ _ => text_injective
  change Json.dict (dictOf (readBackDict floatBack _)) = _
  rw [hitems, dictOf_of_nodup hnodup]

theorem readBack_str (floatBack : Decimal → FloatValue) (s : String) :
    (Json.str (text s)).readBack floatBack = .str (text s) := by
  change Json.str (readBack (text s)) = _
  rw [readBack_text]

/-- The PCR values are read back as they were. -/
theorem readBack_pcrs (floatBack : Decimal → FloatValue) (pcrs : PcrMap) :
    (Json.dict (pcrs.items.map fun p => (text (toString p.1), .str (text p.2)))).readBack floatBack =
      .dict (pcrs.items.map fun p => (text (toString p.1), .str (text p.2))) := by
  have hitems : (pcrs.items.map fun p => (text (toString p.1), Json.str (text p.2))) =
      (pcrs.items.map fun p => (toString p.1, Json.str (text p.2))).map
        fun p => (text p.1, p.2) := by
    rw [List.map_map]
    rfl
  have hkeys : ((pcrs.items.map fun p => (toString p.1, Json.str (text p.2))).map Prod.fst).Nodup := by
    have hnodup := pcrs.toDict.nodup
    change ((pcrs.items.map fun p => (toString p.1, p.2)).map Prod.fst).Nodup at hnodup
    rw [List.map_map] at hnodup ⊢
    exact hnodup
  rw [hitems, readBack_dict floatBack hkeys, List.map_map, List.map_map]
  refine congrArg Json.dict (List.map_congr_left fun p _ => ?_)
  exact Prod.ext rfl (readBack_str floatBack p.2)

/-- **What is posted is read back**, with the handshake as it is read back. -/
theorem readBack_postedItems (floatBack : Decimal → FloatValue) (hpcrs : r.pcrs = pcrs.items) :
    (Json.dict (postedItems r handshake)).readBack floatBack =
      .dict (postedItems r (handshake.readBack floatBack)) := by
  have hsummary : (Json.dict [(text "total_entries", .int r.imaSummary.totalEntries),
      (text "unique_files", .int r.imaSummary.uniqueFiles),
      (text "has_boot_aggregate", .bool r.imaSummary.hasBootAggregate),
      (text "modules_measured", .int r.imaSummary.modulesMeasured)]).readBack floatBack = _ :=
    @readBack_dict floatBack [("total_entries", .int r.imaSummary.totalEntries),
      ("unique_files", .int r.imaSummary.uniqueFiles),
      ("has_boot_aggregate", .bool r.imaSummary.hasBootAggregate),
      ("modules_measured", .int r.imaSummary.modulesMeasured)] (by
      show ["total_entries", "unique_files", "has_boot_aggregate", "modules_measured"].Nodup
      decide)
  have hitems := @readBack_dict floatBack [("version", .str (text r.version)),
    ("timestamp", .str (text r.timestamp)), ("nonce", .str (text r.nonce)),
    ("machine_id", .str (text r.machineId)),
    ("pcrs", .dict (r.pcrs.map fun p => (text (toString p.1), .str (text p.2)))),
    ("ima_summary", .dict [(text "total_entries", .int r.imaSummary.totalEntries),
      (text "unique_files", .int r.imaSummary.uniqueFiles),
      (text "has_boot_aggregate", .bool r.imaSummary.hasBootAggregate),
      (text "modules_measured", .int r.imaSummary.modulesMeasured)]),
    ("ima_merkle_root", .str (text r.imaMerkleRoot)), ("ima_merkle_depth", .int r.imaMerkleDepth),
    ("ima_leaf_count", .int r.imaLeafCount), ("quote_available", .bool r.quoteAvailable),
    ("quote_msg_b64", .str (text r.quoteMsgB64)), ("quote_sig_b64", .str (text r.quoteSigB64)),
    ("eac_handshake", handshake)] (by
    show ["version", "timestamp", "nonce", "machine_id", "pcrs", "ima_summary", "ima_merkle_root",
      "ima_merkle_depth", "ima_leaf_count", "quote_available", "quote_msg_b64", "quote_sig_b64",
      "eac_handshake"].Nodup
    decide)
  refine hitems.trans (congrArg Json.dict ?_)
  rw [hpcrs]
  simp only [List.map_cons, List.map_nil, readBack_str, hsummary, readBack_pcrs]
  simp only [postedItems, reportItems, hpcrs, Json.readBack]
  rfl

theorem fits_postedItems (hfits : r.Fits) (hhandshake : handshake.Fits) :
    (Json.dict (postedItems r handshake)).Fits := by
  have hpcrs : Json.Fits (.dict (r.pcrs.map fun p => (text (toString p.1), .str (text p.2)))) := by
    change FitsDict _
    rw [fitsDict_iff]
    intro item hitem
    obtain ⟨p, -, rfl⟩ := List.mem_map.mp hitem
    trivial
  have hints := hfits
  simp only [ShimReport.Fits, List.forall_mem_cons] at hints
  obtain ⟨htotal, hunique, hmodules, hdepth, hcount, -⟩ := hints
  exact ⟨trivial, trivial, trivial, trivial, hpcrs, ⟨htotal, hunique, trivial, hmodules, trivial⟩,
    trivial, hdepth, hcount, trivial, trivial, trivial, hhandshake, trivial⟩

variable {http : Http} {floatRepr : Decimal → String} {floatBack : Decimal → FloatValue}
  {depth : Nat} {payload : String}

/-- **The server reads the report that was posted**, if it reads one. -/
theorem parseReport_posted (hhttp : http.Faithful) (hfloats : FloatsRead floatRepr floatBack)
    (hpcrs : r.pcrs = pcrs.items) (hfits : r.Fits) (hhandshake : handshake.Fits)
    (hdumps : dumps floatRepr depth (.dict (postedItems r handshake)) = some payload) :
    (∀ report, http.parseReport (encode payload) = some report → report = r.received pcrs) ∧
      (max 1 handshake.nesting < http.bodyLimit →
        http.parseReport (encode payload) = some (r.received pcrs)) := by
  have hposted := fits_postedItems hfits hhandshake
  have hparse : ∀ value, loads http.bodyLimit (encode payload) = .ok value →
      http.parseReport (encode payload) = some (r.received pcrs) := by
    intro value hread
    have hvalue := loads_dumps_eq hfloats hdumps hposted hread
    rw [readBack_postedItems floatBack hpcrs] at hvalue
    subst hvalue
    exact hhttp.report _ _ _ hread (ofItems_postedItems hpcrs)
  constructor
  · intro report hreport
    obtain ⟨value, hread⟩ := hhttp.reportJson _ _ hreport
    rw [hparse value hread] at hreport
    exact (Option.some.inj hreport).symm
  · intro hlimit
    have hnesting := nesting_report r (text r.nonce) handshake
    exact hparse _ (loads_dumps hfloats hdumps (by
      rw [postedItems, hnesting]
      exact hlimit) hposted)

end

/-! ## A sample framework -/

/-- `0.0` is read as a float. -/
theorem scanNumber_zero {rest : Text} (h : Delimited rest) :
    scanNumber (char '0' :: char '.' :: char '0' :: rest) =
      .ok (.float (.nearest ⟨false, 0, -1⟩), 3) := by
  obtain ⟨hdigit, -, hexponent⟩ := h.ends
  have hstop : rest.takeWhile isDigit = [] := by
    cases rest with
    | nil => rfl
    | cons c s => exact List.takeWhile_cons_of_neg (by rw [hdigit c rfl]; exact Bool.false_ne_true)
  have hfraction : fractionDigits (char '.' :: char '0' :: rest) = [char '0'] := by
    show (char '0' :: rest).takeWhile isDigit = _
    rw [List.takeWhile_cons_of_pos rfl, hstop]
  have hinteger : integerDigits (char '0' :: char '.' :: char '0' :: rest) = [char '0'] := rfl
  have hminus : ¬ some (char '0') = some (char '-') := by decide
  have hplain : char '0' ≠ char '-' := by decide
  have hmantissa : decimalNumber [char '0', char '0'] = 0 := rfl
  unfold scanNumber
  simp only [List.head?_cons, if_neg hminus, hinteger, List.length_singleton, List.drop_succ_cons,
    List.drop_zero, hfraction]
  simp [hexponent, hplain, hmantissa]

theorem toList_sampleRepr (d : Decimal) :
    (sampleInterpreter.floatRepr d).toList = ['0', '.', '0'] := by
  have hrepr : sampleInterpreter.floatRepr d = "0.0" := rfl
  rw [hrepr]
  rfl

/-- The interpreter that writes every float as `0.0`. -/
theorem floatsRead_sample :
    FloatsRead sampleInterpreter.floatRepr fun _ => .nearest ⟨false, 0, -1⟩ where
  printable d := by
    rw [toList_sampleRepr]
    exact List.all_iff_forall_prop.mp (by decide)
  reads limit d := by
    have htext : jsonChars sampleInterpreter.floatRepr (.float (.nearest d)) = ['0', '.', '0'] :=
      toList_sampleRepr d
    refine ⟨⟨'0', ['.', '0'], htext, rfl, by decide⟩, fun rest hrest => ?_⟩
    obtain ⟨scan, hscan⟩ := scanOnce_eq limit
    rw [htext]
    show scanOnce limit (char '0' :: char '.' :: char '0' :: rest) = _
    rw [hscan, scanValue.eq_def]
    dsimp only
    rw [if_neg (by decide), if_neg (by decide), if_neg (by decide),
      find?_literals ⟨char '0', List.mem_cons_self, rfl⟩]
    exact scanNumber_zero hrest

/-- A framework that reads what `loads` reads and writes what `jsonChars` writes. -/
def sampleHttp : Http where
  parseReport b := match loads 900 b with
    | .ok (.dict items) => AttestationReport.ofItems items
    | _ => none
  parseRegister b := match loads 900 b with
    | .ok (.dict items) => RegisterRequest.ofItems items
    | _ => none
  render value := encode (String.ofList (jsonChars sampleInterpreter.floatRepr value))
  errorPage _ := False
  bodyLimit := 900

theorem keys_members (r : Response) : (r.members.map Prod.fst).Nodup := by
  have hkeys : ∀ keys ∈ [["status", "version"], ["nonce", "expires_in_seconds"],
      ["registered", "machine_id", "ek_verified", "ek_info"], ["registered", "reason"],
      ["valid", "token", "expires_at"], ["valid", "reason"], ["enrolled", "ima_root"],
      ["enrolled", "reason"]], keys.Nodup := List.all_iff_forall_prop.mp (by decide)
  apply hkeys
  cases r <;> simp [Response.members]

/-- The content of a response is read back as it was. -/
theorem readBack_content (floatBack : Decimal → FloatValue) (r : Response) :
    r.content.readBack floatBack = r.content := by
  have hvalues : ∀ p ∈ r.members, p.2.readBack floatBack = p.2 := by
    cases r <;> simp [Response.members, Json.readBack, readBack_text]
  rw [Response.content, ofMembers, readBack_dict floatBack (keys_members r)]
  exact congrArg Json.dict (List.map_congr_left fun p hp => by rw [hvalues p hp])

theorem nesting_content (r : Response) : r.content.nesting = 1 := by
  cases r <;> rfl

theorem faithful_sampleHttp : sampleHttp.Faithful where
  report b items report hread hitems := by
    show (match loads 900 b with | .ok (.dict items) => AttestationReport.ofItems items | _ => none) = _
    rw [show loads 900 b = .ok (.dict items) from hread]
    exact hitems
  register b items req hread hitems := by
    show (match loads 900 b with | .ok (.dict items) => RegisterRequest.ofItems items | _ => none) = _
    rw [show loads 900 b = .ok (.dict items) from hread]
    exact hitems
  reportJson b report h := by
    change (match loads 900 b with | .ok (.dict items) => _ | _ => none) = some report at h
    show ∃ value, loads 900 b = .ok value
    cases hread : loads 900 b with
    | ok value => exact ⟨value, rfl⟩
    | error e =>
      rw [hread] at h
      cases h
  registerJson b req h := by
    change (match loads 900 b with | .ok (.dict items) => _ | _ => none) = some req at h
    show ∃ value, loads 900 b = .ok value
    cases hread : loads 900 b with
    | ok value => exact ⟨value, rfl⟩
    | error e =>
      rw [hread] at h
      cases h
  render r limit hfits hlimit := by
    have hnesting := nesting_content r
    have hdumps : dumps sampleInterpreter.floatRepr 1 r.content =
        some (String.ofList (jsonChars sampleInterpreter.floatRepr r.content)) :=
      if_pos (Nat.le_of_eq hnesting)
    have hread := loads_dumps floatsRead_sample hdumps (hnesting.trans_le hlimit) hfits
    rwa [readBack_content] at hread
  errorPage b limit items h := h.elim

end TpmAttest
