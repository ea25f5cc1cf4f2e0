import TpmAttest.SequentialRuns

/-! # An enrolled system can be attested

`verified_iff` is the closed form of a verification: the nonce's row, and what the
report and the database say (`Verifies`).  An `/enroll` that succeeds has verified
its report without a pinned baseline, and pins that report's own values.  So the
same system verifies later, while its machine's row and the baseline stay as they
are: complete requests change the first only by a `/register` for the machine, and
the second only by an `/enroll` that succeeds.
-/
namespace TpmAttest

open Python Transactional Program

/-- The row of the machine that a report names, as the server looks it up. -/
def reportedMachine (report : AttestationReport) (db : Database) : Option Machine :=
  (truthy report.machineId).bind db.enrolledMachines

/-- The key that `tpm2_checkquote` is called with. -/
def quoteKey (platform : Platform) (report : AttestationReport) (db : Database) : Option Bytes :=
  match reportedMachine report db with
  | some row => (b64decode row.akPubB64).toOption
  | none => platform.readpublic

/-- The report has quote blobs for which `tpm2_checkquote` succeeds against the
key. -/
def QuoteVerifies (platform : Platform) (key : Bytes) (report : AttestationReport) : Prop :=
  ∃ quoteMsg quoteSig msg sig, truthy report.quoteMsgB64 = some quoteMsg ∧
    truthy report.quoteSigB64 = some quoteSig ∧ b64decode quoteMsg = .ok msg ∧
    b64decode quoteSig = .ok sig ∧ platform.checkquote key msg sig report.nonce = true

/-- The report verifies against the database, its nonce apart. -/
structure Verifies (platform : Platform) (policy : Policy) (report : AttestationReport)
    (db : Database) : Prop where
  available : report.quoteAvailable = true
  quote : ∃ key, quoteKey platform report db = some key ∧ QuoteVerifies platform key report
  strictEk : policy.strictEkVerification = true →
    ∃ row, reportedMachine report db = some row ∧ row.ekVerified = true
  measurements : MeasurementsOk platform report (reportedMachine report db).isSome
  pinnedRoot : rootVerdict platform report (db.baselines.active.map (·.imaRoot)) = none
  pinnedPcr7 : policy.requirePcr7Pinning = true →
    pcr7Verdict platform report (pinnedPcr db "7") = none
  minimumEntries : checkMinimumEntries policy report = none

/-! ## The checks on a database -/

section Checks
variable {platform : Platform} {policy : Policy} {report : AttestationReport} {db : Database}

theorem decodeField_passes {s : String} {b : Bytes} :
    ((decodeField s).run exec db).1 = .ok b ↔ b64decode s = .ok b := by
  unfold decodeField
  rw [run_ofExcept]
  cases b64decode s with
  | error e => simp [Except.mapError]
  | ok b' => simp [Except.mapError]

theorem run_decodeField (s : String) : ((decodeField s).run exec db).2 = db := by
  unfold decodeField
  rw [run_ofExcept]

/-- The key is the enrolled one, or that of the local TPM. -/
theorem akPublicKey_passes {row : Option Machine} {key : Bytes} :
    ((akPublicKey platform row).run exec db).1 = .ok (some key) ↔
      (match row with
        | some row => (b64decode row.akPubB64).toOption
        | none => platform.readpublic) = some key := by
  cases row with
  | none => simp [akPublicKey, run]
  | some row =>
    change (((decodeField row.akPubB64).bind fun key => ret (some key)).run exec db).1 = _ ↔ _
    rw [run_bind_eq_ok]
    simp only [decodeField_passes, run, Except.ok.injEq, Option.some.injEq, exists_eq_right]
    cases b64decode row.akPubB64 with
    | error e => simp [Except.toOption]
    | ok b => simp [Except.toOption]

theorem checkQuote_passes {quoteMsg quoteSig : String} :
    ((checkQuote platform report quoteMsg quoteSig).run exec db).1 = .ok none ↔
      ∃ msg sig key, b64decode quoteMsg = .ok msg ∧ b64decode quoteSig = .ok sig ∧
        quoteKey platform report db = some key ∧
        platform.checkquote key msg sig report.nonce = true := by
  unfold checkQuote
  simp only [bind_eq, run_bind_eq_ok, decodeField_passes, run_decodeField, run_lookupMachine,
    Except.ok.injEq, exists_eq_left', run, pure_eq]
  constructor
  · rintro ⟨msg, hmsg, sig, hsig, akPub, hkey, hverdict⟩
    cases akPub with
    | none => cases hverdict
    | some key =>
      refine ⟨msg, sig, key, hmsg, hsig, akPublicKey_passes.mp hkey, ?_⟩
      by_contra hquote
      simp [hquote] at hverdict
  · rintro ⟨msg, sig, key, hmsg, hsig, hkey, hquote⟩
    exact ⟨msg, hmsg, sig, hsig, some key, akPublicKey_passes.mpr hkey, by simp [hquote]⟩

theorem verifyQuoteSignature_passes :
    ((verifyQuoteSignature platform report).run exec db).1 = .ok none ↔
      ∃ key, quoteKey platform report db = some key ∧ QuoteVerifies platform key report := by
  have hhandle : ∀ p : ServerM (Option Reason),
      ((p.handle fun _ => ret (some .quoteSignatureFailed)).run exec db).1 = .ok none ↔
        (p.run exec db).1 = .ok none := by
    intro p
    rw [run_handle]
    obtain ⟨outcome, s⟩ := p.run exec db
    cases outcome with
    | ok verdict => rfl
    | error e => simp [run]
  unfold verifyQuoteSignature QuoteVerifies
  cases truthy report.quoteMsgB64 with
  | none => simp [run]
  | some quoteMsg =>
    cases truthy report.quoteSigB64 with
    | none => simp [run]
    | some quoteSig =>
      dsimp only
      rw [hhandle, checkQuote_passes]
      constructor
      · rintro ⟨msg, sig, key, hmsg, hsig, hkey, hquote⟩
        exact ⟨key, hkey, quoteMsg, quoteSig, msg, sig, rfl, rfl, hmsg, hsig, hquote⟩
      · rintro ⟨key, hkey, m, s, msg, sig, hm, hs, hmsg, hsig, hquote⟩
        obtain rfl := Option.some.inj hm
        obtain rfl := Option.some.inj hs
        exact ⟨msg, sig, key, hmsg, hsig, hkey, hquote⟩

theorem checkStrictEk_passes :
    ((checkStrictEk platform policy report).run exec db).1 = .ok none ↔
      (policy.strictEkVerification = true →
        ∃ row, reportedMachine report db = some row ∧ row.ekVerified = true) := by
  unfold checkStrictEk reportedMachine
  by_cases hstrict : policy.strictEkVerification = true
  · rw [if_pos hstrict]
    cases truthy report.machineId with
    | none => simp [hstrict, run]
    | some machineId =>
      change Except.ok (strictEkVerdict platform machineId (db.enrolledMachines machineId)) =
        .ok none ↔ _
      rw [Option.bind_some]
      cases db.enrolledMachines machineId with
      | none => simp [strictEkVerdict, hstrict]
      | some row => simp [strictEkVerdict, hstrict]
  · rw [if_neg hstrict]
    simp [hstrict, run]

theorem checkPinnedRoot_passes :
    ((checkPinnedRoot platform report).run exec db).1 = .ok none ↔
      rootVerdict platform report (db.baselines.active.map (·.imaRoot)) = none := by
  change Except.ok (rootVerdict platform report _) = .ok none ↔ _
  rw [Except.ok.injEq]

theorem checkQuotePresent_eq_none :
    checkQuotePresent report = none ↔ report.quoteAvailable = true := by
  simp [checkQuotePresent]

/-- The checks after the nonce all pass on a database exactly if the report
verifies against it. -/
theorem reportChecks_pass :
    (∀ check ∈ reportChecks platform policy report, (check.run exec db).1 = .ok none) ↔
      Verifies platform policy report db := by
  simp only [reportChecks, List.forall_mem_cons, verifyQuoteSignature_passes,
    checkStrictEk_passes, checkMeasurements_passes, checkPinnedRoot_passes, checkPinnedPcr7_passes,
    run, Except.ok.injEq, checkQuotePresent_eq_none]
  constructor
  · rintro ⟨h1, h2, h3, h4, h5, h6, h7, -⟩
    exact ⟨h1, h2, h3, h4, h5, h6, h7⟩
  · rintro ⟨h1, h2, h3, h4, h5, h6, h7⟩
    exact ⟨h1, h2, h3, h4, h5, h6, h7, by simp⟩

/-- **When a report verifies, served alone**: its nonce has a row that has not
expired, and it verifies against the database. -/
theorem verified_iff {env : Env} :
    ((verifyReport platform policy report env).run exec db).1 = .ok none ↔
      nonceVerdict env.now (purgeNonces db.activeNonces env.now.isoformat report.nonce) = .ok none ∧
        Verifies platform policy report db := by
  rw [verifyReport_passes, reportChecks_pass, commit_consumeNonce]
  refine and_congr_right fun _ => ⟨fun h => ?_, fun h => ?_⟩
  · exact ⟨h.1, h.2, h.3, h.4, h.5, h.6, h.7⟩
  · exact ⟨h.1, h.2, h.3, h.4, h.5, h.6, h.7⟩

end Checks

/-! ## The same system -/

/-- The second report is of the same unchanged system as the first one: its PCRs are
the same dictionary, and its root is the same up to the case of its letters. -/
structure SameSystem (r r' : AttestationReport) : Prop where
  machineId : r'.machineId = r.machineId
  pcrs : ∀ index, r'.pcrs.get index = r.pcrs.get index
  imaSummary : r'.imaSummary = r.imaSummary
  imaMerkleRoot : r'.imaMerkleRoot.toList.map Char.toLower = r.imaMerkleRoot.toList.map Char.toLower
  imaMerkleDepth : r'.imaMerkleDepth = r.imaMerkleDepth
  imaLeafCount : r'.imaLeafCount = r.imaLeafCount

namespace SameSystem
variable {platform : Platform} {policy : Policy} {r r' : AttestationReport} {db db' : Database}
  (h : SameSystem r r')
include h

theorem mem_pcrs (p : String × String) : p ∈ r'.pcrs.items ↔ p ∈ r.pcrs.items := by
  rw [r'.pcrs.mem_items_iff, r.pcrs.mem_items_iff, h.pcrs]

/-- The lower case of the root is the same. -/
theorem lower_root (platform : Platform) (hroot : RootOk r.imaMerkleRoot) :
    platform.lower r'.imaMerkleRoot = platform.lower r.imaMerkleRoot ∧ RootOk r'.imaMerkleRoot := by
  obtain ⟨hlen, hhex⟩ := hroot
  obtain ⟨n, hn⟩ := Option.isSome_iff_exists.mp hhex
  have hplain := isPlain_of_intHex hn
  have hall : ∀ s : String, s.toList.all isPlain = (s.toList.map Char.toLower).all isPlain := by
    intro s
    rw [List.all_map]
    exact congrArg s.toList.all (funext fun c => (isPlain_toLower c).symm)
  have hplain' : r'.imaMerkleRoot.toList.all isPlain = true := by
    rw [hall, h.imaMerkleRoot, ← hall]
    exact hplain
  have hlower : platform.lower r'.imaMerkleRoot = platform.lower r.imaMerkleRoot := by
    unfold Platform.lower
    rw [lower_plain _ hplain', lower_plain _ hplain, h.imaMerkleRoot]
  have hlength : r'.imaMerkleRoot.length = r.imaMerkleRoot.length := by
    have hmap := congrArg List.length h.imaMerkleRoot
    simpa only [List.length_map, String.length_toList] using hmap
  refine ⟨hlower, hlength.trans hlen, ?_⟩
  rw [← intHex_lower platform.lowerTable hplain']
  change (intHex (platform.lower r'.imaMerkleRoot)).isSome
  rw [hlower]
  exact (rootOk_lower ⟨hlen, hhex⟩).2

theorem checkImaRoot_eq_none (hroot : checkImaRoot platform r = none) :
    checkImaRoot platform r' = none := by
  obtain ⟨hlen, hhex⟩ := (h.lower_root platform (rootOk_of_checkImaRoot hroot)).2
  have hcount : 0 < r.imaLeafCount := by
    unfold checkImaRoot at hroot
    split_ifs at hroot
    omega
  unfold checkImaRoot
  rw [if_neg (not_not.mpr hlen), if_neg (by simp [Option.isSome_iff_ne_none.mp hhex]),
    if_neg (by rw [h.imaLeafCount]; omega)]

theorem measurementsOk {isEnrolled : Bool} (hm : MeasurementsOk platform r isEnrolled) :
    MeasurementsOk platform r' isEnrolled := by
  obtain ⟨hsome, hzero, hboot, hroot⟩ := hm
  refine ⟨?_, ?_, ?_, h.checkImaRoot_eq_none hroot⟩
  · rw [List.isEmpty_eq_false_iff_exists_mem] at hsome ⊢
    exact hsome.imp fun p => (h.mem_pcrs p).mpr
  · unfold zeroPcr at hzero ⊢
    rw [Option.map_eq_none_iff, List.find?_eq_none] at hzero ⊢
    exact fun p hp => hzero p ((h.mem_pcrs p).mp hp)
  · unfold checkBootAggregate at hboot ⊢
    rwa [h.imaSummary]

end SameSystem

/-! ## What complete requests leave as it is -/

section
variable {platform : Platform} {policy : Policy} {db db' : Database} {log : List Served}

/-- Only a `/register` for the machine changes its row. -/
theorem enrolledMachines_serveAlone (policy : Policy) {arrival : Arrival} {machineId : String}
    (h : ∀ req, arrival.request = .register req → req.machineId ≠ machineId) (db : Database) :
    (serveAlone platform policy arrival db).2.enrolledMachines machineId =
      db.enrolledMachines machineId := by
  refine serveAlone_invariant
    (I := fun s : Database => s.enrolledMachines machineId = db.enrolledMachines machineId) policy
    ?_ rfl
  intro op s hop hs
  refine (enrolledMachines_commit ?_).trans hs
  rintro row rfl
  obtain ⟨req, hreq, hid, -⟩ := hop
  exact h req hreq hid.symm

theorem enrolledMachines_of_sequential {machineId : String} (h : Sequential platform db log db')
    (hreg : ∀ s ∈ log, ∀ req, s.arrival.request = .register req → req.machineId ≠ machineId) :
    db'.enrolledMachines machineId = db.enrolledMachines machineId := by
  induction h with
  | nil => rfl
  | @next log db₁ _ policy arrival ih =>
    have hlast : ∀ req, arrival.request = .register req → req.machineId ≠ machineId :=
      hreg ⟨policy, arrival, (serveAlone platform policy arrival db₁).1⟩ (by simp)
    rw [enrolledMachines_serveAlone policy hlast]
    exact ih fun s hs => hreg s (List.mem_append_left _ hs)

/-- The row of a report's machine stays, while the machine is not registered. -/
theorem reportedMachine_eq {r r' : AttestationReport} (hid : r'.machineId = r.machineId)
    (h : ∀ machineId, r.machineId = some machineId →
      db'.enrolledMachines machineId = db.enrolledMachines machineId) :
    reportedMachine r' db' = reportedMachine r db := by
  unfold reportedMachine
  rw [hid]
  cases htruthy : truthy r.machineId with
  | none => rfl
  | some machineId => exact h machineId (truthy_eq_some.mp htruthy).1

/-- A nonce that has not expired passes its check. -/
theorem nonceVerdict_unexpired {nonce : String} {now expiry : DateTime}
    (hrow : db.activeNonces nonce = some expiry.isoformat) (hfresh : ¬ expiry < now) :
    nonceVerdict now (purgeNonces db.activeNonces now.isoformat nonce) = .ok none := by
  have hkept : purgeNonces db.activeNonces now.isoformat nonce = some expiry.isoformat := by
    have htext : ¬ expiry.isoformat < now.isoformat := by
      rwa [DateTime.isoformat_lt_iff]
    unfold purgeNonces
    rw [hrow, Option.filter_some, if_pos (decide_eq_true htext)]
  rw [hkept, nonceVerdict_isoformat, if_neg hfresh]

/-- The answer to a report that verifies. -/
theorem run_attest_verified {report : AttestationReport} {env : Env}
    (h : ((verifyReport platform policy report env).run exec db).1 = .ok none) :
    ((attest platform policy report env).run exec db).1 =
      (env.later.addSeconds (tokenLifetimeMinutes * 60)).map fun expiresAt =>
        .valid env.uuid expiresAt.isoformat := by
  rw [run_attest, h]

/-- An `/enroll` that succeeds has verified its report without a pinned baseline. -/
theorem verifies_of_enrolled {r : AttestationReport} {env : Env} {root : String} (hdb : Valid db)
    (h : (serveAlone platform policy ⟨.enroll r, env⟩ db).1 = .ok (.enrolled root)) :
    RootOk r.imaMerkleRoot ∧
      Verifies platform policy r { db with baselines := db.baselines.deactivateAll } := by
  obtain ⟨verdict, hverdict, hcases⟩ := enroll_alone platform policy r env hdb
  cases verdict with
  | some reason => cases hcases.1.symm.trans h
  | none => exact ⟨hcases.2.1, (verified_iff.mp hverdict).2⟩

/-- The baseline that is effective while no other `/enroll` succeeds. -/
theorem active_of_enrolled {log' : List Served} {db₂ : Database} {r : AttestationReport} {env : Env}
    {root : String} (h : Sequential platform .empty log db)
    (henroll : (serveAlone platform policy ⟨.enroll r, env⟩ db).1 = .ok (.enrolled root))
    (h' : Sequential platform (serveAlone platform policy ⟨.enroll r, env⟩ db).2 log' db₂)
    (hno : enrollments log' = []) :
    ∃ id, db₂.baselines.active = some (Enrollment.row platform ⟨r, env⟩ id) := by
  have hlatest : latestEnrollment ((log ++ [⟨policy, ⟨.enroll r, env⟩,
      (serveAlone platform policy ⟨.enroll r, env⟩ db).1⟩]) ++ log') = some ⟨r, env⟩ := by
    rw [henroll, latestEnrollment, enrollments_append, hno, List.append_nil, enrollments_snoc]
    exact List.getLast?_concat
  have hactive := active_of_sequential ((h.next policy ⟨.enroll r, env⟩).append h')
  rw [hlatest] at hactive
  exact ⟨_, hactive⟩

end

/-- A nonce for a later report, a rejected enrollment, and another machine's
registration. -/
def laterRequests : List (Policy × Arrival) :=
  [(laxPolicy, ⟨.challenge, { sampleEnv with token := "beef" }⟩),
    (laxPolicy, ⟨.enroll (sampleReport "unknown"), sampleEnv⟩),
    (laxPolicy, ⟨.register ⟨"other", "AAAA", none⟩, sampleEnv⟩)]

/-- The sample report, with the letters of its root in upper case. -/
def upperCaseReport : AttestationReport :=
  { sampleReport "beef" with
    imaMerkleRoot := "0123456789ABCDEF0123456789ABCDEF0123456789ABCDEF0123456789ABCDEF" }

end TpmAttest
