import TpmAttest.AttestAtomicity
import TpmAttest.SequentialRuns

/-! # Enrollments that the database fails

An `/enroll` clears the flags in one transaction and verifies its report in others.
If the database fails one of these, the error leaves the endpoint, past the code
that restores the flags; only the signature check handles it, and takes it for a
bad quote.  `failed_enroll_iff` says which failing transactions leave the effective
baseline as it was.
-/
namespace TpmAttest

open Python Transactional Program

/-- What is effective of the table of baselines: the root and the PCR values. -/
def Database.effective (db : Database) : Option (String × Dict) :=
  db.baselines.active.map fun row => (row.imaRoot, row.pcrJson)

/-- The database when an `/enroll` has cleared the flags. -/
def Database.cleared (db : Database) : Database :=
  { db with baselines := db.baselines.deactivateAll }

/-- The transactions of an `/enroll` served alone, up to the end of
`_verify_report`. -/
def verificationTransactions (platform : Platform) (policy : Policy) (report : AttestationReport)
    (env : Env) (db : Database) : List Tx :=
  .selectActiveRoot :: .deactivateAll ::
    (verifyReport platform policy report env).transactions exec db.cleared

/-- An `/enroll` served alone, with its `k`-th transaction failed by the database. -/
def enrollFault (platform : Platform) (policy : Policy) (report : AttestationReport) (env : Env)
    (text : String) (k : Nat) (db : Database) : Except Exn Response × Database :=
  (enroll platform policy report env).runFault exec (.databaseError text) k db

section
variable {platform : Platform} {policy : Policy} {report : AttestationReport} {env : Env}
  {e : Exn} {n : Nat} {s : Database}

/-! ## Faults in the checks -/

theorem lookupMachine_transparent (machineId : Option String) :
    (lookupMachine machineId).Transparent := by
  unfold lookupMachine
  split
  · exact transparent_perform _
  · trivial

theorem checkStrictEk_transparent : (checkStrictEk platform policy report).Transparent := by
  unfold checkStrictEk
  split
  · split
    · trivial
    · exact (transparent_perform _).bind fun _ => trivial
  · trivial

theorem checkMeasurements_transparent : (checkMeasurements platform report).Transparent := by
  unfold checkMeasurements
  split
  · trivial
  · exact (lookupMachine_transparent _).bind fun _ => trivial

theorem checkPinnedRoot_transparent : (checkPinnedRoot platform report).Transparent :=
  (transparent_perform _).bind fun _ => trivial

theorem checkPinnedPcr7_transparent : (checkPinnedPcr7 platform policy report).Transparent := by
  unfold checkPinnedPcr7
  split
  · have hpinned : (getPinnedPcr "7").Transparent := (transparent_perform _).bind fun _ => trivial
    exact hpinned.bind fun _ => trivial
  · trivial

theorem inOrder_transparent {checks : List (ServerM (Option Reason))}
    (h : ∀ check ∈ checks, check.Transparent) : (inOrder checks).Transparent := by
  induction checks with
  | nil => trivial
  | cons check checks ih =>
    rw [List.forall_mem_cons] at h
    refine h.1.bind fun verdict => ?_
    cases verdict with
    | none => exact ih h.2
    | some reason => trivial

/-- The checks after the signature check. -/
def checksAfterSignature (platform : Platform) (policy : Policy) (report : AttestationReport) :
    List (ServerM (Option Reason)) :=
  [checkStrictEk platform policy report, checkMeasurements platform report,
    checkPinnedRoot platform report, checkPinnedPcr7 platform policy report,
    ret (checkMinimumEntries policy report)]

theorem checksAfterSignature_transparent :
    (inOrder (checksAfterSignature platform policy report)).Transparent := by
  refine inOrder_transparent ?_
  simp only [checksAfterSignature, List.forall_mem_cons]
  exact ⟨checkStrictEk_transparent, checkMeasurements_transparent, checkPinnedRoot_transparent,
    checkPinnedPcr7_transparent, trivial, fun check h => (List.not_mem_nil h).elim⟩

/-- A fault in checks of which the first performs nothing. -/
theorem runFault_inOrder_ret {verdict : Option Reason} {checks : List (ServerM (Option Reason))}
    (hn : n < ((inOrder (ret verdict :: checks)).transactions exec s).length) :
    verdict = none ∧ n < ((inOrder checks).transactions exec s).length ∧
      (inOrder (ret verdict :: checks)).runFault exec e n s =
        (inOrder checks).runFault exec e n s := by
  cases verdict with
  | some reason => exact absurd hn (Nat.not_lt_zero n)
  | none => exact ⟨rfl, hn, rfl⟩

/-- **A fault in the checks after the nonce** is raised, unless it strikes the
signature check's lookup, which is the first transaction of a report that names a
machine. -/
theorem runFault_checks
    (hn : n < ((inOrder (reportChecks platform policy report)).transactions exec s).length) :
    ((inOrder (reportChecks platform policy report)).runFault exec e n s).1 =
      if n = 0 ∧ (truthy report.machineId).isSome then .ok (some .quoteSignatureFailed)
      else .error e := by
  obtain ⟨-, hn, hrun⟩ := runFault_inOrder_ret (e := e) hn
  rw [show reportChecks platform policy report = _ :: _ from rfl, hrun]
  change n < ((inOrder (verifyQuoteSignature platform report ::
    checksAfterSignature platform policy report)).transactions exec s).length at hn
  change ((inOrder (verifyQuoteSignature platform report ::
    checksAfterSignature platform policy report)).runFault exec e n s).1 = _
  have hrest : ∀ {n s}, n < ((inOrder (checksAfterSignature platform policy report)).transactions
      exec s).length →
      ((inOrder (checksAfterSignature platform policy report)).runFault exec e n s).1 = .error e :=
    fun h => checksAfterSignature_transparent.runFault_eq h
  have hatomic : (verifyQuoteSignature platform report).Atomic := verifyQuoteSignature_atomic
  rcases verifyQuoteSignature_shape platform report with
    ⟨verdict, heq, hnone⟩ | ⟨machineId, next, hid, heq, herror⟩
  · rw [heq] at hn ⊢
    obtain ⟨hverdict, hn, hrun⟩ := runFault_inOrder_ret (e := e) hn
    rw [hrun, hrest hn, if_neg (by simp [hnone hverdict])]
  · have hfin : ∀ r, (next r).Finished := by
      rw [heq] at hatomic
      exact hatomic
    rw [heq] at hn ⊢
    cases n with
    | zero =>
      -- the lookup itself fails, and the handler takes it for a bad quote
      change (((next (.error e)).bind _).run exec s).1 = _
      rw [herror, if_pos ⟨rfl, by simp [hid]⟩]
      rfl
    | succ n =>
      rw [if_neg (by simp)]
      generalize hr : (commit exec (.selectMachine machineId) s).1 = r at hn
      have hfin := hfin r
      change n + 1 < (Tx.selectMachine machineId ::
        ((next (commit exec (.selectMachine machineId) s).1).bind _).transactions exec _).length at hn
      change (((next (commit exec (.selectMachine machineId) s).1).bind _).runFault exec e n _).1 = _
      rw [hr] at hn ⊢
      have hn := Nat.lt_of_succ_lt_succ hn
      cases hnext : next r with
      | raise e' =>
        rw [hnext] at hn
        exact absurd hn (Nat.not_lt_zero n)
      | call op next' =>
        rw [hnext] at hfin
        exact hfin.elim
      | ret verdict =>
        rw [hnext] at hn
        cases verdict with
        | some reason => exact absurd hn (Nat.not_lt_zero n)
        | none => exact hrest hn

/-- A fault in the verification of a report: the first transaction consumes the
nonce. -/
theorem runFault_verifyReport
    (hn : n < ((verifyReport platform policy report env).transactions exec s).length) :
    ((verifyReport platform policy report env).runFault exec e n s).1 =
      if n = 1 ∧ (truthy report.machineId).isSome then .ok (some .quoteSignatureFailed)
      else .error e := by
  unfold verifyReport at hn ⊢
  have htransparent : (consumeNonce report.nonce env.now).Transparent :=
    (transparent_perform _).bind fun _ => transparent_ofExcept _
  have hlength : ((consumeNonce report.nonce env.now).transactions exec s).length = 1 := by
    change (_ :: ((ofExcept _).bind fun row => ofExcept (nonceVerdict env.now row)).transactions
      exec _).length = 1
    rw [commit_consumeNonce]
    change (_ :: (ofExcept (nonceVerdict env.now _)).transactions exec _).length = 1
    cases nonceVerdict env.now _ <;> rfl
  rw [inOrder] at hn ⊢
  cases n with
  | zero =>
    have hlt : 0 < ((consumeNonce report.nonce env.now).transactions exec s).length := by omega
    rw [runFault_bind_of_lt hlt, if_neg (by simp)]
    have hraised := htransparent.runFault_eq (e := e) hlt
    generalize (consumeNonce report.nonce env.now).runFault exec e 0 s = r at hraised ⊢
    obtain ⟨outcome, s'⟩ := r
    obtain rfl : outcome = .error e := hraised
    rfl
  | succ n =>
    rw [transactions_bind, List.length_append, hlength] at hn
    rw [runFault_bind_of_le (by omega), hlength]
    generalize (consumeNonce report.nonce env.now).run exec s = r at hn ⊢
    obtain ⟨outcome, s'⟩ := r
    cases outcome with
    | error e' => exact absurd hn (by simp)
    | ok verdict =>
      cases verdict with
      | some reason => exact absurd hn (by simp [transactions])
      | none =>
        dsimp only at hn ⊢
        rw [runFault_checks (by omega)]
        simp

/-- A fault in the verification leaves the flags cleared. -/
theorem baselines_runFault_verifyReport (t : BaselineTable) (hs : s.baselines = t) :
    ((verifyReport platform policy report env).runFault exec e n s).2.baselines = t := by
  have hensures : (verifyReport platform policy report env).Ensures (fun _ _ => True) _ _ _ :=
    verifyReport_ensures (E := fun _ => True) (fun _ _ _ => trivial)
      (fun _ _ _ _ _ _ => trivial) report env
  refine hensures.runFault_invariant (I := fun s : Database => s.baselines = t) ?_ hs
  rintro op s (rfl | hop) hs
  · rw [baselines_commit]
    exact hs
  · rw [commit_lookup hop]
    exact hs

/-! ## Failed enrollments -/

theorem effective_congr {db db' : Database} (h : db.baselines.active = db'.baselines.active) :
    db.effective = db'.effective := by
  rw [Database.effective, Database.effective, h]

theorem effective_cleared {db : Database} (h : db.baselines = s.baselines.deactivateAll) :
    db.effective = none := by
  have hnone : db.baselines.active = none := by
    rw [h, BaselineTable.active_eq_none]
    exact BaselineTable.isActive_deactivateAll
  rw [Database.effective, hnone]
  rfl

/-- These are the first transactions of the `/enroll`. -/
theorem transactions_enroll (db : Database) :
    verificationTransactions platform policy report env db <+:
      (enroll platform policy report env).transactions exec db := by
  have henroll : (enroll platform policy report env).transactions exec db =
      .selectActiveRoot :: .deactivateAll :: ((verifyReport platform policy report env).bind
        (enrollResponse platform report env (db.baselines.active.map (·.imaRoot)))).transactions
          exec db.cleared := rfl
  rw [henroll, transactions_bind]
  exact ⟨_, rfl⟩

/-- An `/enroll` whose verification ends with an error leaves the flags cleared; one
that is rejected restores what was effective. -/
theorem effective_enrollFault {db : Database} (text : String) {k : Nat} (hdb : Valid db)
    (hk : k + 2 < (verificationTransactions platform policy report env db).length) :
    if k = 1 ∧ (truthy report.machineId).isSome then
      (enrollFault platform policy report env text (k + 2) db).1 =
          .ok (.enrollRejected .quoteSignatureFailed) ∧
        (enrollFault platform policy report env text (k + 2) db).2.effective = db.effective
    else
      (enrollFault platform policy report env text (k + 2) db).1 = .error (.databaseError text) ∧
        (enrollFault platform policy report env text (k + 2) db).2.effective = none := by
  have hlt : k < ((verifyReport platform policy report env).transactions exec db.cleared).length :=
    Nat.lt_of_succ_lt_succ (Nat.lt_of_succ_lt_succ hk)
  have hrun : enrollFault platform policy report env text (k + 2) db =
      ((verifyReport platform policy report env).bind (enrollResponse platform report env
        (db.baselines.active.map (·.imaRoot)))).runFault exec (.databaseError text) k
          db.cleared := rfl
  have hverdict := runFault_verifyReport (e := .databaseError text) hlt
  have hstore : ((verifyReport platform policy report env).runFault exec (.databaseError text) k
      db.cleared).2.baselines = db.baselines.deactivateAll := baselines_runFault_verifyReport _ rfl
  rw [hrun, runFault_bind_of_lt hlt]
  generalize (verifyReport platform policy report env).runFault exec (.databaseError text) k
    db.cleared = r at hverdict hstore ⊢
  obtain ⟨outcome, s⟩ := r
  split
  · rename_i hsig
    rw [if_pos hsig] at hverdict
    obtain rfl : outcome = .ok (some .quoteSignatureFailed) := hverdict
    obtain ⟨hresp, hrestored⟩ := run_enrollResponse_rejected report env .quoteSignatureFailed hstore
    exact ⟨hresp, effective_congr (hrestored ▸ active_restored hdb.settled)⟩
  · rename_i hsig
    rw [if_neg hsig] at hverdict
    obtain rfl : outcome = .error (.databaseError text) := hverdict
    exact ⟨rfl, effective_cleared hstore⟩

end

/-- **Which failing transactions keep the baseline.**  From a reachable database with
an effective baseline, when the database fails the `k`-th transaction up to the end
of `_verify_report`, an `/enroll` that is not answered with 200 leaves the effective
baseline as it was, exactly if the transaction is one of the first two, or the
signature check's lookup. -/
theorem failed_enroll_iff (platform : Platform) (policy : Policy) (report : AttestationReport)
    (env : Env) (db : Database) (hreach : Reachable platform db)
    (hactive : db.baselines.active.isSome) (text : String) (k : Nat)
    (hk : k < (verificationTransactions platform policy report env db).length) :
    ((∀ root, (enrollFault platform policy report env text k db).1 ≠ .ok (.enrolled root)) →
        (enrollFault platform policy report env text k db).2.effective = db.effective) ↔
      k < 2 ∨ (k = 3 ∧ (truthy report.machineId).isSome) := by
  match k with
  | 0 => exact iff_of_true (fun _ => rfl) (Or.inl (by decide))
  | 1 => exact iff_of_true (fun _ => rfl) (Or.inl (by decide))
  | k + 2 =>
    have hfault := effective_enrollFault text (valid_of_reachable hreach) hk
    split at hfault
    · rename_i hsig
      exact iff_of_true (fun _ => hfault.2) (Or.inr ⟨by omega, hsig.2⟩)
    · rename_i hsig
      refine iff_of_false (fun h => ?_) ?_
      · -- the error is the answer, and nothing is effective
        have hlost := h (by rw [hfault.1]; simp)
        rw [hfault.2, Database.effective, eq_comm, Option.map_eq_none_iff] at hlost
        rw [hlost] at hactive
        cases hactive
      · rintro (hlt | ⟨heq, hid⟩)
        · omega
        · exact hsig ⟨by omega, hid⟩

/-- The clearing fails: the baseline stays. -/
theorem failed_enroll_iff_clearing :
    (enrollFault lenientPlatform laxPolicy (sampleReport "unknown") sampleEnv "disk I/O error" 1
      pinnedDatabase).2.effective = pinnedDatabase.effective := by
  refine (failed_enroll_iff lenientPlatform laxPolicy (sampleReport "unknown") sampleEnv
    pinnedDatabase reachable_pinnedDatabase (by decide +kernel) "disk I/O error" 1
    (by decide +kernel)).mpr (Or.inl (by decide)) fun root h => ?_
  cases h

/-- The consumption of the nonce fails: the baseline is lost. -/
theorem failed_enroll_loses :
    Reachable lenientPlatform pinnedDatabase ∧ pinnedDatabase.baselines.active.isSome ∧
      2 < (verificationTransactions lenientPlatform laxPolicy (sampleReport "unknown") sampleEnv
        pinnedDatabase).length ∧
      (enrollFault lenientPlatform laxPolicy (sampleReport "unknown") sampleEnv "disk I/O error" 2
        pinnedDatabase).1 = .error (.databaseError "disk I/O error") ∧
      (enrollFault lenientPlatform laxPolicy (sampleReport "unknown") sampleEnv "disk I/O error" 2
        pinnedDatabase).2.effective ≠ pinnedDatabase.effective :=
  ⟨reachable_pinnedDatabase, by decide +kernel, by decide +kernel, by decide +kernel,
    by decide +kernel⟩

end TpmAttest
