import TpmAttest.ReachableStates

/-! # What the quote binds

The signature check hands `tpm2_checkquote` the key, the quote, the signature and
the nonce, but no PCR values, so the `pcrs` of a report are only what the client
wrote.  `accepted_iff` is the closed form of an `/attest` served alone: its nonce
passes, and each check passes on the database that this leaves.  From it,
`quoted_pcr_bound_iff` says which PCR values of an accepted report are bound to
its quote: PCR 7, when the policy pins it to the active baseline, and no other.
-/
namespace TpmAttest

open Python Transactional Program

section
variable (platform : Platform) (policy : Policy)

/-- `/attest` served alone from `db` accepts the report. -/
def Accepted (env : Env) (db : Database) (report : AttestationReport) : Prop :=
  ∃ token expiresAt,
    ((attest platform policy report env).run exec db).1 = .ok (.valid token expiresAt)

end

/-! ## Checks run alone -/

section Alone
variable {platform : Platform} {policy : Policy} {report : AttestationReport}

theorem commit_lookup {op : Tx} (h : IsLookup report op) (db : Database) :
    (commit exec op db).2 = db := by
  cases op with
  | selectMachine machineId => rfl
  | selectActiveRoot => rfl
  | selectActivePcrJson => rfl
  | _ => exact h.elim

/-- A program of lookups leaves the database as it is. -/
theorem run_lookups {α : Type} {p : ServerM α} {Q : α → Prop}
    (hp : p.Ensures (fun _ _ => True) (IsLookup report) Q fun _ => True) (db : Database) :
    (p.run exec db).2 = db := by
  refine hp.run_invariant (I := (· = db)) ?_ rfl
  rintro op _ hop rfl
  exact ⟨trivial, commit_lookup hop _⟩

theorem run_reportChecks {check : ServerM (Option Reason)}
    (h : check ∈ reportChecks platform policy report) (db : Database) :
    (check.run exec db).2 = db := by
  have hE : ∀ op (e : Exn), IsLookup report op → True → True := fun _ _ _ _ => trivial
  simp only [reportChecks, List.mem_cons, List.not_mem_nil, or_false] at h
  rcases h with rfl | rfl | rfl | rfl | rfl | rfl | rfl
  · rfl
  · exact run_lookups verifyQuoteSignature_ensures db
  · exact run_lookups (checkStrictEk_ensures hE) db
  · exact run_lookups (checkMeasurements_ensures hE) db
  · exact run_lookups (checkPinnedRoot_ensures hE) db
  · exact run_lookups (checkPinnedPcr7_ensures hE) db
  · rfl

section InOrder
variable {check : ServerM (Option Reason)} {checks : List (ServerM (Option Reason))}
  {outcome : Except Exn (Option Reason)} {db : Database}

/-- A check that does not pass, run alone before others. -/
theorem run_inOrder_stop (hcheck : (check.run exec db).1 = outcome) (hstop : outcome ≠ .ok none) :
    ((inOrder (check :: checks)).run exec db).1 = outcome := by
  rw [inOrder, run_bind]
  generalize check.run exec db = r at hcheck
  obtain ⟨r, s⟩ := r
  obtain rfl : r = outcome := hcheck
  cases r with
  | error e => rfl
  | ok verdict =>
    cases verdict with
    | none => exact absurd rfl hstop
    | some reason => rfl

/-- A check that passes, run alone before others. -/
theorem run_inOrder_pass (h : (check.run exec db).2 = db)
    (hcheck : (check.run exec db).1 = .ok none) :
    ((inOrder (check :: checks)).run exec db).1 = ((inOrder checks).run exec db).1 := by
  rw [inOrder, run_bind]
  generalize check.run exec db = r at h hcheck
  obtain ⟨r, s⟩ := r
  obtain rfl : s = db := h
  obtain rfl : r = .ok none := hcheck
  rfl

/-- Checks that leave the database as it is pass if each of them does. -/
theorem inOrder_passes (h : ∀ check ∈ checks, (check.run exec db).2 = db) :
    ((inOrder checks).run exec db).1 = .ok none ↔
      ∀ check ∈ checks, (check.run exec db).1 = .ok none := by
  induction checks with
  | nil => simp [inOrder, run]
  | cons check checks ih =>
    rw [List.forall_mem_cons] at h ⊢
    by_cases hpass : (check.run exec db).1 = .ok none
    · rw [run_inOrder_pass h.1 hpass, ih h.2]
      exact (and_iff_right hpass).symm
    · rw [run_inOrder_stop rfl hpass]
      exact iff_of_false hpass fun hall => hpass hall.1

end InOrder

theorem run_consumeNonce (nonce : String) (now : DateTime) (db : Database) :
    (consumeNonce nonce now).run exec db =
      (nonceVerdict now (purgeNonces db.activeNonces now.isoformat nonce),
        (commit exec (.consumeNonce nonce now) db).2) := by
  change ((perform (Tx.consumeNonce nonce now)).bind _).run exec db = _
  rw [run_bind, run_perform, commit_consumeNonce]
  exact run_ofExcept exec _ _

theorem run_lookupMachine (machineId : Option String) (db : Database) :
    (lookupMachine machineId).run exec db =
      (.ok ((truthy machineId).bind db.enrolledMachines), db) := by
  unfold lookupMachine
  cases truthy machineId <;> rfl

/-- The measurement checks pass. -/
def MeasurementsOk (platform : Platform) (report : AttestationReport) (isEnrolled : Bool) : Prop :=
  report.pcrs.items.isEmpty = false ∧ zeroPcr platform report isEnrolled = none ∧
    checkBootAggregate report isEnrolled = none ∧ checkImaRoot platform report = none

theorem checkMeasurements_passes (db : Database) :
    ((checkMeasurements platform report).run exec db).1 = .ok none ↔
      MeasurementsOk platform report ((truthy report.machineId).bind db.enrolledMachines).isSome := by
  unfold checkMeasurements MeasurementsOk
  split
  · rename_i hempty
    simp [hempty, run]
  · rename_i hempty
    rw [bind_eq, run_bind, run_lookupMachine]
    simp [hempty, run]

/-- The value that the effective baseline pins for a PCR. -/
def pinnedPcr (db : Database) (index : String) : Option String :=
  (db.baselines.active.map (·.pcrJson)).bind fun pcrMap => pcrMap.get index

theorem checkPinnedPcr7_passes (db : Database) :
    ((checkPinnedPcr7 platform policy report).run exec db).1 = .ok none ↔
      (policy.requirePcr7Pinning = true →
        pcr7Verdict platform report (pinnedPcr db "7") = none) := by
  unfold checkPinnedPcr7
  by_cases hpolicy : policy.requirePcr7Pinning = true
  · rw [if_pos hpolicy]
    change Except.ok (pcr7Verdict platform report (pinnedPcr db "7")) = .ok none ↔ _
    simp [hpolicy]
  · rw [if_neg hpolicy]
    simp [hpolicy, run]

theorem run_inOrder_reportChecks (db : Database) :
    ((inOrder (reportChecks platform policy report)).run exec db).2 = db :=
  run_lookups (reportChecks_ensures fun _ _ _ _ => trivial) db

/-- **A report verified alone**: its nonce is consumed, and unless that gives a
reason the other checks are run on the database without the nonce. -/
theorem run_verifyReport (env : Env) (db : Database) :
    (verifyReport platform policy report env).run exec db =
      (match nonceVerdict env.now (purgeNonces db.activeNonces env.now.isoformat report.nonce) with
        | .ok none => ((inOrder (reportChecks platform policy report)).run exec
            (commit exec (.consumeNonce report.nonce env.now) db).2).1
        | verdict => verdict,
      (commit exec (.consumeNonce report.nonce env.now) db).2) := by
  unfold verifyReport
  rw [inOrder, run_bind, run_consumeNonce]
  cases nonceVerdict env.now (purgeNonces db.activeNonces env.now.isoformat report.nonce) with
  | error e => rfl
  | ok verdict =>
    cases verdict with
    | none => exact Prod.ext rfl (run_inOrder_reportChecks _)
    | some reason => rfl

/-- The report passes its nonce check and then every other one, on the database
without the nonce. -/
theorem verifyReport_passes {env : Env} {db : Database} :
    ((verifyReport platform policy report env).run exec db).1 = .ok none ↔
      nonceVerdict env.now (purgeNonces db.activeNonces env.now.isoformat report.nonce) =
          .ok none ∧
        ∀ check ∈ reportChecks platform policy report,
          (check.run exec (commit exec (.consumeNonce report.nonce env.now) db).2).1 = .ok none := by
  rw [← inOrder_passes fun check h => run_reportChecks h _, run_verifyReport]
  cases nonceVerdict env.now (purgeNonces db.activeNonces env.now.isoformat report.nonce) with
  | error e => simp
  | ok verdict =>
    cases verdict with
    | none => simp
    | some reason => simp

/-- The answer of an `/attest` served alone. -/
theorem run_attest {env : Env} {db : Database} :
    ((attest platform policy report env).run exec db).1 =
      match ((verifyReport platform policy report env).run exec db).1 with
      | .error e => .error e
      | .ok (some reason) => .ok (.invalid reason)
      | .ok none => (env.later.addSeconds (tokenLifetimeMinutes * 60)).map fun expiresAt =>
          .valid env.uuid expiresAt.isoformat := by
  unfold attest
  rw [bind_eq, run_bind]
  generalize (verifyReport platform policy report env).run exec db = r
  obtain ⟨outcome, s⟩ := r
  cases outcome with
  | error e => rfl
  | ok verdict =>
    cases verdict with
    | some reason => rfl
    | none =>
      cases hadd : env.later.addSeconds (tokenLifetimeMinutes * 60) with
      | error e => simp [attestResponse, hadd, run, Except.map]
      | ok expiresAt => simp [attestResponse, hadd, run, Except.map]

/-- **When an `/attest` served alone accepts**: the report is verified, and the
expiry of the token is a date. -/
theorem accepted_iff {env : Env} {db : Database} :
    Accepted platform policy env db report ↔
      ((verifyReport platform policy report env).run exec db).1 = .ok none ∧
        ∃ expiresAt, env.later.addSeconds (tokenLifetimeMinutes * 60) = .ok expiresAt := by
  unfold Accepted
  rw [run_attest]
  cases ((verifyReport platform policy report env).run exec db).1 with
  | error e => simp
  | ok verdict =>
    cases verdict with
    | some reason => simp
    | none =>
      cases env.later.addSeconds (tokenLifetimeMinutes * 60) with
      | error e => simp [Except.map]
      | ok expiresAt => simp [Except.map]

end Alone

/-! ## What the quote binds -/

/-- The PCRs that the agent's `_PCR_SELECTION` has quoted. -/
def quotedPcrs : List String := ["0", "1", "4", "7", "9", "10"]

/-- The value of a PCR, as a hexadecimal number. -/
def AttestationReport.pcrNumber (report : AttestationReport) (index : String) : Option Int :=
  (report.pcrs.get index).bind intHex

/-- The reports agree in all that the signature check reads. -/
structure SameQuote (r₁ r₂ : AttestationReport) : Prop where
  nonce : r₁.nonce = r₂.nonce
  machineId : r₁.machineId = r₂.machineId
  quoteMsg : r₁.quoteMsgB64 = r₂.quoteMsgB64
  quoteSig : r₁.quoteSigB64 = r₂.quoteSigB64

/-- The dictionary with another value for a key that it has. -/
def Dict.set (d : Dict) (key value : String) : Dict where
  items := d.items.map fun p => if p.1 = key then (p.1, value) else p
  nodup := by
    have hkeys : (d.items.map fun p => if p.1 = key then (p.1, value) else p).map Prod.fst =
        d.items.map Prod.fst := by
      rw [List.map_map]
      refine List.map_congr_left fun p _ => ?_
      by_cases hp : p.1 = key
      · simp [hp]
      · simp [hp]
    rw [hkeys]
    exact d.nodup

theorem Dict.get_set (d : Dict) (key value index : String) :
    (d.set key value).get index =
      if index = key then (d.get index).map fun _ => value else d.get index := by
  unfold get set
  dsimp only
  induction d.items with
  | nil => simp
  | cons p l ih =>
    obtain ⟨k, v⟩ := p
    by_cases hk : k = key
    · subst hk
      by_cases hi : index = k
      · simp [hi]
      · have hbeq : (index == k) = false := beq_false_of_ne hi
        simpa [List.lookup_cons, hi, hbeq] using ih
    · by_cases hi : index = k
      · simp [hi, hk]
      · have hbeq : (index == k) = false := beq_false_of_ne hi
        simpa [List.lookup_cons, hk, hbeq] using ih

section Binding
variable {platform : Platform} {policy : Policy} {db : Database} {r₁ r₂ : AttestationReport}

/-- The pinned PCR 7 of an accepted report. -/
theorem pcr7_of_accepted {env : Env} {report : AttestationReport}
    (h : Accepted platform policy env db report) (hpolicy : policy.requirePcr7Pinning = true)
    {pinned : String} (hpinned : pinnedPcr db "7" = some pinned) :
    platform.lower ((report.pcrs.get "7").getD "") = platform.lower pinned := by
  have hchecks := (verifyReport_passes.mp (accepted_iff.mp h).1).2
  have hpcr7 := (checkPinnedPcr7_passes _).mp
    (hchecks (checkPinnedPcr7 platform policy report) (by simp [reportChecks])) hpolicy
  rw [commit_consumeNonce] at hpcr7
  exact pcr7Verdict_eq_none.mp hpcr7 pinned hpinned

/-- Two accepted reports have the same number as their PCR 7, if it is pinned. -/
theorem pcrNumber_of_accepted {env env' : Env} (h₁ : Accepted platform policy env db r₁)
    (h₂ : Accepted platform policy env' db r₂) (hpolicy : policy.requirePcr7Pinning = true)
    (hpinned : (pinnedPcr db "7").isSome) {n n' : Int} (hn : r₁.pcrNumber "7" = some n)
    (hn' : r₂.pcrNumber "7" = some n') : n = n' := by
  obtain ⟨pinned, hpinned⟩ := Option.isSome_iff_exists.mp hpinned
  obtain ⟨v, hv, hvn⟩ := Option.bind_eq_some_iff.mp hn
  obtain ⟨v', hv', hvn'⟩ := Option.bind_eq_some_iff.mp hn'
  have hlower : platform.lower v = platform.lower v' := by
    have h := (pcr7_of_accepted h₁ hpolicy hpinned).trans
      (pcr7_of_accepted h₂ hpolicy hpinned).symm
    rwa [hv, hv', Option.getD_some, Option.getD_some] at h
  refine Option.some.inj ?_
  calc some n = intHex v := hvn.symm
    _ = intHex (platform.lower v) := (intHex_lower _ (isPlain_of_intHex hvn)).symm
    _ = intHex (platform.lower v') := by rw [hlower]
    _ = intHex v' := intHex_lower _ (isPlain_of_intHex hvn')
    _ = some n' := hvn'

/-- A value that is no all-zero digest passes where another one did. -/
theorem zeroPcr_set {isEnrolled : Bool} {index value : String}
    (h : zeroPcr platform r₁ isEnrolled = none)
    (hvalue : platform.lower value ≠ platform.lower zeroDigestPrefixed) :
    zeroPcr platform { r₁ with pcrs := r₁.pcrs.set index value } isEnrolled = none := by
  unfold zeroPcr at h ⊢
  rw [Option.map_eq_none_iff, List.find?_eq_none] at h ⊢
  intro p hp
  obtain ⟨q, hq, rfl⟩ := List.mem_map.mp hp
  split
  · simp [hvalue]
  · exact h q hq

/-- **An unbound PCR value can be replaced**: by any one that is no all-zero
digest, unless the policy pins it. -/
theorem accepted_set {env : Env} {index value : String} (h : Accepted platform policy env db r₁)
    (hvalue : platform.lower value ≠ platform.lower zeroDigestPrefixed)
    (hfree : index = "7" → policy.requirePcr7Pinning = true → pinnedPcr db "7" = none) :
    Accepted platform policy env db { r₁ with pcrs := r₁.pcrs.set index value } := by
  obtain ⟨hverify, hexpiry⟩ := accepted_iff.mp h
  obtain ⟨hnonce, hchecks⟩ := verifyReport_passes.mp hverify
  refine accepted_iff.mpr ⟨verifyReport_passes.mpr ⟨hnonce, ?_⟩, hexpiry⟩
  simp only [reportChecks, List.forall_mem_cons] at hchecks ⊢
  obtain ⟨hpresent, hsigned, hstrict, hmeasured, hroot, hpcr7, hminimum⟩ := hchecks
  -- only the checks of the measurements and of PCR 7 read the values
  refine ⟨hpresent, hsigned, hstrict, ?_, hroot, ?_, hminimum⟩
  · rw [checkMeasurements_passes] at hmeasured ⊢
    obtain ⟨hsome, hzero, hboot, himaRoot⟩ := hmeasured
    refine ⟨?_, zeroPcr_set hzero hvalue, hboot, himaRoot⟩
    simpa [Dict.set] using hsome
  · rw [checkPinnedPcr7_passes] at hpcr7 ⊢
    intro hpolicy
    rw [pcr7Verdict_eq_none]
    intro pinned hpinned
    have hindex : index ≠ "7" := by
      intro hindex
      have hnone := hfree hindex hpolicy
      rw [commit_consumeNonce] at hpinned
      cases hnone.symm.trans hpinned
    rw [Dict.get_set, if_neg (Ne.symm hindex)]
    exact pcr7Verdict_eq_none.mp (hpcr7 hpolicy) pinned hpinned

/-- There is another value than a given number that is no all-zero digest. -/
theorem exists_other_value (platform : Platform) (n : Int) :
    ∃ value m, intHex value = some m ∧ m ≠ n ∧
      platform.lower value ≠ platform.lower zeroDigestPrefixed := by
  have hzero : (platform.lower zeroDigestPrefixed).length = 66 :=
    (length_lower _ (by decide)).trans (by decide)
  have hlength : ∀ value : String, value.toList.all isPlain → value.length = 3 →
      platform.lower value ≠ platform.lower zeroDigestPrefixed := by
    intro value hplain hlen heq
    have h := congrArg String.length heq
    rw [hzero, Platform.lower, length_lower _ hplain, hlen] at h
    cases h
  by_cases hn : n = 1
  · exact ⟨"0x2", 2, by decide, by omega, hlength _ (by decide) (by decide)⟩
  · exact ⟨"0x1", 1, by decide, Ne.symm hn, hlength _ (by decide) (by decide)⟩

/-- **Which PCR values a quote binds.**  For a report that `/attest` accepts from
a state, and a PCR whose value is a hexadecimal number: no report with the same
quote and another number there is accepted from that state, exactly if the PCR is
7, the policy pins it, and the active baseline has a value for it. -/
theorem quoted_pcr_bound_iff (platform : Platform) (policy : Policy) (db : Database) (env : Env)
    (r₁ : AttestationReport) (h₁ : Accepted platform policy env db r₁) (index : String) (n : Int)
    (hn : r₁.pcrNumber index = some n) :
    (∀ env' r₂ n', SameQuote r₁ r₂ → r₂.pcrNumber index = some n' → n' ≠ n →
        ¬ Accepted platform policy env' db r₂) ↔
      index = "7" ∧ policy.requirePcr7Pinning = true ∧ (pinnedPcr db "7").isSome := by
  constructor
  · intro h
    by_contra hfree
    obtain ⟨value, m, hm, hne, hzero⟩ := exists_other_value platform n
    obtain ⟨v, hv, -⟩ := Option.bind_eq_some_iff.mp hn
    refine h env { r₁ with pcrs := r₁.pcrs.set index value } m ⟨rfl, rfl, rfl, rfl⟩ ?_ hne
      (accepted_set h₁ hzero ?_)
    · change ((r₁.pcrs.set index value).get index).bind intHex = some m
      rw [Dict.get_set, if_pos rfl, hv]
      exact hm
    · intro hindex hpolicy
      by_contra hsome
      exact hfree ⟨hindex, hpolicy, Option.isSome_iff_ne_none.mpr hsome⟩
  · rintro ⟨rfl, hpolicy, hpinned⟩ env' r₂ n' - hn' hne h₂
    exact hne (pcrNumber_of_accepted h₂ h₁ hpolicy hpinned hn' hn)

end Binding

/-- The database with a nonce for the sample reports. -/
def challengedDatabase (db : Database) : Database :=
  (replay exec (start lenientPlatform laxPolicy db challengeThenAttest) [false]).2.store

theorem reachable_challengedDatabase {db : Database} (h : Reachable lenientPlatform db) :
    Reachable lenientPlatform (challengedDatabase db) :=
  .run h ((replay_run _ _ _).faulty databaseFaults)

/-- The sample report with other PCR values. -/
def reportWith (pcrs : Dict) : AttestationReport := { sampleReport sampleEnv.token with pcrs := pcrs }

theorem quoted_pcr_bound_iff_pinned :
    ¬ Accepted lenientPlatform pcr7Policy sampleEnv (challengedDatabase pinnedDatabase)
      (reportWith ⟨[("7", "0x2")], by decide⟩) := by
  have haccepted : Accepted lenientPlatform pcr7Policy sampleEnv
      (challengedDatabase pinnedDatabase) (sampleReport sampleEnv.token) :=
    ⟨"token", "2024-06-01T12:05:00+00:00", by decide +kernel⟩
  have hpinned : (pinnedPcr (challengedDatabase pinnedDatabase) "7").isSome := by decide +kernel
  exact (quoted_pcr_bound_iff lenientPlatform pcr7Policy _ sampleEnv _ haccepted "7" 1
    (by decide +kernel)).mpr ⟨rfl, rfl, hpinned⟩ sampleEnv _ 2 ⟨rfl, rfl, rfl, rfl⟩
    (by decide +kernel) (by decide)

/-- Two reports with one quote and different values of the quoted PCR 0 are both
accepted. -/
theorem unsigned_pcr_accepted :
    ∃ db r₁ r₂, Reachable lenientPlatform db ∧ SameQuote r₁ r₂ ∧ "0" ∈ quotedPcrs ∧
      r₁.pcrNumber "0" = some 1 ∧ r₂.pcrNumber "0" = some 2 ∧
      Accepted lenientPlatform laxPolicy sampleEnv db r₁ ∧
      Accepted lenientPlatform laxPolicy sampleEnv db r₂ := by
  refine ⟨challengedDatabase .empty, reportWith ⟨[("0", "0x1"), ("7", "0x1")], by decide⟩,
    reportWith ⟨[("0", "0x2"), ("7", "0x1")], by decide⟩, reachable_challengedDatabase .empty,
    ⟨rfl, rfl, rfl, rfl⟩, by decide, by decide +kernel, by decide +kernel,
    ⟨"token", "2024-06-01T12:05:00+00:00", by decide +kernel⟩,
    ⟨"token", "2024-06-01T12:05:00+00:00", by decide +kernel⟩⟩

end TpmAttest
