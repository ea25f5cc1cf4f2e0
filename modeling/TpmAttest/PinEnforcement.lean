import TpmAttest.EnrollRuns

/-! # Pinned baselines bind attestations

An accepted `/attest` should have been checked against one baseline that was
current during the request.  It reads the table of baselines in one transaction or
two, and a read that finds an effective baseline finds the current one (`Tracks`).
What can go wrong is that it finds none, because an enrollment has cleared the
flags, and that its two reads find different baselines.
-/
namespace TpmAttest

open Python Transactional Program

variable {ι : Type}

/-- The report has the root of the baseline, and its PCR 7 if the policy asks for
it and the baseline has one. -/
def Baseline.Matches (platform : Platform) (policy : Policy) (row : Baseline)
    (report : AttestationReport) : Prop :=
  platform.lower report.imaMerkleRoot = platform.lower row.imaRoot ∧
    (policy.requirePcr7Pinning = true → ∀ pinned, row.pcrJson.get "7" = some pinned →
      platform.lower ((report.pcrs.get "7").getD "") = platform.lower pinned)

/-- Every accepted `/attest` matches a baseline that was current at one of its
transactions. -/
def PinEnforced (platform : Platform) (policy : Policy) (db : Database) (arrivals : ι → Arrival)
    (tr : List (ServerEvent ι)) (c : Config Database ι Tx.Ret Exn Response) : Prop :=
  ∀ i report token expiresAt, (arrivals i).request = .attest report →
    c.threads i = .ret (.valid token expiresAt) →
    ∃ t₁ ev t₂ row, tr = t₁ ++ ev :: t₂ ∧ ev.thread = i ∧ current db t₁ = some row ∧
      row.Matches platform policy report

/-! ## Reading the table of baselines -/

/-- The transaction reads the effective baseline. -/
def IsBaselineRead (op : Tx) : Prop := op = .selectActiveRoot ∨ op = .selectActivePcrJson

instance (op : Tx) : Decidable (IsBaselineRead op) := inferInstanceAs (Decidable (_ ∨ _))

/-- Two baselines have the same root, or the same PCR 7. -/
def Agree (row row' : Baseline) : Prop :=
  row.imaRoot = row'.imaRoot ∨ row.pcrJson.get "7" = row'.pcrJson.get "7"

/-- Where an `/attest` reads the table of baselines some row is active, and the
current baseline agrees with that of the request's earlier reads. -/
def ReadsCurrent (db : Database) (arrivals : ι → Arrival) :
    Guard Database ι Tx.Ret Exn Response := fun tr c ev =>
  ∀ report, (arrivals ev.thread).request = .attest report → IsBaselineRead ev.op →
    c.store.baselines.active ≠ none ∧
    ∀ t₁ ev' t₂, tr = t₁ ++ ev' :: t₂ → ev'.thread = ev.thread → IsBaselineRead ev'.op →
      ∀ row ∈ current db t₁, ∀ row' ∈ current db tr, Agree row row'

section Runs
variable [DecidableEq ι] {platform : Platform} {policy : Policy} {db : Database}
  {arrivals : ι → Arrival} {guard : Guard Database ι Tx.Ret Exn Response}
  {tr : List (ServerEvent ι)} {c : Config Database ι Tx.Ret Exn Response} {ev : ServerEvent ι}
  {i : ι}

/-- **A read of an `/attest` finds the current baseline.** -/
theorem read_current (hdb : Valid db)
    (hguard : ∀ tr c ev, guard tr c ev →
      RestoresCurrent db tr c ev ∧ ReadsCurrent db arrivals tr c ev)
    (h : Run exec noFaults guard (start platform policy db arrivals) tr c)
    {report : AttestationReport} (hreq : (arrivals ev.thread).request = .attest report)
    (hop : IsBaselineRead ev.op) (hmem : ev ∈ tr) :
    ∃ t₁ t₂ c₁ row, tr = t₁ ++ ev :: t₂ ∧ current db t₁ = some row ∧
      c₁.baselines.active = some row ∧ ev.outcome = (commit exec ev.op c₁).1 ∧
      ∀ s₁ ev' s₂, t₁ = s₁ ++ ev' :: s₂ → ev'.thread = ev.thread → IsBaselineRead ev'.op →
        ∀ row' ∈ current db s₁, Agree row' row := by
  obtain ⟨t₁, t₂, htr⟩ := List.append_of_mem hmem
  obtain ⟨c₁, c₂, hr, hg, hs⟩ := h.split htr
  obtain ⟨hsome, hagree⟩ := (hguard _ _ _ hg).2 report hreq hop
  have hactive := (tracks_of_run hdb (fun _ _ _ hg => (hguard _ _ _ hg).1) hr).active_eq hsome
  obtain ⟨row, hrow⟩ := Option.ne_none_iff_exists'.mp hsome
  rw [hrow] at hactive
  refine ⟨t₁, t₂, c₁.store, row, htr, hactive.symm, hrow, hs.committed.1, ?_⟩
  intro s₁ ev' s₂ hsplit hthread hop' row' hrow'
  exact hagree s₁ ev' s₂ hsplit hthread hop' row' hrow' row hactive.symm

/-- **Attestations are pinned** in a run from a reachable database, for any number
of requests in any interleaving, if restorations bring back current roots and
the reads of an `/attest` find an active row and agreeing baselines. -/
theorem pin_enforced (platform : Platform) (policy : Policy) (db : Database)
    (arrivals : ι → Arrival) (hreach : Reachable platform db) (tr : List (ServerEvent ι))
    (c : Config Database ι Tx.Ret Exn Response)
    (h : Run exec noFaults
      (fun tr c ev => RestoresCurrent db tr c ev ∧ ReadsCurrent db arrivals tr c ev)
      (start platform policy db arrivals) tr c) :
    PinEnforced platform policy db arrivals tr c := by
  intro i report token expiresAt hreq hret
  have hdb := valid_of_reachable hreach
  have hreport : (arrivals i).request.report = some report := by
    rw [hreq]
    rfl
  have hverified := verified_of_run h hreport hret (Or.inl ⟨token, expiresAt, rfl⟩)
  obtain ⟨root, hroot, hrootok⟩ := hverified.passed.pinnedRoot
  obtain ⟨t₁, t₂, db₁, row₁, htr, hcur₁, hact₁, hout₁, hagree₁⟩ :=
    read_current hdb (fun _ _ _ hg => hg) h hreq (Or.inl rfl) hroot
  obtain rfl : root = some row₁.imaRoot := by
    rw [commit_selectActiveRoot, hact₁] at hout₁
    exact Except.ok.inj hout₁
  rw [rootVerdict_eq_none] at hrootok
  by_cases hpolicy : policy.requirePcr7Pinning = true
  · obtain ⟨dict, hdict, hpcrok⟩ := hverified.passed.pinnedPcr7 hpolicy
    obtain ⟨s₁, s₂, db₂, row₂, htr', hcur₂, hact₂, hout₂, hagree₂⟩ :=
      read_current hdb (fun _ _ _ hg => hg) h hreq (Or.inr rfl) hdict
    obtain rfl : dict = some row₂.pcrJson := by
      rw [commit_selectActivePcrJson, hact₂] at hout₂
      exact Except.ok.inj hout₂
    rw [pcr7Verdict_eq_none] at hpcrok
    have hagree : Agree row₁ row₂ := by
      rcases split_cases (htr.symm.trans htr') with heq | ⟨m, hm⟩ | ⟨m, hm⟩
      · cases heq
      · exact hagree₂ _ _ _ hm rfl (Or.inl rfl) row₁ hcur₁
      · exact (hagree₁ _ _ _ hm rfl (Or.inr rfl) row₂ hcur₂).imp Eq.symm Eq.symm
    rcases hagree with hagree | hagree
    · -- the later baseline has both
      refine ⟨s₁, _, s₂, row₂, htr', rfl, hcur₂, ?_, fun _ => hpcrok⟩
      rw [hrootok, hagree]
    · refine ⟨t₁, _, t₂, row₁, htr, rfl, hcur₁, hrootok, fun _ => ?_⟩
      rw [hagree]
      exact hpcrok
  · exact ⟨t₁, _, t₂, row₁, htr, rfl, hcur₁, hrootok, fun hp => absurd hp hpolicy⟩

end Runs

/-- Two nonces, an enrollment of the other root that uses the first one, and an
attestation of that root that uses the second one. -/
def attestAcrossEnroll : Fin 4 → Arrival
  | 0 => ⟨.challenge, sampleEnv⟩
  | 1 => ⟨.challenge, { sampleEnv with token := "facade" }⟩
  | 2 => ⟨.enroll { sampleReport sampleEnv.token with imaMerkleRoot := otherRoot }, sampleEnv⟩
  | 3 => ⟨.attest { sampleReport "facade" with imaMerkleRoot := otherRoot }, sampleEnv⟩

/-- The attestation uses its nonce before the flags are cleared, and reads the table
when the new root has been pinned. -/
def acrossSchedule : List (Fin 4) := [0, 1, 2, 3, 2, 2, 2, 2, 2, 3, 3]

def acrossOps : List Tx :=
  [.insertNonce "c0ffee" "2024-06-01T12:02:00+00:00",
    .insertNonce "facade" "2024-06-01T12:02:00+00:00", .selectActiveRoot,
    .consumeNonce "facade" noon, .deactivateAll, .consumeNonce "c0ffee" noon, .selectActiveRoot,
    .selectActivePcrJson, .pinBaseline otherRoot samplePcrs noon, .selectActiveRoot,
    .selectActivePcrJson]

def acrossRun (k : Nat) :
    List (ServerEvent (Fin 4)) × Config Database (Fin 4) Tx.Ret Exn Response :=
  replay exec (start lenientPlatform pcr7Policy pinnedDatabase attestAcrossEnroll)
    (acrossSchedule.take k)

def otherBaseline : Baseline :=
  ⟨2, otherRoot, samplePcrs, "2024-06-01T12:00:00+00:00", true⟩

theorem acrossRun_pending : ∀ k < 11, ∀ i ∈ acrossSchedule[k]?,
    ((acrossRun k).2.threads i).pending = acrossOps[k]? := by
  decide +kernel

/-- Wherever the attestation reads the table, the new row is active and current. -/
theorem acrossRun_reads : ∀ k < 11, acrossSchedule[k]? = some 3 → ∀ op ∈ acrossOps[k]?,
    IsBaselineRead op →
      (acrossRun k).2.store.baselines.active = some otherBaseline ∧
      current pinnedDatabase (acrossRun k).1 = some otherBaseline ∧
      ∀ read ∈ (acrossRun k).1.zipIdx, read.1.thread = 3 → IsBaselineRead read.1.op →
        current pinnedDatabase ((acrossRun k).1.take read.2) = some otherBaseline := by
  decide +kernel

theorem pin_enforced_acrossEnroll :
    ((acrossRun 11).2.threads 3).returned = some (.valid "token" "2024-06-01T12:05:00+00:00") ∧
      PinEnforced lenientPlatform pcr7Policy pinnedDatabase attestAcrossEnroll
        (acrossRun 11).1 (acrossRun 11).2 := by
  refine ⟨by decide +kernel, pin_enforced lenientPlatform pcr7Policy pinnedDatabase
    attestAcrossEnroll reachable_pinnedDatabase _ _
    (replay_guarded exec (start lenientPlatform pcr7Policy pinnedDatabase attestAcrossEnroll)
      acrossSchedule ?_)⟩
  intro k i hk op next hcall outcome _
  have hlt : k < 11 := (List.getElem?_eq_some_iff.mp hk).1
  have hop := acrossRun_pending k hlt i hk
  rw [show (acrossRun k).2.threads i = .call op next from hcall] at hop
  refine ⟨?_, fun report hreq hread => ?_⟩
  · rintro root rfl
    -- nothing is restored
    have hmem : Tx.restoreBaseline root ∈ acrossOps := List.mem_of_getElem? hop.symm
    simp [acrossOps] at hmem
  · have hi : i = 3 := by
      fin_cases i
      · cases hreq
      · cases hreq
      · cases hreq
      · rfl
    obtain ⟨hactive, hcurrent, hbefore⟩ :=
      acrossRun_reads k hlt (by rw [hk, hi]) op hop.symm hread
    refine ⟨?_, ?_⟩
    · change (acrossRun k).2.store.baselines.active ≠ none
      rw [hactive]
      simp
    · intro t₁ ev' t₂ htr hthread hop' row hrow row' hrow'
      change (acrossRun k).1 = _ at htr
      have hmem : (ev', t₁.length) ∈ (acrossRun k).1.zipIdx := by
        rw [List.mem_zipIdx_iff_getElem?, htr]
        simp
      have hrow₁ := hbefore _ hmem (hthread.trans hi) hop'
      rw [htr, List.take_left] at hrow₁
      obtain rfl := Option.some.inj (hrow₁.symm.trans hrow)
      obtain rfl := Option.some.inj (hcurrent.symm.trans hrow')
      exact Or.inl rfl

inductive Client where
  | challenger
  | enroller
  | attester
deriving DecidableEq

/-- An enrollment with an unknown nonce, and an attestation of another root. -/
def attestDuringEnroll : Client → Arrival
  | .challenger => ⟨.challenge, sampleEnv⟩
  | .enroller => rejection
  | .attester =>
    ⟨.attest { sampleReport sampleEnv.token with imaMerkleRoot := otherRoot }, sampleEnv⟩

/-- The attestation is served while the enrollment has the flags cleared. -/
def attestDuringEnrollRun :
    List (ServerEvent Client) × Config Database Client Tx.Ret Exn Response :=
  replay exec (start lenientPlatform laxPolicy pinnedDatabase attestDuringEnroll)
    [.challenger, .enroller, .enroller, .attester, .attester]

theorem attestDuringEnrollRun_run :
    Run exec noFaults unguarded
      (start lenientPlatform laxPolicy pinnedDatabase attestDuringEnroll)
      attestDuringEnrollRun.1 attestDuringEnrollRun.2 := replay_run _ _ _

/-- An attestation that no baseline allows is accepted. -/
theorem pin_bypassed :
    Reachable lenientPlatform pinnedDatabase ∧ pinnedDatabase.baselines.active ≠ none ∧ ∃ tr c,
      Run exec noFaults unguarded
        (start lenientPlatform laxPolicy pinnedDatabase attestDuringEnroll) tr c ∧
      ¬ PinEnforced lenientPlatform laxPolicy pinnedDatabase attestDuringEnroll tr c := by
  refine ⟨reachable_pinnedDatabase, by rw [active_pinnedDatabase]; simp,
    attestDuringEnrollRun.1, attestDuringEnrollRun.2, attestDuringEnrollRun_run, fun henforced => ?_⟩
  have hret : (attestDuringEnrollRun.2.threads .attester).returned =
      some (.valid "token" "2024-06-01T12:05:00+00:00") := by
    decide +kernel
  obtain ⟨t₁, ev, t₂, row, htr, -, hcurrent, hroot, -⟩ :=
    henforced .attester _ _ _ rfl (returned_eq_some.mp hret)
  -- nothing was pinned, so the row is the one that was pinned before
  have hpins : ∀ ev ∈ attestDuringEnrollRun.1, ¬ IsPin ev := by decide +kernel
  rw [htr] at hpins
  rw [current_of_no_pin _ fun ev hev => hpins ev (List.mem_append_left _ hev),
    active_pinnedDatabase] at hcurrent
  obtain rfl := Option.some.inj hcurrent
  exact absurd hroot (by decide +kernel)

end TpmAttest
