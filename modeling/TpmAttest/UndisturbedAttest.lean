import TpmAttest.Serializability

/-! # Attestations that nobody disturbs

Requests of others do not change the answer to an `/attest`: from any point of a run at
which it has not begun, it is answered as it would be alone, unless one of them uses its
nonce or lets it expire, registers its machine, or enrolls (`Disturbs`).
-/
namespace TpmAttest

open Python Transactional Program

variable {report : AttestationReport} {s s' : Database} {op : Tx}

/-- A transaction of another request that an `/attest` with this report may notice, if
its nonce is stored as in `db`. -/
def Disturbs (report : AttestationReport) (db : Database) : Tx → Prop
  | .insertNonce nonce _ => nonce = report.nonce
  | .consumeNonce nonce now =>
    nonce = report.nonce ∨ ∃ t, db.activeNonces report.nonce = some t ∧ t < now.isoformat
  | .upsertMachine machineId _ => report.machineId = some machineId
  | .deactivateAll | .restoreBaseline _ | .pinBaseline _ _ _ => True
  | _ => False

/-- What an `/attest` sees of a database. -/
structure SameView (report : AttestationReport) (s s' : Database) : Prop where
  nonce : s'.activeNonces report.nonce = s.activeNonces report.nonce
  machine : ∀ machineId, report.machineId = some machineId →
    s'.enrolledMachines machineId = s.enrolledMachines machineId
  baselines : s'.baselines = s.baselines

/-- What an `/attest` performs. -/
def IsAttestOp (report : AttestationReport) (env : Env) (op : Tx) : Prop :=
  op = .consumeNonce report.nonce env.now ∨ IsLookup report op

theorem attest_only (platform : Platform) (policy : Policy) (report : AttestationReport)
    (env : Env) : (attest platform policy report env).Only (IsAttestOp report env) := by
  refine Only.bind ((verifyReport_ensures (fun _ _ _ => trivial) (fun _ _ _ _ _ _ => trivial)
    report env).mono (fun _ => id) (fun _ _ => trivial) fun _ => id) fun verdict => ?_
  refine .of_finished ?_
  cases verdict with
  | some reason => trivial
  | none => exact (finished_ofExcept _).bind fun _ => trivial

/-- Databases with one view are alike to an `/attest`. -/
theorem SameView.commit {env : Env} (hop : IsAttestOp report env op) (h : SameView report s s') :
    (commit exec op s').1 = (commit exec op s).1 ∧
      SameView report (commit exec op s).2 (commit exec op s').2 := by
  rcases hop with rfl | hlookup
  · rw [commit_consumeNonce, commit_consumeNonce]
    refine ⟨?_, ⟨?_, h.machine, h.baselines⟩⟩
    · dsimp only [purgeNonces]
      rw [h.nonce]
    · dsimp only
      rw [Function.update_self, Function.update_self]
  · rw [commit_lookup hlookup, commit_lookup hlookup]
    refine ⟨?_, h⟩
    cases op with
    | selectMachine machineId =>
      rw [commit_selectMachine, commit_selectMachine, h.machine machineId hlookup]
    | selectActiveRoot => rw [commit_selectActiveRoot, commit_selectActiveRoot, h.baselines]
    | selectActivePcrJson =>
      rw [commit_selectActivePcrJson, commit_selectActivePcrJson, h.baselines]
    | _ => exact hlookup.elim

/-- A transaction that does not disturb keeps the view. -/
theorem sameView_of_not_disturbs {db : Database} (h : ¬ Disturbs report db op)
    (hrow : s.activeNonces report.nonce = none ∨
      s.activeNonces report.nonce = db.activeNonces report.nonce) :
    SameView report s (commit exec op s).2 := by
  cases op with
  | insertNonce nonce t =>
    have hne : report.nonce ≠ nonce := Ne.symm h
    cases hdup : s.activeNonces nonce with
    | some t' =>
      simp only [Program.commit, exec, hdup]
      exact ⟨rfl, fun _ _ => rfl, rfl⟩
    | none =>
      rw [commit_insertNonce s t hdup]
      exact ⟨Function.update_of_ne hne _ _, fun _ _ => rfl, rfl⟩
  | consumeNonce nonce now =>
    obtain ⟨hne, hexpired⟩ := not_or.mp h
    rw [commit_consumeNonce]
    refine ⟨?_, fun _ _ => rfl, rfl⟩
    dsimp only
    rw [Function.update_of_ne (Ne.symm hne), purgeNonces]
    cases ht : s.activeNonces report.nonce with
    | none => rfl
    | some t =>
      rw [ht] at hrow
      have hlive : ¬ t < now.isoformat := fun hlt =>
        hexpired ⟨t, (hrow.resolve_left (by simp)).symm, hlt⟩
      rw [Option.filter_some, if_pos (decide_eq_true hlive)]
  | upsertMachine machineId row =>
    refine ⟨rfl, fun machineId' hid => ?_, rfl⟩
    have hne : machineId' ≠ machineId := by
      rintro rfl
      exact h hid
    rw [commit_upsertMachine]
    exact Function.update_of_ne hne _ _
  | deactivateAll => exact absurd trivial h
  | restoreBaseline root => exact absurd trivial h
  | pinBaseline root pcrs now => exact absurd trivial h
  | _ => exact ⟨rfl, fun _ _ => rfl, rfl⟩

section Runs
variable {ι : Type} [DecidableEq ι] {i : ι} {env : Env} {db : Database}
  {c₀ c c' : Config Database ι Tx.Ret Exn Response} {tr : List (ServerEvent ι)}

/-- The steps of the others do not disturb. -/
def Undisturbed (i : ι) (report : AttestationReport) (db : Database) :
    Guard Database ι Tx.Ret Exn Response :=
  fun _ _ ev => ev.thread ≠ i → ¬ Disturbs report db ev.op

/-- The nonce is stored as it was, until the request has consumed it. -/
theorem nonce_of_undisturbed (hi : (c₀.threads i).Only (IsAttestOp report env))
    (h : Run exec noFaults (Undisturbed i report c₀.store) c₀ tr c) :
    c.store.activeNonces report.nonce = none ∨
      c.store.activeNonces report.nonce = c₀.store.activeNonces report.nonce := by
  refine h.invariant (I := fun _ c => c.store.activeNonces report.nonce = none ∨
    c.store.activeNonces report.nonce = c₀.store.activeNonces report.nonce) (Or.inr rfl) ?_
  intro tr c c' ev hr hrow hg hs
  rw [hs.committed.2]
  by_cases hthread : ev.thread = i
  · have honly := hr.only hi
    obtain ⟨next, hcall, -⟩ := hs.threads
    rw [← hthread, hcall] at honly
    rcases honly.1 with hop | hlookup
    · rw [hop]
      exact Or.inl (activeNonces_consume env.now)
    · rw [commit_lookup hlookup]
      exact hrow
  · rw [(sameView_of_not_disturbs (hg hthread) hrow).nonce]
    exact hrow

end Runs

variable {ι : Type} [DecidableEq ι]

/-- **An attestation that nobody disturbs** is answered as it would be alone, at any
point of the run before it began, if no later step of another request disturbs it. -/
theorem attest_undisturbed (platform : Platform) (policy : Policy) (db : Database)
    (arrivals : ι → Arrival) (i : ι) (report : AttestationReport)
    (hreq : (arrivals i).request = .attest report) (t₁ t₂ : List (ServerEvent ι))
    (c : Config Database ι Tx.Ret Exn Response)
    (h : Run exec noFaults unguarded (start platform policy db arrivals) (t₁ ++ t₂) c)
    (hbefore : ∀ ev ∈ t₁, ev.thread ≠ i)
    (hothers : ∀ ev ∈ t₂, ev.thread ≠ i → ¬ Disturbs report (commits exec db t₁) ev.op)
    (outcome : Except Exn Response) (hdone : c.threads i = ofExcept outcome) :
    outcome = (serveAlone platform policy (arrivals i) (commits exec db t₁)).1 := by
  obtain ⟨c₁, hr₁, hr₂⟩ := h.after
  have hstore : c₁.store = commits exec db t₁ := hr₁.store_eq
  have hstart : c₁.threads i = serve platform policy (arrivals i).env (arrivals i).request := by
    refine hr₁.not_begun (history_eq_nil fun hmem => ?_)
    obtain ⟨ev, hev, hthread⟩ := mem_begun.mp hmem
    exact hbefore ev hev hthread
  have honly : (c₁.threads i).Only (IsAttestOp report (arrivals i).env) := by
    rw [hstart, hreq]
    exact attest_only platform policy report _
  rw [← hstore] at hothers
  have hrun : Run exec noFaults (Undisturbed i report c₁.store) c₁ t₂ c := hr₂.guarded_of_mem hothers
  have halone := hrun.outcome_alone fun hr hg hs hthread => by
    rw [hs.committed.2]
    exact (hr.only honly).run_related (fun _ _ _ hop hview => hview.commit hop)
      (sameView_of_not_disturbs (hg hthread) (nonce_of_undisturbed honly hr))
  rwa [hdone, run_ofExcept, hstart, hstore] at halone

theorem attest_undisturbed_attestAndChallenge :
    .ok (.valid "token" "2024-06-01T12:05:00+00:00") =
      (serveAlone lenientPlatform laxPolicy (attestAndChallenge true) issuedDatabase).1 := by
  refine attest_undisturbed lenientPlatform laxPolicy issuedDatabase attestAndChallenge true
    (sampleReport sampleEnv.token) rfl [] _ _ (replay_run exec _ [true, false, true]) (by simp) ?_ _
    (returned_eq_some.mp (by decide +kernel))
  intro ev hev hthread
  have hops : ∀ ev ∈ (replay exec (start lenientPlatform laxPolicy issuedDatabase
      attestAndChallenge) [true, false, true]).1, ev.thread = true ∨
        ev.op = .insertNonce "decade" "2024-06-01T12:02:00+00:00" := by
    decide +kernel
  rw [(hops ev hev).resolve_left hthread]
  intro (h : "decade" = "c0ffee")
  exact absurd h (by decide)

end TpmAttest
