import TpmAttest.QuoteBinding

/-! # Complete requests, one after another

If no request begins before the one before it has ended, and the database raises
no error, each request is a program executed alone (`Sequential`).  Then the table
of baselines is a function of the enrollments that succeeded (`pinnedTable`): a
rejected `/enroll` clears the flags and restores them.  That it restores the right
row, knowing only a root, is because the row that was active is the newest one.
-/
namespace TpmAttest

open Python Transactional Program

/-- A request that was served alone: the policy at that time, the request with what
it drew, and its outcome. -/
structure Served where
  policy : Policy
  arrival : Arrival
  outcome : Except Exn Response

/-- The request served alone. -/
def serveAlone (platform : Platform) (policy : Policy) (arrival : Arrival) (db : Database) :
    Except Exn Response × Database :=
  (serve platform policy arrival.env arrival.request).run exec db

/-- `Sequential platform db₀ log db`: complete requests, with the outcomes that
`log` says, lead from `db₀` to `db`. -/
inductive Sequential (platform : Platform) (db₀ : Database) : List Served → Database → Prop
  | nil : Sequential platform db₀ [] db₀
  | next {log : List Served} {db : Database} (h : Sequential platform db₀ log db)
      (policy : Policy) (arrival : Arrival) :
      Sequential platform db₀
        (log ++ [⟨policy, arrival, (serveAlone platform policy arrival db).1⟩])
        (serveAlone platform policy arrival db).2

/-- A successful `/enroll`. -/
structure Enrollment where
  report : AttestationReport
  env : Env

/-- The row that a successful `/enroll` inserts. -/
def Enrollment.row (platform : Platform) (e : Enrollment) (id : Nat) : Baseline :=
  ⟨id, platform.lower e.report.imaMerkleRoot, e.report.pcrs, e.env.later.isoformat, true⟩

/-- The enrollment, if the request was one and succeeded. -/
def Served.enrollment : Served → Option Enrollment
  | ⟨_, ⟨.enroll report, env⟩, .ok (.enrolled _)⟩ => some ⟨report, env⟩
  | _ => none

/-- The successful enrollments. -/
def enrollments (log : List Served) : List Enrollment := log.filterMap Served.enrollment

/-- The most recent one. -/
def latestEnrollment (log : List Served) : Option Enrollment := (enrollments log).getLast?

/-- A baseline is pinned for an enrollment. -/
def pinEnrollment (platform : Platform) (t : BaselineTable) (e : Enrollment) : BaselineTable :=
  t.pin (platform.lower e.report.imaMerkleRoot) e.report.pcrs e.env.later.isoformat

/-- The table that enrollments leave, if each pins its baseline and nothing else
happens. -/
def pinnedTable (platform : Platform) (es : List Enrollment) : BaselineTable :=
  es.foldl (pinEnrollment platform) .empty

section
variable {platform : Platform} {db₀ db : Database} {log : List Served}

theorem enrollments_append (log log' : List Served) :
    enrollments (log ++ log') = enrollments log ++ enrollments log' := List.filterMap_append

theorem enrollments_snoc (log : List Served) (s : Served) :
    enrollments (log ++ [s]) = enrollments log ++ s.enrollment.toList := by
  rw [enrollments_append]
  cases hs : s.enrollment with
  | none => simp [enrollments, hs]
  | some e => simp [enrollments, hs]

theorem pinnedTable_snoc (es : List Enrollment) (e : Enrollment) :
    pinnedTable platform (es ++ [e]) = pinEnrollment platform (pinnedTable platform es) e :=
  List.foldl_append

/-! ## Sequential runs are runs -/

/-- **What complete requests reach is reachable.** -/
theorem Sequential.reachable (h : Sequential platform db₀ log db)
    (h₀ : Reachable platform db₀) : Reachable platform db := by
  induction h with
  | nil => exact h₀
  | @next log db _ policy arrival ih =>
    obtain ⟨tr, hrun⟩ := exists_run exec (serve platform policy arrival.env arrival.request) db
    have hrun : Run exec noFaults unguarded (start platform policy db fun _ : Unit => arrival) tr _ :=
      hrun
    exact .run ih (hrun.faulty databaseFaults)

theorem Sequential.append {log' : List Served} {db' : Database}
    (h : Sequential platform db₀ log db) (h' : Sequential platform db log' db') :
    Sequential platform db₀ (log ++ log') db' := by
  induction h' with
  | nil => rwa [List.append_nil]
  | next _ policy arrival ih =>
    rw [← List.append_assoc]
    exact ih.next policy arrival

/-! ## An enrollment served alone -/

/-- From a valid database a report's verification raises nothing. -/
theorem verifyReport_returns (policy : Policy) (report : AttestationReport) (env : Env)
    (h : Valid db) :
    ∃ verdict, ((verifyReport platform policy report env).run exec db).1 = .ok verdict ∧
      (verdict = none → RootOk report.imaMerkleRoot) := by
  have hinsert : ∀ op, op = .consumeNonce report.nonce env.now ∨ IsLookup report op →
      ∀ nonce expiresAt, op ≠ .insertNonce nonce expiresAt := by
    rintro _ (h' | h') nonce expiresAt rfl
    · cases h'
    · exact h'
  have hensures : (verifyReport platform policy report env).Ensures
      (fun op r => GoodOutcome op r ∧ ∀ nonce expiresAt, op ≠ .insertNonce nonce expiresAt) _ _ _ :=
    verifyReport_ensures_good (fun _ _ h' => h'.1) fun nonce expiresAt _ h' =>
      h'.2 nonce expiresAt rfl
  have hfoot : ∀ op, op = .consumeNonce report.nonce env.now ∨ IsLookup report op →
      Footprint platform ⟨.attest report, env⟩ op := fun op => footprint_of_verify rfl
  obtain ⟨-, hok, herror⟩ := hensures.run_outcome (I := Valid)
    (fun op _ hop hs => ⟨⟨goodOutcome_commit hs op, hinsert op hop⟩, valid_commit (hfoot op hop) hs⟩) h
  generalize ((verifyReport platform policy report env).run exec db).1 = r at hok herror
  cases r with
  | error e => exact (herror e rfl).elim
  | ok verdict =>
    refine ⟨verdict, rfl, fun hnone => ?_⟩
    exact rootOk_of_checkImaRoot (hok verdict rfl hnone).passed.imaRoot

theorem valid_deactivateAll (h : Valid db) :
    Valid { db with baselines := db.baselines.deactivateAll } :=
  ⟨BaselineTable.settled_deactivateAll h.settled, h.expiries⟩

/-- The table that a rejected `/enroll` leaves. -/
def restored (t : BaselineTable) : BaselineTable :=
  (truthy (t.active.map (·.imaRoot))).elim t.deactivateAll t.deactivateAll.restore

theorem run_enrollResponse_rejected {t : BaselineTable} (report : AttestationReport) (env : Env)
    (reason : Reason) (h : db.baselines = t.deactivateAll) :
    ((enrollResponse platform report env (t.active.map (·.imaRoot)) (some reason)).run exec db).1 =
        .ok (.enrollRejected reason) ∧
      ((enrollResponse platform report env (t.active.map (·.imaRoot)) (some reason)).run exec
        db).2.baselines = restored t := by
  dsimp only [enrollResponse, restoreBaseline, restored]
  cases truthy (t.active.map (·.imaRoot)) with
  | none => exact ⟨rfl, h⟩
  | some root => exact ⟨rfl, congrArg (BaselineTable.restore · root) h⟩

/-- What was effective is effective again. -/
theorem active_restored {t : BaselineTable} (h : t.Settled) : (restored t).active = t.active := by
  cases hactive : t.active with
  | none =>
    rw [restored, hactive]
    exact BaselineTable.active_eq_none.mpr BaselineTable.isActive_deactivateAll
  | some row =>
    have hroot := h.root_ne row (BaselineTable.mem_of_active hactive).1
    rw [restored, hactive, Option.map_some, truthy_eq_some.mpr ⟨rfl, hroot⟩]
    exact (BaselineTable.Within.deactivateAll rfl).active_restore h hactive

/-- **An enrollment served alone** is rejected with the reason that verification
gives without an active row, or it pins the report. -/
theorem enroll_alone (platform : Platform) (policy : Policy) (report : AttestationReport) (env : Env)
    (h : Valid db) :
    ∃ verdict, ((verifyReport platform policy report env).run exec
        { db with baselines := db.baselines.deactivateAll }).1 = .ok verdict ∧
      match verdict with
      | some reason =>
        ((enroll platform policy report env).run exec db).1 = .ok (.enrollRejected reason) ∧
          ((enroll platform policy report env).run exec db).2.baselines = restored db.baselines
      | none =>
        ((enroll platform policy report env).run exec db).1 =
            .ok (.enrolled (platform.lower report.imaMerkleRoot)) ∧
          RootOk report.imaMerkleRoot ∧
          ((enroll platform policy report env).run exec db).2.baselines =
            pinEnrollment platform db.baselines ⟨report, env⟩ := by
  obtain ⟨verdict, hverdict, hroot⟩ : ∃ verdict, ((verifyReport platform policy report env).run exec
      { db with baselines := db.baselines.deactivateAll }).1 = .ok verdict ∧ _ :=
    verifyReport_returns policy report env (valid_deactivateAll h)
  refine ⟨verdict, hverdict, ?_⟩
  have hrun : (enroll platform policy report env).run exec db =
      ((verifyReport platform policy report env).bind (enrollResponse platform report env
        (db.baselines.active.map (·.imaRoot)))).run exec
          { db with baselines := db.baselines.deactivateAll } := rfl
  have hstore : ((verifyReport platform policy report env).run exec
      { db with baselines := db.baselines.deactivateAll }).2.baselines =
        db.baselines.deactivateAll := by
    rw [run_verifyReport]
    exact baselines_commit _ _
  rw [hrun, run_bind]
  generalize (verifyReport platform policy report env).run exec
    { db with baselines := db.baselines.deactivateAll } = r at hverdict hstore
  obtain ⟨outcome, s⟩ := r
  obtain rfl : outcome = .ok verdict := hverdict
  cases verdict with
  | some reason => exact run_enrollResponse_rejected report env reason hstore
  | none =>
    have hroot := hroot rfl
    refine ⟨rfl, hroot, ?_⟩
    change s.baselines.pin _ _ _ = _
    rw [hstore, BaselineTable.pin_deactivateAll, lower_lower_root hroot]
    rfl

/-! ## The table of baselines is a function of the successful enrollments -/

/-- Only an `/enroll` changes the table of baselines. -/
theorem onBaselines_of_footprint {arrival : Arrival} {op : Tx} (hop : Footprint platform arrival op)
    (h : ∀ report, arrival.request ≠ .enroll report) (t : BaselineTable) : op.onBaselines t = t := by
  cases op with
  | deactivateAll =>
    obtain ⟨report, hreq⟩ := hop
    exact absurd hreq (h report)
  | restoreBaseline root =>
    obtain ⟨report, hreq, -⟩ := hop
    exact absurd hreq (h report)
  | pinBaseline root pcrs now =>
    obtain ⟨report, hreq, -⟩ := hop
    exact absurd hreq (h report)
  | _ => rfl

/-- What the transactions of a request keep, the request served alone keeps. -/
theorem serveAlone_invariant {I : Database → Prop} {arrival : Arrival} (policy : Policy)
    (hI : ∀ op s, Footprint platform arrival op → I s → I (commit exec op s).2) (h : I db) :
    I (serveAlone platform policy arrival db).2 := by
  have hserve : (serve platform policy arrival.env arrival.request).Ensures (fun _ _ => True)
      (Footprint platform arrival) (ResponseOk platform policy (fun _ _ => True) arrival)
      fun _ => True :=
    serve_ensures (fun _ _ _ => trivial) (fun _ _ _ _ _ _ => trivial) (fun _ => trivial) _
  exact hserve.run_invariant (fun op s hop hs => ⟨trivial, hI op s hop hs⟩) h

theorem baselines_serveAlone (policy : Policy) {arrival : Arrival}
    (h : ∀ report, arrival.request ≠ .enroll report) (db : Database) :
    (serveAlone platform policy arrival db).2.baselines = db.baselines := by
  refine serveAlone_invariant (I := fun s : Database => s.baselines = db.baselines) policy ?_ rfl
  intro op s hop hs
  rw [baselines_commit, onBaselines_of_footprint hop h]
  exact hs

/-- A rejected `/enroll` restores the table that enrollments left. -/
theorem restored_pinnedTable {es : List Enrollment} (h : (pinnedTable platform es).Settled) :
    restored (pinnedTable platform es) = pinnedTable platform es := by
  rcases List.eq_nil_or_concat es with rfl | ⟨es, e, rfl⟩
  · exact BaselineTable.eq_of_rows rfl
  · rw [List.concat_eq_append, pinnedTable_snoc, pinEnrollment] at h ⊢
    have hactive := BaselineTable.active_pin (platform.lower e.report.imaMerkleRoot) e.report.pcrs
      e.env.later.isoformat (pinnedTable platform es)
    have hroot := h.root_ne _ (BaselineTable.mem_of_active hactive).1
    rw [restored, hactive, Option.map_some, truthy_eq_some.mpr ⟨rfl, hroot⟩]
    exact BaselineTable.restore_deactivateAll_pin _ _ _ _

/-- One more request. -/
theorem pinnedTable_step (hdb : Valid db) (policy : Policy) (arrival : Arrival)
    (h : db.baselines = pinnedTable platform (enrollments log)) :
    (serveAlone platform policy arrival db).2.baselines = pinnedTable platform
      (enrollments (log ++ [⟨policy, arrival, (serveAlone platform policy arrival db).1⟩])) := by
  rw [enrollments_snoc]
  obtain ⟨request, env⟩ := arrival
  cases request with
  | enroll report =>
    obtain ⟨verdict, -, hcases⟩ := enroll_alone platform policy report env hdb
    change ((enroll platform policy report env).run exec db).2.baselines = pinnedTable platform
      (_ ++ (Served.enrollment ⟨policy, ⟨.enroll report, env⟩,
        ((enroll platform policy report env).run exec db).1⟩).toList)
    cases verdict with
    | some reason =>
      obtain ⟨hresp, hstore⟩ := hcases
      rw [hresp, hstore, h]
      have hsettled := hdb.settled
      rw [h] at hsettled
      simpa [Served.enrollment] using restored_pinnedTable hsettled
    | none =>
      obtain ⟨hresp, -, hstore⟩ := hcases
      rw [hresp, hstore, h]
      exact (pinnedTable_snoc _ _).symm
  | _ =>
    rw [baselines_serveAlone policy (by simp), h]
    simp [Served.enrollment]

/-- **The table of baselines after complete requests** is the one that the
successful enrollments leave. -/
theorem baselines_of_sequential (h : Sequential platform .empty log db) :
    db.baselines = pinnedTable platform (enrollments log) := by
  induction h with
  | nil => rfl
  | next h policy arrival ih =>
    exact pinnedTable_step (valid_of_reachable (h.reachable .empty)) policy arrival ih

/-! ## The latest enrollment is effective -/

theorem nextId_pinnedTable (es : List Enrollment) :
    (pinnedTable platform es).nextId = es.length + 1 := by
  induction es using List.reverseRecOn with
  | nil => rfl
  | append_singleton es e ih =>
    rw [pinnedTable_snoc, pinEnrollment, BaselineTable.nextId_pin, ih, List.length_append]
    rfl

/-- The row that the last enrollment inserted. -/
theorem pinnedRow_eq (es : List Enrollment) (e : Enrollment) :
    (pinnedTable platform es).pinnedRow (platform.lower e.report.imaMerkleRoot) e.report.pcrs
      e.env.later.isoformat = e.row platform (es ++ [e]).length := by
  unfold BaselineTable.pinnedRow Enrollment.row
  rw [BaselineTable.nextId_deactivateAll, nextId_pinnedTable, List.length_append]
  rfl

/-- The table of a log with an enrollment. -/
theorem baselines_of_latest {e : Enrollment} (h : Sequential platform .empty log db)
    (he : latestEnrollment log = some e) :
    ∃ es, enrollments log = es ++ [e] ∧
      db.baselines = pinEnrollment platform (pinnedTable platform es) e := by
  obtain ⟨es, hes⟩ := List.getLast?_eq_some_iff.mp he
  refine ⟨es, hes, ?_⟩
  rw [baselines_of_sequential h, hes, pinnedTable_snoc]

/-- **The effective baseline after complete requests** is that of the latest
successful enrollment. -/
theorem active_of_sequential (h : Sequential platform .empty log db) :
    db.baselines.active =
      (latestEnrollment log).map (·.row platform (enrollments log).length) := by
  cases he : latestEnrollment log with
  | none =>
    have hnil : enrollments log = [] := List.getLast?_eq_none_iff.mp he
    rw [baselines_of_sequential h, hnil]
    rfl
  | some e =>
    obtain ⟨es, hes, hdb⟩ := baselines_of_latest h he
    rw [hdb, hes, pinEnrollment, BaselineTable.active_pin, pinnedRow_eq]
    rfl

/-- An active row is that of the latest enrollment. -/
theorem isActive_of_sequential (h : Sequential platform .empty log db) {row : Baseline}
    (hrow : row ∈ db.baselines.rows) (hact : row.isActive = true) :
    ∃ e, latestEnrollment log = some e ∧ row = e.row platform (enrollments log).length := by
  cases he : latestEnrollment log with
  | none =>
    have hnil : enrollments log = [] := List.getLast?_eq_none_iff.mp he
    rw [baselines_of_sequential h, hnil] at hrow
    exact (List.not_mem_nil hrow).elim
  | some e =>
    obtain ⟨es, hes, hdb⟩ := baselines_of_latest h he
    rw [hdb] at hrow
    refine ⟨e, rfl, ?_⟩
    rw [hes, ← pinnedRow_eq]
    exact BaselineTable.eq_pinnedRow _ _ _ hrow hact

theorem activeCount_of_sequential (h : Sequential platform .empty log db) :
    db.baselines.activeCount ≤ 1 := by
  cases he : latestEnrollment log with
  | none =>
    have hnil : enrollments log = [] := List.getLast?_eq_none_iff.mp he
    rw [baselines_of_sequential h, hnil]
    exact Nat.zero_le 1
  | some e =>
    obtain ⟨es, -, hdb⟩ := baselines_of_latest h he
    rw [hdb]
    exact (BaselineTable.Within.pin rfl _ _ _).activeCount_le_one

/-- An enrollment that succeeded had a root that passes the structural check. -/
theorem rootOk_of_enrollment (h : Sequential platform .empty log db) :
    ∀ e ∈ enrollments log, RootOk e.report.imaMerkleRoot := by
  induction h with
  | nil => exact fun e he => (List.not_mem_nil he).elim
  | @next log db h policy arrival ih =>
    intro e he
    rw [enrollments_snoc, List.mem_append, Option.mem_toList] at he
    rcases he with he | he
    · exact ih e he
    obtain ⟨request, env⟩ := arrival
    cases request with
    | enroll report =>
      obtain ⟨verdict, -, hcases⟩ :=
        enroll_alone platform policy report env (valid_of_reachable (h.reachable .empty))
      cases verdict with
      | some reason =>
        rw [serveAlone, serve, hcases.1] at he
        cases he
      | none =>
        rw [serveAlone, serve, hcases.1] at he
        cases he
        exact hcases.2.1
    | _ => simp [Served.enrollment] at he

theorem root_of_accepted {policy : Policy} {report : AttestationReport} {env : Env} {row : Baseline}
    (h : Accepted platform policy env db report) (hrow : db.baselines.active = some row) :
    platform.lower report.imaMerkleRoot = platform.lower row.imaRoot := by
  have hchecks := (verifyReport_passes.mp (accepted_iff.mp h).1).2
  have hroot := hchecks (checkPinnedRoot platform report) (by simp [reportChecks])
  rw [commit_consumeNonce] at hroot
  have hverdict : rootVerdict platform report (db.baselines.active.map (·.imaRoot)) = none :=
    Except.ok.inj hroot
  rw [hrow] at hverdict
  exact rootVerdict_eq_none.mp hverdict

end

/-- Complete requests, each under its policy. -/
def serveAll (platform : Platform) (db₀ : Database) (requests : List (Policy × Arrival)) :
    List Served × Database :=
  requests.foldl (fun r (policy, arrival) =>
    (r.1 ++ [⟨policy, arrival, (serveAlone platform policy arrival r.2).1⟩],
      (serveAlone platform policy arrival r.2).2)) ([], db₀)

theorem sequential_serveAll (platform : Platform) (db₀ : Database)
    (requests : List (Policy × Arrival)) :
    Sequential platform db₀ (serveAll platform db₀ requests).1
      (serveAll platform db₀ requests).2 := by
  induction requests using List.reverseRecOn with
  | nil => exact .nil
  | append_singleton requests request ih =>
    rw [serveAll, List.foldl_append]
    exact ih.next _ _

/-- A nonce, an enrollment that uses it, and one whose nonce was never issued. -/
def enrollThenReject : List (Policy × Arrival) :=
  [(laxPolicy, ⟨.challenge, sampleEnv⟩),
    (laxPolicy, ⟨.enroll (sampleReport sampleEnv.token), sampleEnv⟩),
    (pcr7Policy, ⟨.enroll (sampleReport "unknown"), sampleEnv⟩)]

end TpmAttest
