import TpmAttest.SerializableRuns
import TpmAttest.SequentialRuns

/-! # Serializable requests

An `/attest` reads its machine and the pinned baseline in transactions of their own,
and an `/enroll` clears the flags long before it sets them again, so requests that
interleave may do what no order of complete requests does.  `Apart` says which ones to
keep apart: an `/enroll` from every other request, and the registration of a machine
from the `/attest` requests that name it.  Then every run is a sequence of complete
requests (`serializable`), in the order of their first transactions, and what is known
of such sequences holds of it.
-/
namespace TpmAttest

open Python Transactional Program

variable {ι : Type} [DecidableEq ι] {platform : Platform} {policy : Policy} {db : Database}
  {arrivals : ι → Arrival} {tr : List (ServerEvent ι)}
  {c c' : Config Database ι Tx.Ret Exn Response} {ev : ServerEvent ι}

def Arrival.Enrolls (arrival : Arrival) : Prop := ∃ report, arrival.request = .enroll report

/-- The condition on a step: an `/enroll` is served alone, and a machine is registered
only while no `/attest` that names it is under way. -/
structure Apart (arrivals : ι → Arrival) (tr : List (ServerEvent ι))
    (c : Config Database ι Tx.Ret Exn Response) (ev : ServerEvent ι) : Prop where
  enroll : ∀ j, j ≠ ev.thread → Active tr c j →
    ¬ (arrivals ev.thread).Enrolls ∧ ¬ (arrivals j).Enrolls
  register : ∀ j, j ≠ ev.thread → Active tr c j → ∀ req report,
    (arrivals ev.thread).request = .register req → (arrivals j).request = .attest report →
      report.machineId ≠ some req.machineId

/-- What a request reads after its first transaction. -/
def ReadsLater (arrival : Arrival) (op : Tx) : Prop :=
  ∃ report, arrival.request = .attest report ∧ IsLookup report op

/-! ## After the first transaction -/

theorem challenge_atomic (env : Env) : (challenge env).Atomic := by
  refine Atomic.bind (Finished.bind_atomic (finished_ofExcept _) fun expiry => ?_) fun _ => trivial
  exact (atomic_perform _).bind fun _ => trivial

theorem register_atomic (req : RegisterRequest) (env : Env) :
    (register platform policy req env).Atomic := by
  have hstore : ∀ verified info, (storeMachine req verified info env).Atomic :=
    fun _ _ => (atomic_perform _).bind fun _ => trivial
  unfold register
  split
  · exact hstore _ _
  · dsimp only
    split
    · exact hstore _ _
    · trivial

/-- After its nonce an `/attest` only looks up. -/
theorem attest_thenOnly (report : AttestationReport) (env : Env) :
    (attest platform policy report env).ThenOnly (IsLookup report) := by
  have hchecks : (inOrder (reportChecks platform policy report)).Only (IsLookup report) :=
    (reportChecks_ensures fun _ _ _ _ => trivial).mono (fun _ => id) (fun _ _ => trivial) fun _ => id
  have hresponse : ∀ verdict, (attestResponse env verdict).Only (IsLookup report) := by
    intro verdict
    refine .of_finished ?_
    cases verdict with
    | some reason => trivial
    | none => exact (finished_ofExcept _).bind fun _ => trivial
  have hnonce : ∀ r : Except Exn (Option String),
      ((ofExcept r : ServerM _).bind fun row => ofExcept (nonceVerdict env.now row)).Finished :=
    fun r => (finished_ofExcept r).bind fun _ => finished_ofExcept _
  intro r
  refine Only.bind (Only.bind (.of_finished (hnonce r)) fun verdict => ?_) hresponse
  cases verdict with
  | some reason => trivial
  | none => exact hchecks

theorem serve_thenOnly {arrival : Arrival} (h : ¬ arrival.Enrolls) :
    (serve platform policy arrival.env arrival.request).ThenOnly (ReadsLater arrival) := by
  obtain ⟨request, env⟩ := arrival
  cases request with
  | health => trivial
  | challenge => exact (challenge_atomic env).thenOnly
  | register req => exact (register_atomic req env).thenOnly
  | attest report =>
    intro r
    exact (attest_thenOnly report env r).mono (fun op hop => ⟨report, rfl, hop⟩) (fun _ => id)
      fun _ => id
  | enroll report => exact absurd ⟨report, rfl⟩ h

/-! ## The condition on the transactions -/

/-- A lookup finds the same before and after a transaction of another request, unless
that enrolls, or registers the machine. -/
theorem lookup_undisturbed {arrival : Arrival} {report : AttestationReport} {op op' : Tx}
    (hop : Footprint platform arrival op) (henroll : ¬ arrival.Enrolls)
    (hregister : ∀ req, arrival.request = .register req → report.machineId ≠ some req.machineId)
    (hlookup : IsLookup report op') :
    (commit exec op' (commit exec op db).2).1 = (commit exec op' db).1 := by
  have hbaselines : (commit exec op db).2.baselines = db.baselines := by
    rw [baselines_commit, onBaselines_of_footprint hop fun report h => henroll ⟨report, h⟩]
  cases op' with
  | selectMachine machineId =>
    have hmachine : (commit exec op db).2.enrolledMachines machineId =
        db.enrolledMachines machineId := by
      refine enrolledMachines_commit ?_
      rintro row rfl
      obtain ⟨req, hreq, rfl, -⟩ := hop
      exact hregister req hreq hlookup
    rw [commit_selectMachine, commit_selectMachine, hmachine]
  | selectActiveRoot => rw [commit_selectActiveRoot, commit_selectActiveRoot, hbaselines]
  | selectActivePcrJson => rw [commit_selectActivePcrJson, commit_selectActivePcrJson, hbaselines]
  | _ => exact hlookup.elim

/-- Requests that are kept apart are isolated. -/
theorem isolated_of_apart
    (h : Run exec noFaults (Apart arrivals) (start platform policy db arrivals) tr c)
    (hg : Apart arrivals tr c ev) (hs : Step exec noFaults c ev c') :
    Isolated exec (fun i => (arrivals i).Enrolls) (fun i => ReadsLater (arrivals i)) tr c ev where
  alone := hg.enroll
  undisturbed j hj hactive op hop := by
    obtain ⟨report, hreq, hlookup⟩ := hop
    have hfoot := footprint_of_run (.step h hg hs) ev (by simp)
    exact lookup_undisturbed hfoot (hg.enroll j hj hactive).1
      (fun req h => hg.register j hj hactive req report h hreq) hlookup

/-! ## Runs are sequences of complete requests -/

omit [DecidableEq ι] in
theorem sequential_of_serially {log : List (ι × Except Exn Response)} {s : Database}
    (h : Serially exec (start platform policy db arrivals).threads db log s) :
    Sequential platform db (log.map fun p => ⟨policy, arrivals p.1, p.2⟩) s := by
  induction h with
  | nil => exact .nil
  | next _ i ih =>
    rw [List.map_append]
    exact ih.next policy (arrivals i)

/-- **Requests that are kept apart are serializable**: in every run, when the requests
that have begun are over, the database and their outcomes are those of serving them one
after another, in the order of their first transactions. -/
theorem serializable (platform : Platform) (policy : Policy) (db : Database)
    (arrivals : ι → Arrival) (tr : List (ServerEvent ι))
    (c : Config Database ι Tx.Ret Exn Response)
    (h : Run exec noFaults (Apart arrivals) (start platform policy db arrivals) tr c)
    (outcome : ι → Except Exn Response)
    (hdone : ∀ i ∈ begun tr, c.threads i = ofExcept (outcome i)) :
    Sequential platform db ((begun tr).map fun i => ⟨policy, arrivals i, outcome i⟩) c.store := by
  have hisolated : Run exec noFaults
      (Isolated exec (fun i => (arrivals i).Enrolls) fun i => ReadsLater (arrivals i))
      (start platform policy db arrivals) tr c := h.guarded isolated_of_apart
  have hread : ∀ i op, ReadsLater (arrivals i) op → ∀ s, (commit exec op s).2 = s := by
    rintro i op ⟨report, -, hlookup⟩ s
    exact commit_lookup hlookup s
  have hserial := hisolated.serially_of_done hread (fun i => serve_thenOnly) hdone
  have hsequential := sequential_of_serially hserial
  rwa [List.map_map] at hsequential

/-- The database after a `/challenge`. -/
def issuedDatabase : Database :=
  (replay exec (start lenientPlatform laxPolicy .empty challengeThenAttest) [false]).2.store

/-- An attestation with that nonce, and another `/challenge`. -/
def attestAndChallenge : Bool → Arrival
  | true => ⟨.attest (sampleReport sampleEnv.token), sampleEnv⟩
  | false => ⟨.challenge, { sampleEnv with token := "decade" }⟩

/-- The `/challenge` comes between the transactions of the attestation. -/
theorem serializable_attestAndChallenge :
    ∃ s, Sequential lenientPlatform issuedDatabase
      [⟨laxPolicy, attestAndChallenge true, .ok (.valid "token" "2024-06-01T12:05:00+00:00")⟩,
        ⟨laxPolicy, attestAndChallenge false, .ok (.challenge "decade" 120)⟩] s := by
  have hrun : Run exec noFaults (Apart attestAndChallenge)
      (start lenientPlatform laxPolicy issuedDatabase attestAndChallenge) _ _ :=
    replay_guarded exec _ [true, false, true] ?_
  · refine ⟨_, serializable lenientPlatform laxPolicy issuedDatabase attestAndChallenge _ _ hrun
      (fun i => if i then .ok (.valid "token" "2024-06-01T12:05:00+00:00")
        else .ok (.challenge "decade" 120)) ?_⟩
    rintro (_ | _) -
    · exact returned_eq_some.mp (by decide +kernel)
    · exact returned_eq_some.mp (by decide +kernel)
  · rintro k i - op next - outcome -
    have henroll : ∀ j, ¬ (attestAndChallenge j).Enrolls := by
      rintro (_ | _) ⟨report, h⟩ <;> cases h
    refine ⟨fun j _ _ => ⟨henroll _, henroll _⟩, fun j _ _ req report h => ?_⟩
    cases i <;> cases h

end TpmAttest
