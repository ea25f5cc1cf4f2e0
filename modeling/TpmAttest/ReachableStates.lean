import TpmAttest.ServerRuns
import TpmAttest.Baselines

/-! # The databases that the server can have

A database is reachable if a series of runs of the server leads to it from the
empty one.  The policy may change from run to run, a run may stop anywhere, and
the store may fail any transaction.

A reachable database is `Valid`: its table of baselines is settled, and every
stored expiry is the text of a time, so that `/enroll` raises nothing
(`enroll_never_raises`).
-/
namespace TpmAttest

open Python Transactional Program

/-- Reachable from the empty database, by any number of runs. -/
inductive Reachable (platform : Platform) : Database → Prop
  | empty : Reachable platform .empty
  | run {db : Database} (h : Reachable platform db) {ι : Type} [DecidableEq ι] {policy : Policy}
      {arrivals : ι → Arrival} {tr : List (ServerEvent ι)}
      {c : Config Database ι Tx.Ret Exn Response}
      (hr : Run exec databaseFaults unguarded (start platform policy db arrivals) tr c) :
      Reachable platform c.store

/-- What holds of every reachable database. -/
structure Valid (db : Database) : Prop where
  settled : db.baselines.Settled
  expiries : ∀ nonce t, db.activeNonces nonce = some t → ∃ expiry : DateTime, t = expiry.isoformat

theorem valid_empty : Valid .empty where
  settled := ⟨fun r hr => (List.not_mem_nil hr).elim, fun r hr => (List.not_mem_nil hr).elim⟩
  expiries _ _ h := by cases h

/-! ## One transaction -/

section
variable {platform : Platform} {arrival : Arrival} {op : Tx} {db : Database}

/-- The lower case of an accepted root is an accepted root. -/
theorem rootOk_lower {root : String} (h : RootOk root) : RootOk (platform.lower root) := by
  obtain ⟨hlen, hhex⟩ := h
  obtain ⟨n, hn⟩ := Option.isSome_iff_exists.mp hhex
  have hplain := isPlain_of_intHex hn
  refine ⟨?_, ?_⟩
  · rw [Platform.lower, length_lower _ hplain, hlen]
  · rw [Platform.lower, intHex_lower _ hplain, hn]
    rfl

/-- The lower case of an accepted root is in lower case. -/
theorem lower_lower_root {root : String} (h : RootOk root) :
    platform.lower (platform.lower root) = platform.lower root := by
  obtain ⟨n, hn⟩ := Option.isSome_iff_exists.mp h.2
  have hlower : RootOk (platform.lower root) := rootOk_lower h
  obtain ⟨m, hm⟩ := Option.isSome_iff_exists.mp hlower.2
  exact lower_lower _ (isPlain_of_intHex hn) (isPlain_of_intHex hm)

theorem rootOk_ne {root : String} (h : RootOk root) : root ≠ "" := by
  rintro rfl
  exact absurd h.1 (by decide)

/-- The table of baselines stays settled. -/
theorem settled_onBaselines (hop : Footprint platform arrival op) {t : BaselineTable}
    (h : t.Settled) : (op.onBaselines t).Settled := by
  cases op with
  | deactivateAll => exact BaselineTable.settled_deactivateAll h
  | restoreBaseline root => exact BaselineTable.settled_restore h root
  | pinBaseline root pcrs now =>
    obtain ⟨report, -, hroot, rfl, -⟩ := hop
    exact BaselineTable.settled_pin _ _ _ h (rootOk_ne (rootOk_lower (rootOk_lower hroot)))
  | _ => exact h

theorem valid_commit (hop : Footprint platform arrival op) (h : Valid db) :
    Valid (commit exec op db).2 where
  settled := by
    rw [baselines_commit]
    exact settled_onBaselines hop h.settled
  expiries nonce t ht := by
    rcases activeNonces_commit ht with hold | ⟨rfl, -⟩
    · exact h.expiries nonce t hold
    · -- only a `/challenge` inserts, and what it writes is a time
      obtain ⟨-, -, hexpiry⟩ := hop
      exact hexpiry

end

/-! ## Runs -/

section
variable {ι : Type} [DecidableEq ι] {platform : Platform} {policy : Policy} {faults : Exn → Prop}
  {guard : Guard Database ι Tx.Ret Exn Response} {db : Database} {arrivals : ι → Arrival}
  {tr : List (ServerEvent ι)} {c : Config Database ι Tx.Ret Exn Response}

theorem valid_of_run (hdb : Valid db)
    (h : Run exec faults guard (start platform policy db arrivals) tr c) : Valid c.store := by
  refine h.invariant (I := fun _ c => Valid c.store) hdb ?_
  intro tr c c' ev hr hvalid hg hs
  have hop := footprint_of_run (.step hr hg hs) ev (by simp)
  rcases hs.store with ⟨-, hstore⟩ | ⟨-, hstore⟩
  · rw [hstore]
    exact valid_commit hop hvalid
  · rw [hstore]
    exact hvalid

theorem valid_of_reachable (h : Reachable platform db) : Valid db := by
  induction h with
  | empty => exact valid_empty
  | run _ hr ih => exact valid_of_run ih hr

/-- Without faults an outcome is an error only where a nonce is inserted, and a
fetched expiry is the text of a time. -/
def GoodOutcome : (op : Tx) → Except Exn op.Ret → Prop
  | .insertNonce _ _, _ => True
  | .consumeNonce _ _, r => r = .ok none ∨ ∃ expiry : DateTime, r = .ok (some expiry.isoformat)
  | _, r => ∃ a, r = .ok a

theorem goodOutcome_commit {db : Database} (h : Valid db) (op : Tx) :
    GoodOutcome op (commit exec op db).1 := by
  cases op with
  | insertNonce nonce expiresAt => trivial
  | consumeNonce nonce now =>
    rw [commit_consumeNonce]
    cases hrow : purgeNonces db.activeNonces now.isoformat nonce with
    | none => exact Or.inl rfl
    | some t =>
      obtain ⟨expiry, rfl⟩ := h.expiries nonce t (purgeNonces_some hrow)
      exact Or.inr ⟨expiry, rfl⟩
  | _ => exact ⟨_, rfl⟩

/-- Only the insertion of a nonce fails. -/
theorem GoodOutcome.op_eq {op : Tx} {e : Exn} (h : GoodOutcome op (.error e)) :
    ∃ nonce expiresAt, op = .insertNonce nonce expiresAt := by
  cases op with
  | insertNonce nonce expiresAt => exact ⟨nonce, expiresAt, rfl⟩
  | consumeNonce nonce now =>
    rcases h with h | ⟨expiry, h⟩
    · cases h
    · cases h
  | _ =>
    obtain ⟨a, ha⟩ := h
    cases ha

/-- With such outcomes the verification of a report raises nothing. -/
theorem verifyReport_ensures_good {report : AttestationReport} {env : Env}
    {G : (op : Tx) → Except Exn op.Ret → Prop} (hgood : ∀ op r, G op r → GoodOutcome op r)
    (hnonce : ∀ nonce expiresAt r, ¬ G (.insertNonce nonce expiresAt) r) :
    (verifyReport platform policy report env).Ensures G
      (fun op => op = .consumeNonce report.nonce env.now ∨ IsLookup report op)
      (fun r => r = none → Verified platform policy G report env) fun _ => False := by
  refine verifyReport_ensures ?_ ?_ report env
  · intro op e h
    obtain ⟨nonce, expiresAt, rfl⟩ := (hgood op _ h).op_eq
    exact hnonce nonce expiresAt _ h
  · intro nonce now row e h herror
    rcases hgood _ _ h with hrow | ⟨expiry, hrow⟩
    · obtain rfl := Except.ok.inj hrow
      cases herror
    · obtain rfl := Except.ok.inj hrow
      simp only [nonceVerdict, DateTime.fromisoformat_isoformat] at herror
      cases herror

theorem goodOutcome_of_run (hdb : Valid db)
    (h : Run exec noFaults guard (start platform policy db arrivals) tr c) :
    ∀ ev ∈ tr, GoodOutcome ev.op ev.outcome := by
  intro ev hev
  obtain ⟨t₁, t₂, htr⟩ := List.append_of_mem hev
  obtain ⟨c₁, c₂, hr, -, hs⟩ := h.split htr
  rw [hs.committed.1]
  exact goodOutcome_commit (valid_of_run hdb hr) ev.op

end
/-! ## A pinned baseline -/

/-- A nonce, and an enrollment that uses it. -/
def challengeThenEnroll : Bool → Arrival
  | false => ⟨.challenge, sampleEnv⟩
  | true => ⟨.enroll (sampleReport sampleEnv.token), sampleEnv⟩

/-- The database in which the sample report has been pinned. -/
def pinnedDatabase : Database :=
  (replay exec (start lenientPlatform laxPolicy .empty challengeThenEnroll)
    [false, true, true, true, true, true]).2.store

theorem reachable_pinnedDatabase : Reachable lenientPlatform pinnedDatabase :=
  .run .empty ((replay_run _ _ _).faulty databaseFaults)

def pinnedBaseline : Baseline :=
  ⟨1, sampleRoot, samplePcrs, "2024-06-01T12:00:00+00:00", true⟩

theorem active_pinnedDatabase : pinnedDatabase.baselines.active = some pinnedBaseline := by
  decide +kernel

end TpmAttest
