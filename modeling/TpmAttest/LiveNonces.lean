import TpmAttest.NonceExpiry
import TpmAttest.NonceUse

/-! # Which nonces are alive

A stored nonce gets past the nonce check until something removes it, and there are two
things that do: a nonce transaction on that nonce, and any nonce transaction whose clock
reading is after the nonce's expiry.  No other request, and no error of the database,
costs a client its nonce.  So a run accepts exactly the nonces that are alive and have
not expired (`nonce_accepted_iff`).
-/
namespace TpmAttest

open Python Transactional Program

variable {ι : Type} {nonce : String} {expiry : DateTime}

/-- The event removes a nonce with this expiry. -/
def Removes (ev : ServerEvent ι) (nonce : String) (expiry : DateTime) : Prop :=
  ∃ i nonce' now row, ev = ⟨i, .consumeNonce nonce' now, .ok row⟩ ∧ (nonce' = nonce ∨ expiry < now)

/-- The event stores the nonce with this expiry. -/
def Inserts (ev : ServerEvent ι) (nonce : String) (expiry : DateTime) : Prop :=
  ∃ i, ev = ⟨i, .insertNonce nonce expiry.isoformat, .ok ()⟩

/-- The nonce was stored with this expiry, before the run or in it, and has not been
removed since. -/
def Alive (db : Database) (tr : List (ServerEvent ι)) (nonce : String) (expiry : DateTime) : Prop :=
  (db.activeNonces nonce = some expiry.isoformat ∧ ∀ ev ∈ tr, ¬ Removes ev nonce expiry) ∨
    ∃ t₁ ev t₂, tr = t₁ ++ ev :: t₂ ∧ Inserts ev nonce expiry ∧
      ∀ ev ∈ t₂, ¬ Removes ev nonce expiry

section Alive
variable {db : Database} {tr : List (ServerEvent ι)} {ev : ServerEvent ι}

theorem alive_nil : Alive db ([] : List (ServerEvent ι)) nonce expiry ↔
    db.activeNonces nonce = some expiry.isoformat := by
  constructor
  · rintro (⟨h, -⟩ | ⟨t₁, ev, t₂, h, -⟩)
    · exact h
    · simp at h
  · intro h
    exact Or.inl ⟨h, by simp⟩

/-- One more event: a nonce is stored, or survives. -/
theorem alive_snoc : Alive db (tr ++ [ev]) nonce expiry ↔
    (Alive db tr nonce expiry ∧ ¬ Removes ev nonce expiry) ∨ Inserts ev nonce expiry := by
  constructor
  · rintro (⟨hdb, hall⟩ | ⟨t₁, ev', t₂, hsplit, hinserts, hall⟩)
    · rw [List.forall_mem_append] at hall
      exact Or.inl ⟨Or.inl ⟨hdb, hall.1⟩, hall.2 ev (List.mem_singleton_self ev)⟩
    · rcases split_snoc hsplit with ⟨rfl, rfl, rfl⟩ | ⟨t₂', rfl, htr⟩
      · exact Or.inr hinserts
      · rw [List.forall_mem_append] at hall
        exact Or.inl ⟨Or.inr ⟨t₁, ev', t₂', htr, hinserts, hall.1⟩,
          hall.2 ev (List.mem_singleton_self ev)⟩
  · rintro (⟨⟨hdb, hall⟩ | ⟨t₁, ev', t₂, rfl, hinserts, hall⟩, hev⟩ | hinserts)
    · refine Or.inl ⟨hdb, ?_⟩
      rw [List.forall_mem_append]
      exact ⟨hall, by simpa using hev⟩
    · refine Or.inr ⟨t₁, ev', t₂ ++ [ev], by simp, hinserts, ?_⟩
      rw [List.forall_mem_append]
      exact ⟨hall, by simpa using hev⟩
    · exact Or.inr ⟨tr, ev, [], rfl, hinserts, by simp⟩

end Alive

/-! ## The table of nonces -/

section Runs
variable [DecidableEq ι] {platform : Platform} {policy : Policy} {faults : Exn → Prop}
  {guard : Guard Database ι Tx.Ret Exn Response} {db : Database} {arrivals : ι → Arrival}
  {tr : List (ServerEvent ι)} {c c' : Config Database ι Tx.Ret Exn Response} {ev : ServerEvent ι}

/-- What a nonce transaction leaves of a nonce. -/
theorem activeNonces_consumed {nonce' : String} {now : DateTime} :
    (commit exec (.consumeNonce nonce' now) db).2.activeNonces nonce = some expiry.isoformat ↔
      db.activeNonces nonce = some expiry.isoformat ∧ ¬ (nonce' = nonce ∨ expiry < now) := by
  rw [commit_consumeNonce]
  dsimp only
  by_cases hn : nonce = nonce'
  · subst hn
    rw [Function.update_self]
    simp
  · rw [Function.update_of_ne hn, purgeNonces, Option.filter_eq_some_iff, decide_eq_true_iff,
      DateTime.isoformat_lt_iff]
    simp [Ne.symm hn]

/-- What an insertion that commits leaves. -/
theorem activeNonces_inserted {nonce' t : String}
    (h : (commit exec (.insertNonce nonce' t) db).1 = .ok ()) :
    (commit exec (.insertNonce nonce' t) db).2.activeNonces nonce = some expiry.isoformat ↔
      db.activeNonces nonce = some expiry.isoformat ∨ (nonce' = nonce ∧ t = expiry.isoformat) := by
  cases hdup : db.activeNonces nonce' with
  | some t' =>
    simp only [commit, exec, hdup] at h
    cases h
  | none =>
    rw [commit_insertNonce db t hdup]
    dsimp only
    by_cases hn : nonce = nonce'
    · subst hn
      rw [Function.update_self, hdup]
      simp
    · rw [Function.update_of_ne hn]
      simp [Ne.symm hn]

/-- An insertion that fails leaves the table as it is. -/
theorem commit_insertNonce_error {nonce' t : String} {e : Exn}
    (h : (commit exec (.insertNonce nonce' t) db).1 = .error e) :
    (commit exec (.insertNonce nonce' t) db).2 = db := by
  cases hdup : db.activeNonces nonce' with
  | some t' => simp only [commit, exec, hdup]
  | none =>
    rw [commit_insertNonce db t hdup] at h
    cases h

omit [DecidableEq ι] in
/-- An event that neither removes nor stores the nonce. -/
theorem quiet_iff {P : Prop} (hremoves : ¬ Removes ev nonce expiry) (hinserts : ¬ Inserts ev nonce expiry) :
    (P ∧ ¬ Removes ev nonce expiry) ∨ Inserts ev nonce expiry ↔ P := by
  simp [hremoves, hinserts]

omit [DecidableEq ι] in
theorem quiet_of_error {i : ι} {op : Tx} {e : Exn} :
    ¬ Removes (⟨i, op, .error e⟩ : ServerEvent ι) nonce expiry ∧
      ¬ Inserts (⟨i, op, .error e⟩ : ServerEvent ι) nonce expiry := by
  constructor
  · rintro ⟨_, _, _, _, h, -⟩
    cases h
  · rintro ⟨_, h⟩
    cases h

/-- **One step**: a nonce is in the table if it was and the step did not remove it, or
if the step stored it. -/
theorem activeNonces_step (hs : Step exec faults c ev c') :
    c'.store.activeNonces nonce = some expiry.isoformat ↔
      (c.store.activeNonces nonce = some expiry.isoformat ∧ ¬ Removes ev nonce expiry) ∨
        Inserts ev nonce expiry := by
  obtain ⟨i, op, outcome⟩ := ev
  rcases hs.store with ⟨houtcome, hstore⟩ | ⟨⟨e, herror, -⟩, hstore⟩
  · obtain rfl : outcome = (commit exec op c.store).1 := houtcome
    rw [hstore]
    cases op with
    | insertNonce nonce' t =>
      dsimp only
      cases hcommit : (commit exec (.insertNonce nonce' t) c.store).1 with
      | error e =>
        rw [commit_insertNonce_error hcommit]
        exact (quiet_iff quiet_of_error.1 quiet_of_error.2).symm
      | ok r =>
        rw [activeNonces_inserted hcommit]
        refine or_congr (iff_self_and.mpr fun _ => ?_) ⟨?_, ?_⟩
        · rintro ⟨_, _, _, _, h, -⟩
          cases h
        · rintro ⟨rfl, rfl⟩
          exact ⟨i, rfl⟩
        · rintro ⟨j, h⟩
          cases h
          exact ⟨rfl, rfl⟩
    | consumeNonce nonce' now =>
      rw [activeNonces_consumed]
      generalize hout : (commit exec (.consumeNonce nonce' now) c.store).1 = outcome
      rw [commit_consumeNonce] at hout
      subst hout
      have hinserts : ¬ Inserts (⟨i, .consumeNonce nonce' now,
          .ok (purgeNonces c.store.activeNonces now.isoformat nonce')⟩ : ServerEvent ι)
            nonce expiry := by
        rintro ⟨j, h⟩
        cases h
      refine Iff.trans (and_congr_right fun _ => not_congr ⟨fun h => ?_, ?_⟩)
        (or_iff_left hinserts).symm
      · exact ⟨i, _, now, _, rfl, h⟩
      · rintro ⟨_, _, _, _, h, hremoves⟩
        cases h
        exact hremoves
    | _ =>
      refine (quiet_iff ?_ ?_).symm
      · rintro ⟨_, _, _, _, h, -⟩
        cases h
      · rintro ⟨_, h⟩
        cases h
  · obtain rfl : outcome = .error e := herror
    rw [hstore]
    exact (quiet_iff quiet_of_error.1 quiet_of_error.2).symm

/-- **The table of nonces is what the events say.** -/
theorem alive_iff (h : Run exec faults guard (start platform policy db arrivals) tr c) :
    c.store.activeNonces nonce = some expiry.isoformat ↔ Alive db tr nonce expiry := by
  induction h with
  | refl => exact alive_nil.symm
  | step _ _ hs ih => rw [activeNonces_step hs, alive_snoc, ih]

/-- **Which nonces are accepted**: in every run from a reachable database, with any
clock readings and database errors, a nonce transaction that commits gets past the
check exactly if the nonce is alive and has not expired. -/
theorem nonce_accepted_iff (platform : Platform) (policy : Policy) (db : Database)
    (arrivals : ι → Arrival) (hdb : Reachable platform db) (tr : List (ServerEvent ι))
    (c : Config Database ι Tx.Ret Exn Response)
    (h : Run exec databaseFaults unguarded (start platform policy db arrivals) tr c)
    (t₁ t₂ : List (ServerEvent ι)) (i : ι) (nonce : String) (now : DateTime) (row : Option String)
    (htr : tr = t₁ ++ ⟨i, .consumeNonce nonce now, .ok row⟩ :: t₂) :
    nonceVerdict now row = .ok none ↔ ∃ expiry, Alive db t₁ nonce expiry ∧ ¬ expiry < now := by
  obtain ⟨c₁, c₂, hr, -, hs⟩ := h.split htr
  have hrow : row = purgeNonces c₁.store.activeNonces now.isoformat nonce := by
    rcases hs.store with ⟨houtcome, -⟩ | ⟨⟨e, he, -⟩, -⟩
    · rw [commit_consumeNonce] at houtcome
      exact Except.ok.inj houtcome
    · cases he
  constructor
  · intro hverdict
    cases row with
    | none => cases hverdict
    | some t =>
      have ht := purgeNonces_some hrow.symm
      obtain ⟨expiry, rfl⟩ := (valid_of_run (valid_of_reachable hdb) hr).expiries nonce t ht
      refine ⟨expiry, (alive_iff hr).mp ht, fun hlt => ?_⟩
      rw [nonceVerdict_isoformat, if_pos hlt] at hverdict
      cases hverdict
  · rintro ⟨expiry, halive, hlt⟩
    have hfetched : row = some expiry.isoformat := by
      rw [hrow, purgeNonces, Option.filter_eq_some_iff, decide_eq_true_iff,
        DateTime.isoformat_lt_iff]
      exact ⟨(alive_iff hr).mpr halive, hlt⟩
    rw [hfetched, nonceVerdict_isoformat, if_neg hlt]

end Runs

theorem nonce_accepted_iff_challengeThenAttest :
    ∃ expiry, Alive .empty [challengeEvent] "c0ffee" expiry ∧ ¬ expiry < noon := by
  have hrun := (replay_run exec (start lenientPlatform laxPolicy .empty challengeThenAttest)
    [false, true]).faulty databaseFaults
  exact (nonce_accepted_iff lenientPlatform laxPolicy .empty challengeThenAttest .empty _ _ hrun
    [challengeEvent] [] true "c0ffee" noon (some "2024-06-01T12:02:00+00:00") rfl).mp rfl

end TpmAttest
