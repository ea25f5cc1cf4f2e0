import TpmAttest.ServerRuns

/-! # Nonces are used once

In every run of the server, whatever the clock readings and the database errors
are, a nonce gets past the nonce check at most once, after a `/challenge` inserted
it and not after its expiry; and once a request has run its nonce transaction on a
nonce, no later one gets past the check with it.

The invariant is `Unspent`: a nonce that stands in the table was inserted in the
run, and no transaction has consumed it since.  It holds because a token is
inserted once (`insert_once`): tokens do not repeat, and a `/challenge` performs a
single transaction.
-/
namespace TpmAttest

open Python Transactional Program

variable {ι : Type} [DecidableEq ι]

/-- A `/challenge` has inserted the nonce, with this expiry. -/
def Issued (tr : List (ServerEvent ι)) (nonce : String) (expiry : DateTime) : Prop :=
  ∃ i, (⟨i, .insertNonce nonce expiry.isoformat, .ok ()⟩ : ServerEvent ι) ∈ tr

/-- The event is a committed nonce transaction on the nonce. -/
def Consumes (ev : ServerEvent ι) (nonce : String) : Prop :=
  ∃ i now row, ev = ⟨i, .consumeNonce nonce now, .ok row⟩

/-- The event is a nonce transaction on the nonce that gets past the check, at
that clock reading. -/
def Accepts (ev : ServerEvent ι) (nonce : String) (now : DateTime) : Prop :=
  ∃ i row, ev = ⟨i, .consumeNonce nonce now, .ok row⟩ ∧ nonceVerdict now row = .ok none

/-! ## Runs -/

variable {platform : Platform} {policy : Policy} {db : Database} {arrivals : ι → Arrival}

/-- A `/challenge` performs at most one transaction. -/
theorem challenge_path {env : Env} {l : List (Observation Tx.Ret Exn)} {op : Tx}
    {next : Except Exn op.Ret → ServerM Response} (h : Path (challenge env) l (.call op next)) :
    l = [] := by
  unfold challenge issueNonce at h
  cases hadd : env.now.addSeconds challengeLifetimeSeconds with
  | error e =>
    rw [hadd] at h
    exact (h.of_finished (p := .raise e) trivial).1
  | ok expiry =>
    rw [hadd] at h
    simp only [ofExcept_ok, bind_eq, ret_bind, perform_bind, call_bind] at h
    cases h with
    | refl => rfl
    | @call _ _ r _ _ h =>
      cases r with
      | ok r => cases (h.of_finished (p := .ret _) trivial).2
      | error e => cases (h.of_finished (p := .raise e) trivial).2

section Runs
variable {faults : Exn → Prop} {tr : List (ServerEvent ι)} {c c' : Config Database ι Tx.Ret Exn Response}
  {ev : ServerEvent ι}

/-- The tokens of the `/challenge` requests are distinct. -/
def FreshTokens (arrivals : ι → Arrival) : Prop :=
  ∀ i j, (arrivals i).request = .challenge → (arrivals j).request = .challenge →
    (arrivals i).env.token = (arrivals j).env.token → i = j

/-- **A token is inserted once**: an insertion of a nonce finds none before it. -/
theorem insert_once (hfresh : FreshTokens arrivals)
    (h : Run exec faults unguarded (start platform policy db arrivals) tr c)
    (hs : Step exec faults c ev c') {nonce t t' : String} (hev : ev.op = .insertNonce nonce t) :
    ∀ ev' ∈ tr, ev'.op ≠ .insertNonce nonce t' := by
  intro ev' hmem hop
  have hfoot := footprint_of_run h ev' hmem
  have hfoot' := footprint_of_run (.step h trivial hs) ev (by simp)
  rw [hop] at hfoot
  rw [hev] at hfoot'
  obtain ⟨hreq, htoken, -⟩ := hfoot
  obtain ⟨hreq', htoken', -⟩ := hfoot'
  have hthread := hfresh _ _ hreq hreq' (htoken.symm.trans htoken')
  -- the thread has performed a transaction and is at another
  obtain ⟨next, hcall, -⟩ := hs.threads
  have hpath := h.path ev.thread
  rw [hcall] at hpath
  change Path (serve platform policy _ (arrivals ev.thread).request) _ _ at hpath
  rw [hreq'] at hpath
  have hmem' : (⟨ev'.op, ev'.outcome⟩ : Observation Tx.Ret Exn) ∈ history ev.thread tr := by
    rw [mem_history, ← hthread]
    exact hmem
  rw [challenge_path hpath] at hmem'
  cases hmem'

/-- A nonce in the table was inserted in the run, and not consumed after any
attempt to insert it. -/
def Unspent (tr : List (ServerEvent ι)) (db : Database) : Prop :=
  ∀ nonce t, db.activeNonces nonce = some t →
    (∃ i, (⟨i, .insertNonce nonce t, .ok ()⟩ : ServerEvent ι) ∈ tr) ∧
    ∀ t₁ ev t₂, tr = t₁ ++ ev :: t₂ → (∃ ev' ∈ t₁, ∃ t', ev'.op = .insertNonce nonce t') →
      ¬ Consumes ev nonce

/-- An event before the last one is an event of the shorter trace. -/
theorem split_snoc {α : Type} {l t₁ t₂ : List α} {a b : α} (h : l ++ [a] = t₁ ++ b :: t₂) :
    (t₁ = l ∧ b = a ∧ t₂ = []) ∨ ∃ t₂', t₂ = t₂' ++ [a] ∧ l = t₁ ++ b :: t₂' := by
  rcases List.eq_nil_or_concat t₂ with rfl | ⟨t₂', x, rfl⟩
  · obtain ⟨rfl, hb⟩ := List.append_inj' h rfl
    exact Or.inl ⟨rfl, (List.singleton_inj.mp hb).symm, rfl⟩
  · rw [List.concat_eq_append, ← List.cons_append, ← List.append_assoc] at h
    obtain ⟨hl, hx⟩ := List.append_inj' h rfl
    rw [List.singleton_inj] at hx
    exact Or.inr ⟨t₂', by rw [hx, List.concat_eq_append], hl⟩

theorem unspent_of_run (hdb : ∀ nonce, db.activeNonces nonce = none)
    (hfresh : FreshTokens arrivals)
    (h : Run exec faults unguarded (start platform policy db arrivals) tr c) :
    Unspent tr c.store := by
  refine h.invariant (I := fun tr c => Unspent tr c.store) ?_ ?_
  · intro nonce t ht
    rw [show (start platform policy db arrivals).store = db from rfl, hdb] at ht
    cases ht
  · intro tr c c' ev hr ih _ hs nonce t ht
    have hconsume : Consumes ev nonce → c'.store.activeNonces nonce = none := by
      rintro ⟨i, now, row, rfl⟩
      rcases hs.store with ⟨-, hstore⟩ | ⟨⟨e, he, -⟩, -⟩
      · rw [hstore]
        exact activeNonces_consume now
      · cases he
    have hold : c.store.activeNonces nonce = some t ∨
        ∃ i, ev = ⟨i, .insertNonce nonce t, .ok ()⟩ := by
      rcases hs.store with ⟨houtcome, hstore⟩ | ⟨-, hstore⟩
      · rw [hstore] at ht
        rcases activeNonces_commit ht with hold | ⟨hop, r, hr⟩
        · exact Or.inl hold
        · obtain ⟨i, op, outcome⟩ := ev
          obtain rfl : op = .insertNonce nonce t := hop
          have hout : outcome = .ok r := houtcome.trans hr
          exact Or.inr ⟨i, by rw [hout]⟩
      · exact Or.inl (hstore ▸ ht)
    rcases hold with hold | ⟨i, rfl⟩
    · obtain ⟨hins, hspent⟩ := ih nonce t hold
      refine ⟨hins.imp fun i hi => List.mem_append_left _ hi, ?_⟩
      intro t₁ ev' t₂ hsplit hbefore hcons
      rcases split_snoc hsplit with ⟨rfl, rfl, rfl⟩ | ⟨t₂', rfl, htr⟩
      · rw [hconsume hcons] at ht
        cases ht
      · exact hspent t₁ ev' t₂' htr hbefore hcons
    · refine ⟨⟨i, by simp⟩, ?_⟩
      rintro t₁ ev' t₂ hsplit ⟨ev₀, hmem, t', hop⟩ hcons
      rcases split_snoc hsplit with ⟨rfl, rfl, rfl⟩ | ⟨t₂', rfl, htr⟩
      · obtain ⟨_, _, _, hev⟩ := hcons
        cases hev
      · -- the nonce would have been inserted before
        exact insert_once hfresh hr hs rfl ev₀ (by rw [htr]; simp [hmem]) hop

omit [DecidableEq ι] in
/-- An event accepts a nonce when it is the transaction with which `_consume_nonce`
returns None. -/
theorem accepts_iff_path {nonce : String} {now : DateTime} :
    Accepts ev nonce now ↔
      Path (consumeNonce nonce now) [⟨ev.op, ev.outcome⟩] (.ret none) := by
  constructor
  · rintro ⟨i, row, rfl, hverdict⟩
    refine .call ?_
    change Path (ofExcept (nonceVerdict now row)) [] _
    rw [hverdict]
    exact .refl _
  · obtain ⟨i, op, outcome⟩ := ev
    intro h
    rw [consumeNonce, transaction, bind_eq, perform_bind] at h
    cases h with
    | call h =>
      cases outcome with
      | error e => cases h.of_nil
      | ok row =>
        have hnone : ofExcept (.ok none) = ofExcept (nonceVerdict now row) := h.of_nil
        exact ⟨i, row, rfl, (ofExcept_injective hnone).symm⟩

/-- A request has had its nonce accepted once `_consume_nonce` has returned None
among its transactions, whatever the checks behind make of the report. -/
theorem accepted_iff_history {i : ι} {nonce : String} {now : DateTime} :
    (∃ ev ∈ tr, ev.thread = i ∧ Accepts ev nonce now) ↔
      ∃ l₁ o l₂, history i tr = l₁ ++ o :: l₂ ∧ Path (consumeNonce nonce now) [o] (.ret none) := by
  constructor
  · rintro ⟨ev, hmem, rfl, ha⟩
    obtain ⟨l₁, l₂, hl⟩ := List.append_of_mem (mem_history.mpr hmem :
      (⟨ev.op, ev.outcome⟩ : Observation Tx.Ret Exn) ∈ history ev.thread tr)
    exact ⟨l₁, _, l₂, hl, accepts_iff_path.mp ha⟩
  · rintro ⟨l₁, o, l₂, hl, hpath⟩
    have hmem : o ∈ history i tr := by rw [hl]; simp
    exact ⟨⟨i, o.1, o.2⟩, mem_history.mp hmem, rfl, accepts_iff_path.mpr hpath⟩

/-- An accepted nonce was in the table, with an expiry that has not passed. -/
theorem accepted_row {nonce : String} {now : DateTime} (hs : Step exec faults c ev c')
    (ha : Accepts ev nonce now) :
    ∃ t, c.store.activeNonces nonce = some t ∧ nonceVerdict now (some t) = .ok none := by
  obtain ⟨i, row, rfl, hverdict⟩ := ha
  cases row with
  | none => cases hverdict
  | some t =>
    rcases hs.store with ⟨houtcome, -⟩ | ⟨⟨e, he, -⟩, -⟩
    · exact ⟨t, consumed_row houtcome.symm, hverdict⟩
    · cases he

omit [DecidableEq ι] in
theorem consumes_of_accepts {nonce : String} {now : DateTime} (h : Accepts ev nonce now) :
    Consumes ev nonce := by
  obtain ⟨i, row, rfl, -⟩ := h
  exact ⟨i, now, row, rfl⟩

/-- After an issued nonce has been consumed, no event accepts it. -/
theorem not_accepted_after (hdb : ∀ nonce, db.activeNonces nonce = none)
    (hfresh : FreshTokens arrivals)
    (h : Run exec faults unguarded (start platform policy db arrivals) tr c) {nonce : String}
    {expiry : DateTime} {t₁ t₂ : List (ServerEvent ι)} (htr : tr = t₁ ++ ev :: t₂)
    (hissued : Issued t₁ nonce expiry) (hconsumed : Consumes ev nonce) :
    ∀ ev' ∈ t₂, ∀ now, ¬ Accepts ev' nonce now := by
  intro ev' hmem now ha
  obtain ⟨s₁, s₂, rfl⟩ := List.append_of_mem hmem
  have hsplit : tr = (t₁ ++ ev :: s₁) ++ ev' :: s₂ := by simp [htr]
  obtain ⟨c₁, c₂, hr, -, hs⟩ := h.split hsplit
  obtain ⟨t, ht, -⟩ := accepted_row hs ha
  obtain ⟨i, hi⟩ := hissued
  exact (unspent_of_run hdb hfresh hr nonce t ht).2 t₁ ev s₁ rfl ⟨_, hi, _, rfl⟩ hconsumed

/-- An accepted nonce was issued before, with an expiry that is not before the clock
reading. -/
theorem issued_of_accepts (hdb : ∀ nonce, db.activeNonces nonce = none)
    (hfresh : FreshTokens arrivals)
    (h : Run exec faults unguarded (start platform policy db arrivals) tr c) {nonce : String}
    {now : DateTime} {t₁ t₂ : List (ServerEvent ι)} (htr : tr = t₁ ++ ev :: t₂)
    (ha : Accepts ev nonce now) : ∃ expiry, Issued t₁ nonce expiry ∧ ¬ expiry < now := by
  obtain ⟨c₁, c₂, hr, -, hs⟩ := h.split htr
  obtain ⟨t, ht, hverdict⟩ := accepted_row hs ha
  obtain ⟨⟨i, hi⟩, -⟩ := unspent_of_run hdb hfresh hr nonce t ht
  obtain ⟨-, -, expiry, rfl⟩ := footprint_of_run hr _ hi
  refine ⟨expiry, ⟨i, hi⟩, fun hlt => ?_⟩
  rw [nonceVerdict_isoformat, if_pos hlt] at hverdict
  cases hverdict

/-- No two events accept a nonce. -/
theorem accepted_unique (hdb : ∀ nonce, db.activeNonces nonce = none)
    (hfresh : FreshTokens arrivals)
    (h : Run exec faults unguarded (start platform policy db arrivals) tr c) {nonce : String}
    {now : DateTime} {t₁ t₂ : List (ServerEvent ι)} (htr : tr = t₁ ++ ev :: t₂)
    (ha : Accepts ev nonce now) : ∀ ev' ∈ t₁ ++ t₂, ∀ now', ¬ Accepts ev' nonce now' := by
  intro ev' hmem now' ha'
  rcases List.mem_append.mp hmem with hmem | hmem
  · obtain ⟨s₁, s₂, rfl⟩ := List.append_of_mem hmem
    have hsplit : tr = s₁ ++ ev' :: (s₂ ++ ev :: t₂) := by rw [htr]; simp
    obtain ⟨expiry, hissued, -⟩ := issued_of_accepts hdb hfresh h hsplit ha'
    exact not_accepted_after hdb hfresh h hsplit hissued (consumes_of_accepts ha') ev
      (List.mem_append_right _ List.mem_cons_self) now ha
  · obtain ⟨expiry, hissued, -⟩ := issued_of_accepts hdb hfresh h htr ha
    exact not_accepted_after hdb hfresh h htr hissued (consumes_of_accepts ha) ev' hmem now' ha'

/-- **A nonce is used once.**  From a table without nonces, with tokens that do
not repeat, in every run with any clock readings and database errors: an accepted
nonce was issued before with an expiry that is not before the clock reading, and
no later event accepts it; and after any committed nonce transaction on an issued
nonce no event accepts it. -/
theorem nonce_single_use (platform : Platform) (policy : Policy) (db : Database)
    (arrivals : ι → Arrival) (hdb : ∀ nonce, db.activeNonces nonce = none)
    (hfresh : FreshTokens arrivals) (tr : List (ServerEvent ι))
    (c : Config Database ι Tx.Ret Exn Response)
    (h : Run exec databaseFaults unguarded (start platform policy db arrivals) tr c)
    (t₁ t₂ : List (ServerEvent ι)) (ev : ServerEvent ι) (htr : tr = t₁ ++ ev :: t₂)
    (nonce : String) :
    (∀ now, Accepts ev nonce now →
      (∃ expiry, Issued t₁ nonce expiry ∧ ¬ expiry < now) ∧
        ∀ ev' ∈ t₂, ∀ now', ¬ Accepts ev' nonce now') ∧
    (∀ expiry, Issued t₁ nonce expiry → Consumes ev nonce →
      ∀ ev' ∈ t₂, ∀ now', ¬ Accepts ev' nonce now') := by
  refine ⟨fun now ha => ?_, fun expiry hissued hconsumed =>
    not_accepted_after hdb hfresh h htr hissued hconsumed⟩
  obtain ⟨expiry, hissued, hlt⟩ := issued_of_accepts hdb hfresh h htr ha
  exact ⟨⟨expiry, hissued, hlt⟩,
    not_accepted_after hdb hfresh h htr hissued (consumes_of_accepts ha)⟩

/-- A positive answer means that an event of the run accepted the report's nonce. -/
theorem accepts_of_response
    (h : Run exec faults unguarded (start platform policy db arrivals) tr c) {i : ι}
    {report : AttestationReport} (hreq : (arrivals i).request.report = some report)
    {resp : Response} (hret : c.threads i = .ret resp)
    (hresp : (∃ token expiresAt, resp = .valid token expiresAt) ∨ ∃ root, resp = .enrolled root) :
    ∃ ev ∈ tr, Accepts ev report.nonce (arrivals i).env.now := by
  obtain ⟨row, hmem, hverdict⟩ := (verified_of_run h hreq hret hresp).nonce
  exact ⟨_, hmem, i, row, rfl, hverdict⟩

end Runs

def challengeEvent : ServerEvent Bool :=
  ⟨false, .insertNonce "c0ffee" "2024-06-01T12:02:00+00:00", .ok ()⟩

/-- A nonce, and two reports that use it. -/
def challengeThenAttests : Fin 3 → Arrival
  | 0 => ⟨.challenge, sampleEnv⟩
  | _ => ⟨.attest (sampleReport sampleEnv.token), sampleEnv⟩

/-- The second report comes before the checks of the first one are done. -/
def reuseRun : List (ServerEvent (Fin 3)) × Config Database (Fin 3) Tx.Ret Exn Response :=
  replay exec (start lenientPlatform laxPolicy .empty challengeThenAttests) [0, 1, 2, 1]

def useEvent : ServerEvent (Fin 3) :=
  ⟨1, .consumeNonce "c0ffee" noon, .ok (some "2024-06-01T12:02:00+00:00")⟩

def reuseEvent : ServerEvent (Fin 3) := ⟨2, .consumeNonce "c0ffee" noon, .ok none⟩

theorem nonce_single_use_reuse :
    (∃ expiry, Issued (reuseRun.1.take 1) "c0ffee" expiry ∧ ¬ expiry < noon) ∧
      reuseEvent ∈ reuseRun.1.drop 2 ∧ ¬ Accepts reuseEvent "c0ffee" noon := by
  have hchallenge : ∀ i, (challengeThenAttests i).request = .challenge → i = 0 := by
    intro i hi
    fin_cases i
    · rfl
    · cases hi
    · cases hi
  have hfresh : FreshTokens challengeThenAttests := fun i j hi hj _ =>
    (hchallenge i hi).trans (hchallenge j hj).symm
  have hrun := (replay_run exec (start lenientPlatform laxPolicy .empty challengeThenAttests)
    [0, 1, 2, 1]).faulty databaseFaults
  have htrace : reuseRun.1 = reuseRun.1.take 1 ++ useEvent :: reuseRun.1.drop 2 := rfl
  have haccepts : Accepts useEvent "c0ffee" noon := ⟨1, _, rfl, rfl⟩
  have hreuse : reuseEvent ∈ reuseRun.1.drop 2 := List.mem_cons_self
  obtain ⟨hissued, hafter⟩ := (nonce_single_use lenientPlatform laxPolicy .empty
    challengeThenAttests (fun _ => rfl) hfresh _ _ hrun _ _ useEvent htrace "c0ffee").1 noon haccepts
  exact ⟨hissued, hreuse, hafter _ hreuse noon⟩

end TpmAttest
