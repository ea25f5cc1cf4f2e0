import TpmAttest.ReachableStates

/-! # Strict EK verification over restarts

The server's life is a series of runs, each with its policy, on one database
(`Lifetimes`), with the log of all successful registrations.  A machine's row is
always that of its latest registration (`Recorded`), and its `ek_verified` bit
says that the EK material was then accepted: as an X.509 certificate, or, under a
policy that was not strict, as a raw key.  A strict policy later consults the bit
alone, so it is the second case that `strict_ek_iff` singles out.
-/
namespace TpmAttest

open Python Transactional Program

/-- A successful registration, and the policy that was in force. -/
structure Registration where
  policy : Policy
  req : RegisterRequest
deriving DecidableEq

/-- The EK material is present and decodes to bytes that parse as an X.509
certificate. -/
def IsX509 (platform : Platform) (ekCertB64 : Option String) : Prop :=
  ∃ cert bytes, ekCertB64 = some cert ∧ b64decode cert = .ok bytes ∧
    (platform.loadDerX509 bytes).isSome

/-- The registration took the branch for raw keys of `_verify_ek_cert`, which is
open when the policy is not strict. -/
def Registration.IsRawKey (platform : Platform) (reg : Registration) : Prop :=
  reg.policy.strictEkVerification = false ∧ ∃ cert bytes, truthy reg.req.ekCertB64 = some cert ∧
    b64decode cert = .ok bytes ∧ platform.loadDerX509 bytes = none ∧ 4 ≤ bytes.length

/-- The latest registration of a machine. -/
def latest (log : List Registration) (machineId : String) : Option Registration :=
  (log.filter (·.req.machineId = machineId)).getLast?

theorem latest_snoc (log : List Registration) (reg : Registration) (machineId : String) :
    latest (log ++ [reg]) machineId =
      if reg.req.machineId = machineId then some reg else latest log machineId := by
  unfold latest
  rw [List.filter_append]
  split_ifs with h
  · simp [h]
  · simp [h]

theorem latest_append {log later : List Registration} {machineId : String}
    (h : ∀ reg ∈ later, reg.req.machineId ≠ machineId) :
    latest (log ++ later) machineId = latest log machineId := by
  have hnil : later.filter (·.req.machineId = machineId) = [] := by
    rw [List.filter_eq_nil_iff]
    simpa using h
  rw [latest, List.filter_append, hnil, List.append_nil, latest]

/-! ## What a registration stores -/

section Register
variable {platform : Platform} {policy : Policy}

/-- What `_verify_ek_cert` accepts. -/
theorem verifyEkCert_accepts {cert : String} (h : (verifyEkCert platform policy cert).1 = true) :
    ∃ bytes, b64decode cert = .ok bytes ∧ ((platform.loadDerX509 bytes).isSome ∨
      (policy.strictEkVerification = false ∧ platform.loadDerX509 bytes = none ∧
        4 ≤ bytes.length)) := by
  unfold verifyEkCert at h
  cases hdecode : b64decode cert with
  | error exc => simp [hdecode] at h
  | ok bytes =>
    refine ⟨bytes, rfl, ?_⟩
    cases hx509 : platform.loadDerX509 bytes with
    | some names => exact Or.inl rfl
    | none =>
      -- the branch for raw keys, closed to a strict policy
      refine Or.inr ?_
      by_cases hlen : 4 ≤ bytes.length
      · by_cases hstrict : policy.strictEkVerification = true
        · simp [hdecode, hx509, hlen, hstrict] at h
        · exact ⟨Bool.eq_false_iff.mpr hstrict, rfl, hlen⟩
      · simp [hdecode, hx509, hlen] at h

/-- The row is one that the registration stores. -/
structure Stores (platform : Platform) (reg : Registration) (row : Machine) : Prop where
  ekCertB64 : row.ekCertB64 = reg.req.ekCertB64
  ekVerified : row.ekVerified = true → IsX509 platform reg.req.ekCertB64 ∨ reg.IsRawKey platform

/-- What a request writes into `enrolled_machines`. -/
def Upserts (platform : Platform) (policy : Policy) (arrival : Arrival) : Tx → Prop
  | .upsertMachine machineId row => ∃ req, arrival.request = .register req ∧
      machineId = req.machineId ∧ Stores platform ⟨policy, req⟩ row
  | _ => True

theorem storeMachine_upserts {req : RegisterRequest} {env : Env} {verified : Bool} {info : String}
    (h : verified = true →
      IsX509 platform req.ekCertB64 ∨ Registration.IsRawKey platform ⟨policy, req⟩) :
    (storeMachine req verified info env).Ensures (fun _ _ => True)
      (Upserts platform policy ⟨.register req, env⟩) (fun _ => True) fun _ => True :=
  (ensures_perform (Q := fun _ => True) ⟨req, rfl, rfl, rfl, h⟩ (fun _ _ => trivial)
    fun _ _ => trivial).bind fun _ _ => trivial

theorem serve_upserts (arrival : Arrival) :
    (serve platform policy arrival.env arrival.request).Ensures (fun _ _ => True)
      (Upserts platform policy arrival) (fun _ => True) fun _ => True := by
  have hserve : (serve platform policy arrival.env arrival.request).Ensures (fun _ _ => True)
      (Footprint platform arrival) (ResponseOk platform policy (fun _ _ => True) arrival)
      fun _ => True :=
    serve_ensures (fun _ _ _ => trivial) (fun _ _ _ _ _ _ => trivial) (fun _ => trivial) arrival
  by_cases hregister : ∃ req, arrival.request = .register req
  · obtain ⟨request, env⟩ := arrival
    obtain ⟨req, rfl⟩ := hregister
    change (register platform policy req env).Ensures _ _ _ _
    unfold register
    split
    · exact storeMachine_upserts fun hfalse => by cases hfalse
    · rename_i cert hcert
      dsimp only
      split
      · rename_i hverified
        refine storeMachine_upserts fun _ => ?_
        obtain ⟨bytes, hdecode, hx509 | ⟨hstrict, hnone, hlen⟩⟩ := verifyEkCert_accepts hverified
        · exact Or.inl ⟨cert, bytes, (truthy_eq_some.mp hcert).1, hdecode, hx509⟩
        · exact Or.inr ⟨hstrict, cert, bytes, hcert, hdecode, hnone, hlen⟩
      · trivial
  · refine hserve.mono (fun op hop => ?_) (fun _ _ => trivial) fun _ => id
    cases op with
    | upsertMachine machineId row =>
      obtain ⟨req, hreq, -⟩ := hop
      exact (hregister ⟨req, hreq⟩).elim
    | _ => trivial

/-- A verified row of the registration holds an X.509 certificate, or the
registration was that of a raw key. -/
theorem Stores.isX509_iff {reg : Registration} {row : Machine} (h : Stores platform reg row)
    (hverified : row.ekVerified = true) :
    IsX509 platform row.ekCertB64 ↔ ¬ reg.IsRawKey platform := by
  rw [h.ekCertB64]
  constructor
  · rintro ⟨cert, bytes, hcert, hdecode, hsome⟩ ⟨-, cert', bytes', hcert', hdecode', hnone, -⟩
    rw [hcert, truthy_eq_some] at hcert'
    obtain rfl := Option.some.inj hcert'.1
    obtain rfl := Except.ok.inj (hdecode.symm.trans hdecode')
    rw [hnone] at hsome
    cases hsome
  · exact (h.ekVerified hverified).resolve_right

end Register

/-! ## The strict check of an accepted report -/

section StrictCheck
variable {platform : Platform} {policy : Policy} {report : AttestationReport} {env : Env}
  {l : List (Observation Tx.Ret Exn)}

/-- After the transactions `l` a request comes to the strict check: its nonce has been
used, and its quote has been found good. -/
def AtStrictCheck (platform : Platform) (report : AttestationReport) (env : Env)
    (l : List (Observation Tx.Ret Exn)) : Prop :=
  ∃ l₀ l₁ l₂, l = l₀ ++ l₁ ++ l₂ ∧ Path (consumeNonce report.nonce env.now) l₁ (.ret none) ∧
    Path (verifyQuoteSignature platform report) l₂ (.ret none)

/-- Checks that all pass, the first one of them before the others. -/
theorem inOrder_passed {check : ServerM (Option Reason)} {checks : List (ServerM (Option Reason))}
    (h : Path (inOrder (check :: checks)) l (.ret none)) :
    ∃ l₁ l₂, l = l₁ ++ l₂ ∧ Path check l₁ (.ret none) ∧ Path (inOrder checks) l₂ (.ret none) := by
  have hnone : Path (inOrder (check :: checks)) l (ofExcept (.ok none)) := h
  obtain ⟨l₁, l₂, r, rfl, hcheck, ⟨-, hne, heq⟩ | ⟨rfl, hrest⟩⟩ := inOrder_cons_path hnone
  · exact absurd heq.symm hne
  · exact ⟨l₁, l₂, rfl, hcheck, hrest⟩

/-- The strict check passes with one lookup, which finds a verified row. -/
theorem checkStrictEk_passed (hstrict : policy.strictEkVerification = true)
    (h : Path (checkStrictEk platform policy report) l (.ret none)) :
    ∃ machineId row, report.machineId = some machineId ∧
      l = [⟨.selectMachine machineId, .ok (some row)⟩] ∧ row.ekVerified = true := by
  unfold checkStrictEk at h
  rw [if_pos hstrict] at h
  cases hid : truthy report.machineId with
  | none =>
    rw [hid] at h
    cases (Path.of_ret h).2
  | some machineId =>
    rw [hid] at h
    dsimp only at h
    rw [getEnrolledMachine, transaction, bind_eq, perform_bind] at h
    cases h with
    | @call _ _ r l _ h =>
      cases r with
      | error e => cases (Path.of_finished (p := .raise e) trivial h).2
      | ok machineRow =>
        obtain ⟨rfl, hret⟩ := Path.of_ret h
        cases machineRow with
        | none => cases hret
        | some row =>
          refine ⟨machineId, row, (truthy_eq_some.mp hid).1, rfl, ?_⟩
          by_contra hek
          rw [strictEkVerdict, if_neg hek] at hret
          cases hret

/-- A report that passes all checks has passed the strict one in its turn. -/
theorem strictCheck_of_verified (hstrict : policy.strictEkVerification = true)
    (h : Path (verifyReport platform policy report env) l (.ret none)) :
    ∃ machineId row l₁ l₂, report.machineId = some machineId ∧
      l = l₁ ++ ⟨.selectMachine machineId, .ok (some row)⟩ :: l₂ ∧
      AtStrictCheck platform report env l₁ ∧ row.ekVerified = true := by
  obtain ⟨n, _, rfl, hnonce, h⟩ := inOrder_passed h
  obtain ⟨p, _, rfl, hpresent, h⟩ := inOrder_passed h
  obtain ⟨q, _, rfl, hquote, h⟩ := inOrder_passed h
  obtain ⟨s, rest, rfl, hcheck, -⟩ := inOrder_passed h
  obtain ⟨rfl, -⟩ := Path.of_ret hpresent
  obtain ⟨machineId, row, hid, rfl, hek⟩ := checkStrictEk_passed hstrict hcheck
  exact ⟨machineId, row, n ++ q, rest, hid, by simp, ⟨[], n, q, rfl, hnonce, hquote⟩, hek⟩

/-- An accepted request has passed all checks of its report. -/
theorem verified_of_path {request : Request} {resp : Response}
    (hreq : request.report = some report)
    (hresp : (∃ token expiresAt, resp = .valid token expiresAt) ∨ ∃ root, resp = .enrolled root)
    (h : Path (serve platform policy env request) l (.ret resp)) :
    ∃ l₁ l₂ l₃, l = l₁ ++ l₂ ++ l₃ ∧ Path (verifyReport platform policy report env) l₂ (.ret none) := by
  cases request with
  | attest report' =>
    obtain rfl := Option.some.inj hreq
    rcases Path.bind h trivial with ⟨e, he, -⟩ | ⟨verdict, l₂, l₃, rfl, hverify, hrest⟩
    · cases he
    · cases verdict with
      | none => exact ⟨[], l₂, l₃, rfl, hverify⟩
      | some reason =>
        obtain ⟨-, rfl⟩ := Path.of_ret hrest
        rcases hresp with ⟨_, _, h⟩ | ⟨_, h⟩
        · cases h
        · cases h
  | enroll report' =>
    obtain rfl := Option.some.inj hreq
    rcases Path.bind h trivial with ⟨e, he, -⟩ | ⟨currentRoot, l₀, _, rfl, -, h⟩
    · cases he
    rcases Path.bind h trivial with ⟨e, he, -⟩ | ⟨_, l₁, _, rfl, -, h⟩
    · cases he
    rcases Path.bind h trivial with ⟨e, he, -⟩ | ⟨verdict, l₂, l₃, rfl, hverify, hrest⟩
    · cases he
    cases verdict with
    | none => exact ⟨l₀ ++ l₁, l₂, l₃, by simp, hverify⟩
    | some reason =>
      rcases Path.bind hrest trivial with ⟨e, he, -⟩ | ⟨_, _, _, -, -, hrest⟩
      · cases he
      obtain ⟨-, rfl⟩ := Path.of_ret hrest
      rcases hresp with ⟨_, _, h⟩ | ⟨_, h⟩
      · cases h
      · cases h
  | _ => cases hreq

end StrictCheck

/-! ## Lifetimes -/

section Lifetimes
variable {ι : Type}

/-- The registration that an event is, if it is a successful one. -/
def registrationOf (policy : Policy) (arrivals : ι → Arrival) : ServerEvent ι → Option Registration
  | ⟨i, .upsertMachine _ _, .ok _⟩ =>
    match (arrivals i).request with
    | .register req => some ⟨policy, req⟩
    | _ => none
  | _ => none

/-- The successful registrations of a run, in commit order. -/
def registrations (policy : Policy) (arrivals : ι → Arrival) (tr : List (ServerEvent ι)) :
    List Registration := tr.filterMap (registrationOf policy arrivals)

theorem registrations_append (policy : Policy) (arrivals : ι → Arrival)
    (t₁ t₂ : List (ServerEvent ι)) : registrations policy arrivals (t₁ ++ t₂) =
      registrations policy arrivals t₁ ++ registrations policy arrivals t₂ := List.filterMap_append

/-- The runs of the server from the empty database, each with its policy, with the
log of all successful registrations.  A run may stop anywhere. -/
inductive Lifetimes (platform : Platform) : List Registration → Database → Prop
  | empty : Lifetimes platform [] .empty
  | restart {log : List Registration} {db : Database} (h : Lifetimes platform log db) {ι : Type}
      [DecidableEq ι] {policy : Policy} {arrivals : ι → Arrival} {tr : List (ServerEvent ι)}
      {c : Config Database ι Tx.Ret Exn Response}
      (hr : Run exec databaseFaults unguarded (start platform policy db arrivals) tr c) :
      Lifetimes platform (log ++ registrations policy arrivals tr) c.store

/-- Every row is one that the latest registration of its machine stores. -/
def Recorded (platform : Platform) (log : List Registration) (db : Database) : Prop :=
  ∀ machineId row, db.enrolledMachines machineId = some row →
    ∃ reg, latest log machineId = some reg ∧ Stores platform reg row

theorem registrationOf_eq_none {policy : Policy} {arrivals : ι → Arrival} {ev : ServerEvent ι}
    (h : (∃ e, ev.outcome = .error e) ∨ ∀ machineId row, ev.op ≠ .upsertMachine machineId row) :
    registrationOf policy arrivals ev = none := by
  obtain ⟨i, op, outcome⟩ := ev
  cases op with
  | upsertMachine machineId row =>
    rcases h with ⟨e, he⟩ | h
    · cases outcome with
      | ok r => cases he
      | error e' => rfl
    · exact absurd rfl (h machineId row)
  | _ => rfl

variable [DecidableEq ι] {platform : Platform} {policy : Policy} {log : List Registration}
  {db : Database} {arrivals : ι → Arrival} {tr : List (ServerEvent ι)}
  {c : Config Database ι Tx.Ret Exn Response}

theorem recorded_of_run (hdb : Recorded platform log db)
    (h : Run exec databaseFaults unguarded (start platform policy db arrivals) tr c) :
    Recorded platform (log ++ registrations policy arrivals tr) c.store := by
  refine h.invariant
    (I := fun tr c => Recorded platform (log ++ registrations policy arrivals tr) c.store)
    ?_ ?_
  · change Recorded platform (log ++ []) db
    rwa [List.append_nil]
  intro tr c c' ev hr ih hg hs
  have hupserts : Upserts platform policy (arrivals ev.thread) ev.op :=
    (Run.step hr hg hs).ensures (P := fun i => Upserts platform policy (arrivals i))
      (fun i => serve_upserts (arrivals i)) ev (by simp)
  have hsame : c'.store.enrolledMachines = c.store.enrolledMachines →
      registrationOf policy arrivals ev = none →
      Recorded platform (log ++ registrations policy arrivals (tr ++ [ev])) c'.store := by
    intro hmachines hnone
    rw [registrations_append, show registrations policy arrivals [ev] = [] by
      simp [registrations, hnone], List.append_nil]
    exact fun machineId row hrow => ih machineId row (by rw [← hmachines, hrow])
  rcases hs.store with ⟨houtcome, hstore⟩ | ⟨⟨e, he, -⟩, hstore⟩
  · by_cases hop : ∀ machineId row, ev.op ≠ .upsertMachine machineId row
    · have hmachines : c'.store.enrolledMachines = c.store.enrolledMachines := by
        rw [hstore]
        exact funext fun machineId => enrolledMachines_commit (hop machineId)
      exact hsame hmachines (registrationOf_eq_none (Or.inr hop))
    · obtain ⟨i, op, outcome⟩ := ev
      obtain ⟨machineId, row, rfl⟩ : ∃ machineId row, op = .upsertMachine machineId row := by
        simpa using hop
      obtain rfl : outcome = .ok () := houtcome
      obtain ⟨req, hreq, rfl, hstores⟩ := hupserts
      have hreg : registrations policy arrivals [⟨i, .upsertMachine req.machineId row, .ok ()⟩] =
          [⟨policy, req⟩] := by
        simp only [registrations, List.filterMap_cons, registrationOf, List.filterMap_nil]
        rw [hreq]
      rw [registrations_append, hreg, ← List.append_assoc]
      intro machineId' row' hrow
      rw [hstore] at hrow
      change Function.update c.store.enrolledMachines req.machineId (some row) machineId' =
        some row' at hrow
      rw [latest_snoc]
      -- the registered machine has the new row, any other one its old row
      by_cases hid : req.machineId = machineId'
      · subst hid
        rw [Function.update_self] at hrow
        obtain rfl := Option.some.inj hrow
        exact ⟨_, if_pos rfl, hstores⟩
      · rw [if_neg hid]
        rw [Function.update_of_ne (Ne.symm hid)] at hrow
        exact ih machineId' row' hrow
  · exact hsame (by rw [hstore]) (registrationOf_eq_none (Or.inl ⟨e, he⟩))

theorem recorded_of_lifetimes (h : Lifetimes platform log db) : Recorded platform log db := by
  induction h with
  | empty => exact fun _ _ hrow => by cases hrow
  | restart _ hr ih => exact recorded_of_run ih hr

/-- The strict check of request `i` read a row of the machine in the run, when `reg` was
the machine's latest registration and had stored the row. -/
def ReadOf (platform : Platform) (policy : Policy) (log : List Registration)
    (arrivals : ι → Arrival) (tr : List (ServerEvent ι)) (i : ι) (report : AttestationReport)
    (machineId : String) (row : Machine) (reg : Registration) : Prop :=
  ∃ t₁ t₂, tr = t₁ ++ ⟨i, .selectMachine machineId, .ok (some row)⟩ :: t₂ ∧
    AtStrictCheck platform report (arrivals i).env (history i t₁) ∧
    latest (log ++ registrations policy arrivals t₁) machineId = some reg ∧
    row.ekCertB64 = reg.req.ekCertB64 ∧
    ((∀ later ∈ registrations policy arrivals t₂, later.req.machineId ≠ machineId) →
      latest (log ++ registrations policy arrivals tr) machineId = some reg)

/-- The strict check of an accepted request finds what the latest registration stored,
and that stays the latest one until the machine is registered again. -/
theorem read_of_run (hdb : Recorded platform log db)
    (hstrict : policy.strictEkVerification = true)
    (h : Run exec databaseFaults unguarded (start platform policy db arrivals) tr c) {i : ι}
    {report : AttestationReport} (hreq : (arrivals i).request.report = some report)
    {resp : Response} (hret : c.threads i = .ret resp)
    (hresp : (∃ token expiresAt, resp = .valid token expiresAt) ∨ ∃ root, resp = .enrolled root) :
    ∃ machineId row reg, report.machineId = some machineId ∧
      ReadOf platform policy log arrivals tr i report machineId row reg ∧
      row.ekVerified = true ∧ Stores platform reg row := by
  have hpath := h.path i
  rw [hret] at hpath
  obtain ⟨l₁, l₂, l₃, hl, hverify⟩ := verified_of_path hreq hresp hpath
  obtain ⟨machineId, row, n, rest, hid, rfl, ⟨m₀, m₁, m₂, rfl, hnonce, hquote⟩, hek⟩ :=
    strictCheck_of_verified hstrict hverify
  obtain ⟨t₁, t₂, htr, hhistory⟩ := @history_split _ _ _ _ _ i tr (l₁ ++ (m₀ ++ m₁ ++ m₂))
    (rest ++ l₃) ⟨.selectMachine machineId, .ok (some row)⟩ (by rw [hl]; simp)
  obtain ⟨c₁, c₂, hr, -, hs⟩ := h.split htr
  have hrow : c₁.store.enrolledMachines machineId = some row := by
    rcases hs.store with ⟨houtcome, -⟩ | ⟨⟨e, he, -⟩, -⟩
    · rw [commit_selectMachine] at houtcome
      exact (Except.ok.inj houtcome).symm
    · cases he
  obtain ⟨reg, hlatest, hstores⟩ := recorded_of_run hdb hr machineId row hrow
  refine ⟨machineId, row, reg, hid, ⟨t₁, t₂, htr,
    ⟨l₁ ++ m₀, m₁, m₂, by rw [hhistory]; simp, hnonce, hquote⟩, hlatest, hstores.ekCertB64,
    fun hlater => ?_⟩, hek, hstores⟩
  have hregs : registrations policy arrivals tr =
      registrations policy arrivals t₁ ++ registrations policy arrivals t₂ := by
    rw [htr, registrations_append]
    rfl
  rw [hregs, ← List.append_assoc, latest_append hlater, hlatest]

/-- **Strict EK verification over restarts.**  Whatever the earlier runs and their
policies were, the strict check of a request that is accepted in a run under a strict
policy has read a verified row of its machine; and what the machine's latest
registration stored there is an X.509 certificate exactly if that registration was not
one of a raw key under a policy that was not strict. -/
theorem strict_ek_iff (platform : Platform) (log : List Registration) (db : Database)
    (hlife : Lifetimes platform log db) (policy : Policy)
    (hstrict : policy.strictEkVerification = true) (arrivals : ι → Arrival)
    (tr : List (ServerEvent ι)) (c : Config Database ι Tx.Ret Exn Response)
    (h : Run exec databaseFaults unguarded (start platform policy db arrivals) tr c) (i : ι)
    (report : AttestationReport) (hreq : (arrivals i).request.report = some report)
    (resp : Response) (hret : c.threads i = .ret resp)
    (hresp : (∃ token expiresAt, resp = .valid token expiresAt) ∨ ∃ root, resp = .enrolled root) :
    ∃ machineId row reg, report.machineId = some machineId ∧
      ReadOf platform policy log arrivals tr i report machineId row reg ∧ row.ekVerified = true ∧
      (IsX509 platform row.ekCertB64 ↔ ¬ reg.IsRawKey platform) := by
  obtain ⟨machineId, row, reg, hid, hread, hek, hstores⟩ :=
    read_of_run (recorded_of_lifetimes hlife) hstrict h hreq hret hresp
  exact ⟨machineId, row, reg, hid, hread, hek, hstores.isX509_iff hek⟩

/-- Where no registration of the machine commits between the request's transactions or
behind them, the latest registration is meant at the acceptance. -/
theorem strict_ek_at_acceptance (hlife : Lifetimes platform log db)
    (hstrict : policy.strictEkVerification = true)
    (h : Run exec databaseFaults unguarded (start platform policy db arrivals) tr c) {i : ι}
    {report : AttestationReport} (hreq : (arrivals i).request.report = some report)
    {resp : Response} (hret : c.threads i = .ret resp)
    (hresp : (∃ token expiresAt, resp = .valid token expiresAt) ∨ ∃ root, resp = .enrolled root)
    (hquiet : ∀ t₁ ev t₂, tr = t₁ ++ ev :: t₂ → ev.thread = i →
      ∀ later ∈ registrations policy arrivals t₂, report.machineId ≠ some later.req.machineId) :
    ∃ machineId reg, report.machineId = some machineId ∧
      latest (log ++ registrations policy arrivals tr) machineId = some reg ∧
      (IsX509 platform reg.req.ekCertB64 ↔ ¬ reg.IsRawKey platform) := by
  obtain ⟨machineId, row, reg, hid, ⟨t₁, t₂, htr, -, -, hcert, hlast⟩, hek, hstores⟩ :=
    read_of_run (recorded_of_lifetimes hlife) hstrict h hreq hret hresp
  refine ⟨machineId, reg, hid, hlast fun later hlater heq => ?_, ?_⟩
  · exact hquiet _ _ _ htr rfl later hlater (by rw [hid, heq])
  · rw [← hcert]
    exact hstores.isX509_iff hek

end Lifetimes

def strictPolicy : Policy := ⟨true, false, 0⟩

/-- A machine with four bytes as its EK material, registered when the policy was
not strict. -/
def rawKeyRegistration : Registration := ⟨laxPolicy, ⟨"machine", "AAAA", some "AAAAAA=="⟩⟩

/-- The first lifetime: the registration. -/
def registrationRun (platform : Platform) :
    List (ServerEvent Unit) × Config Database Unit Tx.Ret Exn Response :=
  replay exec (start platform laxPolicy .empty
    fun _ => ⟨.register rawKeyRegistration.req, sampleEnv⟩) [()]

/-- The second one: a nonce, and an attestation of the machine. -/
def challengeThenMachine : Bool → Arrival
  | false => ⟨.challenge, sampleEnv⟩
  | true => ⟨.attest { sampleReport sampleEnv.token with machineId := some "machine" }, sampleEnv⟩

def strictRun (platform : Platform) :
    List (ServerEvent Bool) × Config Database Bool Tx.Ret Exn Response :=
  replay exec (start platform strictPolicy (registrationRun platform).2.store challengeThenMachine)
    [false, true, true, true, true, true]

/-- A platform on which all bytes are a certificate. -/
def certifyingPlatform : Platform :=
  { lenientPlatform with loadDerX509 := fun _ => some ("machine", "vendor") }

theorem lifetimes_registrationRun {platform : Platform}
    (h : registrations laxPolicy (fun _ => ⟨.register rawKeyRegistration.req, sampleEnv⟩)
      (registrationRun platform).1 = [rawKeyRegistration]) :
    Lifetimes platform [rawKeyRegistration] (registrationRun platform).2.store := by
  have hlife : Lifetimes platform ([] ++ registrations laxPolicy
      (fun _ => ⟨.register rawKeyRegistration.req, sampleEnv⟩) (registrationRun platform).1)
      (registrationRun platform).2.store :=
    .restart .empty ((replay_run _ _ _).faulty databaseFaults)
  rwa [List.nil_append, h] at hlife

/-- A machine whose EK material is a certificate is accepted. -/
theorem strict_ek_iff_certified :
    ∃ machineId row reg,
      ReadOf certifyingPlatform strictPolicy [rawKeyRegistration] challengeThenMachine
        (strictRun certifyingPlatform).1 true
        { sampleReport sampleEnv.token with machineId := some "machine" } machineId row reg ∧
      (IsX509 certifyingPlatform row.ekCertB64 ↔ ¬ reg.IsRawKey certifyingPlatform) := by
  have hret : ((strictRun certifyingPlatform).2.threads true).returned =
      some (.valid "token" "2024-06-01T12:05:00+00:00") := by
    decide +kernel
  obtain ⟨machineId, row, reg, -, hread, -, hiff⟩ :=
    strict_ek_iff certifyingPlatform [rawKeyRegistration] _
      (lifetimes_registrationRun (by decide +kernel)) strictPolicy rfl challengeThenMachine
      (strictRun certifyingPlatform).1 (strictRun certifyingPlatform).2
      ((replay_run _ _ _).faulty databaseFaults) true _ rfl _ (returned_eq_some.mp hret)
      (Or.inl ⟨_, _, rfl⟩)
  exact ⟨machineId, row, reg, hread, hiff⟩

/-- A machine known by a raw key only is accepted under the strict policy. -/
theorem raw_key_accepted :
    ∃ tr c token expiresAt,
      Lifetimes lenientPlatform [rawKeyRegistration] (registrationRun lenientPlatform).2.store ∧
      Run exec databaseFaults unguarded
        (start lenientPlatform strictPolicy (registrationRun lenientPlatform).2.store
          challengeThenMachine) tr c ∧
      c.threads true = .ret (.valid token expiresAt) ∧
      latest ([rawKeyRegistration] ++ registrations strictPolicy challengeThenMachine tr)
        "machine" = some rawKeyRegistration ∧
      ¬ IsX509 lenientPlatform rawKeyRegistration.req.ekCertB64 := by
  have hret : ((strictRun lenientPlatform).2.threads true).returned =
      some (.valid "token" "2024-06-01T12:05:00+00:00") := by
    decide +kernel
  refine ⟨(strictRun lenientPlatform).1, (strictRun lenientPlatform).2, _, _,
    lifetimes_registrationRun (by decide +kernel), (replay_run _ _ _).faulty databaseFaults,
    returned_eq_some.mp hret, by decide +kernel, ?_⟩
  rintro ⟨cert, bytes, -, -, hsome⟩
  cases hsome

end TpmAttest
