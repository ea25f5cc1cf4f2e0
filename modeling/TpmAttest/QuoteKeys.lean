import TpmAttest.EnrolledAttestable
import TpmAttest.NonceUse
import TpmAttest.ZeroPcrs

/-! # Whose key verifies a quote

An accepted report has been verified with one key: the one that the machine it names has
registered last, at the moment of the request's lookup, or the server's own if no such
machine is known (`quote_key_of_valid`).  Other requests may register machines at any
time, and the database may fail, but an `/attest` that loses its lookup rejects the
report, since the error is caught by the signature check.
-/
namespace TpmAttest

open Python Transactional Program

/-- The key for a machine's row, or the server's own. -/
def keyOf (platform : Platform) : Option Machine → Option Bytes
  | some row => (b64decode row.akPubB64).toOption
  | none => platform.readpublic

/-- The report's quote verifies with the key that its lookup gives. -/
def Signed (platform : Platform) (G : (op : Tx) → Except Exn op.Ret → Prop)
    (report : AttestationReport) : Prop :=
  ∃ row key, keyOf platform row = some key ∧ QuoteVerifies platform key report ∧
    match truthy report.machineId with
    | some machineId => G (.selectMachine machineId) (.ok row)
    | none => row = none

/-! ## The signature check -/

section Checks
variable {platform : Platform} {policy : Policy} {report : AttestationReport}
  {G : (op : Tx) → Except Exn op.Ret → Prop} {P : Tx → Prop} {E : Exn → Prop}

theorem decodeField_decodes (s : String) :
    (decodeField s).Ensures G P (fun b => b64decode s = .ok b) fun _ => True := by
  refine ensures_ofExcept (fun b hb => ?_) fun _ _ => trivial
  cases hdecode : b64decode s with
  | error e =>
    rw [hdecode] at hb
    cases hb
  | ok b' =>
    rw [hdecode] at hb
    exact congrArg Except.ok (Except.ok.inj hb)

theorem lookupMachine_looksUp :
    (lookupMachine report.machineId).Ensures G (fun _ => True)
      (fun row => match truthy report.machineId with
        | some machineId => G (.selectMachine machineId) (.ok row)
        | none => row = none) fun _ => True := by
  unfold lookupMachine
  cases truthy report.machineId with
  | some machineId =>
    exact ensures_perform (Q := fun row => G (.selectMachine machineId) (.ok row)) trivial
      (fun _ h => h) fun _ _ => trivial
  | none => rfl

theorem akPublicKey_keyOf (row : Option Machine) :
    (akPublicKey platform row).Ensures G (fun _ => True) (fun key => keyOf platform row = key)
      fun _ => True := by
  cases row with
  | none => rfl
  | some row =>
    refine (decodeField_decodes row.akPubB64).bind fun key hkey => ?_
    show keyOf platform (some row) = some key
    rw [keyOf, hkey]
    rfl

/-- **What the signature check has checked**, when it gives no reason. -/
theorem verifyQuoteSignature_signed :
    (verifyQuoteSignature platform report).Ensures G (fun _ => True)
      (fun r => r = none → Signed platform G report) fun _ => True := by
  unfold verifyQuoteSignature
  cases hmsg : truthy report.quoteMsgB64 with
  | none => exact fun hnone => by cases hnone
  | some quoteMsg =>
    cases hsig : truthy report.quoteSigB64 with
    | none => exact fun hnone => by cases hnone
    | some quoteSig =>
      have hcheck : (checkQuote platform report quoteMsg quoteSig).Ensures G (fun _ => True)
          (fun r => r = none → Signed platform G report) fun _ => True := by
        refine (decodeField_decodes quoteMsg).bind fun msg hdecode => ?_
        refine (decodeField_decodes quoteSig).bind fun sig hdecode' => ?_
        refine lookupMachine_looksUp.bind fun row hrow => ?_
        refine (akPublicKey_keyOf row).bind fun key hkey hverdict => ?_
        cases key with
        | none => cases hverdict
        | some key =>
          refine ⟨row, key, hkey, ⟨quoteMsg, quoteSig, msg, sig, hmsg, hsig, hdecode, hdecode', ?_⟩,
            hrow⟩
          by_contra hquote
          simp [hquote] at hverdict
      exact hcheck.handle fun _ _ hnone => by cases hnone

/-- **A report that passes its checks was signed.** -/
theorem verifyReport_signed (env : Env) :
    (verifyReport platform policy report env).Ensures G (fun _ => True)
      (fun r => r = none → Signed platform G report) fun _ => True := by
  have hany : ∀ p : ServerM (Option Reason), p.Ensures G (fun _ => True)
      (fun r => r = none → True) fun _ => True :=
    fun p => (ensures_true p).mono (fun _ => id) (fun _ _ _ => trivial) fun _ => id
  refine (inOrder_cons (hany _) (inOrder_cons (hany _)
    (inOrder_cons verifyQuoteSignature_signed (hany _)))).mono (fun _ => id) ?_ fun _ => id
  intro r h hnone
  obtain ⟨-, -, hsigned, -⟩ := h hnone
  exact hsigned

/-- **An accepted report was signed.** -/
theorem attest_signed (env : Env) :
    (attest platform policy report env).Ensures G (fun _ => True)
      (fun resp => (∃ token expiresAt, resp = .valid token expiresAt) → Signed platform G report)
      fun _ => True := by
  refine (verifyReport_signed env).bind fun reason hreason => ?_
  cases reason with
  | some reason =>
    rintro ⟨token, expiresAt, h⟩
    cases h
  | none =>
    refine (ensures_true (ofExcept _)).bind fun expiresAt _ _ => ?_
    exact hreason rfl

end Checks

/-! ## The rows of a run -/

/-- The row of a machine after an event. -/
def updatedRow {ι : Type} (machineId : String) (row : Option Machine) : ServerEvent ι → Option Machine
  | ⟨_, .upsertMachine id row', .ok _⟩ => if id = machineId then some row' else row
  | _ => row

/-- The row of a machine after some events: the one that was registered last. -/
def rowAfter {ι : Type} (db : Database) (machineId : String) (tr : List (ServerEvent ι)) :
    Option Machine := tr.foldl (updatedRow machineId) (db.enrolledMachines machineId)

section Runs
variable {ι : Type} [DecidableEq ι] {platform : Platform} {policy : Policy} {db : Database}
  {arrivals : ι → Arrival} {faults : Exn → Prop} {guard : Guard Database ι Tx.Ret Exn Response}
  {tr : List (ServerEvent ι)} {c c' : Config Database ι Tx.Ret Exn Response} {ev : ServerEvent ι}

/-- One event changes the row as it says. -/
theorem enrolledMachines_step (hs : Step exec faults c ev c') (machineId : String) :
    c'.store.enrolledMachines machineId =
      updatedRow machineId (c.store.enrolledMachines machineId) ev := by
  have hother : ∀ {op : Tx}, (∀ row, op ≠ .upsertMachine machineId row) →
      c'.store = c.store ∨ c'.store = (commit exec op c.store).2 →
      c'.store.enrolledMachines machineId = c.store.enrolledMachines machineId := by
    rintro op hop (hstore | hstore)
    · rw [hstore]
    · rw [hstore]
      exact enrolledMachines_commit hop
  obtain ⟨i, op, outcome⟩ := ev
  cases op with
  | upsertMachine id row =>
    rcases hs.store with ⟨houtcome, hstore⟩ | ⟨⟨e, he, -⟩, hstore⟩
    · dsimp only at houtcome hstore
      rw [commit_upsertMachine] at houtcome hstore
      rw [hstore, houtcome]
      show Function.update c.store.enrolledMachines id (some row) machineId =
        if id = machineId then some row else c.store.enrolledMachines machineId
      by_cases hid : id = machineId
      · subst hid
        rw [if_pos rfl, Function.update_self]
      · rw [if_neg hid, Function.update_of_ne (Ne.symm hid)]
    · dsimp only at he hstore
      rw [hstore, he]
      rfl
  | _ =>
    refine (hother ?_ (hs.store.symm.imp And.right And.right)).trans ?_
    · intro row h
      cases h
    · cases outcome <;> rfl

/-- **The table of machines is what the events say.** -/
theorem enrolledMachines_of_run (h : Run exec faults guard (start platform policy db arrivals) tr c)
    (machineId : String) : c.store.enrolledMachines machineId = rowAfter db machineId tr := by
  induction h with
  | refl => rfl
  | step _ _ hs ih =>
    rw [enrolledMachines_step hs, ih, rowAfter, rowAfter, List.foldl_append]
    rfl

/-- The row that a lookup of a run fetches. -/
theorem row_of_lookup (h : Run exec faults guard (start platform policy db arrivals) tr c)
    {i : ι} {machineId : String} {row : Option Machine} {t₁ t₂ : List (ServerEvent ι)}
    (htr : tr = t₁ ++ ⟨i, .selectMachine machineId, .ok row⟩ :: t₂) :
    row = rowAfter db machineId t₁ := by
  obtain ⟨c₁, c₂, hr, -, hs⟩ := h.split htr
  rcases hs.store with ⟨houtcome, -⟩ | ⟨⟨e, he, -⟩, -⟩
  · rw [← enrolledMachines_of_run hr machineId]
    exact Except.ok.inj houtcome
  · cases he

/-- An accepted report was signed, as the events of its request have it. -/
theorem signed_of_run (h : Run exec faults guard (start platform policy db arrivals) tr c) {i : ι}
    {report : AttestationReport} (hreq : (arrivals i).request = .attest report)
    {token expiresAt : String} (hret : c.threads i = .ret (.valid token expiresAt)) :
    Signed platform (fun op r => ⟨i, op, r⟩ ∈ tr) report := by
  have hpath := h.path i
  rw [hret] at hpath
  have hstart : (start platform policy db arrivals).threads i =
      attest platform policy report (arrivals i).env := by
    show serve platform policy (arrivals i).env (arrivals i).request = _
    rw [hreq]
    rfl
  rw [hstart] at hpath
  exact (hpath.ensures (attest_signed (G := fun op r => (⟨i, op, r⟩ : ServerEvent ι) ∈ tr)
    (arrivals i).env) fun o ho => mem_history.mp ho).2 ⟨token, expiresAt, rfl⟩

/-- **Whose key verified an accepted report.**  The quote verifies with the key of the
row that was current at a lookup of the request. -/
theorem quote_key_of_valid (platform : Platform) (policy : Policy) (db : Database)
    (arrivals : ι → Arrival) (tr : List (ServerEvent ι)) (c : Config Database ι Tx.Ret Exn Response)
    (h : Run exec databaseFaults unguarded (start platform policy db arrivals) tr c) (i : ι)
    (report : AttestationReport) (hreq : (arrivals i).request = .attest report)
    (token expiresAt : String) (hret : c.threads i = .ret (.valid token expiresAt)) :
    ∃ key row, QuoteVerifies platform key report ∧ keyOf platform row = some key ∧
      match truthy report.machineId with
      | some machineId => ∃ t₁ t₂, tr = t₁ ++ ⟨i, .selectMachine machineId, .ok row⟩ :: t₂ ∧
          row = rowAfter db machineId t₁
      | none => row = none := by
  obtain ⟨row, key, hkey, hverifies, hrow⟩ := signed_of_run h hreq hret
  refine ⟨key, row, hverifies, hkey, ?_⟩
  cases hid : truthy report.machineId with
  | none =>
    rw [hid] at hrow
    exact hrow
  | some machineId =>
    rw [hid] at hrow
    obtain ⟨t₁, t₂, htr⟩ := List.append_of_mem hrow
    exact ⟨t₁, t₂, htr, row_of_lookup h htr⟩

end Runs

/-- A report of a machine. -/
def desktopReport : AttestationReport := { sampleReport sampleEnv.token with machineId := some "desktop" }

/-- The registration of a machine, a nonce, and a report of the machine. -/
def registerThenAttest : Option Bool → Arrival
  | none => ⟨.register ⟨"desktop", "AAAA", none⟩, sampleEnv⟩
  | some false => ⟨.challenge, sampleEnv⟩
  | some true => ⟨.attest desktopReport, sampleEnv⟩

def registeredRun :
    List (ServerEvent (Option Bool)) × Config Database (Option Bool) Tx.Ret Exn Response :=
  replay exec (start lenientPlatform laxPolicy .empty registerThenAttest)
    [none, some false, some true, some true, some true, some true]

theorem quote_key_of_valid_registered :
    ∃ key row, QuoteVerifies lenientPlatform key desktopReport ∧
      keyOf lenientPlatform row = some key ∧
      ∃ t₁ t₂, registeredRun.1 = t₁ ++ ⟨some true, .selectMachine "desktop", .ok row⟩ :: t₂ ∧
        row = rowAfter .empty "desktop" t₁ :=
  quote_key_of_valid lenientPlatform laxPolicy .empty registerThenAttest _ _
    ((replay_run exec _ _).faulty databaseFaults) (some true) desktopReport rfl "token"
    "2024-06-01T12:05:00+00:00" (returned_eq_some.mp (by decide +kernel))

end TpmAttest
