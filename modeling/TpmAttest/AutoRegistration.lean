import TpmAttest.AgentReport
import TpmAttest.ReportTransport
import TpmAttest.QuoteKeys

/-! # Registration of the machine

When it starts, the shim posts the public key that the TPM exports, with the endorsement
key if that can be read, and goes on whatever becomes of the request.  Once the server
has stored the key, it verifies the quotes of that machine with it, byte for byte, until
the machine is registered again (`registered_key_verifies`).
-/
namespace TpmAttest

open Python Transactional Program

/-! ## What is posted -/

/-- `_read_ak_pub_b64`, within its `try`. -/
def tryAkPub (readpublic : Except Exn ToolRun) : Except Exn (Option String) := do
  let res ← readpublic
  if res.returncode ≠ 0 then return none else return some (b64encode (← res.file))

/-- `_read_ak_pub_b64`. -/
def readAkPubB64 (readpublic : Except Exn ToolRun) : Option String :=
  match tryAkPub readpublic with
  | .ok akPub => akPub
  | .error _ => none

/-- The members of the payload. -/
def registerMembers (machineId akPubB64 : String) (ekCertB64 : Option String) : List (String × Json) :=
  [("machine_id", .str (text machineId)), ("ak_pub_b64", .str (text akPubB64)),
    ("ek_cert_b64", ekCertB64.elim .null fun s => .str (text s))]

/-- `_auto_register`: what it posts, if it posts anything.  It makes nothing of the reply
but a line of the log, and every exception that comes up is caught. -/
def autoRegister (floatRepr : Decimal → String) (machineId : String)
    (readpublic : Except Exn ToolRun) (ek : EkTools) : Option Bytes := do
  let akPubB64 ← truthy (readAkPubB64 readpublic)
  let payload ← dumps floatRepr 1 (ofMembers (registerMembers machineId akPubB64 (readEkCert ek)))
  return encode payload

section
variable {floatRepr : Decimal → String} {floatBack : Decimal → FloatValue} {machineId : String}
  {readpublic : Except Exn ToolRun} {ek : EkTools} {payload : Bytes} {http : Http}

theorem readAkPubB64_eq_some {akPubB64 : String} :
    readAkPubB64 readpublic = some akPubB64 ↔
      ∃ res ak, readpublic = .ok res ∧ res.returncode = 0 ∧ res.file = .ok ak ∧
        akPubB64 = b64encode ak := by
  unfold readAkPubB64 tryAkPub
  cases readpublic with
  | error e => simp [Bind.bind, Except.bind]
  | ok res =>
    by_cases hcode : res.returncode = 0
    · cases hfile : res.file with
      | error e => simp [hcode, hfile, Bind.bind, Except.bind]
      | ok ak => simp [hcode, hfile, Bind.bind, Except.bind, Pure.pure, Except.pure, eq_comm]
    · simp [hcode, Bind.bind, Except.bind, Pure.pure, Except.pure]

theorem ofItems_registerMembers (machineId akPubB64 : String) (ekCertB64 : Option String) :
    RegisterRequest.ofItems
        ((registerMembers machineId akPubB64 ekCertB64).map fun p => (text p.1, p.2)) =
      some ⟨machineId, akPubB64, ekCertB64⟩ := by
  have hoptional : optionalStr (some (ekCertB64.elim .null fun s => .str (text s))) = some ekCertB64 := by
    cases ekCertB64 with
    | none => rfl
    | some s =>
      show (strOf (.str (text s))).map some = _
      rw [strOf_text]
      rfl
  have hmachine : (registerMembers machineId akPubB64 ekCertB64).lookup "machine_id" =
      some (.str (text machineId)) := rfl
  have hak : (registerMembers machineId akPubB64 ekCertB64).lookup "ak_pub_b64" =
      some (.str (text akPubB64)) := rfl
  have hek : (registerMembers machineId akPubB64 ekCertB64).lookup "ek_cert_b64" =
      some (ekCertB64.elim .null fun s => .str (text s)) := rfl
  simp only [RegisterRequest.ofItems, getItem_ofMembers, hmachine, hak, hek, Option.bind_eq_bind,
    Option.bind_some, strOf_text, hoptional, Option.pure_def]

theorem readBack_registerMembers (floatBack : Decimal → FloatValue) (machineId akPubB64 : String)
    (ekCertB64 : Option String) :
    (ofMembers (registerMembers machineId akPubB64 ekCertB64)).readBack floatBack =
      ofMembers (registerMembers machineId akPubB64 ekCertB64) := by
  have hvalues : ∀ p ∈ registerMembers machineId akPubB64 ekCertB64,
      p.2.readBack floatBack = p.2 := by
    cases ekCertB64 <;> simp [registerMembers, Json.readBack, readBack_text]
  have hkeys : ((registerMembers machineId akPubB64 ekCertB64).map Prod.fst).Nodup := by
    show ["machine_id", "ak_pub_b64", "ek_cert_b64"].Nodup
    decide
  rw [ofMembers, readBack_dict floatBack hkeys]
  exact congrArg Json.dict (List.map_congr_left fun p hp => by rw [hvalues p hp])

/-- **The server reads the registration that was posted.** -/
theorem parseRegister_posted (hhttp : http.Faithful) (hfloats : FloatsRead floatRepr floatBack)
    (h : autoRegister floatRepr machineId readpublic ek = some payload) :
    ∃ res ak, readpublic = .ok res ∧ res.returncode = 0 ∧ res.file = .ok ak ∧
      (∀ req, http.parseRegister payload = some req → req = ⟨machineId, b64encode ak, readEkCert ek⟩) ∧
      (0 < http.bodyLimit →
        http.parseRegister payload = some ⟨machineId, b64encode ak, readEkCert ek⟩) := by
  unfold autoRegister at h
  rw [Option.bind_eq_bind, Option.bind_eq_some_iff] at h
  obtain ⟨akPubB64, hak, h⟩ := h
  rw [Option.bind_eq_some_iff] at h
  obtain ⟨s, hdumps, h⟩ := h
  obtain rfl := Option.some.inj h
  obtain ⟨res, ak, htool, hcode, hfile, rfl⟩ := readAkPubB64_eq_some.mp (truthy_eq_some.mp hak).1
  refine ⟨res, ak, htool, hcode, hfile, ?_⟩
  have hfits : (ofMembers (registerMembers machineId (b64encode ak) (readEkCert ek))).Fits := by
    cases readEkCert ek <;> exact ⟨trivial, trivial, trivial, trivial⟩
  have hback := readBack_registerMembers floatBack machineId (b64encode ak) (readEkCert ek)
  have hparse : ∀ value, loads http.bodyLimit (encode s) = .ok value →
      http.parseRegister (encode s) = some ⟨machineId, b64encode ak, readEkCert ek⟩ := by
    intro value hread
    have hvalue := loads_dumps_eq hfloats hdumps hfits hread
    rw [hback] at hvalue
    rw [hvalue] at hread
    exact hhttp.register _ _ _ hread (ofItems_registerMembers machineId (b64encode ak) _)
  constructor
  · intro req hreq
    obtain ⟨value, hread⟩ := hhttp.registerJson _ _ hreq
    rw [hparse value hread] at hreq
    exact (Option.some.inj hreq).symm
  · intro hlimit
    have hnesting : (ofMembers (registerMembers machineId (b64encode ak) (readEkCert ek))).nesting = 1 := by
      cases readEkCert ek <;> rfl
    exact hparse _ (loads_dumps hfloats hdumps (hnesting.trans_le hlimit) hfits)

end

/-! ## What becomes of it -/

section
variable {platform : Platform} {policy : Policy} {req : RegisterRequest} {env : Env}
  {G : (op : Tx) → Except Exn op.Ret → Prop}

/-- A registration stores the key that it submits. -/
theorem register_upserts : (register platform policy req env).Ensures G
    (fun op => ∃ row, op = .upsertMachine req.machineId row ∧ row.akPubB64 = req.akPubB64)
    (fun _ => True) fun _ => True := by
  have hstore : ∀ verified info, (storeMachine req verified info env).Ensures G
      (fun op => ∃ row, op = .upsertMachine req.machineId row ∧ row.akPubB64 = req.akPubB64)
      (fun _ => True) fun _ => True := by
    intro verified info
    exact (ensures_perform (Q := fun _ => True) ⟨_, rfl, rfl⟩ (fun _ _ => trivial)
      fun _ _ => trivial).bind fun _ _ => trivial
  unfold register
  cases truthy req.ekCertB64 with
  | none => exact hstore _ _
  | some ekCertB64 =>
    dsimp only
    by_cases hek : (verifyEkCert platform policy ekCertB64).1 = true
    · rw [if_pos hek]
      exact hstore _ _
    · rw [if_neg hek]
      trivial

variable {ι : Type} {db : Database} {machineId : String}

/-- A row stays while no registration of the machine commits. -/
theorem rowAfter_quiet {t₁ t₂ : List (ServerEvent ι)}
    (h : ∀ ev ∈ t₂, ∀ j row, ev ≠ ⟨j, .upsertMachine machineId row, .ok ()⟩) :
    rowAfter db machineId (t₁ ++ t₂) = rowAfter db machineId t₁ := by
  have hstay : ∀ row : Option Machine, t₂.foldl (updatedRow machineId) row = row := by
    intro row
    induction t₂ with
    | nil => rfl
    | cons ev t₂ ih =>
      rw [List.forall_mem_cons] at h
      have hev : updatedRow machineId row ev = row := by
        obtain ⟨i, op, outcome⟩ := ev
        cases op with
        | upsertMachine id row' =>
          cases outcome with
          | ok u => exact if_neg fun hid => h.1 i row' (by rw [hid])
          | error e => rfl
        | _ => cases outcome <;> rfl
      rw [List.foldl_cons, hev]
      exact ih h.2
  rw [rowAfter, List.foldl_append, hstay, rowAfter]

end

section Runs
variable {ι : Type} [DecidableEq ι]

/-- **The TPM's own key verifies.**  Once the registration that the shim posted has been
stored, and while no other one of the machine commits, every report of the machine that
is accepted carries a quote that verifies with the key that the TPM exported. -/
theorem registered_key_verifies (http : Http) (hhttp : http.Faithful)
    (floatRepr : Decimal → String) (floatBack : Decimal → FloatValue)
    (hfloats : FloatsRead floatRepr floatBack) (platform : Platform) (policy : Policy)
    (db : Database) (arrivals : ι → Arrival) (tr : List (ServerEvent ι))
    (c : Config Database ι Tx.Ret Exn Response)
    (h : Run exec databaseFaults unguarded (start platform policy db arrivals) tr c)
    (machineId : String) (readpublic : Except Exn ToolRun) (ek : EkTools) (payload : Bytes)
    (hpost : autoRegister floatRepr machineId readpublic ek = some payload)
    (k : ι) (req : RegisterRequest) (hparse : http.parseRegister payload = some req)
    (hk : (arrivals k).request = .register req) (t₁ t₂ : List (ServerEvent ι)) (row : Machine)
    (htr : tr = t₁ ++ ⟨k, .upsertMachine machineId row, .ok ()⟩ :: t₂)
    (hlast : ∀ ev ∈ t₂, ∀ j row', ev ≠ ⟨j, .upsertMachine machineId row', .ok ()⟩)
    (i : ι) (report : AttestationReport) (hi : (arrivals i).request = .attest report)
    (hid : truthy report.machineId = some machineId) (hafter : ∀ ev ∈ t₁, ev.thread ≠ i)
    (token expiresAt : String) (hret : c.threads i = .ret (.valid token expiresAt)) :
    ∃ res ak, readpublic = .ok res ∧ res.returncode = 0 ∧ res.file = .ok ak ∧
      QuoteVerifies platform ak report := by
  obtain ⟨res, ak, htool, hcode, hfile, hposted, -⟩ := parseRegister_posted hhttp hfloats hpost
  obtain rfl := hposted req hparse
  refine ⟨res, ak, htool, hcode, hfile, ?_⟩
  have hak : row.akPubB64 = b64encode ak := by
    have hpath := h.path k
    have hstart : (start platform policy db arrivals).threads k = register platform policy
        ⟨machineId, b64encode ak, readEkCert ek⟩ (arrivals k).env := by
      show serve platform policy (arrivals k).env (arrivals k).request = _
      rw [hk]
      rfl
    rw [hstart] at hpath
    have hmem : (⟨.upsertMachine machineId row, .ok ()⟩ : Observation Tx.Ret Exn) ∈ history k tr := by
      rw [mem_history, htr]
      exact List.mem_append_right _ List.mem_cons_self
    obtain ⟨row', hop, hak⟩ := (hpath.ensures (G := fun _ _ => True) register_upserts
      fun _ _ => trivial).1 _ hmem
    obtain ⟨-, rfl⟩ := Tx.upsertMachine.inj hop
    exact hak
  obtain ⟨row', key, hkey, hverifies, hrow⟩ := signed_of_run h hi hret
  rw [hid] at hrow
  -- the lookup comes after the registration
  have hmem : (⟨i, .selectMachine machineId, .ok row'⟩ : ServerEvent ι) ∈ t₂ := by
    rw [htr] at hrow
    rcases List.mem_append.mp hrow with hrow | hrow
    · exact absurd rfl (hafter _ hrow)
    · rcases List.mem_cons.mp hrow with hrow | hrow
      · cases hrow
      · exact hrow
  obtain ⟨s₁, s₂, rfl⟩ := List.append_of_mem hmem
  have hsplit : tr = (t₁ ++ ⟨k, .upsertMachine machineId row, .ok ()⟩ :: s₁) ++
      ⟨i, .selectMachine machineId, .ok row'⟩ :: s₂ := by
    rw [htr, List.append_assoc]
    rfl
  have hcurrent : row' = some row := by
    rw [row_of_lookup h hsplit, ← List.singleton_append, ← List.append_assoc,
      rowAfter_quiet fun ev hev => hlast ev (List.mem_append_left _ hev), rowAfter,
      List.foldl_append]
    exact if_pos rfl
  rw [hcurrent, keyOf, hak, b64decode_b64encode] at hkey
  obtain rfl : ak = key := Option.some.inj hkey
  exact hverifies

end Runs

/-- Tools of which only the export of the attestation key works. -/
def akOnly : EkTools := ⟨fun _ => .ok ⟨1, .ok []⟩, .ok ⟨1, .ok []⟩⟩

theorem registered_key_verifies_desktop :
    ∃ res ak, Except.ok (ε := Exn) (ToolRun.mk 0 (.ok [0, 0, 0])) = .ok res ∧ res.returncode = 0 ∧
      res.file = .ok ak ∧ QuoteVerifies lenientPlatform ak desktopReport := by
  obtain ⟨payload, hpost⟩ : ∃ payload, autoRegister Shim.sampleInterpreter.floatRepr "desktop"
      (.ok ⟨0, .ok [0, 0, 0]⟩) akOnly = some payload := ⟨_, rfl⟩
  obtain ⟨_, _, htool, -, hfile, -, hposted⟩ :=
    parseRegister_posted faithful_sampleHttp floatsRead_sample hpost
  obtain rfl := Except.ok.inj htool
  obtain rfl := Except.ok.inj hfile
  have hops : registeredRun.1.tail.map Event.op = [.insertNonce "c0ffee" "2024-06-01T12:02:00+00:00",
      .consumeNonce "c0ffee" noon, .selectMachine "desktop", .selectMachine "desktop",
      .selectActiveRoot] := by decide +kernel
  have hlast : ∀ ev ∈ registeredRun.1.tail, ∀ j row',
      ev ≠ ⟨j, .upsertMachine "desktop" row', .ok ()⟩ := by
    rintro ev hev j row' rfl
    have hmem := List.mem_map_of_mem (f := Event.op) hev
    rw [hops] at hmem
    simp at hmem
  exact registered_key_verifies sampleHttp faithful_sampleHttp Shim.sampleInterpreter.floatRepr _
    floatsRead_sample lenientPlatform laxPolicy .empty registerThenAttest registeredRun.1
    registeredRun.2 ((replay_run exec _ _).faulty databaseFaults) "desktop" _ akOnly payload hpost
    none _ (hposted (by decide)) rfl [] registeredRun.1.tail _ rfl hlast (some true) desktopReport
    rfl rfl (List.forall_mem_nil _) "token" "2024-06-01T12:05:00+00:00"
    (returned_eq_some.mp (by decide +kernel))

end TpmAttest
