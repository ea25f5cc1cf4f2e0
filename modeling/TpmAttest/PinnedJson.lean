import TpmAttest.ServerRuns
import TpmAttest.PcrAgreement
import TpmAttest.WritableJson
import TpmAttest.TransactionRefinement

/-! # The column `pcr_json`

SQLite keeps the PCR values of a baseline as a text: `_pin_baseline` writes them with
`json.dumps`, and `_get_pinned_pcr` reads them with `json.loads`.  The text that it
reads might be no JSON, and then it answers `None`, which switches the pinning of PCR 7
off.

`BaselineRow` has the column as it is stored, and `textBlocks` implements the server's
transactions on such rows.  The server on texts and the server on dictionaries have the
same runs (`pinned_json_refined`), so the texts are always read back.
-/
namespace TpmAttest

open Python Transactional Program

/-- A row of `baselines`, as SQLite keeps it. -/
structure BaselineRow where
  id : Nat
  imaRoot : String
  pcrJson : String
  createdAt : String
  isActive : Bool

/-- The tables, as SQLite keeps them. -/
structure Tables where
  enrolledMachines : String → Option Machine
  baselines : List BaselineRow
  activeNonces : String → Option String

/-- The `with _db()` blocks.  A text of `none` stands for a `json.dumps` that raises
within the block. -/
inductive Block where
  | insertNonce (nonce expiresAt : String)
  | consumeNonce (nonce : String) (now : DateTime)
  | selectMachine (machineId : String)
  | upsertMachine (machineId : String) (row : Machine)
  | selectActiveRoot
  | selectActivePcrJson
  | deactivateAll
  | restoreBaseline (root : String)
  | pinBaseline (root : String) (pcrJson : Option String) (now : DateTime)

/-- What a block fetches. -/
abbrev Block.Ret : Block → Type
  | .consumeNonce _ _ => Option String
  | .selectMachine _ => Option Machine
  | .selectActiveRoot => Option String
  | .selectActivePcrJson => Option String
  | _ => Unit

namespace Tables

/-- `UPDATE baselines SET is_active = …`. -/
def setActive (f : BaselineRow → Bool) (rows : List BaselineRow) : List BaselineRow :=
  rows.map fun r => { r with isActive := f r }

/-- `SELECT … WHERE is_active = 1 ORDER BY id DESC LIMIT 1`, of rows in the order of
their ids. -/
def active (rows : List BaselineRow) : Option BaselineRow := (rows.filter (·.isActive)).getLast?

/-- `SELECT MAX(id) FROM baselines WHERE ima_root = ?`. -/
def maxId (root : String) (rows : List BaselineRow) : Option Nat :=
  (rows.filter (·.imaRoot = root)).getLast?.map (·.id)

/-- `INSERT INTO baselines … VALUES (?, ?, ?, 1)`, with the id of `AUTOINCREMENT`. -/
def insert (root pcrJson createdAt : String) (rows : List BaselineRow) : List BaselineRow :=
  rows ++ [⟨rows.getLast?.elim 0 (·.id) + 1, root, pcrJson, createdAt, true⟩]

end Tables

def recursionError : Exn := .runtimeError "maximum recursion depth exceeded while encoding a JSON object"

/-- What each block does. -/
def Block.exec : (block : Block) → Tables → Except Exn (block.Ret × Tables)
  | .insertNonce nonce expiresAt, db =>
    match db.activeNonces nonce with
    | some _ => .error (.databaseError "UNIQUE constraint failed: active_nonces.nonce")
    | none =>
      .ok ((), { db with activeNonces := Function.update db.activeNonces nonce (some expiresAt) })
  | .consumeNonce nonce now, db =>
    let nonces := purgeNonces db.activeNonces now.isoformat
    match nonces nonce with
    | none => .ok (none, { db with activeNonces := nonces })
    | some expiresAt =>
      .ok (some expiresAt, { db with activeNonces := Function.update nonces nonce none })
  | .selectMachine machineId, db => .ok (db.enrolledMachines machineId, db)
  | .upsertMachine machineId row, db =>
    .ok ((), { db with
      enrolledMachines := Function.update db.enrolledMachines machineId (some row) })
  | .selectActiveRoot, db => .ok ((Tables.active db.baselines).map (·.imaRoot), db)
  | .selectActivePcrJson, db => .ok ((Tables.active db.baselines).map (·.pcrJson), db)
  | .deactivateAll, db =>
    .ok ((), { db with baselines := Tables.setActive (fun _ => false) db.baselines })
  | .restoreBaseline root, db =>
    .ok ((), { db with
      baselines := Tables.setActive (fun r => r.isActive ||
        (r.imaRoot = root ∧ Tables.maxId root db.baselines = some r.id)) db.baselines })
  | .pinBaseline _ none _, _ => .error recursionError
  | .pinBaseline root (some pcrJson) now, db =>
    .ok ((), { db with
      baselines := Tables.insert root pcrJson now.isoformat
        (Tables.setActive (fun _ => false) db.baselines) })

/-! ## Texts and dictionaries -/

/-- The calls of `json`: how floats are written, and how deep values may nest. -/
structure JsonCalls where
  floatRepr : Decimal → String
  dumpsLimit : Nat
  loadsLimit : Nat
  dumpsLimit_pos : 0 < dumpsLimit
  loadsLimit_pos : 0 < loadsLimit

/-- The dict of strings with these items. -/
def Dict.ofItems (items : List (Text × Json)) : Option Dict := do
  let pairs ← items.mapM fun
    | (key, .str value) => some (pyText key, pyText value)
    | _ => none
  if h : (pairs.map Prod.fst).Nodup then some ⟨pairs, h⟩ else none
where
  pyText (s : Text) : String := String.ofList (s.map fun c => Char.ofNat c.val)

namespace JsonCalls
variable (json : JsonCalls)

/-- `json.dumps(pcr_map)`. -/
def dumpsDict (pcrs : Dict) : Option String := dumps json.floatRepr json.dumpsLimit pcrs.toJson

/-- What `_get_pinned_pcr` makes of the column: a text that is no JSON counts as no
baseline. -/
def readColumn (pcrJson : String) : Except Exn (Option Dict) :=
  match loadsText json.loadsLimit (text pcrJson) with
  | .ok (.dict items) =>
    match Dict.ofItems items with
    | some pcrs => .ok (some pcrs)
    | none => .error (.valueError "pcr_json is no dict of strings")
  | .ok _ => .error (.valueError "pcr_json is no dict of strings")
  | .error (.json _) => .ok none
  | .error .recursion => .error recursionError
  | .error .digits => .error (.valueError "Exceeds the limit (4300 digits) for integer string conversion")
  | .error .unicode => .error (.valueError "invalid start byte")

/-- The server's transactions, on texts. -/
def textBlocks : Implementation Tx.Ret Block.Ret Exn where
  op
    | .insertNonce nonce expiresAt => .insertNonce nonce expiresAt
    | .consumeNonce nonce now => .consumeNonce nonce now
    | .selectMachine machineId => .selectMachine machineId
    | .upsertMachine machineId row => .upsertMachine machineId row
    | .selectActiveRoot => .selectActiveRoot
    | .selectActivePcrJson => .selectActivePcrJson
    | .deactivateAll => .deactivateAll
    | .restoreBaseline root => .restoreBaseline root
    | .pinBaseline root pcrs now => .pinBaseline root (json.dumpsDict pcrs) now
  outcome
    | .insertNonce _ _, r => r
    | .consumeNonce _ _, r => r
    | .selectMachine _, r => r
    | .upsertMachine _ _, r => r
    | .selectActiveRoot, r => r
    | .selectActivePcrJson, r => do
      match ← r with
      | none => return none
      | some pcrJson => json.readColumn pcrJson
    | .deactivateAll, r => r
    | .restoreBaseline _, r => r
    | .pinBaseline _ _ _, r => r

/-- The text of a dictionary. -/
def columnText (pcrs : Dict) : String := String.ofList (jsonChars json.floatRepr pcrs.toJson)

theorem dumpsDict_eq (pcrs : Dict) : json.dumpsDict pcrs = some (json.columnText pcrs) := by
  have hitems : Json.nestingDict (pcrs.items.map fun p => (text p.1, Json.str (text p.2))) ≤ 0 := by
    rw [nestingDict_le_iff]
    intro item hitem
    obtain ⟨p, -, rfl⟩ := List.mem_map.mp hitem
    exact Nat.le_refl 0
  have hnesting : pcrs.toJson.nesting ≤ json.dumpsLimit :=
    Nat.le_trans (Nat.succ_le_succ hitems) json.dumpsLimit_pos
  exact if_pos hnesting

theorem ofItems_toJson (pcrs : Dict) :
    Dict.ofItems (pcrs.items.map fun p => (text p.1, Json.str (text p.2))) = some pcrs := by
  have hpairs : ∀ l : List (String × String),
      ((l.map fun p => (text p.1, Json.str (text p.2))).mapM fun
        | (key, .str value) => some (Dict.ofItems.pyText key, Dict.ofItems.pyText value)
        | _ => none) = some l := by
    intro l
    induction l with
    | nil => rfl
    | cons p l ih =>
      rw [List.map_cons, List.mapM_cons, ih]
      have hp : (Dict.ofItems.pyText (text p.1), Dict.ofItems.pyText (text p.2)) = p :=
        Prod.ext (ofList_text p.1) (ofList_text p.2)
      dsimp only [Option.bind_eq_bind, Option.bind_some, Option.pure_def]
      rw [hp]
  rw [Dict.ofItems, hpairs]
  exact dif_pos pcrs.nodup

/-- **What is written to the column is read back.** -/
theorem readColumn_columnText (pcrs : Dict) :
    json.readColumn (json.columnText pcrs) = .ok (some pcrs) := by
  obtain ⟨limit, hlimit⟩ : ∃ limit, json.loadsLimit = limit + 1 :=
    ⟨json.loadsLimit - 1, (Nat.sub_add_cancel json.loadsLimit_pos).symm⟩
  have htext : text (json.columnText pcrs) = chars (jsonChars json.floatRepr pcrs.toJson) := by
    rw [columnText, text, String.toList_ofList]
    rfl
  rw [readColumn, htext, hlimit, loadsText_toJson]
  dsimp only [Dict.toJson]
  rw [ofItems_toJson]

/-! ## The tables of a database -/

/-- A row, as SQLite keeps it. -/
def row (b : Baseline) : BaselineRow :=
  ⟨b.id, b.imaRoot, json.columnText b.pcrJson, b.createdAt, b.isActive⟩

/-- The tables of a database, as SQLite keeps them. -/
def tables (db : Database) : Tables :=
  ⟨db.enrolledMachines, db.baselines.rows.map json.row, db.activeNonces⟩

theorem setActive_map (f : BaselineRow → Bool) (rows : List Baseline) :
    Tables.setActive f (rows.map json.row) =
      (rows.map fun r => { r with isActive := f (json.row r) }).map json.row := by
  rw [Tables.setActive, List.map_map, List.map_map]
  rfl

theorem getLast?_filter_map (p : BaselineRow → Bool) (rows : List Baseline) :
    ((rows.map json.row).filter p).getLast? =
      (rows.filter fun r => p (json.row r)).getLast?.map json.row := by
  rw [List.filter_map, List.getLast?_map]
  rfl

theorem active_map (t : BaselineTable) :
    Tables.active (t.rows.map json.row) = t.active.map json.row :=
  json.getLast?_filter_map (·.isActive) t.rows

theorem maxId_map (root : String) (t : BaselineTable) :
    Tables.maxId root (t.rows.map json.row) = t.maxId root := by
  rw [Tables.maxId, json.getLast?_filter_map, Option.map_map]
  rfl

theorem insert_map (root : String) (pcrs : Dict) (createdAt : String) (t : BaselineTable) :
    Tables.insert root (json.columnText pcrs) createdAt (t.rows.map json.row) =
      (t.insert root pcrs createdAt).rows.map json.row := by
  have hid : (t.rows.map json.row).getLast?.elim 0 (·.id) = t.rows.getLast?.elim 0 (·.id) := by
    rw [List.getLast?_map]
    cases t.rows.getLast? <;> rfl
  rw [Tables.insert, hid, BaselineTable.insert, List.map_append]
  rfl

/-- A block on the stored tables, for each transaction. -/
theorem commit_block (op : Tx) (db : Database) :
    json.textBlocks.outcome op (commit Block.exec (json.textBlocks.op op) (json.tables db)).1 =
        (commit exec op db).1 ∧
      (commit Block.exec (json.textBlocks.op op) (json.tables db)).2 =
        json.tables (commit exec op db).2 := by
  cases op with
  | insertNonce nonce expiresAt =>
    cases hrow : db.activeNonces nonce with
    | none => simp [commit, Block.exec, exec, tables, textBlocks, hrow]
    | some t => simp [commit, Block.exec, exec, tables, textBlocks, hrow]
  | consumeNonce nonce now =>
    cases hrow : purgeNonces db.activeNonces now.isoformat nonce with
    | none => simp [commit, Block.exec, exec, tables, textBlocks, hrow]
    | some t => simp [commit, Block.exec, exec, tables, textBlocks, hrow]
  | selectMachine machineId => exact ⟨rfl, rfl⟩
  | upsertMachine machineId row => exact ⟨rfl, rfl⟩
  | selectActiveRoot =>
    refine ⟨?_, rfl⟩
    have hactive := json.active_map db.baselines
    simp only [commit, Block.exec, exec, tables, textBlocks, hactive, Option.map_map]
    rfl
  | selectActivePcrJson =>
    refine ⟨?_, rfl⟩
    have hactive := json.active_map db.baselines
    simp only [commit, Block.exec, exec, tables, textBlocks, hactive, Option.map_map]
    cases db.baselines.active with
    | none => rfl
    | some row => exact json.readColumn_columnText row.pcrJson
  | deactivateAll =>
    refine ⟨rfl, ?_⟩
    have hflags := json.setActive_map (fun _ => false) db.baselines.rows
    simp only [commit, Block.exec, exec, tables, textBlocks, hflags]
    rfl
  | restoreBaseline root =>
    refine ⟨rfl, ?_⟩
    have hflags := json.setActive_map (fun r => r.isActive ||
      (r.imaRoot = root ∧ db.baselines.maxId root = some r.id)) db.baselines.rows
    simp only [commit, Block.exec, exec, tables, textBlocks, json.maxId_map, hflags]
    rfl
  | pinBaseline root pcrs now =>
    have hflags := json.setActive_map (fun _ => false) db.baselines.rows
    have hinsert := json.insert_map root pcrs now.isoformat db.baselines.deactivateAll
    have hblock : commit Block.exec (.pinBaseline root (json.dumpsDict pcrs) now) (json.tables db) =
        ((.ok () : Except Exn Unit), json.tables (commit exec (.pinBaseline root pcrs now) db).2) := by
      rw [json.dumpsDict_eq]
      change ((.ok () : Except Exn Unit), Tables.mk _ (Tables.insert root (json.columnText pcrs)
        now.isoformat (Tables.setActive _ (db.baselines.rows.map json.row))) _) = _
      rw [hflags]
      exact congrArg (fun rows => ((.ok () : Except Exn Unit), Tables.mk _ rows _)) hinsert
    exact ⟨congrArg Prod.fst hblock, congrArg Prod.snd hblock⟩

/-- **The blocks agree with the transactions that they implement.** -/
theorem agrees (faults : Exn → Prop) :
    json.textBlocks.Agrees exec Block.exec faults fun s' s => s' = json.tables s where
  outcome op s' s hs := by
    subst hs
    exact (json.commit_block op s).1
  store op s' s hs := by
    subst hs
    exact (json.commit_block op s).2
  fault op e _ := by cases op <;> rfl

end JsonCalls

/-! ## Runs -/

section
variable {ι : Type} [DecidableEq ι] (json : JsonCalls) (platform : Platform) (policy : Policy)

/-- The server on the stored tables. -/
def startText (db : Database) (arrivals : ι → Arrival) : Config Tables ι Block.Ret Exn Response :=
  ⟨json.tables db, fun i =>
    (serve platform policy (arrivals i).env (arrivals i).request).implement json.textBlocks⟩

variable {json platform policy} {faults : Exn → Prop} {db : Database} {arrivals : ι → Arrival}
  {c' : Config Tables ι Block.Ret Exn Response} {c : Config Database ι Tx.Ret Exn Response}

omit [DecidableEq ι] in
theorem related_start : Related json.textBlocks (fun s' s => s' = json.tables s)
    (startText json platform policy db arrivals) (start platform policy db arrivals) :=
  ⟨rfl, fun _ => rfl⟩

omit [DecidableEq ι] in
theorem outcome_of_related (h : Related json.textBlocks (fun s' s => s' = json.tables s) c' c) (i : ι)
    (outcome : Except Exn Response) :
    c'.threads i = ofExcept outcome ↔ c.threads i = ofExcept outcome := by
  rw [h.threads i]
  exact implement_eq_ofExcept

/-- A map of the table was there at the start, or it was pinned. -/
theorem pcrs_of_run {tr : List (ServerEvent ι)} {c : Config Database ι Tx.Ret Exn Response}
    (h : Run exec faults unguarded (start platform policy db arrivals) tr c) {b : Baseline}
    (hb : b ∈ c.store.baselines.rows) :
    (∃ b₀ ∈ db.baselines.rows, b₀.pcrJson = b.pcrJson) ∨
      ∃ i root now, (⟨i, .pinBaseline root b.pcrJson now, .ok ()⟩ : ServerEvent ι) ∈ tr := by
  induction h generalizing b with
  | refl => exact Or.inl ⟨b, hb, rfl⟩
  | @step tr c c' ev _ _ hs ih =>
    have hkept {b' : Baseline} (hb' : b' ∈ c.store.baselines.rows) (heq : b'.pcrJson = b.pcrJson) :
        (∃ b₀ ∈ db.baselines.rows, b₀.pcrJson = b.pcrJson) ∨ ∃ i root now,
          (⟨i, .pinBaseline root b.pcrJson now, .ok ()⟩ : ServerEvent ι) ∈ tr ++ [ev] := by
      rw [← heq]
      refine (ih hb').imp_right ?_
      rintro ⟨i, root, now, hmem⟩
      exact ⟨i, root, now, List.mem_append_left _ hmem⟩
    -- a flag may have changed
    have hflags {f : Baseline → Bool} (hb : b ∈ (c.store.baselines.setActive f).rows) :
        ∃ b' ∈ c.store.baselines.rows, b'.pcrJson = b.pcrJson := by
      obtain ⟨b', hb', rfl⟩ := List.mem_map.mp hb
      exact ⟨b', hb', rfl⟩
    rcases hs.store with ⟨houtcome, hstore⟩ | ⟨-, hstore⟩
    · rw [hstore, baselines_commit] at hb
      obtain ⟨i, op, outcome⟩ := ev
      cases op with
      | deactivateAll =>
        obtain ⟨b', hb', heq⟩ := hflags hb
        exact hkept hb' heq
      | restoreBaseline root =>
        obtain ⟨b', hb', heq⟩ := hflags hb
        exact hkept hb' heq
      | pinBaseline root pcrs now =>
        rcases List.mem_append.mp hb with hb | hb
        · obtain ⟨b', hb', heq⟩ := hflags hb
          exact hkept hb' heq
        · obtain rfl := List.mem_singleton.mp hb
          obtain rfl : outcome = .ok () := houtcome
          exact Or.inr ⟨i, root, now, by simp⟩
      | _ => exact hkept hb rfl
    · rw [hstore] at hb
      exact hkept hb rfl

omit [DecidableEq ι] in
/-- A map that was pinned has been written as its text. -/
theorem written_of_pinned {tr' : List (Event ι Block.Ret Exn)} {tr : List (ServerEvent ι)}
    (htr : List.Forall₂ (Implements json.textBlocks) tr' tr) {i : ι} {root : String} {pcrs : Dict}
    {now : DateTime} (hmem : (⟨i, .pinBaseline root pcrs now, .ok ()⟩ : ServerEvent ι) ∈ tr) :
    ⟨i, .pinBaseline root (some (json.columnText pcrs)) now, .ok ()⟩ ∈ tr' := by
  obtain ⟨ev', hev', r, rfl, houtcome⟩ := implements_of_mem htr hmem
  obtain rfl : r = .ok () := houtcome
  rw [← json.dumpsDict_eq]
  exact hev'

/-- The map of a text that is fetched, and where the text comes from: a row of the
database at the start, or a block that has written it. -/
def ReadBack (json : JsonCalls) (db : Database) (before : List (Event ι Block.Ret Exn))
    (pcrJson : String) : Prop :=
  ∃ pcrs, pcrJson = json.columnText pcrs ∧ json.readColumn pcrJson = .ok (some pcrs) ∧
    ((∃ b ∈ db.baselines.rows, b.pcrJson = pcrs) ∨
      ∃ j root now, ⟨j, .pinBaseline root (some pcrJson) now, .ok ()⟩ ∈ before)

/-- **A text that is fetched is read back** as the map that was written. -/
theorem readBack_of_run {tr' t₁ t₂ : List (Event ι Block.Ret Exn)}
    (h : Run Block.exec faults unguarded (startText json platform policy db arrivals) tr' c') {i : ι}
    {pcrJson : String} (htr : tr' = t₁ ++ ⟨i, .selectActivePcrJson, .ok (some pcrJson)⟩ :: t₂) :
    ReadBack json db t₁ pcrJson := by
  obtain ⟨c₁, c₂, hrun, -, hstep⟩ := h.split htr
  obtain ⟨tr, s, hrun', himplements, hrelated⟩ := hrun.abstracted (json.agrees faults) related_start
  rcases hstep.store with ⟨houtcome, -⟩ | ⟨⟨e, houtcome, -⟩, -⟩
  · have hfetch : (Tables.active c₁.store.baselines).map (·.pcrJson) = some pcrJson :=
      (Except.ok.inj houtcome).symm
    have hstore : c₁.store = json.tables s.store := hrelated.store
    rw [hstore] at hfetch
    change (Tables.active (s.store.baselines.rows.map json.row)).map (·.pcrJson) = _ at hfetch
    rw [json.active_map, Option.map_map, Option.map_eq_some_iff] at hfetch
    obtain ⟨b, hactive, rfl⟩ := hfetch
    refine ⟨b.pcrJson, rfl, json.readColumn_columnText b.pcrJson, ?_⟩
    refine (pcrs_of_run hrun' (BaselineTable.mem_of_active hactive).1).imp_right ?_
    rintro ⟨j, root, now, hmem⟩
    exact ⟨j, root, now, written_of_pinned himplements hmem⟩
  · cases houtcome

variable (json platform policy faults db arrivals)

end

end TpmAttest
