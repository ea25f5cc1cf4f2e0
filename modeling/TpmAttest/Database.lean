import TpmAttest.TransactionPrograms
import TpmAttest.Clock
import Mathlib.Data.List.Pairwise

/-! # The server's database

Three tables.  `enrolled_machines` and `active_nonces` have a text as their
primary key and are partial maps.  `baselines` is read in the order of its ids, so
it is the list of its rows in that order, which the table carries as a field.

`Tx` lists the transactions, one for each `with _db()` block of the server, and
`exec` says what each does.  A transaction whose body raises changes nothing; the
only one that can is the insertion of a nonce that is already there.
-/
namespace TpmAttest

open Transactional

/-- A `dict[str, str]`, in insertion order. -/
structure Dict where
  items : List (String × String)
  nodup : (items.map Prod.fst).Nodup := by decide
deriving DecidableEq

/-- `d.get(key)`. -/
def Dict.get (d : Dict) (key : String) : Option String := d.items.lookup key

/-- Items with distinct keys are what a lookup finds. -/
theorem mem_iff_lookup {α β : Type} [BEq α] [LawfulBEq α] {l : List (α × β)}
    (h : (l.map Prod.fst).Nodup) {key : α} {value : β} :
    (key, value) ∈ l ↔ l.lookup key = some value := by
  rw [List.lookup_eq_some_iff]
  constructor
  · intro hmem
    obtain ⟨l₁, l₂, hl⟩ := List.append_of_mem hmem
    refine ⟨l₁, l₂, hl, fun p hp => ?_⟩
    -- another item with the key would repeat it
    rw [hl, List.map_append, List.nodup_append] at h
    have hne := h.2.2 p.1 (List.mem_map_of_mem hp) key (by simp)
    exact bne_iff_ne.mpr (Ne.symm hne)
  · rintro ⟨l₁, l₂, hl, -⟩
    simp [hl]

theorem Dict.mem_items_iff (d : Dict) {key value : String} :
    (key, value) ∈ d.items ↔ d.get key = some value := mem_iff_lookup d.nodup

/-- A row of `enrolled_machines`, without its key. -/
structure Machine where
  akPubB64 : String
  ekCertB64 : Option String
  ekVerified : Bool
  registeredAt : String
deriving DecidableEq

/-- A row of `baselines`.  The column `pcr_json` holds the JSON text of a
dictionary and is always read back into one. -/
structure Baseline where
  id : Nat
  imaRoot : String
  pcrJson : Dict
  createdAt : String
  isActive : Bool
deriving DecidableEq

/-- The table `baselines`, in the order of its ids. -/
structure BaselineTable where
  rows : List Baseline
  sorted : rows.Pairwise fun a b => a.id < b.id

structure Database where
  enrolledMachines : String → Option Machine
  baselines : BaselineTable
  activeNonces : String → Option String

namespace BaselineTable

def empty : BaselineTable := ⟨[], .nil⟩

/-- Changing the flags of rows keeps their order. -/
def setActive (f : Baseline → Bool) (t : BaselineTable) : BaselineTable :=
  ⟨t.rows.map fun r => { r with isActive := f r }, List.pairwise_map.mpr t.sorted⟩

/-- `UPDATE baselines SET is_active = 0`. -/
def deactivateAll (t : BaselineTable) : BaselineTable := t.setActive fun _ => false

/-- `SELECT MAX(id) FROM baselines WHERE ima_root = ?`. -/
def maxId (t : BaselineTable) (root : String) : Option Nat :=
  (t.rows.filter (·.imaRoot = root)).getLast?.map (·.id)

/-- `UPDATE baselines SET is_active = 1 WHERE ima_root = ? AND id = (SELECT MAX(id) …)`. -/
def restore (t : BaselineTable) (root : String) : BaselineTable :=
  t.setActive fun r => r.isActive || (r.imaRoot = root ∧ t.maxId root = some r.id)

/-- The id that `AUTOINCREMENT` gives to a new row. -/
def nextId (t : BaselineTable) : Nat := (t.rows.getLast?.elim 0 (·.id)) + 1

theorem lt_nextId (t : BaselineTable) : ∀ r ∈ t.rows, r.id < t.nextId := by
  intro r hr
  obtain ⟨rows, last, hrows⟩ : ∃ rows last, t.rows = rows ++ [last] :=
    ⟨_, _, (List.dropLast_append_getLast (List.ne_nil_of_mem hr)).symm⟩
  have hs := t.sorted
  rw [hrows, List.pairwise_append] at hs
  rw [nextId, hrows, List.getLast?_concat]
  rw [hrows, List.mem_append, List.mem_singleton] at hr
  rcases hr with hr | rfl
  · exact Nat.lt_succ_of_lt (hs.2.2 r hr last (List.mem_singleton_self last))
  · exact Nat.lt_succ_self _

/-- `INSERT INTO baselines … VALUES (?, ?, ?, 1)`. -/
def insert (t : BaselineTable) (root : String) (pcrs : Dict) (createdAt : String) :
    BaselineTable where
  rows := t.rows ++ [⟨t.nextId, root, pcrs, createdAt, true⟩]
  sorted := by
    rw [List.pairwise_append]
    exact ⟨t.sorted, List.pairwise_singleton _ _, fun r hr s hs => by
      obtain rfl := List.mem_singleton.mp hs
      exact t.lt_nextId r hr⟩

/-- `SELECT … WHERE is_active = 1 ORDER BY id DESC LIMIT 1`. -/
def active (t : BaselineTable) : Option Baseline := (t.rows.filter (·.isActive)).getLast?

end BaselineTable

def Database.empty : Database := ⟨fun _ => none, .empty, fun _ => none⟩

/-! ## Transactions -/

/-- The server's `with _db()` blocks. -/
inductive Tx where
  | insertNonce (nonce expiresAt : String)
  | consumeNonce (nonce : String) (now : DateTime)
  | selectMachine (machineId : String)
  | upsertMachine (machineId : String) (row : Machine)
  | selectActiveRoot
  | selectActivePcrJson
  | deactivateAll
  | restoreBaseline (root : String)
  | pinBaseline (root : String) (pcrs : Dict) (now : DateTime)
deriving DecidableEq

/-- What a transaction fetches. -/
abbrev Tx.Ret : Tx → Type
  | .consumeNonce _ _ => Option String
  | .selectMachine _ => Option Machine
  | .selectActiveRoot => Option String
  | .selectActivePcrJson => Option Dict
  | _ => Unit

/-- The nonces that `DELETE FROM active_nonces WHERE expires_at < ?` leaves. -/
def purgeNonces (nonces : String → Option String) (now : String) : String → Option String :=
  fun nonce => (nonces nonce).filter fun expiresAt => ¬ expiresAt < now

/-- What each transaction does. -/
def exec : (op : Tx) → Database → Except Exn (op.Ret × Database)
  | .insertNonce nonce expiresAt, db =>
    match db.activeNonces nonce with
    | some _ => .error (.databaseError "UNIQUE constraint failed: active_nonces.nonce")
    | none =>
      .ok ((), { db with activeNonces := Function.update db.activeNonces nonce (some expiresAt) })
  | .consumeNonce nonce now, db =>
    -- the purge is committed also when the nonce is not there
    let nonces := purgeNonces db.activeNonces now.isoformat
    match nonces nonce with
    | none => .ok (none, { db with activeNonces := nonces })
    | some expiresAt =>
      .ok (some expiresAt, { db with activeNonces := Function.update nonces nonce none })
  | .selectMachine machineId, db => .ok (db.enrolledMachines machineId, db)
  | .upsertMachine machineId row, db =>
    .ok ((), { db with
      enrolledMachines := Function.update db.enrolledMachines machineId (some row) })
  | .selectActiveRoot, db => .ok (db.baselines.active.map (·.imaRoot), db)
  | .selectActivePcrJson, db => .ok (db.baselines.active.map (·.pcrJson), db)
  | .deactivateAll, db => .ok ((), { db with baselines := db.baselines.deactivateAll })
  | .restoreBaseline root, db => .ok ((), { db with baselines := db.baselines.restore root })
  | .pinBaseline root pcrs now, db =>
    .ok ((), { db with baselines := db.baselines.deactivateAll.insert root pcrs now.isoformat })

/-- A program of the server's transactions. -/
abbrev ServerM := Program Tx.Ret Exn

/-- One `with _db()` block. -/
abbrev transaction (op : Tx) : ServerM op.Ret := Program.perform op

/-- The store may fail any transaction with a database error. -/
def databaseFaults (e : Exn) : Prop := ∃ text, e = .databaseError text

/-! ## What each transaction does -/

section Commit
open Program
variable (db : Database)

theorem commit_insertNonce {nonce : String} (expiresAt : String)
    (h : db.activeNonces nonce = none) :
    commit exec (.insertNonce nonce expiresAt) db = (.ok (), { db with
      activeNonces := Function.update db.activeNonces nonce (some expiresAt) }) := by
  simp only [commit, exec, h]

/-- A nonce transaction fetches the nonce's row, if it has not expired, and leaves
the table without it. -/
@[simp] theorem commit_consumeNonce (nonce : String) (now : DateTime) :
    commit exec (.consumeNonce nonce now) db =
      (.ok (purgeNonces db.activeNonces now.isoformat nonce), { db with
        activeNonces :=
          Function.update (purgeNonces db.activeNonces now.isoformat) nonce none }) := by
  cases h : purgeNonces db.activeNonces now.isoformat nonce with
  | none =>
    rw [← h, Function.update_eq_self]
    simp only [commit, exec, h]
  | some expiresAt => simp only [commit, exec, h]

@[simp] theorem commit_selectMachine (machineId : String) :
    commit exec (.selectMachine machineId) db = (.ok (db.enrolledMachines machineId), db) := rfl

@[simp] theorem commit_upsertMachine (machineId : String) (row : Machine) :
    commit exec (.upsertMachine machineId row) db = (.ok (), { db with
      enrolledMachines := Function.update db.enrolledMachines machineId (some row) }) := rfl

@[simp] theorem commit_selectActiveRoot :
    commit exec .selectActiveRoot db = (.ok (db.baselines.active.map (·.imaRoot)), db) := rfl

@[simp] theorem commit_selectActivePcrJson :
    commit exec .selectActivePcrJson db = (.ok (db.baselines.active.map (·.pcrJson)), db) := rfl

end Commit

/-! ## The transactions, and the tables of nonces and machines -/

section Store
open Program
variable {op : Tx} {db : Database} {nonce : String}

theorem purgeNonces_some {nonces : String → Option String} {now t : String}
    (h : purgeNonces nonces now nonce = some t) : nonces nonce = some t :=
  (Option.filter_eq_some_iff.mp h).1

/-- A nonce in the table was there before, or was just inserted. -/
theorem activeNonces_commit {t : String} (h : (commit exec op db).2.activeNonces nonce = some t) :
    db.activeNonces nonce = some t ∨
      (op = .insertNonce nonce t ∧ ∃ r, (commit exec op db).1 = .ok r) := by
  cases op with
  | insertNonce nonce' expiresAt =>
    cases hdup : db.activeNonces nonce' with
    | none =>
      rw [commit_insertNonce db _ hdup] at h ⊢
      dsimp only at h
      by_cases hn : nonce = nonce'
      · subst hn
        rw [Function.update_self, Option.some.injEq] at h
        subst h
        exact Or.inr ⟨rfl, _, rfl⟩
      · rw [Function.update_of_ne hn] at h
        exact Or.inl h
    | some t' =>
      simp only [commit, exec, hdup] at h
      exact Or.inl h
  | consumeNonce nonce' now =>
    rw [commit_consumeNonce] at h
    dsimp only at h
    by_cases hn : nonce = nonce'
    · subst hn
      rw [Function.update_self] at h
      cases h
    · rw [Function.update_of_ne hn] at h
      exact Or.inl (purgeNonces_some h)
  | _ => exact Or.inl h

/-- After its nonce transaction a nonce is not in the table. -/
theorem activeNonces_consume (now : DateTime) :
    (commit exec (.consumeNonce nonce now) db).2.activeNonces nonce = none := by
  rw [commit_consumeNonce]
  exact Function.update_self _ _ _

/-- A nonce transaction fetches what the table holds. -/
theorem consumed_row {now : DateTime} {t : String}
    (h : (commit exec (.consumeNonce nonce now) db).1 = .ok (some t)) :
    db.activeNonces nonce = some t := by
  rw [commit_consumeNonce] at h
  exact purgeNonces_some (Except.ok.inj h)

/-- Only the registration of a machine changes its row. -/
theorem enrolledMachines_commit {machineId : String}
    (h : ∀ row, op ≠ .upsertMachine machineId row) :
    (commit exec op db).2.enrolledMachines machineId = db.enrolledMachines machineId := by
  cases op with
  | upsertMachine machineId' row =>
    have hne : machineId ≠ machineId' := by
      rintro rfl
      exact h row rfl
    rw [commit_upsertMachine]
    exact Function.update_of_ne hne _ _
  | insertNonce nonce expiresAt =>
    cases hdup : db.activeNonces nonce with
    | none => rw [commit_insertNonce db expiresAt hdup]
    | some t => simp only [commit, exec, hdup]
  | consumeNonce nonce now => rw [commit_consumeNonce]
  | _ => rfl

end Store

end TpmAttest
