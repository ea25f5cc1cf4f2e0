import TpmAttest.Database
import Mathlib.Data.List.Nodup

/-! # The table of baselines

The effective baseline is the newest active row.  Only the newest row of a root is
ever activated (`Settled`), and the flags are all that changes in a row
(`contents`).

`Within` compares a table with another one that has the same rows: it may have
fewer active rows, but none that is not the other's effective baseline.
-/
namespace TpmAttest

open Transactional

/-- The row, active. -/
def Baseline.activated (r : Baseline) : Baseline := { r with isActive := true }

theorem Baseline.activated_of_isActive {r : Baseline} (h : r.isActive = true) :
    r.activated = r := by
  unfold activated
  rw [← h]

namespace BaselineTable

/-- The newest row with a root, active or not. -/
def newest (t : BaselineTable) (root : String) : Option Baseline :=
  (t.rows.filter (·.imaRoot = root)).getLast?

/-- The number of active rows. -/
def activeCount (t : BaselineTable) : Nat := t.rows.countP (·.isActive)

/-- The rows, whatever their flags. -/
def contents (t : BaselineTable) : List Baseline := t.rows.map Baseline.activated

/-- Every active row is the newest of its root, and no root is empty. -/
structure Settled (t : BaselineTable) : Prop where
  newest_of_active : ∀ r ∈ t.rows, r.isActive = true → t.newest r.imaRoot = some r
  root_ne : ∀ r ∈ t.rows, r.imaRoot ≠ ""

variable {t u : BaselineTable} {root : String}

theorem maxId_eq (t : BaselineTable) (root : String) :
    t.maxId root = (t.newest root).map (·.id) := rfl

theorem mem_of_newest {r : Baseline} (h : t.newest root = some r) :
    r ∈ t.rows ∧ r.imaRoot = root := by
  have hmem := List.mem_of_getLast? h
  simpa using List.mem_filter.mp hmem

theorem mem_of_active {r : Baseline} (h : t.active = some r) :
    r ∈ t.rows ∧ r.isActive = true := by
  have hmem := List.mem_of_getLast? h
  simpa using List.mem_filter.mp hmem

theorem active_eq_none : t.active = none ↔ ∀ r ∈ t.rows, r.isActive = false := by
  rw [active, List.getLast?_eq_none_iff, List.filter_eq_nil_iff]
  simp

/-- A row is determined by its id. -/
theorem eq_of_id_eq {r s : Baseline} (hr : r ∈ t.rows) (hs : s ∈ t.rows) (h : r.id = s.id) :
    r = s := by
  have hnodup : (t.rows.map (·.id)).Nodup := by
    rw [List.Nodup, List.pairwise_map]
    exact t.sorted.imp fun hlt heq => Nat.ne_of_lt hlt heq
  exact List.inj_on_of_nodup_map hnodup hr hs h

/-- The rows that a restoration activates. -/
theorem restored_iff {r : Baseline} (hr : r ∈ t.rows) :
    (r.imaRoot = root ∧ t.maxId root = some r.id) ↔ t.newest root = some r := by
  rw [maxId_eq, Option.map_eq_some_iff]
  constructor
  · rintro ⟨-, s, hs, hid⟩
    rw [hs, eq_of_id_eq (mem_of_newest hs).1 hr hid]
  · intro h
    exact ⟨(mem_of_newest h).2, r, h, rfl⟩

/-! ## Flags and contents -/

theorem contents_setActive (f : Baseline → Bool) : (t.setActive f).contents = t.contents := by
  unfold contents setActive
  rw [List.map_map]
  rfl

/-- Changing flags does not change which row is the newest of a root. -/
theorem newest_setActive (f : Baseline → Bool) (root : String) :
    (t.setActive f).newest root = (t.newest root).map fun r => { r with isActive := f r } := by
  unfold newest setActive
  rw [List.filter_map, List.getLast?_map]
  rfl

theorem newest_activated (t : BaselineTable) (root : String) :
    (t.newest root).map Baseline.activated =
      (t.contents.filter (·.imaRoot = root)).getLast? := by
  unfold newest contents
  rw [List.filter_map, List.getLast?_map]
  rfl

theorem nextId_eq (t : BaselineTable) :
    t.nextId = (t.contents.getLast?.elim 0 (·.id)) + 1 := by
  unfold nextId contents
  rw [List.getLast?_map, Option.elim_map]
  rfl

theorem root_ne_setActive (f : Baseline → Bool) (h : ∀ r ∈ t.rows, r.imaRoot ≠ "") :
    ∀ r ∈ (t.setActive f).rows, r.imaRoot ≠ "" := by
  intro r hr
  obtain ⟨s, hs, rfl⟩ := List.mem_map.mp hr
  exact h s hs

/-! ## Clearing, restoring and pinning keep a table settled -/

theorem isActive_deactivateAll : ∀ r ∈ t.deactivateAll.rows, r.isActive = false := by
  intro r hr
  obtain ⟨s, -, rfl⟩ := List.mem_map.mp hr
  rfl

theorem settled_deactivateAll (h : t.Settled) : t.deactivateAll.Settled where
  newest_of_active r hr hact := by
    rw [isActive_deactivateAll r hr] at hact
    cases hact
  root_ne := root_ne_setActive _ h.root_ne

theorem settled_restore (h : t.Settled) (root : String) : (t.restore root).Settled where
  newest_of_active r hr hact := by
    obtain ⟨s, hs, rfl⟩ := List.mem_map.mp hr
    simp only [Bool.or_eq_true, decide_eq_true_eq, restored_iff hs] at hact
    have hnew : t.newest s.imaRoot = some s := by
      rcases hact with hact | hact
      · exact h.newest_of_active s hs hact
      · rw [(mem_of_newest hact).2, hact]
    rw [restore, newest_setActive]
    exact congrArg (Option.map _) hnew
  root_ne := root_ne_setActive _ h.root_ne

/-- `_pin_baseline`: all rows are deactivated and an active one is inserted. -/
def pin (t : BaselineTable) (root : String) (pcrs : Dict) (createdAt : String) : BaselineTable :=
  t.deactivateAll.insert root pcrs createdAt

section Pin
variable (root : String) (pcrs : Dict) (createdAt : String)

/-- The row that is inserted. -/
def pinnedRow (t : BaselineTable) : Baseline :=
  ⟨t.deactivateAll.nextId, root, pcrs, createdAt, true⟩

theorem eq_pinnedRow {r : Baseline} (hr : r ∈ (t.pin root pcrs createdAt).rows)
    (hact : r.isActive = true) : r = t.pinnedRow root pcrs createdAt := by
  rcases List.mem_append.mp hr with hr | hr
  · rw [isActive_deactivateAll r hr] at hact
    cases hact
  · exact List.mem_singleton.mp hr

theorem active_pin (t : BaselineTable) :
    (t.pin root pcrs createdAt).active = some (t.pinnedRow root pcrs createdAt) := by
  unfold active pin insert
  rw [List.filter_append]
  simp [pinnedRow]

theorem settled_pin (h : t.Settled) (hroot : root ≠ "") : (t.pin root pcrs createdAt).Settled where
  newest_of_active r hr hact := by
    obtain rfl := eq_pinnedRow root pcrs createdAt hr hact
    unfold newest pin insert
    rw [List.filter_append]
    simp [pinnedRow]
  root_ne r hr := by
    rcases List.mem_append.mp hr with hr | hr
    · exact (settled_deactivateAll h).root_ne r hr
    · obtain rfl := List.mem_singleton.mp hr
      exact hroot

theorem nextId_deactivateAll (t : BaselineTable) : t.deactivateAll.nextId = t.nextId := by
  rw [nextId_eq, nextId_eq, deactivateAll, contents_setActive]

theorem pinnedRow_congr (h : t.contents = u.contents) :
    t.pinnedRow root pcrs createdAt = u.pinnedRow root pcrs createdAt := by
  unfold pinnedRow deactivateAll
  rw [nextId_eq, nextId_eq, contents_setActive, contents_setActive, h]

theorem contents_pin (t : BaselineTable) :
    (t.pin root pcrs createdAt).contents = t.contents ++ [t.pinnedRow root pcrs createdAt] := by
  rw [← contents_setActive (t := t) fun _ => false]
  exact List.map_append

theorem nextId_pin (t : BaselineTable) : (t.pin root pcrs createdAt).nextId = t.nextId + 1 := by
  rw [nextId_eq, contents_pin, List.getLast?_concat]
  exact congrArg Nat.succ (nextId_deactivateAll t)

/-- The inserted row has the largest id. -/
theorem id_le_pinnedRow {r : Baseline} (hr : r ∈ (t.pin root pcrs createdAt).rows) :
    r.id ≤ (t.pinnedRow root pcrs createdAt).id := by
  rcases List.mem_append.mp hr with hr | hr
  · exact Nat.le_of_lt (t.deactivateAll.lt_nextId r hr)
  · exact Nat.le_of_eq (congrArg Baseline.id (List.mem_singleton.mp hr))

theorem eq_of_rows (h : t.rows = u.rows) : t = u := by
  cases t
  cases u
  cases h
  rfl

theorem deactivateAll_deactivateAll (t : BaselineTable) :
    t.deactivateAll.deactivateAll = t.deactivateAll := by
  refine eq_of_rows ?_
  change (t.rows.map _).map _ = t.rows.map _
  rw [List.map_map]
  rfl

theorem pin_deactivateAll (t : BaselineTable) :
    t.deactivateAll.pin root pcrs createdAt = t.pin root pcrs createdAt := by
  rw [pin, pin, deactivateAll_deactivateAll]

/-- **Clearing what was pinned last, and restoring its root, changes nothing.** -/
theorem restore_deactivateAll_pin (t : BaselineTable) :
    (t.pin root pcrs createdAt).deactivateAll.restore root = t.pin root pcrs createdAt := by
  generalize hu : t.pin root pcrs createdAt = u
  have hmax : u.deactivateAll.maxId root = some (t.pinnedRow root pcrs createdAt).id := by
    rw [maxId_eq, deactivateAll, newest_setActive, Option.map_map]
    subst hu
    simp [newest, pin, insert, pinnedRow]
  refine eq_of_rows ?_
  change (u.rows.map _).map _ = u.rows
  rw [List.map_map]
  refine List.map_congr_left (g := id) (fun r hr => ?_) |>.trans (List.map_id _)
  -- the row is the inserted one, or an older one
  change Baseline.mk r.id r.imaRoot r.pcrJson r.createdAt
    (false || decide (r.imaRoot = root ∧ u.deactivateAll.maxId root = some r.id)) = r
  subst hu
  rw [hmax, Bool.false_or]
  rcases List.mem_append.mp hr with hr | hr
  · have hlt := t.deactivateAll.lt_nextId r hr
    have hne : t.deactivateAll.nextId ≠ r.id := Nat.ne_of_gt hlt
    have hact := isActive_deactivateAll r hr
    simp [pinnedRow, hne, ← hact]
  · obtain rfl := List.mem_singleton.mp hr
    simp [pinnedRow]

end Pin

/-! ## One table within another -/

/-- The table has the rows of `u`, and none is active that is not the effective
baseline of `u`. -/
structure Within (t u : BaselineTable) : Prop where
  contents_eq : t.contents = u.contents
  active_of_isActive : ∀ r ∈ t.rows, r.isActive = true → u.active = some r

namespace Within

theorem active_eq (h : t.Within u) (hsome : t.active ≠ none) : t.active = u.active := by
  obtain ⟨r, hr⟩ := Option.ne_none_iff_exists'.mp hsome
  obtain ⟨hmem, hact⟩ := mem_of_active hr
  rw [hr, h.active_of_isActive r hmem hact]

/-- At most one row is active. -/
theorem activeCount_le_one (h : t.Within u) : t.activeCount ≤ 1 := by
  have heq : ∀ r ∈ t.rows.filter (·.isActive), u.active = some r := by
    intro r hr
    rw [List.mem_filter] at hr
    exact h.active_of_isActive r hr.1 hr.2
  have hsorted := t.sorted.filter (·.isActive)
  rw [activeCount, List.countP_eq_length_filter]
  generalize t.rows.filter (·.isActive) = l at heq hsorted
  match l with
  | [] => simp
  | [_] => simp
  | a :: b :: l =>
    -- two rows of the list would be the same one
    have hab : a = b := Option.some.inj ((heq a (by simp)).symm.trans (heq b (by simp)))
    have hlt := List.rel_of_pairwise_cons hsorted (List.mem_cons_self (a := b) (l := l))
    rw [hab] at hlt
    exact absurd hlt (Nat.lt_irrefl _)

theorem deactivateAll (h : t.contents = u.contents) : t.deactivateAll.Within u where
  contents_eq := (contents_setActive _).trans h
  active_of_isActive r hr hact := by
    rw [isActive_deactivateAll r hr] at hact
    cases hact

theorem pin (h : t.contents = u.contents) (root : String) (pcrs : Dict) (createdAt : String) :
    (t.pin root pcrs createdAt).Within (u.pin root pcrs createdAt) where
  contents_eq := by rw [contents_pin, contents_pin, h, pinnedRow_congr root pcrs createdAt h]
  active_of_isActive r hr hact := by
    rw [active_pin, eq_pinnedRow root pcrs createdAt hr hact, pinnedRow_congr root pcrs createdAt h]

section Restore
variable (h : t.Within u) (hset : u.Settled) {s : Baseline} (hs : u.active = some s)
include h hset hs

/-- The newest row with the root of the effective baseline is that baseline. -/
theorem newest_eq : (t.newest s.imaRoot).map Baseline.activated = some s := by
  obtain ⟨hmem, hact⟩ := mem_of_active hs
  rw [newest_activated, h.contents_eq, ← newest_activated, hset.newest_of_active s hmem hact]
  exact congrArg some (Baseline.activated_of_isActive hact)

/-- Restoring the root of the effective baseline activates no other row. -/
theorem restore : (t.restore s.imaRoot).Within u where
  contents_eq := (contents_setActive _).trans h.contents_eq
  active_of_isActive r hr hact := by
    obtain ⟨q, hq, rfl⟩ := List.mem_map.mp hr
    simp only [Bool.or_eq_true, decide_eq_true_eq, restored_iff hq] at hact
    -- the row was active before, or it is the newest of the root
    have hqs : q.activated = s := by
      rcases hact with hact | hact
      · rw [Baseline.activated_of_isActive hact]
        exact Option.some.inj ((h.active_of_isActive q hq hact).symm.trans hs)
      · have hnew := h.newest_eq hset hs
        rw [hact] at hnew
        exact Option.some.inj hnew
    have hflag : (q.isActive || decide (q.imaRoot = s.imaRoot ∧ t.maxId s.imaRoot = some q.id)) =
        true := by
      simpa [restored_iff hq] using hact
    calc u.active = some q.activated := hs.trans (congrArg some hqs.symm)
      _ = some _ := congrArg (some ∘ Baseline.mk q.id q.imaRoot q.pcrJson q.createdAt) hflag.symm

/-- **Restoring the root of the effective baseline makes it effective.** -/
theorem active_restore : (t.restore s.imaRoot).active = some s := by
  rw [← hs]
  refine (h.restore hset hs).active_eq fun hnone => ?_
  obtain ⟨r, hr, -⟩ := Option.map_eq_some_iff.mp (h.newest_eq hset hs)
  have hmem := (mem_of_newest hr).1
  have hflag := active_eq_none.mp hnone _ (List.mem_map_of_mem hmem)
  have hrestored : decide (r.imaRoot = s.imaRoot ∧ t.maxId s.imaRoot = some r.id) = true :=
    decide_eq_true ((restored_iff hmem).mpr hr)
  dsimp only at hflag
  rw [hrestored, Bool.or_true] at hflag
  cases hflag

end Restore
end Within
end BaselineTable

/-! ## The transactions and the table of baselines -/

/-- What a transaction does to the table of baselines. -/
def Tx.onBaselines : Tx → BaselineTable → BaselineTable
  | .deactivateAll, t => t.deactivateAll
  | .restoreBaseline root, t => t.restore root
  | .pinBaseline root pcrs now, t => t.pin root pcrs now.isoformat
  | _, t => t

theorem baselines_commit (op : Tx) (db : Database) :
    (Program.commit exec op db).2.baselines = op.onBaselines db.baselines := by
  cases op with
  | insertNonce nonce expiresAt =>
    cases hdup : db.activeNonces nonce with
    | none => rw [commit_insertNonce db expiresAt hdup]; rfl
    | some t => simp only [Program.commit, exec, hdup]; rfl
  | consumeNonce nonce now =>
    rw [commit_consumeNonce]
    rfl
  | _ => rfl

end TpmAttest
