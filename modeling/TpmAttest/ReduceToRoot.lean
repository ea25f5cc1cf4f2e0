import Mathlib.Algebra.Group.Nat.Defs
import Mathlib.Data.List.GetD
import TpmAttest.ImaMerkle
import TpmAttest.PerfectTrees

/-! # `_reduce_to_root` on the caller's list

The loop appends to a list in place.  Here the lists are on a heap, so that the copy
`list(layer)` and the lists of the loop are told apart: the loop writes only to lists
that it made itself (`reduceLoopAt_eq`), and what it leaves is what `reduceToRoot`
returns, the root of a perfect tree over the caller's list.
-/
namespace TpmAttest

open HashLayers

/-- The lists that exist, by their references. -/
abbrev Heap := List (List Digest)

/-- The items of a list. -/
def Heap.items (heap : Heap) (ref : Nat) : List Digest := heap.getD ref []

theorem Heap.lt_of_items {heap : Heap} {ref : Nat} (h : 0 < (heap.items ref).length) :
    ref < heap.length := by
  by_contra hge
  rw [items, List.getD_eq_default _ _ (Nat.not_lt.mp hge)] at h
  exact absurd h (Nat.lt_irrefl 0)

@[simp] theorem Heap.items_append_self (heap : Heap) (l : List Digest) :
    Heap.items (heap ++ [l]) heap.length = l := by
  simp [items]

theorem Heap.items_append {heap : Heap} {ref : Nat} (h : ref < heap.length) (l : List Digest) :
    Heap.items (heap ++ [l]) ref = heap.items ref := List.getD_append _ _ _ _ h

@[simp] theorem Heap.items_set_self {heap : Heap} {ref : Nat} (h : ref < heap.length)
    (l : List Digest) : Heap.items (heap.set ref l) ref = l := by
  simp [items, h]

theorem Heap.items_set_ne {heap : Heap} {ref other : Nat} (h : ref ≠ other) (l : List Digest) :
    Heap.items (heap.set ref l) other = heap.items other := by
  simp [items, List.getElem?_set_ne h]

variable (sha256 : Bytes → Digest)

/-- `current.append(current[-1])`, if `current` is of odd length. -/
def Heap.pad (heap : Heap) (current : Nat) : Heap :=
  heap.set current (padLayer (heap.items current))

/-- The loop of `_reduce_to_root`: the heap, the reference and the depth. -/
def reduceLoopAt (heap : Heap) (current depth : Nat) : Except Exn (Heap × Nat × Nat) :=
  if _hl : 1 < (heap.items current).length then
    match _h : nextLayer sha256 ((heap.pad current).items current) with
    | .ok next => reduceLoopAt (heap.pad current ++ [next]) (heap.pad current).length (depth + 1)
    | .error e => .error e
  else .ok (heap, current, depth)
termination_by (heap.items current).length
decreasing_by
  rw [Heap.pad, Heap.items_set_self (Heap.lt_of_items (by omega))] at _h
  rw [Heap.items_append_self]
  exact length_nextLayer_lt sha256 _hl _h

/-- `_reduce_to_root`: it begins with a copy of the list. -/
def reduceToRootAt (heap : Heap) (layer : Nat) : Except Exn (Heap × Nat × Nat) :=
  reduceLoopAt sha256 (heap ++ [heap.items layer]) heap.length 0

/-- **The loop writes to its own lists**: it computes the reduction, and the other
lists are what they were. -/
theorem reduceLoopAt_eq {heap : Heap} {current : Nat} (hcurrent : current < heap.length)
    (depth : Nat) : ∃ heap' ref,
    reduceLoopAt sha256 heap current depth =
      .ok (heap', ref, depth + (reduce (node sha256) (heap.items current)).2) ∧
    heap'.items ref = (reduce (node sha256) (heap.items current)).1 ∧
    ∀ other < heap.length, other ≠ current → heap'.items other = heap.items other := by
  generalize hl : heap.items current = l
  induction l using layers_induction (node sha256) generalizing heap current depth with
  | last l hlast =>
    subst hl
    rw [reduceLoopAt, dif_neg (Nat.not_lt.mpr hlast), reduce_of_le hlast]
    exact ⟨heap, current, rfl, rfl, fun _ _ _ => rfl⟩
  | layer l hlayer ih =>
    subst hl
    have hpad : (heap.pad current).items current = padLayer (heap.items current) :=
      Heap.items_set_self hcurrent _
    have hlength : (heap.pad current).length = heap.length := List.length_set
    have hnew : (heap.pad current).length <
        (heap.pad current ++ [pairUp (node sha256) (heap.items current)]).length := by simp
    obtain ⟨heap', ref, hloop, hitems, hothers⟩ :=
      ih hnew (depth + 1) (Heap.items_append_self _ _)
    refine ⟨heap', ref, ?_, ?_, ?_⟩
    · rw [reduceLoopAt, dif_pos hlayer, reduce_of_lt hlayer]
      split
      · rename_i next hnext
        rw [hpad, nextLayer_padLayer] at hnext
        obtain rfl := Except.ok.inj hnext
        rw [hloop, Nat.add_right_comm, Nat.add_assoc]
      · rename_i e he
        rw [hpad, nextLayer_padLayer] at he
        cases he
    · rw [hitems, reduce_of_lt hlayer]
    · intro other hother hne
      rw [hothers other (by simp; omega) (by omega), Heap.items_append (by omega), Heap.pad,
        Heap.items_set_ne hne.symm]

/-- What it leaves on the heap is what `reduceToRoot` returns. -/
theorem reduceToRootAt_eq (heap : Heap) (layer : Nat) : ∃ heap' ref depth,
    reduceToRootAt sha256 heap layer = .ok (heap', ref, depth) ∧
    reduceToRoot sha256 (heap.items layer) = .ok (heap'.items ref, depth) ∧
    ∀ other < heap.length, heap'.items other = heap.items other := by
  have hcopy : heap.length < (heap ++ [heap.items layer]).length := by simp
  obtain ⟨heap', ref, hloop, hitems, hothers⟩ := reduceLoopAt_eq sha256 hcopy 0
  rw [Heap.items_append_self] at hloop hitems
  refine ⟨heap', ref, _, hloop, ?_, ?_⟩
  · rw [reduceToRoot, reduceLoop_eq, hitems]
  · intro other hother
    rw [hothers other (by simp; omega) (Nat.ne_of_lt hother), Heap.items_append hother]

/-- **`_reduce_to_root`** returns for every list and leaves every list of the caller
as it was.  From one node on it returns one node and the least depth of a perfect tree
that has a place for all of them; the node is the root of the tree over the list in
which each layer is extended on the right to an even length.  No item access is out of
range: that would be an error. -/
theorem reduceToRootAt_perfect (heap : Heap) (layer : Nat) : ∃ heap' ref depth,
    reduceToRootAt sha256 heap layer = .ok (heap', ref, depth) ∧
    reduceToRoot sha256 (heap.items layer) = .ok (heap'.items ref, depth) ∧
    (∀ other < heap.length, heap'.items other = heap.items other) ∧
    (heap.items layer ≠ [] →
      ((heap.items layer).length ≤ 2 ^ depth ∧
        ∀ d, (heap.items layer).length ≤ 2 ^ d → depth ≤ d) ∧
      ∃ t, treeLayer (heap.items layer) depth = [t] ∧ t.Perfect depth ∧
        heap'.items ref = [t.root (node sha256)] ∧
        heap.items layer <+: t.leaves ∧ t.leaves.length = 2 ^ depth) := by
  obtain ⟨heap', ref, depth, hrun, hroot, hothers⟩ := reduceToRootAt_eq sha256 heap layer
  refine ⟨heap', ref, depth, hrun, hroot, hothers, fun hne => ?_⟩
  have hreduce := hroot
  rw [reduceToRoot, reduceLoop_eq, Nat.zero_add] at hreduce
  obtain ⟨hitems, hdepth⟩ := Prod.mk.inj (Except.ok.inj hreduce)
  have htree : ∃ t, treeLayer (heap.items layer) (reduce (node sha256) (heap.items layer)).2 = [t] ∧
      (reduce (node sha256) (heap.items layer)).1 = [t.root (node sha256)] := reduce_eq_root hne
  obtain ⟨t, htrees, htroot⟩ := htree
  rw [← hdepth, ← hitems]
  have hperfect : t.Perfect (reduce (node sha256) (heap.items layer)).2 :=
    perfect_of_mem_treeLayer (htrees ▸ List.mem_singleton_self t)
  have hleaves := prefix_leaves_treeLayer (heap.items layer)
    (reduce (node sha256) (heap.items layer)).2
  rw [htrees, List.flatMap_singleton] at hleaves
  exact ⟨⟨length_le_two_pow _, fun d hd => depth_le hd⟩, t, htrees, hperfect, htroot, hleaves,
    hperfect.length_leaves⟩

/-- The caller's list has three nodes, so the last one is hashed with its copy. -/
theorem reduceToRootAt_perfect_three :
    ∃ heap' ref depth,
      reduceToRootAt TpmAttest.sha256
        [leaves TpmAttest.sha256 [bootAggregate, bootAggregate, bootAggregate]] 0 =
          .ok (heap', ref, depth) ∧
      (3 ≤ 2 ^ depth ∧ ∀ d, 3 ≤ 2 ^ d → depth ≤ d) ∧
      ∃ t : HashTree Digest, t.Perfect depth ∧ heap'.items ref = [t.root (node TpmAttest.sha256)] := by
  obtain ⟨heap', ref, depth, hrun, -, -, hperfect⟩ := reduceToRootAt_perfect TpmAttest.sha256
    [leaves TpmAttest.sha256 [bootAggregate, bootAggregate, bootAggregate]] 0
  obtain ⟨hdepth, t, -, ht, hroot, -⟩ := hperfect (leaves_ne_nil _ (List.cons_ne_nil _ _))
  exact ⟨heap', ref, depth, hrun, hdepth, t, ht, hroot⟩

end TpmAttest
