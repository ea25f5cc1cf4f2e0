import Mathlib.Algebra.Group.Nat.Defs
import Mathlib.Logic.Function.Iterate
import TpmAttest.HashLayers

/-! # The perfect tree of a reduction

A reduction that copies the last node of an odd layer builds a perfect tree: the node
that is copied stands for its whole subtree.  `treeLayer` has the trees of a layer,
each layer extended on the right to an even length and paired.  The reduction ends at
the root of the only tree of the last layer (`reduce_eq_root`), and there are as many
layers as it takes to have a place for every node (`length_le_two_pow`, `depth_le`).
-/
namespace HashLayers

variable {α β : Type}

/-! ## Trees -/

inductive HashTree (α : Type) where
  | leaf (a : α)
  | node (l r : HashTree α)

namespace HashTree

/-- The node at the root. -/
def root (combine : α → α → α) : HashTree α → α
  | leaf a => a
  | node l r => combine (l.root combine) (r.root combine)

def leaves : HashTree α → List α
  | leaf a => [a]
  | node l r => l.leaves ++ r.leaves

/-- All leaves are at this depth. -/
def Perfect : Nat → HashTree α → Prop
  | 0, leaf _ => True
  | d + 1, node l r => l.Perfect d ∧ r.Perfect d
  | _, _ => False

theorem Perfect.length_leaves {d : Nat} {t : HashTree α} (h : t.Perfect d) :
    t.leaves.length = 2 ^ d := by
  induction d generalizing t with
  | zero =>
    cases t with
    | leaf a => rfl
    | node l r => exact h.elim
  | succ d ih =>
    cases t with
    | leaf a => exact h.elim
    | node l r =>
      rw [leaves, List.length_append, ih h.1, ih h.2, Nat.pow_succ]
      omega

end HashTree

/-! ## Layers of trees -/

/-- A layer of odd length with its last item once more. -/
def extendRight (l : List β) : List β :=
  if l.length % 2 = 1 then l ++ l.getLast?.toList else l

/-- Items two by two. -/
def neighbours : List β → List (β × β)
  | a :: b :: l => (a, b) :: neighbours l
  | _ => []

/-- The trees of a layer. -/
def treeLayer (l : List α) : Nat → List (HashTree α)
  | 0 => l.map .leaf
  | k + 1 => (neighbours (extendRight (treeLayer l k))).map fun p => .node p.1 p.2

theorem extendRight_cons_cons (a b : β) (l : List β) :
    extendRight (a :: b :: l) = a :: b :: extendRight l := by
  have hparity : (a :: b :: l).length % 2 = l.length % 2 := Nat.add_mod_right l.length 2
  unfold extendRight
  rw [hparity]
  by_cases hodd : l.length % 2 = 1
  · cases l with
    | nil => exact absurd hodd Nat.zero_ne_one
    | cons c l =>
      rw [if_pos hodd, if_pos hodd, List.getLast?_cons_cons, List.getLast?_cons_cons]
      rfl
  · rw [if_neg hodd, if_neg hodd]

/-- These are the pairs that are hashed. -/
theorem neighbours_extendRight : ∀ l : List β, neighbours (extendRight l) = layerPairs l
  | a :: b :: l => by rw [extendRight_cons_cons, neighbours, neighbours_extendRight l, layerPairs]
  | [_] => rfl
  | [] => rfl

theorem layerPairs_map (f : β → α) : ∀ l : List β,
    layerPairs (l.map f) = (layerPairs l).map fun p => (f p.1, f p.2)
  | a :: b :: l => by
    rw [List.map_cons, List.map_cons, layerPairs, layerPairs_map f l]
    rfl
  | [_] => rfl
  | [] => rfl

theorem perfect_of_mem_treeLayer {l : List α} {k : Nat} {t : HashTree α} (h : t ∈ treeLayer l k) :
    t.Perfect k := by
  induction k generalizing t with
  | zero =>
    obtain ⟨a, -, rfl⟩ := List.mem_map.mp h
    trivial
  | succ k ih =>
    rw [treeLayer, neighbours_extendRight] at h
    obtain ⟨p, hp, rfl⟩ := List.mem_map.mp h
    obtain ⟨hl, hr⟩ := mem_of_mem_layerPairs hp
    exact ⟨ih hl, ih hr⟩

/-- The leaves of the pairs begin with those of the layer. -/
theorem prefix_flatMap_layerPairs (f : β → List α) : ∀ l : List β,
    l.flatMap f <+: (layerPairs l).flatMap fun p => f p.1 ++ f p.2
  | a :: b :: l => by
    rw [layerPairs, List.flatMap_cons, List.flatMap_cons, List.flatMap_cons, List.append_assoc]
    exact (List.prefix_append_right_inj _).mpr ((List.prefix_append_right_inj _).mpr
      (prefix_flatMap_layerPairs f l))
  | [a] => by simp [layerPairs]
  | [] => List.prefix_rfl

/-- The leaves of a layer's trees are the list, extended on the right. -/
theorem prefix_leaves_treeLayer (l : List α) (k : Nat) :
    l <+: (treeLayer l k).flatMap HashTree.leaves := by
  induction k with
  | zero =>
    rw [treeLayer, List.flatMap_map]
    exact (List.flatMap_singleton' l).symm ▸ List.prefix_rfl
  | succ k ih =>
    rw [treeLayer, neighbours_extendRight, List.flatMap_map]
    exact ih.trans (prefix_flatMap_layerPairs HashTree.leaves _)

/-! ## The reduction -/

variable {node : α → α → α}

/-- The roots of a layer's trees are the nodes of the layer. -/
theorem map_root_treeLayer (node : α → α → α) (l : List α) (k : Nat) :
    (treeLayer l k).map (HashTree.root node) = (pairUp node)^[k] l := by
  induction k with
  | zero =>
    rw [treeLayer, List.map_map]
    exact List.map_id l
  | succ k ih =>
    rw [Function.iterate_succ_apply', ← ih, treeLayer, neighbours_extendRight, pairUp,
      layerPairs_map, List.map_map, List.map_map]
    rfl

/-- A reduction ends in the layer at its depth. -/
theorem reduce_eq_iterate (l : List α) :
    (reduce node l).1 = (pairUp node)^[(reduce node l).2] l := by
  induction l using layers_induction node with
  | last l hl =>
    rw [reduce_of_le hl]
    rfl
  | layer l hl ih =>
    rw [reduce_of_lt hl]
    exact ih

/-- **The root of a reduction** is that of the tree that is built. -/
theorem reduce_eq_root {l : List α} (h : l ≠ []) : ∃ t, treeLayer l (reduce node l).2 = [t] ∧
    (reduce node l).1 = [t.root node] := by
  have hone : ∃ r, (reduce node l).1 = [r] := reduce_singleton h
  obtain ⟨r, hr⟩ := hone
  have hroots := map_root_treeLayer node l (reduce node l).2
  rw [← reduce_eq_iterate, hr] at hroots
  obtain ⟨t, htrees, htroot⟩ := List.map_eq_singleton_iff.mp hroots
  exact ⟨t, htrees, by rw [hr, htroot]⟩

/-- There is a place for every node. -/
theorem length_le_two_pow (l : List α) : l.length ≤ 2 ^ (reduce node l).2 := by
  induction l using layers_induction node with
  | last l hl =>
    rw [reduce_of_le hl]
    exact hl
  | layer l hl ih =>
    rw [length_pairUp] at ih
    rw [reduce_of_lt hl, Nat.pow_succ]
    omega

/-- A smaller tree would not do. -/
theorem depth_le {l : List α} {d : Nat} (h : l.length ≤ 2 ^ d) : (reduce node l).2 ≤ d := by
  induction l using layers_induction node generalizing d with
  | last l hl =>
    rw [reduce_of_le hl]
    exact Nat.zero_le d
  | layer l hl ih =>
    cases d with
    | zero => omega
    | succ d =>
      rw [Nat.pow_succ] at h
      rw [reduce_of_lt hl]
      refine Nat.succ_le_succ (ih ?_)
      rw [length_pairUp]
      omega

end HashLayers
