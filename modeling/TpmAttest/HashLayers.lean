import Mathlib.Data.List.Basic
import Mathlib.Data.List.Infix

/-! # Pairwise hashed layers

A list of nodes is reduced to one by hashing neighbours, layer by layer; the last
node of an odd layer is hashed with itself.  This file knows nothing of what a
node is: `node` combines two nodes into one, and a **collision** is two distinct
pairs, both hashed, that combine to the same node.

Three facts carry every use of such a tree, each up to a collision:

* two reductions of the same depth and root start from lists one of which is a
  prefix of the other and has all its nodes (`prefix_of_root_eq`);
* in two reductions of different depths and the same root, a bottom node of the
  shallower one is an inner node of the deeper one (`bottom_eq_inner`);
* a fold of siblings that arrives at the root starts from a bottom node
  (`mem_of_fold_eq_root`).

The collision is always exhibited, among the pairs that were hashed: for a
function into a finite type, that some collision exists says nothing.
-/
namespace HashLayers

variable {α : Type}

/-! ## Layers -/

/-- The pairs hashed in one layer: neighbours, and the last node of an odd layer
with itself. -/
def layerPairs : List α → List (α × α)
  | a :: b :: l => (a, b) :: layerPairs l
  | [a] => [(a, a)]
  | [] => []

theorem length_layerPairs : ∀ l : List α, (layerPairs l).length = (l.length + 1) / 2
  | a :: b :: l => by simp only [layerPairs, List.length_cons, length_layerPairs l]; omega
  | [_] => by simp [layerPairs]
  | [] => by simp [layerPairs]

/-- The `j`-th pair of a layer is its nodes `2j` and `2j + 1`. -/
theorem getElem?_layerPairs : ∀ (l : List α) (j : Nat),
    (layerPairs l)[j]? = l[2 * j]?.map fun a => (a, l[2 * j + 1]?.getD a)
  | a :: b :: l, 0 => rfl
  | a :: b :: l, j + 1 => by
    rw [layerPairs, List.getElem?_cons_succ, getElem?_layerPairs l j]
    rfl
  | [a], 0 => rfl
  | [a], j + 1 => rfl
  | [], j => by simp [layerPairs]

theorem mem_of_mem_layerPairs : ∀ {l : List α} {p : α × α}, p ∈ layerPairs l → p.1 ∈ l ∧ p.2 ∈ l
  | a :: b :: l, p, h => by
    rcases List.mem_cons.mp h with rfl | h
    · simp
    · obtain ⟨h1, h2⟩ := mem_of_mem_layerPairs h
      exact ⟨by simp [h1], by simp [h2]⟩
  | [a], p, h => by
    obtain rfl := List.mem_singleton.mp h
    simp

/-- Every node of a layer is in one of its pairs. -/
theorem exists_layerPair : ∀ {l : List α} {x : α}, x ∈ l →
    ∃ p ∈ layerPairs l, x = p.1 ∨ x = p.2
  | a :: b :: l, x, h => by
    rcases List.mem_cons.mp h with rfl | h
    · exact ⟨_, List.mem_cons_self, Or.inl rfl⟩
    rcases List.mem_cons.mp h with rfl | h
    · exact ⟨_, List.mem_cons_self, Or.inr rfl⟩
    · obtain ⟨p, hp, hx⟩ := exists_layerPair h
      exact ⟨p, List.mem_cons_of_mem _ hp, hx⟩
  | [a], x, h => by
    obtain rfl := List.mem_singleton.mp h
    exact ⟨_, List.mem_cons_self, Or.inl rfl⟩

variable (node : α → α → α)

/-- The layer above. -/
def pairUp (l : List α) : List α := (layerPairs l).map fun p => node p.1 p.2

theorem length_pairUp (l : List α) : (pairUp node l).length = (l.length + 1) / 2 := by
  rw [pairUp, List.length_map, length_layerPairs]

theorem length_pairUp_lt {l : List α} (h : 1 < l.length) : (pairUp node l).length < l.length := by
  rw [length_pairUp]
  omega

/-- The last layer, of at most one node, and the number of layers above the
first. -/
def reduce (l : List α) : List α × Nat :=
  if 1 < l.length then ((reduce (pairUp node l)).1, (reduce (pairUp node l)).2 + 1) else (l, 0)
termination_by l.length
decreasing_by all_goals exact length_pairUp_lt node ‹_›

/-- All pairs hashed in a reduction. -/
def allPairs (l : List α) : List (α × α) :=
  if 1 < l.length then layerPairs l ++ allPairs (pairUp node l) else []
termination_by l.length
decreasing_by exact length_pairUp_lt node ‹_›

/-- All nodes of a reduction, layer by layer. -/
def nodes (l : List α) : List α :=
  if 1 < l.length then l ++ nodes (pairUp node l) else l
termination_by l.length
decreasing_by exact length_pairUp_lt node ‹_›

/-- Two distinct pairs, one hashed in each of two computations, with one node. -/
def Collision (S T : List (α × α)) : Prop :=
  ∃ p ∈ S, ∃ q ∈ T, p ≠ q ∧ node p.1 p.2 = node q.1 q.2

variable {node}

theorem reduce_of_le {l : List α} (h : l.length ≤ 1) : reduce node l = (l, 0) := by
  rw [reduce, if_neg (Nat.not_lt.mpr h)]

theorem reduce_of_lt {l : List α} (h : 1 < l.length) :
    reduce node l = ((reduce node (pairUp node l)).1, (reduce node (pairUp node l)).2 + 1) := by
  rw [reduce, if_pos h]

theorem allPairs_of_lt {l : List α} (h : 1 < l.length) :
    allPairs node l = layerPairs l ++ allPairs node (pairUp node l) := by
  rw [allPairs, if_pos h]

theorem nodes_of_lt {l : List α} (h : 1 < l.length) :
    nodes node l = l ++ nodes node (pairUp node l) := by
  rw [nodes, if_pos h]

/-- The depth is positive exactly when something is hashed. -/
theorem depth_pos {l : List α} : 0 < (reduce node l).2 ↔ 1 < l.length := by
  by_cases h : 1 < l.length
  · rw [reduce_of_lt h]
    simp [h]
  · rw [reduce_of_le (Nat.not_lt.mp h)]
    simp [h]

theorem Collision.mono {S S' T T' : List (α × α)} (h : Collision node S T) (hS : S ⊆ S')
    (hT : T ⊆ T') : Collision node S' T' := by
  obtain ⟨p, hp, q, hq, hpq⟩ := h
  exact ⟨p, hS hp, q, hT hq, hpq⟩

/-- Without a collision, pairs with the same node are the same. -/
theorem eq_of_not_collision {S T : List (α × α)} (h : ¬ Collision node S T) {p q : α × α}
    (hp : p ∈ S) (hq : q ∈ T) (he : node p.1 p.2 = node q.1 q.2) : p = q :=
  Classical.byContradiction fun hne => h ⟨p, hp, q, hq, hne, he⟩

theorem layerPairs_subset {l : List α} (h : 1 < l.length) : layerPairs l ⊆ allPairs node l := by
  rw [allPairs_of_lt h]
  exact List.subset_append_left _ _

theorem allPairs_pairUp_subset {l : List α} (h : 1 < l.length) :
    allPairs node (pairUp node l) ⊆ allPairs node l := by
  rw [allPairs_of_lt h]
  exact List.subset_append_right _ _

theorem exists_of_mem_pairUp {l : List α} {x : α} (h : x ∈ pairUp node l) :
    ∃ p ∈ layerPairs l, node p.1 p.2 = x := List.mem_map.mp h

/-- Induction on the layers of a reduction, from the last one down. -/
@[elab_as_elim]
theorem layers_induction (node : α → α → α) {motive : List α → Prop} (l : List α)
    (last : ∀ l, l.length ≤ 1 → motive l)
    (layer : ∀ l, 1 < l.length → motive (pairUp node l) → motive l) : motive l := by
  fun_induction reduce node l with
  | case1 l hl ih => exact layer l hl ih
  | case2 l hl => exact last l (Nat.not_lt.mp hl)

theorem pairUp_ne_nil {l : List α} (h : 1 < l.length) : pairUp node l ≠ [] := by
  intro hnil
  have := length_pairUp node l
  rw [hnil, List.length_nil] at this
  omega

/-- A reduction of a nonempty list ends in one node. -/
theorem reduce_singleton {l : List α} (h : l ≠ []) : ∃ r, (reduce node l).1 = [r] := by
  induction l using layers_induction node with
  | last l hl =>
    rw [reduce_of_le hl]
    have hpos := List.length_pos_iff.mpr h
    have hone : l.length = 1 := by omega
    exact List.length_eq_one_iff.mp hone
  | layer l hl ih =>
    rw [reduce_of_lt hl]
    exact ih (pairUp_ne_nil hl)

/-- The root of a reduction that hashes something is the node of a hashed pair. -/
theorem root_eq_node {l : List α} (h : 1 < l.length) :
    ∃ q ∈ allPairs node l, (reduce node l).1 = [node q.1 q.2] := by
  induction l using layers_induction node with
  | last l hl => omega
  | layer l hl ih =>
    rw [reduce_of_lt hl]
    by_cases hup : 1 < (pairUp node l).length
    · obtain ⟨q, hq, hr⟩ := ih hup
      exact ⟨q, allPairs_pairUp_subset hl hq, hr⟩
    · have hone : ∃ r, (reduce node (pairUp node l)).1 = [r] := reduce_singleton (pairUp_ne_nil hl)
      obtain ⟨r, hr⟩ := hone
      rw [reduce_of_le (Nat.not_lt.mp hup)] at hr ⊢
      have hmem : r ∈ pairUp node l := by
        rw [show pairUp node l = [r] from hr]
        exact List.mem_singleton_self r
      obtain ⟨q, hq, hqr⟩ := exists_of_mem_pairUp hmem
      exact ⟨q, layerPairs_subset hl hq, by rw [hqr]; exact hr⟩

/-- A node of a hashed pair stands in some layer. -/
theorem mem_nodes_of_mem_allPairs {l : List α} {q : α × α} (h : q ∈ allPairs node l) :
    q.1 ∈ nodes node l ∧ q.2 ∈ nodes node l := by
  induction l using layers_induction node with
  | last l hl =>
    rw [allPairs, if_neg (Nat.not_lt.mpr hl)] at h
    cases h
  | layer l hl ih =>
    rw [allPairs_of_lt hl] at h
    rw [nodes_of_lt hl, List.mem_append, List.mem_append]
    rcases List.mem_append.mp h with h | h
    · obtain ⟨h1, h2⟩ := mem_of_mem_layerPairs h
      exact ⟨Or.inl h1, Or.inl h2⟩
    · obtain ⟨h1, h2⟩ := ih h
      exact ⟨Or.inr h1, Or.inr h2⟩

/-- A node of a pair hashed above the first layer is itself the node of a hashed
pair. -/
theorem eq_node_of_mem_allPairs_pairUp {l : List α} (hl : 1 < l.length) {q : α × α}
    (h : q ∈ allPairs node (pairUp node l)) {x : α} (hx : x = q.1 ∨ x = q.2) :
    ∃ p ∈ allPairs node l, x = node p.1 p.2 := by
  have hmem : x ∈ nodes node (pairUp node l) := by
    obtain ⟨h1, h2⟩ := mem_nodes_of_mem_allPairs h
    rcases hx with rfl | rfl
    · exact h1
    · exact h2
  have key : ∀ m : List α, (∀ y ∈ m, ∃ p ∈ allPairs node l, y = node p.1 p.2) →
      allPairs node m ⊆ allPairs node l →
      ∀ y ∈ nodes node m, ∃ p ∈ allPairs node l, y = node p.1 p.2 := by
    intro m
    induction m using layers_induction node with
    | last m hm =>
      intro hbottom _ y hy
      rw [nodes, if_neg (Nat.not_lt.mpr hm)] at hy
      exact hbottom y hy
    | layer m hm ih =>
      intro hbottom hsub y hy
      rw [nodes_of_lt hm] at hy
      rcases List.mem_append.mp hy with hy | hy
      · exact hbottom y hy
      · refine ih ?_ (fun q hq => hsub (allPairs_pairUp_subset hm hq)) y hy
        intro z hz
        obtain ⟨p, hp, rfl⟩ := exists_of_mem_pairUp hz
        exact ⟨p, hsub (layerPairs_subset hm hp), rfl⟩
  refine key _ ?_ (allPairs_pairUp_subset hl) x hmem
  intro y hy
  obtain ⟨p, hp, rfl⟩ := exists_of_mem_pairUp hy
  exact ⟨p, layerPairs_subset hl hp, rfl⟩

/-! ## Binding -/

/-- Down one layer: the pairs of two layers whose nodes are in the relation. -/
theorem layerPairs_isPrefix {l m : List α} (h : ¬ Collision node (layerPairs l) (layerPairs m))
    (hp : pairUp node l <+: pairUp node m) : layerPairs l <+: layerPairs m := by
  rw [List.prefix_iff_getElem?] at hp ⊢
  intro j hj
  have hj' : j < (pairUp node l).length := by simpa [pairUp] using hj
  have hup := hp j hj'
  simp only [pairUp, List.getElem?_map, List.getElem_map, Option.map_eq_some_iff] at hup
  obtain ⟨q, hq, he⟩ := hup
  rw [hq, eq_of_not_collision h (List.getElem_mem hj) (List.mem_of_getElem? hq) he.symm]

/-- Down one layer: the nodes of two layers whose pairs are in the relation. -/
theorem prefix_of_layerPairs {l m : List α} (hlen : l.length ≤ m.length)
    (h : layerPairs l <+: layerPairs m) : l <+: m := by
  rw [List.prefix_iff_getElem?] at h ⊢
  intro j hj
  have hj' : j / 2 < (layerPairs l).length := by rw [length_layerPairs]; omega
  have hpair := h (j / 2) hj'
  rw [← List.getElem?_eq_getElem hj', getElem?_layerPairs, getElem?_layerPairs] at hpair
  have h2l : 2 * (j / 2) < l.length := by omega
  have h2m : 2 * (j / 2) < m.length := by omega
  simp only [List.getElem?_eq_getElem h2l, List.getElem?_eq_getElem h2m, Option.map_some,
    Option.some.injEq, Prod.mk.injEq] at hpair
  rcases Nat.mod_two_eq_zero_or_one j with hpar | hpar
  · have hj2 : 2 * (j / 2) = j := by omega
    simp only [hj2] at hpair
    rw [List.getElem?_eq_getElem (by omega), hpair.1]
  · have hj2 : 2 * (j / 2) + 1 = j := by omega
    simp only [hj2, List.getElem?_eq_getElem hj, List.getElem?_eq_getElem (show j < m.length by omega),
      Option.getD_some] at hpair
    rw [List.getElem?_eq_getElem (by omega), hpair.2]

/-- **Same depth, same root**: the shorter list is a prefix of the longer one,
which has no other nodes. -/
theorem prefix_of_root_eq {l m : List α} (hlen : l.length ≤ m.length)
    (hd : (reduce node l).2 = (reduce node m).2) (hr : (reduce node l).1 = (reduce node m).1) :
    (l <+: m ∧ m ⊆ l) ∨ Collision node (allPairs node l) (allPairs node m) := by
  induction l using layers_induction node generalizing m with
  | last l hl =>
    rw [reduce_of_le hl] at hd hr
    have hm : ¬ 1 < m.length := fun hm => by
      have hpos : 0 < (reduce node m).2 := depth_pos.mpr hm
      omega
    rw [reduce_of_le (Nat.not_lt.mp hm)] at hr
    change l = m at hr
    subst hr
    exact Or.inl ⟨List.prefix_refl _, List.Subset.refl _⟩
  | layer l hl ih =>
    have hm : 1 < m.length := Nat.lt_of_lt_of_le hl hlen
    rw [reduce_of_lt hl, reduce_of_lt hm] at hd hr
    have hlen' : (pairUp node l).length ≤ (pairUp node m).length := by
      rw [length_pairUp, length_pairUp]
      omega
    rcases ih hlen' (Nat.succ.inj hd) hr with ⟨hpre, hsub⟩ | hc
    · -- down one layer, unless two of its pairs collide
      by_cases hcol : Collision node (layerPairs l) (layerPairs m)
      · exact Or.inr (hcol.mono (layerPairs_subset hl) (layerPairs_subset hm))
      · refine Or.inl ⟨prefix_of_layerPairs hlen (layerPairs_isPrefix hcol hpre), ?_⟩
        intro x hx
        obtain ⟨q, hq, hxq⟩ := exists_layerPair hx
        obtain ⟨p, hp, hpq⟩ := exists_of_mem_pairUp
          (hsub (List.mem_map_of_mem (f := fun p => node p.1 p.2) hq))
        obtain rfl := eq_of_not_collision hcol hp hq hpq
        obtain ⟨h1, h2⟩ := mem_of_mem_layerPairs hp
        rcases hxq with rfl | rfl
        · exact h1
        · exact h2
    · exact Or.inr (hc.mono (allPairs_pairUp_subset hl) (allPairs_pairUp_subset hm))

/-- **Different depths, same root**: a bottom node of the shallower reduction is
an inner node of the deeper one. -/
theorem bottom_eq_inner {l m : List α} (hne : l ≠ [])
    (hd : (reduce node l).2 < (reduce node m).2) (hr : (reduce node l).1 = (reduce node m).1) :
    (∃ x ∈ l, ∃ q ∈ allPairs node m, x = node q.1 q.2) ∨
      Collision node (allPairs node l) (allPairs node m) := by
  induction l using layers_induction node generalizing m with
  | last l hl =>
    have hm : 1 < m.length := depth_pos.mp (Nat.zero_lt_of_lt hd)
    have hroot : ∃ q ∈ allPairs node m, (reduce node m).1 = [node q.1 q.2] := root_eq_node hm
    obtain ⟨q, hq, hroot⟩ := hroot
    rw [reduce_of_le hl, hroot] at hr
    change l = _ at hr
    exact Or.inl ⟨_, by rw [hr]; exact List.mem_singleton_self _, q, hq, rfl⟩
  | layer l hl ih =>
    have hm : 1 < m.length := depth_pos.mp (Nat.zero_lt_of_lt hd)
    rw [reduce_of_lt hl, reduce_of_lt hm] at hd hr
    rcases ih (pairUp_ne_nil hl) (Nat.lt_of_succ_lt_succ hd) hr with ⟨x, hx, q, hq, hxq⟩ | hc
    · obtain ⟨p, hp, rfl⟩ := exists_of_mem_pairUp hx
      by_cases hpq : p = q
      · -- the same pair, and the deeper reduction hashed its nodes from others
        subst hpq
        obtain ⟨p', hp', he⟩ := eq_node_of_mem_allPairs_pairUp hm hq (Or.inl rfl)
        exact Or.inl ⟨p.1, (mem_of_mem_layerPairs hp).1, p', hp', he⟩
      · exact Or.inr ⟨p, layerPairs_subset hl hp, q, allPairs_pairUp_subset hm hq, hpq, hxq⟩
    · exact Or.inr (hc.mono (allPairs_pairUp_subset hl) (allPairs_pairUp_subset hm))

/-! ## Folding siblings -/

/-- The sibling of position `i` in a layer: the other node of its pair. -/
def sibling (l : List α) (i : Nat) : Option α :=
  (layerPairs l)[i / 2]?.map fun p => if i % 2 = 0 then p.2 else p.1

/-- Every position stands in a pair of its layer. -/
theorem exists_pair_at {l : List α} {i : Nat} {x : α} (hx : l[i]? = some x) :
    ∃ p, (layerPairs l)[i / 2]? = some p ∧ (if i % 2 = 0 then p.1 else p.2) = x := by
  obtain ⟨hlt, rfl⟩ := List.getElem?_eq_some_iff.mp hx
  rw [getElem?_layerPairs, List.getElem?_eq_getElem (show 2 * (i / 2) < l.length by omega)]
  refine ⟨_, rfl, ?_⟩
  rcases Nat.mod_two_eq_zero_or_one i with hpar | hpar
  · have hi : 2 * (i / 2) = i := by omega
    simp only [hi, hpar, if_true]
  · have hi : 2 * (i / 2) + 1 = i := by omega
    rw [if_neg (by omega), hi, hx]
    rfl

variable (node)

/-- The siblings of position `i`, layer by layer. -/
def siblings (l : List α) (i : Nat) : List α :=
  if 1 < l.length then (sibling l i).toList ++ siblings (pairUp node l) (i / 2) else []
termination_by l.length
decreasing_by exact length_pairUp_lt node ‹_›

/-- Climbing from `x` at position `i` along a list of siblings: the sibling is on
the right of an even position and on the left of an odd one. -/
def fold (x : α) (i : Nat) : List α → α
  | [] => x
  | s :: p => fold (if i % 2 = 0 then node x s else node s x) (i / 2) p

/-- The pairs hashed in the climb. -/
def foldPairs (x : α) (i : Nat) : List α → List (α × α)
  | [] => []
  | s :: p =>
    (if i % 2 = 0 then (x, s) else (s, x)) ::
      foldPairs (if i % 2 = 0 then node x s else node s x) (i / 2) p

/-- A node and its sibling make the node above. -/
theorem sibling_spec {l : List α} {i : Nat} {x : α} (hx : l[i]? = some x) :
    ∃ s, sibling l i = some s ∧
      (pairUp node l)[i / 2]? = some (if i % 2 = 0 then node x s else node s x) := by
  obtain ⟨p, hp, rfl⟩ := exists_pair_at hx
  refine ⟨if i % 2 = 0 then p.2 else p.1, by rw [sibling, hp]; rfl, ?_⟩
  rw [pairUp, List.getElem?_map, hp]
  split_ifs <;> rfl

variable {node}

/-- **Completeness**: the siblings of a position lead from its node to the root,
one for each layer. -/
theorem fold_siblings {l : List α} {i : Nat} {x : α} (hx : l[i]? = some x) :
    (reduce node l).1 = [fold node x i (siblings node l i)] ∧
      (siblings node l i).length = (reduce node l).2 := by
  induction l using layers_induction node generalizing i x with
  | last l hl =>
    obtain ⟨hi, rfl⟩ := List.getElem?_eq_some_iff.mp hx
    obtain rfl : i = 0 := by omega
    rw [reduce_of_le hl, siblings, if_neg (Nat.not_lt.mpr hl)]
    obtain ⟨y, rfl⟩ := List.length_eq_one_iff.mp (show l.length = 1 by omega)
    exact ⟨rfl, rfl⟩
  | layer l hl ih =>
    obtain ⟨s, hs, hup⟩ := sibling_spec node hx
    obtain ⟨hroot, hlen⟩ := ih hup
    rw [reduce_of_lt hl, siblings, if_pos hl, hs]
    exact ⟨hroot, by simp [hlen]⟩

/-- **Soundness**: a fold that arrives at the root started from a bottom node. -/
theorem mem_of_fold_eq_root {l p : List α} {x : α} {i : Nat}
    (hlen : p.length = (reduce node l).2) (hr : (reduce node l).1 = [fold node x i p]) :
    x ∈ l ∨ Collision node (foldPairs node x i p) (allPairs node l) := by
  induction l using layers_induction node generalizing x i p with
  | last l hl =>
    rw [reduce_of_le hl] at hlen hr
    obtain rfl := List.length_eq_zero_iff.mp hlen
    change l = [x] at hr
    exact Or.inl (by rw [hr]; exact List.mem_singleton_self x)
  | layer l hl ih =>
    rw [reduce_of_lt hl] at hlen hr
    cases p with
    | nil => simp at hlen
    | cons s p =>
      rcases ih (Nat.succ.inj hlen) hr with hmem | hc
      · obtain ⟨q, hq, he⟩ := exists_of_mem_pairUp hmem
        -- the pair of the climb's first step, against the pair of the layer
        have hstep : node (if i % 2 = 0 then (x, s) else (s, x)).1
            (if i % 2 = 0 then (x, s) else (s, x)).2 = node q.1 q.2 := by
          rw [he]
          split_ifs <;> rfl
        by_cases hpq : (if i % 2 = 0 then (x, s) else (s, x)) = q
        · subst hpq
          obtain ⟨h1, h2⟩ := mem_of_mem_layerPairs hq
          split_ifs at h1 h2
          · exact Or.inl h1
          · exact Or.inl h2
        · exact Or.inr ⟨_, List.mem_cons_self, q, layerPairs_subset hl hq, hpq, hstep⟩
      · exact Or.inr (hc.mono (List.subset_cons_self _ _) (allPairs_pairUp_subset hl))

end HashLayers
