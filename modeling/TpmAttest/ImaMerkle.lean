import TpmAttest.HashLayers
import TpmAttest.ImaLog
import TpmAttest.Sha256

/-! # The Merkle tree over the IMA log

Every entry of the log is a leaf, and a leaf's pre-image begins with the entry's
index.  A layer of odd length is padded with a copy of its last node.  The tree
is built in two loops of the program, the one that reduces a layer to the root
(`reduceLoop`) and the one that also collects the siblings of an index
(`proofLoop`); each indexes a list, which can raise.

Neither does: both loops compute the reduction of `HashLayers` (`reduceLoop_eq`,
`proofLoop_eq`), and a tree is that reduction of its leaves (`treeOf`).

The hash function is a parameter throughout.
-/
namespace TpmAttest

open Python HashLayers

/-- `xs[i]`, for an index that is not negative. -/
def item {α : Type} (xs : List α) (i : Nat) : Except Exn α :=
  match xs[i]? with
  | some x => .ok x
  | none => .error (.indexError "list index out of range")

theorem item_eq_ok {α : Type} {xs : List α} {i : Nat} {x : α} (h : xs[i]? = some x) :
    item xs i = .ok x := by rw [item, h]

/-- The bytes hashed for an entry at its index. -/
def leafPreimage (entry : Entry) (index : Nat) : Bytes :=
  encode s!"{index}:{entry.pcr}:{entry.templateHash}:{entry.fileHash}:{entry.filename}"

/-- A layer of odd length gets its last node again. -/
def padLayer (current : List Digest) : List Digest :=
  if current.length % 2 = 1 then current ++ current.getLast?.toList else current

/-- The summary of a tree. -/
structure ImaTree where
  root : String
  depth : Nat
  leafCount : Nat
  leaves : List String
  deriving DecidableEq, Repr

/-- An inclusion proof. -/
structure ImaProof where
  index : Int
  leafHash : String
  proof : List String
  root : String
  deriving DecidableEq, Repr

variable (sha256 : Bytes → Digest)

/-- `_leaf_hash`. -/
def leafHash (entry : Entry) (index : Nat) : Digest := sha256 (leafPreimage entry index)

/-- The node above two nodes. -/
def node (a b : Digest) : Digest := sha256 (a.val ++ b.val)

/-- The list comprehension over `range(0, len(current), 2)`. -/
def nextLayer (current : List Digest) : Except Exn (List Digest) :=
  (List.range' 0 ((current.length + 1) / 2) 2).mapM fun i => do
    return node sha256 (← item current i) (← item current (i + 1))

/-! ## The padded layer -/

theorem length_padLayer (l : List Digest) : (padLayer l).length = 2 * ((l.length + 1) / 2) := by
  unfold padLayer
  split_ifs with h
  · cases l with
    | nil => simp at h
    | cons a l => simp only [List.getLast?_cons, Option.toList_some, List.length_append,
        List.length_singleton]; omega
  · omega

/-- The nodes `2j` and `2j + 1` of a padded layer are the `j`-th pair. -/
theorem getElem?_padLayer {l : List Digest} {j : Nat} {p : Digest × Digest}
    (h : (layerPairs l)[j]? = some p) :
    (padLayer l)[2 * j]? = some p.1 ∧ (padLayer l)[2 * j + 1]? = some p.2 := by
  rw [getElem?_layerPairs, Option.map_eq_some_iff] at h
  obtain ⟨a, ha, rfl⟩ := h
  obtain ⟨hlt, -⟩ := List.getElem?_eq_some_iff.mp ha
  unfold padLayer
  split_ifs with hodd
  · rw [List.getElem?_append_left hlt]
    refine ⟨ha, ?_⟩
    by_cases hin : 2 * j + 1 < l.length
    · rw [List.getElem?_append_left hin, List.getElem?_eq_getElem hin]
      rfl
    · -- the pair of the last node with its copy
      have hlast : l.length - 1 = 2 * j := by omega
      rw [List.getElem?_append_right (by omega), show 2 * j + 1 - l.length = 0 by omega,
        List.getLast?_eq_getElem?, hlast, ha, List.getElem?_eq_none (by omega : l.length ≤ 2 * j + 1)]
      rfl
  · have hin : 2 * j + 1 < l.length := by omega
    refine ⟨ha, ?_⟩
    rw [List.getElem?_eq_getElem hin]
    rfl

/-- A list comprehension whose items all exist. -/
theorem mapM_eq_ok {α β : Type} {f : α → Except Exn β} {l : List α} {r : List β}
    (hlen : l.length = r.length)
    (h : ∀ (j : Nat) (x : α) (y : β), l[j]? = some x → r[j]? = some y → f x = .ok y) :
    l.mapM f = .ok r := by
  induction l generalizing r with
  | nil =>
    obtain rfl := List.length_eq_zero_iff.mp hlen.symm
    rfl
  | cons x l ih =>
    cases r with
    | nil => simp at hlen
    | cons y r =>
      rw [List.mapM_cons, h 0 x y rfl rfl,
        ih (Nat.succ.inj hlen) fun j x' y' hx hy => h (j + 1) x' y' hx hy]
      rfl

/-- **The next layer of a padded one is the layer of its pairs**: no index is
out of range. -/
theorem nextLayer_padLayer (l : List Digest) :
    nextLayer sha256 (padLayer l) = .ok (pairUp (node sha256) l) := by
  refine mapM_eq_ok ?_ ?_
  · rw [List.length_range', length_padLayer, length_pairUp]
    omega
  · intro j i d hi hd
    rw [pairUp, List.getElem?_map, Option.map_eq_some_iff] at hd
    obtain ⟨p, hp, rfl⟩ := hd
    obtain ⟨h0, h1⟩ := getElem?_padLayer hp
    obtain ⟨hj, rfl⟩ := List.getElem?_eq_some_iff.mp hi
    rw [List.getElem_range', Nat.zero_add]
    rw [item_eq_ok h0, item_eq_ok h1]
    rfl

theorem length_nextLayer_lt {l next : List Digest} (hl : 1 < l.length)
    (h : nextLayer sha256 (padLayer l) = .ok next) : next.length < l.length := by
  rw [nextLayer_padLayer] at h
  cases h
  exact length_pairUp_lt _ hl

/-! ## The two loops -/

/-- The loop of `_reduce_to_root`. -/
def reduceLoop (current : List Digest) (depth : Nat) : Except Exn (List Digest × Nat) :=
  if _hl : 1 < current.length then
    match h : nextLayer sha256 (padLayer current) with
    | .ok next => reduceLoop next (depth + 1)
    | .error e => .error e
  else .ok (current, depth)
termination_by current.length
decreasing_by exact length_nextLayer_lt sha256 _hl h

/-- `_reduce_to_root`. -/
def reduceToRoot (layer : List Digest) : Except Exn (List Digest × Nat) := reduceLoop sha256 layer 0

/-- The sibling's index in a padded layer. -/
def siblingIndex (currentIndex : Nat) : Nat :=
  if currentIndex % 2 = 0 then currentIndex + 1 else currentIndex - 1

/-- The loop of `get_ima_proof`. -/
def proofLoop (currentLayer : List Digest) (currentIndex : Nat) (proof : List String) :
    Except Exn (List Digest × List String) :=
  if _hl : 1 < currentLayer.length then
    match item (padLayer currentLayer) (siblingIndex currentIndex) with
    | .error e => .error e
    | .ok sibling =>
      match _h : nextLayer sha256 (padLayer currentLayer) with
      | .ok next => proofLoop next (currentIndex / 2) (proof ++ [hex sibling.val])
      | .error e => .error e
  else .ok (currentLayer, proof)
termination_by currentLayer.length
decreasing_by exact length_nextLayer_lt sha256 _hl _h

/-- **The loop computes the reduction.** -/
theorem reduceLoop_eq (l : List Digest) (depth : Nat) :
    reduceLoop sha256 l depth =
      .ok ((reduce (node sha256) l).1, depth + (reduce (node sha256) l).2) := by
  induction l using layers_induction (node sha256) generalizing depth with
  | last l hl =>
    rw [reduceLoop, dif_neg (Nat.not_lt.mpr hl), reduce_of_le hl]
    rfl
  | layer l hl ih =>
    rw [reduceLoop, dif_pos hl, reduce_of_lt hl]
    split
    · rename_i next hnext
      rw [nextLayer_padLayer] at hnext
      cases hnext
      rw [ih, Nat.add_right_comm, Nat.add_assoc]
    · rename_i e he
      rw [nextLayer_padLayer] at he
      cases he

/-- The item at the sibling's index of the padded layer is the sibling. -/
theorem item_siblingIndex {l : List Digest} {i : Nat} {s : Digest}
    (hs : sibling l i = some s) : item (padLayer l) (siblingIndex i) = .ok s := by
  rw [sibling, Option.map_eq_some_iff] at hs
  obtain ⟨p, hp, rfl⟩ := hs
  obtain ⟨h0, h1⟩ := getElem?_padLayer hp
  unfold siblingIndex
  split_ifs with hpar
  · rw [show i + 1 = 2 * (i / 2) + 1 by omega]
    exact item_eq_ok h1
  · rw [show i - 1 = 2 * (i / 2) by omega]
    exact item_eq_ok h0

/-- **The loop collects the siblings** on its way to the root. -/
theorem proofLoop_eq {l : List Digest} {i : Nat} (hi : i < l.length) (proof : List String) :
    proofLoop sha256 l i proof =
      .ok ((reduce (node sha256) l).1,
        proof ++ (siblings (node sha256) l i).map fun d => hex d.val) := by
  induction l using layers_induction (node sha256) generalizing i proof with
  | last l hl =>
    rw [proofLoop, dif_neg (Nat.not_lt.mpr hl), reduce_of_le hl, siblings,
      if_neg (Nat.not_lt.mpr hl), List.map_nil, List.append_nil]
  | layer l hl ih =>
    -- with its sibling the node makes the one above, at half its index
    obtain ⟨s, hs, hup⟩ := sibling_spec (node sha256) (List.getElem?_eq_getElem hi)
    obtain ⟨hi', -⟩ := List.getElem?_eq_some_iff.mp hup
    rw [proofLoop, dif_pos hl, item_siblingIndex hs, reduce_of_lt hl, siblings, if_pos hl, hs]
    dsimp only
    split
    · rename_i next hnext
      rw [nextLayer_padLayer] at hnext
      cases hnext
      rw [ih hi', List.append_assoc]
      rfl
    · rename_i e he
      rw [nextLayer_padLayer] at he
      cases he

/-! ## The tree -/

/-- `build_ima_merkle_tree`. -/
def buildImaMerkleTree (entries : List Entry) : Except Exn ImaTree :=
  if entries.isEmpty then .ok ⟨hex (sha256 []).val, 0, 0, []⟩
  else do
    let leafRaw := entries.mapIdx fun i e => leafHash sha256 e i
    let leavesHex := leafRaw.map fun b => hex b.val
    let (rootLayer, depth) ← reduceToRoot sha256 leafRaw
    return ⟨hex (← item rootLayer 0).val, depth, leafRaw.length, leavesHex⟩

/-- `build_incremental_merkle_tree`. -/
def buildIncrementalMerkleTree (cachedLeaves : List Digest) (newEntries : List Entry)
    (baseIndex : Nat) : Except Exn (List Digest × ImaTree) :=
  let newLeafRaw := newEntries.mapIdx fun i e => leafHash sha256 e (baseIndex + i)
  let allLeaves := cachedLeaves ++ newLeafRaw
  if allLeaves.isEmpty then .ok ([], ⟨hex (sha256 []).val, 0, 0, []⟩)
  else do
    let (rootLayer, depth) ← reduceToRoot sha256 allLeaves
    let tree := ⟨hex (← item rootLayer 0).val, depth, allLeaves.length,
      allLeaves.map fun b => hex b.val⟩
    return (allLeaves, tree)

/-- `get_ima_proof`. -/
def getImaProof (entries : List Entry) (index : Int) : Except Exn ImaProof :=
  if entries.isEmpty then .error (.valueError "Cannot produce a proof for an empty entry list.")
  else if ¬ (0 ≤ index ∧ index < entries.length) then
    .error (.indexError s!"Index {index} is out of range for {entries.length} entries.")
  else do
    let currentLayer := entries.mapIdx fun i e => leafHash sha256 e i
    let leaf ← item currentLayer index.toNat
    let (rootLayer, proof) ← proofLoop sha256 currentLayer index.toNat []
    return ⟨index, hex leaf.val, proof, hex (← item rootLayer 0).val⟩

/-- The leaves of a log. -/
def leaves (entries : List Entry) : List Digest := entries.mapIdx fun i e => leafHash sha256 e i

/-- The digest at the root over a list of leaves; the hash of nothing over none. -/
def rootDigest (l : List Digest) : Digest := (reduce (node sha256) l).1.headD (sha256 [])

/-- The tree over a list of leaves. -/
def treeOf (l : List Digest) : ImaTree :=
  ⟨hex (rootDigest sha256 l).val, (reduce (node sha256) l).2, l.length, l.map fun b => hex b.val⟩

@[simp] theorem length_leaves (es : List Entry) : (leaves sha256 es).length = es.length :=
  List.length_mapIdx

theorem getElem?_leaves (es : List Entry) (i : Nat) :
    (leaves sha256 es)[i]? = es[i]?.map fun e => leafHash sha256 e i := List.getElem?_mapIdx

theorem leaves_ne_nil {es : List Entry} (h : es ≠ []) : leaves sha256 es ≠ [] := by
  rw [← List.length_pos_iff, length_leaves]
  exact List.length_pos_iff.mpr h

theorem rootDigest_nil : rootDigest sha256 [] = sha256 [] := by
  rw [rootDigest, reduce_of_le (by simp)]
  rfl

/-- The root over one entry is its leaf. -/
theorem rootDigest_single (e : Entry) :
    rootDigest sha256 (leaves sha256 [e]) = leafHash sha256 e 0 := by
  rw [rootDigest, reduce_of_le (by simp)]
  rfl

theorem treeOf_nil : treeOf sha256 [] = ⟨hex (sha256 []).val, 0, 0, []⟩ := by
  rw [treeOf, rootDigest_nil, reduce_of_le (by simp)]
  rfl

/-- The root layer of a nonempty list holds the root. -/
theorem reduce_root {l : List Digest} (h : l ≠ []) :
    (reduce (node sha256) l).1 = [rootDigest sha256 l] := by
  have hone : ∃ r, (reduce (node sha256) l).1 = [r] := reduce_singleton h
  obtain ⟨r, hr⟩ := hone
  rw [rootDigest, hr]
  rfl

/-- **What `build_ima_merkle_tree` returns**: the tree over the log's leaves. -/
theorem buildImaMerkleTree_eq (es : List Entry) :
    buildImaMerkleTree sha256 es = .ok (treeOf sha256 (leaves sha256 es)) := by
  unfold buildImaMerkleTree
  cases es with
  | nil =>
    rw [show leaves sha256 [] = [] from rfl, treeOf_nil]
    rfl
  | cons e es =>
    have hne : leaves sha256 (e :: es) ≠ [] := leaves_ne_nil sha256 (List.cons_ne_nil e es)
    rw [if_neg (by simp)]
    change (reduceToRoot sha256 (leaves sha256 (e :: es)) >>= _) = _
    rw [reduceToRoot, reduceLoop_eq, reduce_root sha256 hne, Nat.zero_add]
    rfl

/-- **What `build_incremental_merkle_tree` returns**: the cached leaves with the
new ones, and the tree over them. -/
theorem buildIncrementalMerkleTree_eq (cached : List Digest) (new : List Entry) (base : Nat) :
    buildIncrementalMerkleTree sha256 cached new base =
      .ok (cached ++ new.mapIdx fun i e => leafHash sha256 e (base + i),
        treeOf sha256 (cached ++ new.mapIdx fun i e => leafHash sha256 e (base + i))) := by
  unfold buildIncrementalMerkleTree
  dsimp only
  generalize cached ++ new.mapIdx (fun i e => leafHash sha256 e (base + i)) = l
  by_cases hl : l = []
  · subst hl
    rw [treeOf_nil]
    rfl
  · rw [if_neg (by simpa using hl), reduceToRoot, reduceLoop_eq, reduce_root sha256 hl,
      Nat.zero_add]
    rfl

/-- The leaves of a log cut in two. -/
theorem leaves_append (es fs : List Entry) :
    leaves sha256 (es ++ fs) =
      leaves sha256 es ++ fs.mapIdx fun i e => leafHash sha256 e (es.length + i) := by
  unfold leaves
  rw [List.mapIdx_append]
  simp only [Nat.add_comm]

/-! ## Batches -/

/-- The batches of a log fed one after another, each at the length of the cache
that the one before it left: what every call returns. -/
def feedBatches (cachedLeaves : List Digest) :
    List (List Entry) → Except Exn (List (List Digest × ImaTree))
  | [] => .ok []
  | batch :: batches => do
    let (newCached, tree) ←
      buildIncrementalMerkleTree sha256 cachedLeaves batch cachedLeaves.length
    return (newCached, tree) :: (← feedBatches newCached batches)

/-- Batches fed on top of a log: the logs so far, and what each call returns. -/
theorem feedBatches_leaves (fed : List Entry) (batches : List (List Entry)) :
    feedBatches sha256 (leaves sha256 fed) batches =
      .ok ((List.range batches.length).map fun k =>
        (leaves sha256 (fed ++ (batches.take (k + 1)).flatten),
          treeOf sha256 (leaves sha256 (fed ++ (batches.take (k + 1)).flatten)))) := by
  induction batches generalizing fed with
  | nil => rfl
  | cons batch batches ih =>
    unfold feedBatches
    rw [buildIncrementalMerkleTree_eq, length_leaves, ← leaves_append]
    change (feedBatches sha256 (leaves sha256 (fed ++ batch)) batches >>= _) = _
    rw [ih, List.length_cons, List.range_succ_eq_map, List.map_cons, List.map_map]
    simp only [Function.comp_def, Nat.succ_eq_add_one, List.take_succ_cons, List.flatten_cons,
      List.append_assoc, List.take_zero, List.flatten_nil, List.append_nil]
    rfl

/-- **Incremental building is full building**, for every way of cutting a log into
batches: each call returns the leaves of all entries fed so far, at their indices
in the log, and the tree of the log so far. -/
theorem feedBatches_full (batches : List (List Entry)) :
    ∃ results, feedBatches sha256 [] batches = .ok results ∧ results.length = batches.length ∧
      ∀ k cachedLeaves tree, results[k]? = some (cachedLeaves, tree) →
        cachedLeaves = (batches.take (k + 1)).flatten.mapIdx (fun i e => leafHash sha256 e i) ∧
          buildImaMerkleTree sha256 (batches.take (k + 1)).flatten = .ok tree := by
  refine ⟨_, feedBatches_leaves sha256 [] batches, by simp, ?_⟩
  intro k cachedLeaves tree hk
  rw [List.getElem?_map, Option.map_eq_some_iff] at hk
  obtain ⟨i, hi, hres⟩ := hk
  obtain ⟨hlt, rfl⟩ := List.getElem?_eq_some_iff.mp hi
  rw [List.getElem_range] at hres
  obtain ⟨rfl, rfl⟩ := Prod.mk.inj hres
  exact ⟨rfl, buildImaMerkleTree_eq sha256 _⟩

/-! ## Inclusion proofs -/

/-- **Inclusion proofs are complete**: for every index of the log the siblings
that `get_ima_proof` returns lead from the entry's leaf to the tree's root, and
there are as many of them as the tree has levels. -/
theorem getImaProof_complete (es : List Entry) (index : Nat) (h : index < es.length) :
    ∃ t p path, buildImaMerkleTree sha256 es = .ok t ∧
      getImaProof sha256 es index = .ok p ∧ p.index = index ∧
      p.leafHash = hex (leafHash sha256 (es.get ⟨index, h⟩) index).val ∧
      p.proof = path.map (fun d : Digest => hex d.val) ∧
      p.root = hex (fold (node sha256) (leafHash sha256 (es.get ⟨index, h⟩) index) index path).val ∧
      p.root = t.root ∧ p.proof.length = t.depth := by
  have hleaf : (leaves sha256 es)[index]? = some (leafHash sha256 (es.get ⟨index, h⟩) index) := by
    rw [getElem?_leaves, List.getElem?_eq_getElem h]
    rfl
  have hne : leaves sha256 es ≠ [] :=
    leaves_ne_nil sha256 (List.length_pos_iff.mp (Nat.zero_lt_of_lt h))
  obtain ⟨hfold, hlen⟩ := fold_siblings hleaf
  rw [reduce_root sha256 hne, List.singleton_inj] at hfold
  refine ⟨_, ⟨index, hex (leafHash sha256 (es.get ⟨index, h⟩) index).val,
    (siblings (node sha256) (leaves sha256 es) index).map fun d => hex d.val,
    hex (rootDigest sha256 (leaves sha256 es)).val⟩, _, buildImaMerkleTree_eq sha256 es, ?_, rfl,
    rfl, rfl, by rw [hfold], rfl, by rw [List.length_map, hlen]; rfl⟩
  have hes : es.isEmpty = false := by
    cases es with
    | nil => simp at h
    | cons e es => rfl
  unfold getImaProof
  rw [hes, if_neg (by simp), if_neg (by omega), Int.toNat_natCast]
  change (item (leaves sha256 es) index >>= fun leaf =>
    proofLoop sha256 (leaves sha256 es) index [] >>= _) = _
  rw [item_eq_ok hleaf, proofLoop_eq sha256 (by simpa using h), reduce_root sha256 hne]
  rfl

theorem getImaProof_complete_three :
    ∃ t p, buildImaMerkleTree TpmAttest.sha256 [bootAggregate, bootAggregate, bootAggregate] = .ok t ∧
      getImaProof TpmAttest.sha256 [bootAggregate, bootAggregate, bootAggregate] 2 = .ok p ∧
      p.root = t.root ∧ p.proof.length = t.depth := by
  obtain ⟨t, p, _, ht, hp, -, -, -, -, hroot, hlen⟩ := getImaProof_complete TpmAttest.sha256
    [bootAggregate, bootAggregate, bootAggregate] 2 (by decide)
  exact ⟨t, p, ht, hp, hroot, hlen⟩

end TpmAttest
