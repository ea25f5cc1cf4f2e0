import TpmAttest.ImaMerkle

/-! # What a Merkle root commits to

A root commits to the leaf pre-images of its log, in order, up to one of two
things that are exhibited whenever it does not: two distinct byte strings, both
hashed, with one digest (`HashCollision`); or a leaf pre-image of 64 bytes that
is two nodes of the other tree (`LeafIsNode`), since leaves and nodes are hashed
alike.

Both rest on the index at the front of a leaf pre-image
(`index_eq_of_leafPreimage_eq`): it is what tells a padded copy of the last leaf
from a leaf of a longer log, and what tells one position from another when the
path of an inclusion proof is chosen freely.
-/
namespace TpmAttest

open Python HashLayers

/-! ## Pre-images -/

/-- The text of a leaf pre-image after its index. -/
def Entry.hashedText (e : Entry) : List Char :=
  e.pcr.toList ++ ':' :: (e.templateHash.toList ++ ':' :: (e.fileHash.toList ++
    ':' :: e.filename.toList))

theorem leafPreimage_eq (e : Entry) (i : Nat) :
    leafPreimage e i = encode (String.ofList (Nat.toDigits 10 i ++ ':' :: e.hashedText)) := by
  refine congrArg encode (String.toList_inj.mp ?_)
  change (i.repr ++ ":" ++ e.pcr ++ ":" ++ e.templateHash ++ ":" ++ e.fileHash ++ ":"
    ++ e.filename).toList = _
  simp [Nat.toList_repr, Entry.hashedText]

/-- The digits of an index stop at the first colon. -/
theorem takeWhile_toDigits (i : Nat) (rest : List Char) :
    (Nat.toDigits 10 i ++ ':' :: rest).takeWhile (· != ':') = Nat.toDigits 10 i := by
  have hdigit : ∀ c ∈ Nat.toDigits 10 i, (c != ':') = true := by
    intro c hc
    have hd := Nat.isDigit_of_mem_toDigits (by omega) (by omega) hc
    rw [bne_iff_ne]
    rintro rfl
    exact absurd hd (by decide)
  rw [List.takeWhile_append_of_pos hdigit]
  simp

/-- **A leaf pre-image determines its index.** -/
theorem index_eq_of_leafPreimage_eq {e f : Entry} {i j : Nat}
    (h : leafPreimage e i = leafPreimage f j) : i = j := by
  rw [leafPreimage_eq, leafPreimage_eq] at h
  have hlist := congrArg String.toList (encode_injective h)
  rw [String.toList_ofList, String.toList_ofList] at hlist
  have hdigits := congrArg (List.takeWhile (· != ':')) hlist
  rw [takeWhile_toDigits, takeWhile_toDigits] at hdigits
  rw [← Nat.ofDigitChars_ten_toDigits (n := i), hdigits, Nat.ofDigitChars_ten_toDigits]

theorem leafPreimage_ne_nil (e : Entry) (i : Nat) : leafPreimage e i ≠ [] := by
  rw [leafPreimage_eq]
  intro h
  have hempty : encode (String.ofList (Nat.toDigits 10 i ++ ':' :: e.hashedText)) = encode "" := h
  have hlist := congrArg String.toList (encode_injective hempty)
  simp at hlist

theorem hashedText_eq_of_leafPreimage_eq {e f : Entry} {i j : Nat}
    (h : leafPreimage e i = leafPreimage f j) : e.hashedText = f.hashedText := by
  obtain rfl := index_eq_of_leafPreimage_eq h
  rw [leafPreimage_eq, leafPreimage_eq] at h
  have hlist := congrArg String.toList (encode_injective h)
  rw [String.toList_ofList, String.toList_ofList] at hlist
  exact (List.cons.inj (List.append_cancel_left hlist)).2

/-- The leaf pre-images of a log. -/
def leafPreimages (es : List Entry) : List Bytes := es.mapIdx fun i e => leafPreimage e i

theorem getElem?_leafPreimages (es : List Entry) (i : Nat) :
    (leafPreimages es)[i]? = es[i]?.map fun e => leafPreimage e i := List.getElem?_mapIdx

/-- Leaf pre-images of two logs that are equal stand at the same index. -/
theorem index_eq_of_leafPreimages {es fs : List Entry} {i j : Nat} {x : Bytes}
    (hi : (leafPreimages es)[i]? = some x) (hj : (leafPreimages fs)[j]? = some x) : i = j := by
  rw [getElem?_leafPreimages, Option.map_eq_some_iff] at hi hj
  obtain ⟨e, -, he⟩ := hi
  obtain ⟨f, -, hf⟩ := hj
  exact index_eq_of_leafPreimage_eq (he.trans hf.symm)

/-! ### The fields behind a pre-image -/

/-- The fields that a leaf pre-image covers. -/
def Entry.hashedFields (e : Entry) : String × String × String × String :=
  (e.pcr, e.templateHash, e.fileHash, e.filename)

/-- The colons in the fields before the last one. -/
def Entry.colons (e : Entry) : Nat × Nat × Nat :=
  (e.pcr.toList.count ':', e.templateHash.toList.count ':', e.fileHash.toList.count ':')

/-- A separator that stands in two texts after equally many others cuts them alike. -/
theorem append_cons_inj_of_count {sep : Char} {a b r s : List Char}
    (hcount : a.count sep = b.count sep) (h : a ++ sep :: r = b ++ sep :: s) : a = b ∧ r = s := by
  induction a generalizing b with
  | nil =>
    cases b with
    | nil => exact ⟨rfl, (List.cons.inj h).2⟩
    | cons y b =>
      -- the other text has the separator where this one is cut
      obtain ⟨rfl, -⟩ := List.cons.inj h
      simp at hcount
  | cons x a ih =>
    cases b with
    | nil =>
      obtain ⟨rfl, -⟩ := List.cons.inj h
      simp at hcount
    | cons y b =>
      obtain ⟨rfl, htail⟩ := List.cons.inj h
      have hcount' : a.count sep = b.count sep := by
        simpa [List.count_cons] using hcount
      obtain ⟨rfl, hrest⟩ := ih hcount' htail
      exact ⟨rfl, hrest⟩

theorem hashedFields_of_hashedText {e f : Entry} (hcolons : e.colons = f.colons)
    (h : e.hashedText = f.hashedText) : e.hashedFields = f.hashedFields := by
  obtain ⟨hpcr, hrest⟩ := Prod.mk.inj hcolons
  obtain ⟨htemplate, hfile⟩ := Prod.mk.inj hrest
  obtain ⟨h₁, h⟩ := append_cons_inj_of_count hpcr h
  obtain ⟨h₂, h⟩ := append_cons_inj_of_count htemplate h
  obtain ⟨h₃, h₄⟩ := append_cons_inj_of_count hfile h
  simp only [Entry.hashedFields, String.toList_inj.mp h₁, String.toList_inj.mp h₂,
    String.toList_inj.mp h₃, String.toList_inj.mp h₄]

theorem colons_of_hashedFields {e f : Entry} (h : e.hashedFields = f.hashedFields) :
    e.colons = f.colons := by
  simp only [Entry.hashedFields, Prod.mk.injEq] at h
  obtain ⟨hpcr, htemplate, hfile, -⟩ := h
  rw [Entry.colons, Entry.colons, hpcr, htemplate, hfile]

/-- **What a leaf pre-image determines**: the index, and the fields, exactly if the
fields before the last one have the same numbers of colons.  So two logs whose
entries agree in these numbers and differ in a field differ in a pre-image. -/
theorem leafPreimage_determines :
    (∀ line₁ line₂ e f i j, parseLine line₁ = some e → parseLine line₂ = some f →
      leafPreimage e i = leafPreimage f j →
        i = j ∧ (e.hashedFields = f.hashedFields ↔ e.colons = f.colons)) ∧
      ∀ log₁ log₂, leafPreimages (logEntries log₁) = leafPreimages (logEntries log₂) →
        ((logEntries log₁).map Entry.hashedFields = (logEntries log₂).map Entry.hashedFields ↔
          (logEntries log₁).map Entry.colons = (logEntries log₂).map Entry.colons) := by
  have hiff : ∀ {e f : Entry} {i j : Nat}, leafPreimage e i = leafPreimage f j →
      (e.hashedFields = f.hashedFields ↔ e.colons = f.colons) := fun h =>
    ⟨colons_of_hashedFields, fun hcolons =>
      hashedFields_of_hashedText hcolons (hashedText_eq_of_leafPreimage_eq h)⟩
  refine ⟨fun _ _ e f i j _ _ h => ⟨index_eq_of_leafPreimage_eq h, hiff h⟩, fun log₁ log₂ h => ?_⟩
  generalize logEntries log₁ = es at h ⊢
  generalize logEntries log₂ = fs at h ⊢
  have hentry : ∀ i (he : i < es.length) (hf : i < fs.length),
      leafPreimage es[i] i = leafPreimage fs[i] i := by
    intro i he hf
    have hi := congrArg (·[i]?) h
    simpa [getElem?_leafPreimages, he, hf] using hi
  have hlength : es.length = fs.length := by
    simpa [leafPreimages] using congrArg List.length h
  simp only [List.ext_getElem_iff, List.length_map, List.getElem_map, hlength, true_and]
  refine forall_congr' fun i => forall_congr' fun hf => forall_congr' fun _ => ?_
  exact hiff (hentry i (by omega) hf)

/-- Two lines whose entries differ and have one pre-image. -/
theorem leafPreimage_shared :
    ∃ e f, parseLine "10:a b ima-ng sha256:0f2a /bin/sh".toList = some e ∧
      parseLine "10 a:b ima-ng sha256:0f2a /bin/sh".toList = some f ∧
      leafPreimage e 0 = leafPreimage f 0 ∧ e.hashedFields ≠ f.hashedFields := by
  exact ⟨⟨"10:a", "b", "ima-ng", "sha256:0f2a", "/bin/sh"⟩,
    ⟨"10", "a:b", "ima-ng", "sha256:0f2a", "/bin/sh"⟩, by decide, by decide, by decide +kernel,
    by decide⟩

/-- The pre-images of the nodes above pairs. -/
def nodePreimages (pairs : List (Digest × Digest)) : List Bytes :=
  pairs.map fun p => p.1.val ++ p.2.val

section
variable (sha256 : Bytes → Digest)

/-- Everything that is hashed when the tree over a log is built. -/
def preimages (es : List Entry) : List Bytes :=
  if es.isEmpty then [[]]
  else leafPreimages es ++ nodePreimages (allPairs (node sha256) (leaves sha256 es))

/-- Two distinct byte strings, one of each list, with one digest. -/
def HashCollision (xs ys : List Bytes) : Prop :=
  ∃ x ∈ xs, ∃ y ∈ ys, x ≠ y ∧ sha256 x = sha256 y

/-- A leaf pre-image of the first log, of 64 bytes, is the concatenation of two
nodes of the second log's tree. -/
def LeafIsNode (es fs : List Entry) : Prop :=
  ∃ x ∈ leafPreimages es, x.length = 64 ∧
    ∃ a ∈ nodes (node sha256) (leaves sha256 fs), ∃ b ∈ nodes (node sha256) (leaves sha256 fs),
      x = a.val ++ b.val

variable {sha256}

theorem leaves_eq_map (es : List Entry) :
    leaves sha256 es = (leafPreimages es).map sha256 := by
  refine List.ext_getElem? fun i => ?_
  rw [getElem?_leaves, List.getElem?_map, getElem?_leafPreimages, Option.map_map]
  rfl

theorem HashCollision.mono {xs xs' ys ys' : List Bytes} (h : HashCollision sha256 xs ys)
    (hx : xs ⊆ xs') (hy : ys ⊆ ys') : HashCollision sha256 xs' ys' := by
  obtain ⟨x, hxm, y, hym, hxy⟩ := h
  exact ⟨x, hx hxm, y, hy hym, hxy⟩

theorem HashCollision.symm {xs ys : List Bytes} (h : HashCollision sha256 xs ys) :
    HashCollision sha256 ys xs := by
  obtain ⟨x, hx, y, hy, hne, he⟩ := h
  exact ⟨y, hy, x, hx, hne.symm, he.symm⟩

theorem leafPreimages_subset {es : List Entry} (h : es ≠ []) :
    leafPreimages es ⊆ preimages sha256 es := by
  rw [preimages, if_neg (by simpa using h)]
  exact List.subset_append_left _ _

theorem nodePreimages_subset {es : List Entry} (h : es ≠ []) :
    nodePreimages (allPairs (node sha256) (leaves sha256 es)) ⊆ preimages sha256 es := by
  rw [preimages, if_neg (by simpa using h)]
  exact List.subset_append_right _ _

theorem mem_nodePreimages {pairs : List (Digest × Digest)} {p : Digest × Digest}
    (h : p ∈ pairs) : p.1.val ++ p.2.val ∈ nodePreimages pairs :=
  List.mem_map_of_mem (f := fun p : Digest × Digest => p.1.val ++ p.2.val) h

/-- Digests have one length, so a concatenation of two determines them. -/
theorem pair_eq_of_append_eq {p q : Digest × Digest}
    (h : p.1.val ++ p.2.val = q.1.val ++ q.2.val) : p = q := by
  obtain ⟨h1, h2⟩ := List.append_inj h (p.1.property.trans q.1.property.symm)
  exact Prod.ext (Subtype.ext h1) (Subtype.ext h2)

/-- A collision of pairs of nodes is one of their pre-images. -/
theorem hashCollision_of_collision {S T : List (Digest × Digest)}
    (h : Collision (node sha256) S T) :
    HashCollision sha256 (nodePreimages S) (nodePreimages T) := by
  obtain ⟨p, hp, q, hq, hne, he⟩ := h
  exact ⟨_, mem_nodePreimages hp, _, mem_nodePreimages hq,
    fun heq => hne (pair_eq_of_append_eq heq), he⟩

/-! ## Binding -/

/-- Logs with the same leaves, the longer one's further leaves being copies, have
the same leaf pre-images and no further leaf, or collide. -/
theorem leafPreimages_eq_or_collision {es fs : List Entry}
    (hpre : leaves sha256 es <+: leaves sha256 fs) (hsub : leaves sha256 fs ⊆ leaves sha256 es) :
    leafPreimages es = leafPreimages fs ∨
      HashCollision sha256 (leafPreimages es) (leafPreimages fs) := by
  by_cases hc : HashCollision sha256 (leafPreimages es) (leafPreimages fs)
  · exact Or.inr hc
  have hinj : ∀ x ∈ leafPreimages es, ∀ y ∈ leafPreimages fs, sha256 x = sha256 y → x = y :=
    fun x hx y hy he => Classical.byContradiction fun hne => hc ⟨x, hx, y, hy, hne, he⟩
  rw [leaves_eq_map, leaves_eq_map] at hpre hsub
  refine Or.inl (List.ext_getElem? fun i => ?_)
  cases hf : (leafPreimages fs)[i]? with
  | none =>
    rw [List.getElem?_eq_none_iff] at hf ⊢
    have := hpre.length_le
    rw [List.length_map, List.length_map] at this
    omega
  | some y =>
    have hy := List.mem_of_getElem? hf
    -- the leaf is one of the shorter log's, and its index says which
    obtain ⟨x, hx, he⟩ := List.mem_map.mp (hsub (List.mem_map_of_mem hy))
    obtain rfl := hinj x hx y hy he
    obtain ⟨j, hj⟩ := List.mem_iff_getElem?.mp hx
    rw [← index_eq_of_leafPreimages hj hf, hj]

/-- A leaf of a log that is a node above a pair of another log's tree. -/
theorem leaf_eq_node {es fs : List Entry} (hes : es ≠ []) (hfs : fs ≠ []) {d : Digest}
    (hd : d ∈ leaves sha256 es) {q : Digest × Digest}
    (hq : q ∈ allPairs (node sha256) (leaves sha256 fs)) (he : d = node sha256 q.1 q.2) :
    HashCollision sha256 (preimages sha256 es) (preimages sha256 fs) ∨ LeafIsNode sha256 es fs := by
  rw [leaves_eq_map] at hd
  obtain ⟨x, hx, rfl⟩ := List.mem_map.mp hd
  by_cases hxq : x = q.1.val ++ q.2.val
  · obtain ⟨h1, h2⟩ := mem_nodes_of_mem_allPairs hq
    refine Or.inr ⟨x, hx, ?_, q.1, h1, q.2, h2, hxq⟩
    rw [hxq, List.length_append, q.1.property, q.2.property]
  · exact Or.inl ⟨x, leafPreimages_subset hes hx, _,
      nodePreimages_subset hfs (mem_nodePreimages hq), hxq, he⟩

/-- A collision of pairs of nodes is one among everything that is hashed. -/
theorem hashCollision_preimages {es fs : List Entry} (hes : es ≠ []) (hfs : fs ≠ [])
    (h : Collision (node sha256) (allPairs (node sha256) (leaves sha256 es))
      (allPairs (node sha256) (leaves sha256 fs))) :
    HashCollision sha256 (preimages sha256 es) (preimages sha256 fs) :=
  (hashCollision_of_collision h).mono (nodePreimages_subset hes) (nodePreimages_subset hfs)

/-- Two nonempty logs with one root and trees of one depth. -/
theorem leafPreimages_eq_of_depth_eq {es fs : List Entry} (hes : es ≠ []) (hfs : fs ≠ [])
    (hlen : es.length ≤ fs.length)
    (hd : (reduce (node sha256) (leaves sha256 es)).2 = (reduce (node sha256) (leaves sha256 fs)).2)
    (hr : rootDigest sha256 (leaves sha256 es) = rootDigest sha256 (leaves sha256 fs)) :
    leafPreimages es = leafPreimages fs ∨
      HashCollision sha256 (preimages sha256 es) (preimages sha256 fs) := by
  have hroot : (reduce (node sha256) (leaves sha256 es)).1 =
      (reduce (node sha256) (leaves sha256 fs)).1 := by
    rw [reduce_root sha256 (leaves_ne_nil sha256 hes), reduce_root sha256 (leaves_ne_nil sha256 hfs),
      hr]
  have hlen' : (leaves sha256 es).length ≤ (leaves sha256 fs).length := by
    rwa [length_leaves, length_leaves]
  rcases prefix_of_root_eq hlen' hd hroot with ⟨hpre, hsub⟩ | hc
  · exact (leafPreimages_eq_or_collision hpre hsub).imp_right fun hc =>
      hc.mono (leafPreimages_subset hes) (leafPreimages_subset hfs)
  · exact Or.inr (hashCollision_preimages hes hfs hc)

/-- Two nonempty logs with one root, the first no longer than the second. -/
theorem root_binding_of_le {es fs : List Entry} (hes : es ≠ []) (hfs : fs ≠ [])
    (hlen : es.length ≤ fs.length)
    (hr : rootDigest sha256 (leaves sha256 es) = rootDigest sha256 (leaves sha256 fs)) :
    leafPreimages es = leafPreimages fs ∨
      HashCollision sha256 (preimages sha256 es) (preimages sha256 fs) ∨
      LeafIsNode sha256 es fs ∨ LeafIsNode sha256 fs es := by
  have hle : leaves sha256 es ≠ [] := leaves_ne_nil sha256 hes
  have hlf : leaves sha256 fs ≠ [] := leaves_ne_nil sha256 hfs
  have hroot : (reduce (node sha256) (leaves sha256 es)).1 =
      (reduce (node sha256) (leaves sha256 fs)).1 := by
    rw [reduce_root sha256 hle, reduce_root sha256 hlf, hr]
  rcases lt_trichotomy (reduce (node sha256) (leaves sha256 es)).2
    (reduce (node sha256) (leaves sha256 fs)).2 with hd | hd | hd
  · -- the shallower log's leaf is an inner node of the other tree
    rcases bottom_eq_inner hle hd hroot with ⟨d, hd, q, hq, he⟩ | hc
    · rcases leaf_eq_node hes hfs hd hq he with hc | hn
      · exact Or.inr (Or.inl hc)
      · exact Or.inr (Or.inr (Or.inl hn))
    · exact Or.inr (Or.inl (hashCollision_preimages hes hfs hc))
  · exact (leafPreimages_eq_of_depth_eq hes hfs hlen hd hr).imp_right Or.inl
  · rcases bottom_eq_inner hlf hd hroot.symm with ⟨d, hd, q, hq, he⟩ | hc
    · rcases leaf_eq_node hfs hes hd hq he with hc | hn
      · exact Or.inr (Or.inl hc.symm)
      · exact Or.inr (Or.inr (Or.inr hn))
    · exact Or.inr (Or.inl (hashCollision_preimages hfs hes hc).symm)

/-- The root of a nonempty log is the digest of something hashed that is not
empty. -/
theorem root_preimage {es : List Entry} (hes : es ≠ []) :
    ∃ x ∈ preimages sha256 es, x ≠ [] ∧ sha256 x = rootDigest sha256 (leaves sha256 es) := by
  have hne := leaves_ne_nil sha256 hes
  by_cases hl : 1 < (leaves sha256 es).length
  · have hnode : ∃ q ∈ allPairs (node sha256) (leaves sha256 es),
        (reduce (node sha256) (leaves sha256 es)).1 = [node sha256 q.1 q.2] := root_eq_node hl
    obtain ⟨q, hq, hroot⟩ := hnode
    rw [reduce_root sha256 hne, List.singleton_inj] at hroot
    refine ⟨_, nodePreimages_subset hes (mem_nodePreimages hq), ?_, hroot.symm⟩
    intro hnil
    have hlen := congrArg List.length hnil
    rw [List.length_append, q.1.property, q.2.property] at hlen
    cases hlen
  · have hroot : leaves sha256 es = [rootDigest sha256 (leaves sha256 es)] := by
      rw [← reduce_root sha256 hne, reduce_of_le (Nat.not_lt.mp hl)]
    have hmem := List.mem_singleton_self (rootDigest sha256 (leaves sha256 es))
    rw [← hroot, leaves_eq_map es] at hmem
    obtain ⟨x, hx, he⟩ := List.mem_map.mp hmem
    refine ⟨x, leafPreimages_subset hes hx, ?_, by rw [he, ← leaves_eq_map]⟩
    obtain ⟨i, hi⟩ := List.mem_iff_getElem?.mp hx
    rw [getElem?_leafPreimages, Option.map_eq_some_iff] at hi
    obtain ⟨e, -, rfl⟩ := hi
    exact leafPreimage_ne_nil e i

/-- An empty log against a log with the same root. -/
theorem root_binding_nil {fs : List Entry}
    (hr : rootDigest sha256 (leaves sha256 []) = rootDigest sha256 (leaves sha256 fs)) :
    fs = [] ∨ HashCollision sha256 (preimages sha256 []) (preimages sha256 fs) := by
  by_cases hfs : fs = []
  · exact Or.inl hfs
  · have hroot : ∃ x ∈ preimages sha256 fs, x ≠ [] ∧
        sha256 x = rootDigest sha256 (leaves sha256 fs) := root_preimage hfs
    obtain ⟨x, hx, hne, he⟩ := hroot
    refine Or.inr ⟨[], List.mem_singleton_self _, x, hx, hne.symm, ?_⟩
    rw [he, ← hr]
    exact (rootDigest_nil sha256).symm

end

/-- **A Merkle root binds its log.**  Two logs with one root have the same leaf
pre-images, hence the same length; or two distinct byte strings hashed for them
have one digest; or a leaf pre-image of one of them is a pair of nodes of the
other's tree. -/
theorem root_binding (sha256 : Bytes → Digest) (es fs : List Entry) (t u : ImaTree)
    (ht : buildImaMerkleTree sha256 es = .ok t) (hu : buildImaMerkleTree sha256 fs = .ok u)
    (hr : t.root = u.root) :
    (es.length = fs.length ∧ leafPreimages es = leafPreimages fs) ∨
      HashCollision sha256 (preimages sha256 es) (preimages sha256 fs) ∨
      LeafIsNode sha256 es fs ∨ LeafIsNode sha256 fs es := by
  rw [buildImaMerkleTree_eq] at ht hu
  cases ht
  cases hu
  have hroot : rootDigest sha256 (leaves sha256 es) = rootDigest sha256 (leaves sha256 fs) :=
    Subtype.ext (hex_injective hr)
  have hlength : leafPreimages es = leafPreimages fs → es.length = fs.length := by
    intro h
    simpa [leafPreimages] using congrArg List.length h
  -- an empty log has the digest of nothing as its root
  by_cases hes : es = []
  · subst hes
    rcases root_binding_nil hroot with rfl | hc
    · exact Or.inl ⟨rfl, rfl⟩
    · exact Or.inr (Or.inl hc)
  by_cases hfs : fs = []
  · subst hfs
    rcases root_binding_nil hroot.symm with rfl | hc
    · exact Or.inl ⟨rfl, rfl⟩
    · exact Or.inr (Or.inl hc.symm)
  rcases Nat.le_total es.length fs.length with hlen | hlen
  · rcases root_binding_of_le hes hfs hlen hroot with h | h
    · exact Or.inl ⟨hlength h, h⟩
    · exact Or.inr h
  · rcases root_binding_of_le hfs hes hlen hroot.symm with h | h | h | h
    · exact Or.inl ⟨hlength h.symm, h.symm⟩
    · exact Or.inr (Or.inl h.symm)
    · exact Or.inr (Or.inr (Or.inr h))
    · exact Or.inr (Or.inr (Or.inl h))

/-- A log of three entries. -/
def toolLog : List Entry :=
  [bootAggregate, ⟨"10", "7c3e", "ima-ng", "sha256:a91b", "/usr/bin/tool"⟩,
    ⟨"10", "5e20", "ima-ng", "sha256:77c4", "/usr/lib/tool.so"⟩]

/-- The log with its last entry twice, hashed by a function that makes all roots equal. -/
theorem root_binding_toolLog :
    HashCollision (fun _ => sha256 []) (preimages (fun _ => sha256 []) toolLog)
        (preimages (fun _ => sha256 []) (toolLog ++ [toolLog[2]])) ∨
      LeafIsNode (fun _ => sha256 []) toolLog (toolLog ++ [toolLog[2]]) ∨
      LeafIsNode (fun _ => sha256 []) (toolLog ++ [toolLog[2]]) toolLog := by
  have hroot : (treeOf (fun _ => sha256 []) (leaves (fun _ => sha256 []) toolLog)).root =
      (treeOf (fun _ => sha256 []) (leaves (fun _ => sha256 []) (toolLog ++ [toolLog[2]]))).root := by
    simp [treeOf, rootDigest, leaves, reduce, pairUp, layerPairs, toolLog, node, leafHash]
  refine (root_binding (fun _ => sha256 []) toolLog (toolLog ++ [toolLog[2]]) _ _
    (buildImaMerkleTree_eq _ _) (buildImaMerkleTree_eq _ _) hroot).resolve_left ?_
  rintro ⟨hlength, -⟩
  exact absurd hlength (by decide)

/-! ## Inclusion proofs -/

/-- Everything that is hashed when a proof for an entry at an index is checked. -/
def foldPreimages (sha256 : Bytes → Digest) (e : Entry) (i : Nat) (path : List Digest) :
    List Bytes :=
  leafPreimage e i :: nodePreimages (foldPairs (node sha256) (leafHash sha256 e i) i path)

/-- **Inclusion proofs are sound.**  A path as long as the tree is deep that leads
from an entry at an index to the root is for an entry with the leaf pre-image
that the log has at that index; or two distinct byte strings, one hashed in the
fold and one in the tree, have one digest. -/
theorem inclusion_sound (sha256 : Bytes → Digest) (es : List Entry) (t : ImaTree) (hne : es ≠ [])
    (ht : buildImaMerkleTree sha256 es = .ok t) (e : Entry) (i : Nat) (path : List Digest)
    (hlen : path.length = t.depth)
    (hroot : hex (fold (node sha256) (leafHash sha256 e i) i path).val = t.root) :
    (∃ hi : i < es.length, leafPreimage e i = leafPreimage (es.get ⟨i, hi⟩) i) ∨
      HashCollision sha256 (foldPreimages sha256 e i path) (preimages sha256 es) := by
  rw [buildImaMerkleTree_eq] at ht
  cases ht
  have hfold : (reduce (node sha256) (leaves sha256 es)).1 =
      [fold (node sha256) (leafHash sha256 e i) i path] := by
    rw [reduce_root sha256 (leaves_ne_nil sha256 hne), List.singleton_inj]
    exact (Subtype.ext (hex_injective hroot)).symm
  rcases mem_of_fold_eq_root hlen hfold with hmem | hc
  · rw [leaves_eq_map] at hmem
    obtain ⟨x, hx, he⟩ := List.mem_map.mp hmem
    by_cases hxe : leafPreimage e i = x
    · subst hxe
      obtain ⟨j, hj⟩ := List.mem_iff_getElem?.mp hx
      rw [getElem?_leafPreimages, Option.map_eq_some_iff] at hj
      obtain ⟨f, hf, hfe⟩ := hj
      -- the index in the pre-image is the position in the log
      obtain rfl := index_eq_of_leafPreimage_eq hfe
      obtain ⟨hi, rfl⟩ := List.getElem?_eq_some_iff.mp hf
      exact Or.inl ⟨hi, hfe.symm⟩
    · exact Or.inr ⟨_, List.mem_cons_self, x, leafPreimages_subset hne hx, hxe, he.symm⟩
  · exact Or.inr ((hashCollision_of_collision hc).mono (List.subset_cons_self _ _)
      (nodePreimages_subset hne))

/-- The last entry of three, with its siblings: its own copy, and the node above the others. -/
theorem inclusion_sound_toolLog :
    (∃ hi : 2 < toolLog.length,
        leafPreimage toolLog[2] 2 = leafPreimage (toolLog.get ⟨2, hi⟩) 2) ∨
      HashCollision sha256
        (foldPreimages sha256 toolLog[2] 2 (siblings (node sha256) (leaves sha256 toolLog) 2))
        (preimages sha256 toolLog) := by
  have hleaf : (leaves sha256 toolLog)[2]? = some (leafHash sha256 toolLog[2] 2) := rfl
  obtain ⟨hfold, hlen⟩ := fold_siblings hleaf
  have hroot : (reduce (node sha256) (leaves sha256 toolLog)).1 =
      [rootDigest sha256 (leaves sha256 toolLog)] :=
    reduce_root sha256 (leaves_ne_nil sha256 (List.cons_ne_nil _ _))
  rw [hroot, List.singleton_inj] at hfold
  exact inclusion_sound sha256 toolLog _ (List.cons_ne_nil _ _) (buildImaMerkleTree_eq _ _) toolLog[2] 2
    (siblings (node sha256) (leaves sha256 toolLog) 2) hlen (by rw [← hfold]; rfl)

end TpmAttest
