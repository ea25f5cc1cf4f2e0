import TpmAttest.BaselineHistory
import TpmAttest.MerkleBinding

/-! # What an accepted report says about the log

The agents send no log, only the root of its tree, and the server compares two roots.  Two
reports whose roots it takes for one were made over logs with the same lines, up to a
collision of the hash or a line that passes for a node.  So the log behind an accepted
report is the log behind an enrolled one, unless the baseline is older than the run or there
was none (`accepted_log`).
-/
namespace TpmAttest

open Python Transactional Program

/-- The report has the root and the number of leaves of the log's tree. -/
def Measures (sha256 : Bytes → Digest) (report : AttestationReport) (es : List Entry) : Prop :=
  ∃ t, buildImaMerkleTree sha256 es = .ok t ∧ report.imaMerkleRoot = t.root ∧
    report.imaLeafCount = t.leafCount

/-- The logs have the same hashed lines at the same places; or two distinct byte strings that
are hashed for them have one digest; or a line of one is a pair of nodes of the other. -/
def SameLines (sha256 : Bytes → Digest) (es fs : List Entry) : Prop :=
  leafPreimages es = leafPreimages fs ∨ HashCollision sha256 (preimages sha256 es) (preimages sha256 fs) ∨
    LeafIsNode sha256 es fs ∨ LeafIsNode sha256 fs es

section
variable {sha256 : Bytes → Digest} {es fs : List Entry}

theorem SameLines.symm (h : SameLines sha256 es fs) : SameLines sha256 fs es := by
  rcases h with heq | hcollision | hnode | hnode
  · exact Or.inl heq.symm
  · exact Or.inr (Or.inl hcollision.symm)
  · exact Or.inr (Or.inr (Or.inr hnode))
  · exact Or.inr (Or.inr (Or.inl hnode))

theorem sameLines_of_rootDigest_eq (hes : es ≠ []) (hfs : fs ≠ [])
    (h : rootDigest sha256 (leaves sha256 es) = rootDigest sha256 (leaves sha256 fs)) :
    SameLines sha256 es fs := by
  rcases Nat.le_total es.length fs.length with hlength | hlength
  · exact root_binding_of_le hes hfs hlength h
  · have hsame : SameLines sha256 fs es := root_binding_of_le hfs hes hlength h.symm
    exact hsame.symm

/-- Lowering keeps a digest in hex. -/
theorem lower_hex (platform : Platform) (d : Digest) : platform.lower (hex d.val) = hex d.val := by
  have hdigit : ∀ n < 16, (hexDigit n).toLower = hexDigit n ∧ isPlain (hexDigit n) = true := by
    decide
  have hplain : (hex d.val).toList.all isPlain = true := by
    rw [List.all_eq_true]
    intro c hc
    obtain ⟨n, hn, rfl⟩ := mem_hex hc
    exact (hdigit n hn).2
  have hlower : (hex d.val).toList.map Char.toLower = (hex d.val).toList := by
    refine (List.map_congr_left fun c hc => ?_).trans (List.map_id _)
    obtain ⟨n, hn, rfl⟩ := mem_hex hc
    exact (hdigit n hn).1
  rw [Platform.lower, lower_plain _ hplain, hlower, String.ofList_toList]

/-- What a measured log gives to a report that passes the structural check. -/
theorem Measures.root_eq {platform : Platform} {report : AttestationReport}
    (h : Measures sha256 report es) (hroot : checkImaRoot platform report = none) :
    es ≠ [] ∧ report.imaMerkleRoot = hex (rootDigest sha256 (leaves sha256 es)).val := by
  obtain ⟨t, htree, himaRoot, hcount⟩ := h
  rw [buildImaMerkleTree_eq] at htree
  obtain rfl := Except.ok.inj htree
  refine ⟨?_, himaRoot⟩
  rintro rfl
  unfold checkImaRoot at hroot
  split_ifs at hroot with _ _ hleaves
  exact hleaves (Nat.le_of_eq hcount)

/-- **Two reports whose roots are taken for one** measure logs with the same lines. -/
theorem sameLines_of_lower_eq {platform : Platform} {report report' : AttestationReport}
    (hroot : checkImaRoot platform report = none) (hroot' : checkImaRoot platform report' = none)
    (heq : platform.lower report.imaMerkleRoot =
      platform.lower (platform.lower (platform.lower report'.imaMerkleRoot)))
    (hes : Measures sha256 report es) (hfs : Measures sha256 report' fs) : SameLines sha256 es fs := by
  obtain ⟨hne, hes⟩ := hes.root_eq hroot
  obtain ⟨hne', hfs⟩ := hfs.root_eq hroot'
  rw [hes, hfs, lower_hex, lower_hex, lower_hex, lower_hex] at heq
  exact sameLines_of_rootDigest_eq hne hne' (Subtype.ext (hex_injective heq))

end

/-- **What an accepted report says about the log.**  At a lookup of its request there was no
effective baseline, or one that was there at the start, or that of an enrollment before,
which had been verified; and then any logs that the two reports measure have the same
lines. -/
theorem accepted_log {ι : Type} [DecidableEq ι] (platform : Platform) (policy : Policy)
    (db : Database) (arrivals : ι → Arrival) (tr : List (ServerEvent ι))
    (c : Config Database ι Tx.Ret Exn Response)
    (h : Run exec databaseFaults unguarded (start platform policy db arrivals) tr c) (i : ι)
    (report : AttestationReport) (hreq : (arrivals i).request = .attest report)
    (token expiresAt : String) (hret : c.threads i = .ret (.valid token expiresAt)) :
    ∃ t₁ t₂ root, tr = t₁ ++ ⟨i, .selectActiveRoot, .ok root⟩ :: t₂ ∧
      ∀ known, root = some known → (∃ row ∈ db.baselines.contents, row.imaRoot = known) ∨
        ∃ j row enrolled, Enrolled platform policy arrivals t₁ j row ∧ row.imaRoot = known ∧
          (arrivals j).request = .enroll enrolled ∧ ∀ sha256 es fs, Measures sha256 report es →
            Measures sha256 enrolled fs → SameLines sha256 es fs := by
  have hpassed := passed_of_valid h hreq hret
  obtain ⟨t₁, t₂, root, htr, hknown⟩ := root_of_passed h hpassed
  refine ⟨t₁, t₂, root, htr, fun known hroot => ?_⟩
  obtain ⟨heq, row, hrow | ⟨j, henrolled⟩, himaRoot⟩ := hknown known hroot
  · exact Or.inl ⟨row, hrow, himaRoot⟩
  · obtain ⟨enrolled, _, _, hreq', hrow, _, _, _, hvetted⟩ := id henrolled
    refine Or.inr ⟨j, row, enrolled, henrolled, himaRoot, hreq', fun sha256 es fs hes hfs => ?_⟩
    rw [← himaRoot, hrow] at heq
    exact sameLines_of_lower_eq hpassed.imaRoot hvetted.verified.passed.imaRoot heq hes hfs

theorem accepted_log_enrolled :
    ∃ t₁ t₂ root, enrolledRun.1 = t₁ ++ ⟨(true, true), .selectActiveRoot, .ok root⟩ :: t₂ ∧
      ∀ known, root = some known →
        (∃ row ∈ Database.empty.baselines.contents, row.imaRoot = known) ∨
        ∃ j row enrolled, Enrolled lenientPlatform pcr7Policy enrollThenAttest t₁ j row ∧
          row.imaRoot = known ∧ (enrollThenAttest j).request = .enroll enrolled ∧
          ∀ sha256 es fs, Measures sha256 (sampleReport "decade") es → Measures sha256 enrolled fs →
            SameLines sha256 es fs :=
  accepted_log lenientPlatform pcr7Policy .empty enrollThenAttest _ _ enrolledRun_run (true, true)
    (sampleReport "decade") rfl "token" "2024-06-01T12:05:00+00:00"
    (returned_eq_some.mp (by decide +kernel))

end TpmAttest
