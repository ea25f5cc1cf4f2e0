import Mathlib.Data.List.Infix

/-! # Where a quoted key occurs in a text

A text has strings between quotes, and inside a string every quote is escaped: it
comes after an escape character (`Escaped`).  So a quoted key that is searched for
occurs in a string only at its end, where the string is the key or ends in an
escaped quote and the key (`behind_string`), and it occurs nowhere else, if no
string is followed by the key.
-/
namespace TpmAttest.QuotedStrings

variable {α : Type}

/-- Every quote comes after an escape character; `previous` is what comes before
the text. -/
def Escaped (quote escape : α) : α → List α → Prop
  | _, [] => True
  | previous, a :: s => (a = quote → previous = escape) ∧ Escaped quote escape a s

/-- The pattern that is searched for. -/
def quoted (quote : α) (key : List α) : List α := quote :: (key ++ [quote])

/-- The string is the key, or ends in a quote and the key. -/
def EndsInKey (quote : α) (key s : List α) : Prop := quote :: key <:+ quote :: s

instance [DecidableEq α] (quote : α) (key s : List α) : Decidable (EndsInKey quote key s) :=
  inferInstanceAs (Decidable (_ <:+ _))

/-- What stands behind each occurrence of a pattern, from the first one on. -/
def behind [DecidableEq α] (pattern : List α) : List α → List (List α)
  | [] => []
  | a :: s =>
    if pattern <+: a :: s then (a :: s).drop pattern.length :: behind pattern s
    else behind pattern s

section
variable {quote escape : α} {key s t : List α}

theorem escaped_of_notMem (h : quote ∉ s) (previous : α) : Escaped quote escape previous s := by
  induction s generalizing previous with
  | nil => trivial
  | cons a s ih =>
    rw [List.mem_cons, not_or] at h
    exact ⟨fun ha => absurd ha.symm h.1, ih h.2 a⟩

theorem Escaped.append {previous : α} (hs : Escaped quote escape previous s)
    (ht : ∀ a, Escaped quote escape a t) : Escaped quote escape previous (s ++ t) := by
  induction s generalizing previous with
  | nil => exact ht previous
  | cons a s ih => exact ⟨hs.1, ih hs.2⟩

/-- A text of escaped parts is escaped. -/
theorem escaped_flatMap {β : Type} {f : β → List α} {l : List β}
    (h : ∀ b ∈ l, ∀ a, Escaped quote escape a (f b)) (previous : α) :
    Escaped quote escape previous (l.flatMap f) := by
  induction l generalizing previous with
  | nil => trivial
  | cons b l ih =>
    rw [List.forall_mem_cons] at h
    exact (h.1 previous).append fun a => ih h.2 a

theorem quoted_prefix_cons {a : α} :
    quoted quote key <+: a :: s ↔ quote = a ∧ key ++ [quote] <+: s := List.cons_prefix_cons

/-- A key that stands at the beginning of what is left of a string, and has a quote
behind it, is all that is left. -/
theorem key_prefix_iff {previous : α} {rest : List α} (hs : Escaped quote escape previous s)
    (hprevious : previous ≠ escape) (hquote : quote ∉ key) (hescape : escape ∉ key) :
    key ++ [quote] <+: s ++ quote :: rest ↔ key = s := by
  induction key generalizing previous s with
  | nil =>
    cases s with
    | nil => simp
    | cons a s =>
      have ha : quote ≠ a := fun ha => hprevious (hs.1 ha.symm)
      simp [ha]
  | cons k key ih =>
    rw [List.mem_cons, not_or] at hquote hescape
    cases s with
    | nil => simp [Ne.symm hquote.1]
    | cons a s =>
      by_cases hk : k = a
      · subst hk
        have hih := ih hs.2 (Ne.symm hescape.1) hquote.2 hescape.2
        simpa using hih
      · simp [hk]

theorem not_suffix_self (a : α) (l : List α) : ¬ a :: l <:+ l :=
  fun h => Nat.not_succ_le_self _ h.length_le

theorem cons_suffix_cons_iff {a b : α} : a :: key <:+ b :: s ↔ (a = b ∧ key = s) ∨ a :: key <:+ s := by
  rw [List.suffix_cons_iff, List.cons.injEq]

variable [DecidableEq α]

/-- A pattern with something behind it occurs where the pattern is found and has that
behind it. -/
theorem append_infix_iff {pattern tail : List α} (h : pattern ≠ []) (s : List α) :
    pattern ++ tail <:+: s ↔ ∃ r ∈ behind pattern s, tail <+: r := by
  induction s with
  | nil =>
    have hnil : ¬ pattern ++ tail <:+: [] := by
      rw [List.infix_nil]
      exact List.append_ne_nil_of_left_ne_nil h tail
    simp [behind, hnil]
  | cons a s ih =>
    have hhere : pattern ++ tail <+: a :: s ↔
        pattern <+: a :: s ∧ tail <+: (a :: s).drop pattern.length := by
      constructor
      · intro hp
        refine ⟨(List.prefix_append pattern tail).trans hp, ?_⟩
        obtain ⟨r, hr⟩ := hp
        rw [← hr, List.append_assoc, List.drop_left]
        exact List.prefix_append tail r
      · rintro ⟨⟨r, hr⟩, ht⟩
        rw [← hr, List.drop_left] at ht
        rw [← hr]
        exact (List.prefix_append_right_inj pattern).mpr ht
    rw [List.infix_cons_iff, ih, hhere, behind]
    by_cases hp : pattern <+: a :: s
    · simp [hp]
    · simp [hp]

/-- Nothing is found where there is no quote. -/
theorem behind_append (h : quote ∉ s) (rest : List α) :
    behind (quoted quote key) (s ++ rest) = behind (quoted quote key) rest := by
  induction s with
  | nil => rfl
  | cons a s ih =>
    rw [List.mem_cons, not_or] at h
    rw [List.cons_append, behind, if_neg fun hp => h.1 (quoted_prefix_cons.mp hp).1, ih h.2]

section
variable (hne : quote ≠ escape) (hquote : quote ∉ key) (hescape : escape ∉ key)
include hne hquote hescape

/-- From a quote in a string on. -/
theorem behind_quote {rest : List α} (hs : Escaped quote escape quote s) :
    behind (quoted quote key) (quote :: (s ++ quote :: rest)) =
      (if key = s then [rest] else []) ++ behind (quoted quote key) (s ++ quote :: rest) := by
  have hfound : quoted quote key <+: quote :: (s ++ quote :: rest) ↔ key = s := by
    rw [quoted_prefix_cons, key_prefix_iff hs hne hquote hescape]
    simp
  by_cases hk : key = s
  · rw [behind, if_pos (hfound.mpr hk), if_pos hk, ← hk]
    simp [quoted]
  · rw [behind, if_neg (mt hfound.mp hk), if_neg hk, List.nil_append]

/-- From anywhere in a string on. -/
theorem behind_escaped {previous : α} {rest : List α} (hs : Escaped quote escape previous s)
    (hrest : ¬ key ++ [quote] <+: rest) :
    behind (quoted quote key) (s ++ quote :: rest) =
      (if quote :: key <:+ s then [rest] else []) ++ behind (quoted quote key) rest := by
  induction s generalizing previous with
  | nil =>
    rw [List.nil_append, behind, if_neg fun hp => hrest (quoted_prefix_cons.mp hp).2]
    simp
  | cons a s ih =>
    by_cases ha : quote = a
    · subst ha
      rw [List.cons_append, behind_quote hne hquote hescape hs.2, ih hs.2, ← List.append_assoc]
      by_cases hk : key = s
      · subst hk
        simp [not_suffix_self]
      · simp [hk, cons_suffix_cons_iff]
    · rw [List.cons_append, behind, if_neg fun hp => ha (quoted_prefix_cons.mp hp).1, ih hs.2]
      simp [ha, cons_suffix_cons_iff]

/-- **A quoted key occurs in a string only at its end.** -/
theorem behind_string {rest : List α} (hs : Escaped quote escape quote s)
    (hrest : ¬ key ++ [quote] <+: rest) :
    behind (quoted quote key) (quote :: (s ++ quote :: rest)) =
      (if EndsInKey quote key s then [rest] else []) ++ behind (quoted quote key) rest := by
  rw [behind_quote hne hquote hescape hs, behind_escaped hne hquote hescape hs hrest,
    ← List.append_assoc]
  by_cases hk : key = s
  · subst hk
    simp [EndsInKey, not_suffix_self]
  · simp [EndsInKey, hk, cons_suffix_cons_iff]

end
end
end TpmAttest.QuotedStrings
