import TpmAttest.PythonBytes

/-! # What the lenient base64 decoder reads

`b64decode` skips every character outside the alphabet, and stops at padding that
completes a group of four.  So of a text only the characters of the alphabet count, up
to that padding or to the end (`ReadsUpTo`), and the bytes are theirs (`a2bBase64_eq_ok`).
The loop is followed with the state that the text so far leaves (`LeftBy`).
-/
namespace TpmAttest.Python

/-! ## Groups of four -/

/-- The bytes of the values, six bits each; those of an unfinished group as far as
they are complete. -/
def decodeGroups : List Nat → Bytes
  | a :: b :: c :: d :: s =>
    UInt8.ofNat (a * 4 + b / 16) :: UInt8.ofNat (b % 16 * 16 + c / 4) ::
      UInt8.ofNat (c % 4 * 64 + d) :: decodeGroups s
  | [a, b, c] => [UInt8.ofNat (a * 4 + b / 16), UInt8.ofNat (b % 16 * 16 + c / 4)]
  | [a, b] => [UInt8.ofNat (a * 4 + b / 16)]
  | _ => []

theorem length_decodeGroups (vs : List Nat) : (decodeGroups vs).length = vs.length * 3 / 4 := by
  fun_induction decodeGroups vs with
  | case1 a b c d s ih =>
    simp only [List.length_cons, ih]
    omega
  | case2 | case3 => simp
  | case4 vs h4 h3 h2 =>
    match vs with
    | [] => simp
    | [a] => simp
    | [a, b] => exact absurd rfl (h2 a b)
    | [a, b, c] => exact absurd rfl (h3 a b c)
    | a :: b :: c :: d :: s => exact absurd rfl (h4 a b c d s)

/-- The bits of the unfinished group that make no byte yet. -/
def leftover : List Nat → Nat
  | _ :: _ :: _ :: _ :: s => leftover s
  | [_, _, c] => c % 4
  | [_, b] => b % 16
  | [a] => a
  | [] => 0

/-- The decoder's state after these values, and some padding. -/
def stateOf (vs : List Nat) (pads : Nat) : Base64State :=
  ⟨vs.length % 4, leftover vs, pads, decodeGroups vs⟩

/-- Bytes that are written already stay in front. -/
theorem push_append (q l p v : Nat) (b d : Bytes) :
    (Base64State.mk q l p (b ++ d)).push v =
      { (Base64State.mk q l p d).push v with
        binData := b ++ ((Base64State.mk q l p d).push v).binData } := by
  unfold Base64State.push
  dsimp only
  split <;> simp

/-- The next value. -/
theorem push_stateOf (vs : List Nat) (pads v : Nat) :
    (stateOf vs pads).push v = stateOf (vs ++ [v]) 0 := by
  fun_induction leftover vs with
  | case1 a b c d s ih =>
    have hmod : ∀ n : Nat, (n + 1 + 1 + 1 + 1) % 4 = n % 4 := fun n => by omega
    have hhead : stateOf (a :: b :: c :: d :: s) pads =
        ⟨s.length % 4, leftover s, pads, decodeGroups [a, b, c, d] ++ decodeGroups s⟩ := by
      simp only [stateOf, List.length_cons, hmod]
      rfl
    have htail : stateOf (a :: b :: c :: d :: s ++ [v]) 0 =
        { stateOf (s ++ [v]) 0 with
          binData := decodeGroups [a, b, c, d] ++ (stateOf (s ++ [v]) 0).binData } := by
      simp only [stateOf, List.cons_append, List.length_cons, hmod]
      rfl
    rw [hhead, push_append, htail, ← ih]
    rfl
  | case2 | case3 | case4 | case5 => simp [stateOf, leftover, decodeGroups, Base64State.push]

/-! ## Texts -/

/-- The values of the characters of the alphabet. -/
def values (u : List Char) : List Nat := u.filterMap base64Value

theorem values_append (u v : List Char) : values (u ++ v) = values u ++ values v :=
  List.filterMap_append

/-- A padding character since the last character of the alphabet. -/
def Padded (u : List Char) : Prop := ∃ a b, u = a ++ '=' :: b ∧ values b = []

/-- Padding after the text completes a group: three values of it are there, or two and
padding. -/
def Completes (u : List Char) : Prop :=
  (values u).length % 4 = 3 ∨ (values u).length % 4 = 2 ∧ Padded u

/-- No padding in the text completes a group. -/
def Unfinished (u : List Char) : Prop := ∀ a b, u = a ++ '=' :: b → ¬ Completes a

/-- Of the text the decoder reads `u`: up to padding that completes a group, or to the
end, if no group is left unfinished there. -/
def ReadsUpTo (s u : List Char) : Prop :=
  Unfinished u ∧ ((∃ v, s = u ++ '=' :: v ∧ Completes u) ∨ s = u ∧ (values u).length % 4 = 0)

theorem padded_snoc {u : List Char} {c : Char} (hc : c ≠ '=') :
    Padded (u ++ [c]) ↔ Padded u ∧ base64Value c = none := by
  constructor
  · rintro ⟨a, b, hab, hb⟩
    rcases List.eq_nil_or_concat b with rfl | ⟨b, d, rfl⟩
    · exact absurd (List.append_inj_right' hab rfl) (by simpa using hc)
    · rw [List.concat_eq_append, ← List.cons_append, ← List.append_assoc] at hab
      obtain ⟨hu, hd⟩ := List.append_inj' hab rfl
      obtain rfl := (List.cons.inj hd).1
      rw [List.concat_eq_append, values_append, List.append_eq_nil_iff] at hb
      refine ⟨⟨a, b, hu, hb.1⟩, ?_⟩
      have hnone := hb.2
      cases hvalue : base64Value c with
      | none => rfl
      | some v => simp [values, hvalue] at hnone
  · rintro ⟨⟨a, b, rfl, hb⟩, hnone⟩
    refine ⟨a, b ++ [c], by simp, ?_⟩
    rw [values_append, hb]
    simp [values, hnone]

/-- A text with one character more. -/
theorem unfinished_snoc {u : List Char} {c : Char} (h : Unfinished u)
    (hc : c = '=' → ¬ Completes u) : Unfinished (u ++ [c]) := by
  intro a b hab
  rcases List.eq_nil_or_concat b with rfl | ⟨b, d, rfl⟩
  · obtain ⟨rfl, hd⟩ := List.append_inj' hab rfl
    exact hc (List.cons.inj hd).1
  · rw [List.concat_eq_append, ← List.cons_append, ← List.append_assoc] at hab
    exact h a b (List.append_inj' hab rfl).1

/-- At padding that completes a group the decoder stops. -/
theorem eq_of_reads {w s u : List Char} (hw : Unfinished w) (hcompletes : Completes w)
    (h : ReadsUpTo (w ++ '=' :: s) u) : u = w := by
  obtain ⟨hu, ⟨v, huv, hcompletes'⟩ | ⟨rfl, -⟩⟩ := h
  · rcases List.append_eq_append_iff.mp huv with ⟨t, rfl, ht⟩ | ⟨t, rfl, ht⟩
    · cases t with
      | nil => exact List.append_nil w
      | cons c t =>
        obtain rfl : '=' = c := (List.cons.inj ht).1
        exact absurd hcompletes (hu w t rfl)
    · cases t with
      | nil => exact (List.append_nil u).symm
      | cons c t =>
        obtain rfl : '=' = c := (List.cons.inj ht).1
        exact absurd hcompletes' (hw u t rfl)
  · exact absurd hcompletes (hu w s rfl)

/-! ## The loop -/

section Loop
variable {st : Base64State} {c : Char} {s : List Char}

theorem a2bBase64_skip (hpad : c ≠ '=') (h : base64Value c = none) :
    a2bBase64 st (c :: s) = a2bBase64 st s := by
  rw [a2bBase64, if_neg hpad, h]

theorem a2bBase64_push {v : Nat} (hpad : c ≠ '=') (h : base64Value c = some v) :
    a2bBase64 st (c :: s) = a2bBase64 (st.push v) s := by
  rw [a2bBase64, if_neg hpad, h]

theorem a2bBase64_early (h : st.quadPos < 2) : a2bBase64 st ('=' :: s) = a2bBase64 st s := by
  rw [a2bBase64, if_pos rfl, if_neg (Nat.not_le.mpr h)]

theorem a2bBase64_pad (h : 2 ≤ st.quadPos) (hfew : st.quadPos + (st.pads + 1) < 4) :
    a2bBase64 st ('=' :: s) = a2bBase64 { st with pads := st.pads + 1 } s := by
  rw [a2bBase64, if_pos rfl, if_pos h, if_neg (Nat.not_le.mpr hfew)]

theorem a2bBase64_stop (h : 2 ≤ st.quadPos) (hfull : 4 ≤ st.quadPos + (st.pads + 1)) :
    a2bBase64 st ('=' :: s) = .ok st.binData := by
  rw [a2bBase64, if_pos rfl, if_pos h, if_pos hfull]

end Loop

/-- The end of the input. -/
theorem finish_stateOf (vs : List Nat) (pads : Nat) (bytes : Bytes) :
    (stateOf vs pads).finish = .ok bytes ↔ vs.length % 4 = 0 ∧ bytes = decodeGroups vs := by
  unfold Base64State.finish stateOf
  dsimp only
  split
  · rename_i h0
    simp [h0, eq_comm]
  · rename_i h1
    simp [h1]
  · rename_i h0 h1
    exact iff_of_false (by simp) fun h => h0 h.1

/-- The decoder is in this state after the text. -/
structure LeftBy (w : List Char) (st : Base64State) : Prop where
  state : st = stateOf (values w) st.pads
  unfinished : Unfinished w
  few : st.pads ≤ 1
  padded : st.pads = 1 ↔ (values w).length % 4 = 2 ∧ Padded w

section LeftBy
variable {w : List Char} {st : Base64State}

theorem LeftBy.quadPos (h : LeftBy w st) : st.quadPos = (values w).length % 4 := by
  rw [h.state]
  rfl

/-- Padding that completes a group. -/
theorem LeftBy.stop (h : LeftBy w st) (hcompletes : Completes w) (s : List Char) :
    a2bBase64 st ('=' :: s) = .ok (decodeGroups (values w)) := by
  have hquad := h.quadPos
  have hfull : 2 ≤ st.quadPos ∧ 4 ≤ st.quadPos + (st.pads + 1) := by
    rcases hcompletes with h3 | h2
    · omega
    · have h1 := h.padded.mpr h2
      omega
  rw [a2bBase64_stop hfull.1 hfull.2, h.state]
  rfl

/-- Padding that does not complete a group is counted if it can. -/
theorem LeftBy.step_pad (h : LeftBy w st) (hcompletes : ¬ Completes w) :
    ∃ st', LeftBy (w ++ ['=']) st' ∧ ∀ s, a2bBase64 st ('=' :: s) = a2bBase64 st' s := by
  have hvalues : values (w ++ ['=']) = values w := by
    rw [values_append]
    exact List.append_nil _
  have hw : Unfinished (w ++ ['=']) := unfinished_snoc h.unfinished fun _ => hcompletes
  have hthree : (values w).length % 4 ≠ 3 := fun h3 => hcompletes (Or.inl h3)
  have hzero : st.pads = 0 := by
    have hfew := h.few
    by_contra hne
    exact hcompletes (Or.inr (h.padded.mp (by omega)))
  have hquad := h.quadPos
  by_cases hearly : st.quadPos < 2
  · refine ⟨st, ⟨?_, hw, h.few, ?_⟩, fun s => a2bBase64_early hearly⟩
    · rw [hvalues]
      exact h.state
    · rw [hvalues]
      exact iff_of_false (by omega) fun h2 => by omega
  · refine ⟨{ st with pads := st.pads + 1 }, ⟨?_, hw, ?_, ?_⟩, fun s => a2bBase64_pad ?_ ?_⟩
    · rw [hvalues, h.state]
      rfl
    · change st.pads + 1 ≤ 1
      omega
    · rw [hvalues]
      exact iff_of_true (by rw [hzero]) ⟨by omega, w, [], rfl, rfl⟩
    · omega
    · omega

/-- Any other character is skipped or pushed. -/
theorem LeftBy.step_char (h : LeftBy w st) {c : Char} (hpad : c ≠ '=') :
    ∃ st', LeftBy (w ++ [c]) st' ∧ ∀ s, a2bBase64 st (c :: s) = a2bBase64 st' s := by
  have hw : Unfinished (w ++ [c]) := unfinished_snoc h.unfinished fun heq => absurd heq hpad
  have hpadded := padded_snoc (u := w) hpad
  cases hvalue : base64Value c with
  | none =>
    have hvalues : values (w ++ [c]) = values w := by
      rw [values_append]
      simp [values, hvalue]
    refine ⟨st, ⟨?_, hw, h.few, ?_⟩, fun s => a2bBase64_skip hpad hvalue⟩
    · rw [hvalues]
      exact h.state
    · rw [hvalues, hpadded, h.padded]
      simp [hvalue]
  | some v =>
    have hvalues : values (w ++ [c]) = values w ++ [v] := by
      rw [values_append]
      simp [values, hvalue]
    refine ⟨stateOf (values (w ++ [c])) 0, ⟨rfl, hw, Nat.zero_le 1, ?_⟩, fun s => ?_⟩
    · rw [hpadded]
      simp [stateOf, hvalue]
    · rw [a2bBase64_push hpad hvalue, h.state, push_stateOf, hvalues]

end LeftBy

/-- Reading on. -/
theorem a2bBase64_leftBy {w : List Char} {st : Base64State} (h : LeftBy w st) (s : List Char)
    (bytes : Bytes) : a2bBase64 st s = .ok bytes ↔
      ∃ u, ReadsUpTo (w ++ s) u ∧ bytes = decodeGroups (values u) := by
  induction s generalizing w st with
  | nil =>
    have hread : ∀ u, ReadsUpTo w u ↔ u = w ∧ (values w).length % 4 = 0 := by
      intro u
      constructor
      · rintro ⟨-, ⟨v, rfl, hcompletes⟩ | ⟨rfl, hlength⟩⟩
        · exact absurd hcompletes (h.unfinished u v rfl)
        · exact ⟨rfl, hlength⟩
      · rintro ⟨rfl, hlength⟩
        exact ⟨h.unfinished, Or.inr ⟨rfl, hlength⟩⟩
    rw [List.append_nil, a2bBase64, h.state, finish_stateOf]
    constructor
    · rintro ⟨hlength, hbytes⟩
      exact ⟨w, (hread w).mpr ⟨rfl, hlength⟩, hbytes⟩
    · rintro ⟨u, hu, hbytes⟩
      obtain ⟨rfl, hlength⟩ := (hread u).mp hu
      exact ⟨hlength, hbytes⟩
  | cons c s ih =>
    by_cases hstop : c = '=' ∧ Completes w
    · obtain ⟨rfl, hcompletes⟩ := hstop
      rw [h.stop hcompletes]
      constructor
      · intro hok
        exact ⟨w, ⟨h.unfinished, Or.inl ⟨s, rfl, hcompletes⟩⟩, (Except.ok.inj hok).symm⟩
      · rintro ⟨u, hreads, rfl⟩
        rw [eq_of_reads h.unfinished hcompletes hreads]
    · have hstep : ∃ st', LeftBy (w ++ [c]) st' ∧ ∀ s, a2bBase64 st (c :: s) = a2bBase64 st' s := by
        by_cases hpad : c = '='
        · subst hpad
          exact h.step_pad fun hcompletes => hstop ⟨rfl, hcompletes⟩
        · exact h.step_char hpad
      obtain ⟨st', hst', hnext⟩ := hstep
      rw [hnext, ih hst', List.append_assoc, List.singleton_append]

/-- **What the decoder makes of a text**: the bytes of the characters that it reads. -/
theorem a2bBase64_eq_ok (s : List Char) (bytes : Bytes) :
    a2bBase64 ⟨0, 0, 0, []⟩ s = .ok bytes ↔ ∃ u, ReadsUpTo s u ∧ bytes = decodeGroups (values u) := by
  have hstart : LeftBy [] ⟨0, 0, 0, []⟩ := by
    refine ⟨rfl, fun a b hab => by simp at hab, Nat.zero_le 1, ?_⟩
    exact iff_of_false Nat.zero_ne_one fun h => absurd h.1 (by decide)
  exact a2bBase64_leftBy hstart s bytes

theorem b64decode_eq_ok (s : String) (bytes : Bytes) : b64decode s = .ok bytes ↔
    (∀ c ∈ s.toList, c.toNat < 128) ∧ ∃ u, ReadsUpTo s.toList u ∧ bytes = decodeGroups (values u) := by
  have hascii : (s.toList.all (·.toNat < 128)) = true ↔ ∀ c ∈ s.toList, c.toNat < 128 := by
    simp
  rw [← hascii, ← a2bBase64_eq_ok, b64decode]
  split
  · rename_i h
    simp [h]
  · rename_i h
    exact iff_of_false (by simp) fun hok => h hok.1

/-! ## Standard base64 -/

/-- Characters of the alphabet and the padding that fills up the last group of four. -/
def IsStandardBase64 (s : String) : Prop :=
  s.toList.length % 4 = 0 ∧ ∃ d pad, s.toList = d ++ pad ∧
    (∀ c ∈ d, (base64Value c).isSome = true) ∧ pad ∈ [[], ['='], ['=', '=']]

end TpmAttest.Python
