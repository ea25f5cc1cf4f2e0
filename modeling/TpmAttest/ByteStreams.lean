import Mathlib.Data.List.Basic

/-! # Reading a stream

A stream delivers what the peer has sent in pieces, of sizes that the reader does not
choose; once everything has been delivered and the peer has closed, it delivers nothing.
A reader that loops until then has all that was sent (`recvAll_eq_some`), and one that
fills a buffer of a fixed size has the beginning of it (`recvInto_eq_some`), in whatever
pieces it came.
-/
namespace TpmAttest.ByteStreams

variable {α : Type}

/-- What one call delivers that asks for at most `size` items, if `grant` more than one have
come. -/
def recv (size grant : Nat) (pending : List α) : List α := pending.take (min (grant + 1) size)

/-- `data = b""; while True: chunk = recv(size); if not chunk: break; data += chunk`.  There is
a number for each call that succeeds; the one behind them fails. -/
def recvAll (size : Nat) : List Nat → List α → List α → Option (List α)
  | [], _, _ => none
  | grant :: grants, data, pending =>
    if (recv size grant pending).isEmpty then some data
    else recvAll size grants (data ++ recv size grant pending)
      (pending.drop (recv size grant pending).length)

/-- `while (total < size)`, with a call that asks for what is left of the buffer. -/
def recvInto (size : Nat) : List Nat → List α → List α → Option (List α)
  | [], data, _ => if data.length < size then none else some data
  | grant :: grants, data, pending =>
    if data.length < size then
      if (recv (size - data.length) grant pending).isEmpty then some data
      else recvInto size grants (data ++ recv (size - data.length) grant pending)
        (pending.drop (recv (size - data.length) grant pending).length)
    else some data

section
variable {size grant : Nat} {pending data : List α}

theorem recv_append_drop : recv size grant pending ++ pending.drop (recv size grant pending).length =
    pending := by
  rw [recv, List.length_take]
  rcases Nat.le_total (min (grant + 1) size) pending.length with h | h
  · rw [Nat.min_eq_left h, List.take_append_drop]
  · rw [Nat.min_eq_right h, List.take_of_length_le h, List.drop_length, List.append_nil]

/-- A call delivers nothing only if nothing is left. -/
theorem recv_isEmpty (hsize : 0 < size) : (recv size grant pending).isEmpty = pending.isEmpty := by
  cases pending with
  | nil => rw [recv, List.take_nil]
  | cons a pending =>
    obtain ⟨n, hn⟩ : ∃ n, min (grant + 1) size = n + 1 :=
      Nat.exists_eq_add_one_of_ne_zero (Nat.ne_of_gt (Nat.lt_min.mpr ⟨Nat.succ_pos _, hsize⟩))
    rw [recv, hn, List.take_succ_cons, List.isEmpty_cons, List.isEmpty_cons]

theorem recv_length_le : (recv size grant pending).length ≤ size :=
  Nat.le_trans (List.length_take_le _ _) (Nat.min_le_right _ _)

theorem drop_recv_length (grant : Nat) (hsize : 0 < size) (h : pending.isEmpty ≠ true) :
    (pending.drop (recv size grant pending).length).length < pending.length := by
  have hpos : 0 < pending.length := List.length_pos_iff_ne_nil.mpr fun hnil => h (by rw [hnil]; rfl)
  have hrecv : 0 < (recv size grant pending).length := by
    apply List.length_pos_iff_ne_nil.mpr
    intro hnil
    rw [← @recv_isEmpty α size grant pending hsize, hnil] at h
    exact h rfl
  rw [List.length_drop]
  omega

end

/-- **All that was sent.** -/
theorem recvAll_eq_some {size : Nat} (hsize : 0 < size) {grants : List Nat} {data pending d : List α}
    (h : recvAll size grants data pending = some d) : d = data ++ pending := by
  induction grants generalizing data pending with
  | nil => cases h
  | cons grant grants ih =>
    rw [recvAll, recv_isEmpty hsize] at h
    by_cases hend : pending.isEmpty = true
    · rw [if_pos hend] at h
      rw [← Option.some.inj h, List.isEmpty_iff.mp hend, List.append_nil]
    · rw [if_neg hend] at h
      rw [ih h, List.append_assoc, recv_append_drop]

/-- Enough calls that succeed read it. -/
theorem recvAll_of_lt {size : Nat} (hsize : 0 < size) {grants : List Nat} {data pending : List α}
    (h : pending.length < grants.length) :
    recvAll size grants data pending = some (data ++ pending) := by
  induction grants generalizing data pending with
  | nil => cases h
  | cons grant grants ih =>
    rw [recvAll, recv_isEmpty hsize]
    by_cases hend : pending.isEmpty = true
    · rw [if_pos hend, List.isEmpty_iff.mp hend, List.append_nil]
    · have hlt := drop_recv_length grant hsize hend
      rw [List.length_cons] at h
      rw [if_neg hend, ih (by omega), List.append_assoc, recv_append_drop]

/-- **The beginning of what was sent**, as much as the buffer takes. -/
theorem recvInto_eq_some {size : Nat} {grants : List Nat} {data pending d : List α}
    (hdata : data.length ≤ size) (h : recvInto size grants data pending = some d) :
    d = (data ++ pending).take size := by
  have hfull : ∀ data pending : List α, data.length ≤ size → ¬ data.length < size →
      data = (data ++ pending).take size := by
    intro data pending hle hlt
    rw [← Nat.le_antisymm hle (Nat.le_of_not_lt hlt), List.take_left]
  induction grants generalizing data pending with
  | nil =>
    rw [recvInto] at h
    by_cases hlt : data.length < size
    · rw [if_pos hlt] at h
      cases h
    · rw [if_neg hlt] at h
      rw [← Option.some.inj h]
      exact hfull _ _ hdata hlt
  | cons grant grants ih =>
    rw [recvInto] at h
    by_cases hlt : data.length < size
    · have hsize := Nat.sub_pos_of_lt hlt
      rw [if_pos hlt, recv_isEmpty hsize] at h
      by_cases hend : pending.isEmpty = true
      · rw [if_pos hend] at h
        rw [← Option.some.inj h, List.isEmpty_iff.mp hend, List.append_nil, List.take_of_length_le hdata]
      · rw [if_neg hend] at h
        have hle : (data ++ recv (size - data.length) grant pending).length ≤ size := by
          have hrecv := @recv_length_le α (size - data.length) grant pending
          rw [List.length_append]
          omega
        rw [ih hle h, List.append_assoc, recv_append_drop]
    · rw [if_neg hlt] at h
      rw [← Option.some.inj h]
      exact hfull _ _ hdata hlt

theorem recvInto_of_lt {size : Nat} {grants : List Nat} {data pending : List α}
    (hdata : data.length ≤ size) (h : pending.length < grants.length) :
    recvInto size grants data pending = some ((data ++ pending).take size) := by
  have hsome : ∃ d, recvInto size grants data pending = some d := by
    induction grants generalizing data pending with
    | nil => cases h
    | cons grant grants ih =>
      rw [recvInto]
      by_cases hlt : data.length < size
      · have hsize := Nat.sub_pos_of_lt hlt
        rw [if_pos hlt, recv_isEmpty hsize]
        by_cases hend : pending.isEmpty = true
        · exact ⟨data, if_pos hend⟩
        · have hshort := drop_recv_length grant hsize hend
          have hrecv := @recv_length_le α (size - data.length) grant pending
          rw [List.length_cons] at h
          rw [if_neg hend]
          exact ih (by rw [List.length_append]; omega) (by omega)
      · exact ⟨data, if_neg hlt⟩
  obtain ⟨d, hd⟩ := hsome
  rw [hd, recvInto_eq_some hdata hd]

end TpmAttest.ByteStreams
