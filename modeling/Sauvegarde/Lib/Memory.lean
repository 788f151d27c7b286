import Mathlib.Data.List.TakeDrop

/-!
# Writing into a buffer

Memory that was allocated with a length, written piece by piece. A write that does not fit has no result.
-/

namespace Memory

variable {α : Type}

/-- The buffer after data are copied to a position. -/
def write (buffer : List α) (pos : Nat) (data : List α) : Option (List α) :=
  if pos + data.length ≤ buffer.length then some (buffer.take pos ++ data ++ buffer.drop (pos + data.length)) else none

/-- The data that are copied from a position on: none when they are not all in the buffer. -/
def read (buffer : List α) (pos n : Nat) : Option (List α) :=
  if pos + n ≤ buffer.length then some ((buffer.drop pos).take n) else none

/-- The buffer begins with what was written so far, and that is as long as the position says. -/
structure Filled (buffer : List α) (pos : Nat) (done : List α) : Prop where
  le : pos ≤ buffer.length
  take : buffer.take pos = done

/-- A write has no result exactly when it does not fit. -/
theorem write_eq_none {buffer : List α} {pos : Nat} {data : List α} (h : buffer.length < pos + data.length) :
    write buffer pos data = none := if_neg (by omega)

/-- A write leaves the buffer as long as it was. -/
theorem length_write {buffer buffer' : List α} {pos : Nat} {data : List α} (h : write buffer pos data = some buffer') :
    buffer'.length = buffer.length := by
  unfold write at h
  split at h
  · rw [← Option.some.inj h, List.length_append, List.length_append, List.length_take, List.length_drop]
    omega
  · exact absurd h.symm (Option.some_ne_none _)

/-- What is in the buffer can be read. -/
theorem read_eq {buffer : List α} {pos n : Nat} (h : pos + n ≤ buffer.length) :
    read buffer pos n = some ((buffer.drop pos).take n) := if_pos h

/-- A write that fits goes behind what was written before, in a buffer of the same length. -/
theorem write_filled {buffer : List α} {pos : Nat} {done data : List α} (h : Filled buffer pos done)
    (hfits : pos + data.length ≤ buffer.length) :
    ∃ buffer', write buffer pos data = some buffer' ∧ Filled buffer' (pos + data.length) (done ++ data) ∧
      buffer'.length = buffer.length := by
  have htake : (buffer.take pos).length = pos := List.length_take_of_le h.le
  have hwrite : write buffer pos data = some (buffer.take pos ++ data ++ buffer.drop (pos + data.length)) := if_pos hfits
  refine ⟨_, hwrite, ⟨by rwa [length_write hwrite], ?_⟩, length_write hwrite⟩
  rw [← h.take]
  exact List.take_left' (by rw [List.length_append, htake])

end Memory
