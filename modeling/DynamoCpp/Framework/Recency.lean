import Mathlib.Data.List.Basic

/-! # The last occurrence in a log

    A log lists what happened, oldest first, and the same item may occur in it many times.
    The time of an item is the position of its last occurrence, counted from 1.
-/

namespace Framework

variable {α : Type} [DecidableEq α] {log : List α} {x y : α}

/-- The position of the last occurrence, 0 if there is none. -/
def lastOccurrence (log : List α) (x : α) : Nat := log.length - log.reverse.idxOf x

theorem lastOccurrence_le : lastOccurrence log x ≤ log.length := Nat.sub_le _ _

theorem lastOccurrence_concat_self : lastOccurrence (log ++ [x]) x = log.length + 1 := by
  unfold lastOccurrence
  rw [List.reverse_append, List.reverse_singleton, List.singleton_append, List.idxOf_cons_self,
    List.length_append, List.length_singleton, Nat.sub_zero]

/-- An occurrence of another item does not change the time. -/
theorem lastOccurrence_concat_ne (h : x ≠ y) :
    lastOccurrence (log ++ [x]) y = lastOccurrence log y := by
  unfold lastOccurrence
  rw [List.reverse_append, List.reverse_singleton, List.singleton_append, List.idxOf_cons_ne _ h,
    List.length_append, List.length_singleton, Nat.add_sub_add_right]

theorem lastOccurrence_pos (hx : x ∈ log) : 0 < lastOccurrence log x := by
  have hbefore := List.idxOf_lt_length_of_mem (List.mem_reverse.mpr hx)
  rw [List.length_reverse] at hbefore
  exact Nat.sub_pos_of_lt hbefore

/-- Two items do not occur at the same time. -/
theorem lastOccurrence_inj (hx : x ∈ log) (hy : y ∈ log)
    (h : lastOccurrence log x = lastOccurrence log y) : x = y := by
  have hpos := lastOccurrence_pos hx
  have hpos' := lastOccurrence_pos hy
  unfold lastOccurrence at h hpos hpos'
  refine (List.idxOf_inj (List.mem_reverse.mpr hx)).mp ?_
  omega

end Framework
