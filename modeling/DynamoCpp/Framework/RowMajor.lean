import Mathlib.Data.List.Forall2

/-! # Row-major order

    A shape is a list of extents, outermost first, and an index has a position below every
    extent.  In row-major order the last position varies fastest: the stride of a dimension
    is the number of elements below it.  So the indices of a shape are numbered by
    `0, …, volume shape - 1`, and moving a position changes the number by its stride.
-/

namespace Framework.RowMajor

/-- The number of elements. -/
def volume : List Nat → Nat
  | [] => 1
  | n :: shape => n * volume shape

def strides : List Nat → List Nat
  | [] => []
  | _ :: shape => volume shape :: strides shape

/-- What an index weighs under some strides. -/
def dot : List Nat → List Nat → Nat
  | i :: index, s :: ss => i * s + dot index ss
  | _, _ => 0

def InBounds (index shape : List Nat) : Prop := List.Forall₂ (· < ·) index shape

@[simp] theorem volume_nil : volume [] = 1 := rfl

@[simp] theorem volume_cons (n : Nat) (shape : List Nat) :
    volume (n :: shape) = n * volume shape := rfl

variable {shape index : List Nat}

/-- The number of an index. -/
theorem InBounds.dot_lt (h : InBounds index shape) : dot index (strides shape) < volume shape := by
  induction h with
  | nil => exact Nat.one_pos
  | @cons i n index shape hi _ ih =>
    have hrow : (i + 1) * volume shape ≤ n * volume shape := Nat.mul_le_mul_right _ hi
    rw [Nat.add_mul, Nat.one_mul] at hrow
    rw [strides, dot, volume_cons]
    omega

/-- An index of a restricted shape, counted in the shape. -/
theorem InBounds.moved {dim extent start m : Nat} (h : InBounds index (shape.set dim m))
    (hextent : shape[dim]? = some extent) (hle : start + m ≤ extent) :
    ∃ i, index[dim]? = some i ∧ InBounds (index.set dim (i + start)) shape := by
  induction shape generalizing index dim with
  | nil => cases hextent
  | cons n shape ih =>
    cases dim with
    | zero =>
      cases hextent
      obtain ⟨i, index, hi, hrest, rfl⟩ := List.forall₂_cons_right_iff.mp h
      exact ⟨i, rfl, List.Forall₂.cons (by omega) hrest⟩
    | succ dim =>
      obtain ⟨j, index, hj, hrest, rfl⟩ := List.forall₂_cons_right_iff.mp h
      obtain ⟨i, hi, hmoved⟩ := ih hrest hextent
      exact ⟨i, hi, List.Forall₂.cons hj hmoved⟩

/-- Moving a position. -/
theorem dot_set {ss : List Nat} {dim i s : Nat} (hi : index[dim]? = some i)
    (hs : ss[dim]? = some s) (start : Nat) :
    dot (index.set dim (i + start)) ss = dot index ss + start * s := by
  induction index generalizing dim ss with
  | nil => cases hi
  | cons j index ih =>
    cases ss with
    | nil => cases hs
    | cons t ss =>
      cases dim with
      | zero =>
        cases hi
        cases hs
        rw [List.set_cons_zero, dot, dot, Nat.add_mul]
        omega
      | succ dim =>
        rw [List.set_cons_succ, dot, dot, ih hi hs]
        omega

end Framework.RowMajor
