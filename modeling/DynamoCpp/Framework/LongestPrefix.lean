import Mathlib.Data.List.Basic

/-! # Longest prefixes

    A loop that takes elements from the front of a list until one does not fit has taken the
    longest prefix with some property of lists.  The property may depend on what was taken
    before, so the rules here relate the property of a list to that of its tail.
-/

namespace Framework

variable {α : Type} {P Q : List α → Prop} {x : α} {l : List α} {k : Nat}

/-- The prefix of length `k` has the property, and no longer one does. -/
structure IsLongestPrefix (P : List α → Prop) (l : List α) (k : Nat) : Prop where
  le      : k ≤ l.length
  holds   : P (l.take k)
  longest : ∀ {n}, n ≤ l.length → P (l.take n) → n ≤ k

theorem isLongestPrefix_nil (h : P []) : IsLongestPrefix P [] 0 :=
  ⟨Nat.le_refl 0, h, fun hn _ => hn⟩

/-- The first element does not fit. -/
theorem isLongestPrefix_zero (h : P []) (hx : ∀ p, ¬ P (x :: p)) :
    IsLongestPrefix P (x :: l) 0 where
  le := Nat.zero_le _
  holds := h
  longest := by
    intro n _ hn
    cases n with
    | zero => exact Nat.le_refl 0
    | succ n => exact absurd hn (hx _)

/-- The first element fits, and the rest is taken with another property. -/
theorem IsLongestPrefix.cons (h : IsLongestPrefix Q l k) (hx : ∀ p, P (x :: p) ↔ Q p) :
    IsLongestPrefix P (x :: l) (k + 1) where
  le := Nat.succ_le_succ h.le
  holds := (hx _).mpr h.holds
  longest := by
    intro n hn hP
    cases n with
    | zero => exact Nat.zero_le _
    | succ n => exact Nat.succ_le_succ (h.longest (Nat.le_of_succ_le_succ hn) ((hx _).mp hP))

theorem IsLongestPrefix.congr (h : IsLongestPrefix P l k) (hPQ : ∀ p, P p ↔ Q p) :
    IsLongestPrefix Q l k where
  le := h.le
  holds := (hPQ _).mp h.holds
  longest := fun hn hQ => h.longest hn ((hPQ _).mpr hQ)

/-- A property of the images. -/
theorem IsLongestPrefix.of_map {β : Type} {f : β → α} {l : List β}
    (h : IsLongestPrefix P (l.map f) k) : IsLongestPrefix (fun p => P (p.map f)) l k where
  le := by
    rw [← List.length_map f]
    exact h.le
  holds := by
    rw [List.map_take]
    exact h.holds
  longest := by
    intro n hn hP
    rw [← List.length_map f] at hn
    exact h.longest hn (List.map_take ▸ hP)

end Framework
