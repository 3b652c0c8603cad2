import Mathlib.Logic.Function.Basic

/-! # Names that are given out again

    A server gives names to what it grants.  A restarted server has forgotten its
    grants and starts over with the names, so a name that was granted before the
    restart may stand for another grant afterwards.

    To tell grants apart they are numbered over all incarnations of the server.
    `granted i` is the number of the grant that the running incarnation knows under
    the name `i`; a holder keeps the name it was given.
-/

namespace Framework

universe u

/-- A grant: the incarnation of the server that made it, its name and its number. -/
structure Grant (ι : Type u) where
  incarnation : Nat
  name        : ι
  number      : Nat
  deriving DecidableEq

/-- The grants `held` were made by incarnations up to `current`, which has numbered
    them below `next` and knows its own under `granted`. -/
structure Grants {ι : Type u} (current next : Nat) (granted : ι → Option Nat)
    (held : List (Grant ι)) : Prop where
  numbered : ∀ i n, granted i = some n → n < next
  issued   : ∀ g ∈ held, g.number < next ∧ g.incarnation ≤ current
  /-- A name given by the running incarnation stands for its grant. -/
  own      : ∀ g ∈ held, g.incarnation = current → granted g.name = some g.number
  /-- The running incarnation does not know the grants of earlier ones. -/
  foreign  : ∀ g ∈ held, g.incarnation ≠ current → ∀ i, granted i ≠ some g.number

namespace Grants

variable {ι : Type u} {current next : Nat} {granted : ι → Option Nat} {held held' : List (Grant ι)}

theorem empty : Grants 0 0 (fun _ : ι => none) [] where
  numbered := by intro i n h; cases h
  issued := by intro g h; cases h
  own := by intro g h; cases h
  foreign := by intro g h; cases h

/-- Holders may give up their grants. -/
theorem mono (h : Grants current next granted held) (hsub : ∀ g ∈ held', g ∈ held) :
    Grants current next granted held' where
  numbered := h.numbered
  issued := fun g hg => h.issued g (hsub g hg)
  own := fun g hg => h.own g (hsub g hg)
  foreign := fun g hg => h.foreign g (hsub g hg)

/-- A grant under a name that the running incarnation has not used. -/
theorem grant [DecidableEq ι] (h : Grants current next granted held) {i : ι}
    (hfree : granted i = none) :
    Grants current (next + 1) (Function.update granted i (some next))
      (held ++ [⟨current, i, next⟩]) where
  numbered := by
    intro j n hn
    by_cases hj : j = i
    · rw [hj, Function.update_self] at hn
      exact Option.some.inj hn ▸ Nat.lt_succ_self _
    · rw [Function.update_of_ne hj] at hn
      exact Nat.lt_succ_of_lt (h.numbered j n hn)
  issued := by
    intro g hg
    rcases List.mem_append.mp hg with hg | hg
    · exact ⟨Nat.lt_succ_of_lt (h.issued g hg).1, (h.issued g hg).2⟩
    · obtain rfl := List.mem_singleton.mp hg
      exact ⟨Nat.lt_succ_self _, Nat.le_refl _⟩
  own := by
    intro g hg hcurrent
    rcases List.mem_append.mp hg with hg | hg
    · have hown := h.own g hg hcurrent
      -- the new name is free, the name of `g` is not
      have hne : g.name ≠ i := by
        rintro rfl
        rw [hfree] at hown
        cases hown
      rw [Function.update_of_ne hne, hown]
    · obtain rfl := List.mem_singleton.mp hg
      exact Function.update_self ..
  foreign := by
    intro g hg hcurrent j
    rcases List.mem_append.mp hg with hg | hg
    · by_cases hj : j = i
      · rw [hj, Function.update_self]
        intro heq
        -- the new number is larger than that of every grant so far
        exact Nat.lt_irrefl _ (Option.some.inj heq ▸ (h.issued g hg).1)
      · rw [Function.update_of_ne hj]
        exact h.foreign g hg hcurrent j
    · obtain rfl := List.mem_singleton.mp hg
      exact absurd rfl hcurrent

/-- A restart: every grant so far is of an earlier incarnation. -/
theorem restart (h : Grants current next granted held) :
    Grants (current + 1) next (fun _ => none) held where
  numbered := by intro i n hn; cases hn
  issued := fun g hg => ⟨(h.issued g hg).1, Nat.le_succ_of_le (h.issued g hg).2⟩
  own := by
    intro g hg hcurrent
    exact absurd (h.issued g hg).2 (hcurrent ▸ Nat.not_succ_le_self _)
  foreign := by intro g _ _ i hi; cases hi

/-- While the incarnation that granted it is running, a name is not that of another
    grant. -/
theorem name_ne (h : Grants current next granted held) {g : Grant ι} (hg : g ∈ held)
    (hcurrent : g.incarnation = current) {i : ι} {n : Nat} (hn : granted i = some n)
    (hne : n ≠ g.number) : i ≠ g.name := by
  rintro rfl
  rw [h.own g hg hcurrent] at hn
  exact hne (Option.some.inj hn).symm

end Grants

end Framework
