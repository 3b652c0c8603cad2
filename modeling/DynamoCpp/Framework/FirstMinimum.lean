import Mathlib.Order.Lattice
import Mathlib.Data.List.Basic

/-! # The first minimum of a list

    A loop over a list that keeps the index and the cost of the cheapest element seen so
    far.  Elements without a cost are passed over, and a cost replaces the kept one only if
    it is lower, so among equal costs the first stays.
-/

namespace Framework

variable {α K : Type} [LinearOrder K]

/-- One turn of the loop at index `i`; without a kept element every cost is lower. -/
def better (best : Option (Nat × K)) (i : Nat) : Option K → Option (Nat × K)
  | none => best
  | some c =>
    match best with
    | none => some (i, c)
    | some (j, d) => if c < d then some (i, c) else some (j, d)

/-- The loop from index `i` on. -/
def firstMinFrom (cost : α → Option K) : Nat → List α → Option (Nat × K) → Option (Nat × K)
  | _, [], best => best
  | i, x :: xs, best => firstMinFrom cost (i + 1) xs (better best i (cost x))

def firstMin (cost : α → Option K) (xs : List α) : Option (Nat × K) := firstMinFrom cost 0 xs none

/-! ## What the loop finds -/

/-- The element at `i` has the lowest cost, `c`, and no element before it has the same. -/
structure IsFirstMin (cost : α → Option K) (xs : List α) (i : Nat) (c : K) : Prop where
  chosen : ∃ x, xs[i]? = some x ∧ cost x = some c
  least  : ∀ {j : Nat} {x : α} {d : K}, xs[j]? = some x → cost x = some d → c ≤ d
  first  : ∀ {j : Nat} {x : α} {d : K}, xs[j]? = some x → cost x = some d → j < i → c < d

/-- What is kept after the elements `seen`. -/
structure Searched (cost : α → Option K) (seen : List α) (best : Option (Nat × K)) : Prop where
  none : best = none → ∀ x ∈ seen, cost x = none
  some : ∀ {i c}, best = some (i, c) → IsFirstMin cost seen i c

variable {cost : α → Option K} {seen xs : List α} {x : α} {i : Nat} {c d : K}

theorem getElem?_concat_cases {j : Nat} {y : α} (h : (seen ++ [x])[j]? = some y) :
    seen[j]? = some y ∨ j = seen.length ∧ y = x := by
  rcases Nat.lt_trichotomy j seen.length with hlt | heq | hgt
  · rw [List.getElem?_append_left hlt] at h
    exact .inl h
  · rw [heq, List.getElem?_concat_length] at h
    exact .inr ⟨heq, (Option.some.inj h).symm⟩
  · rw [List.getElem?_eq_none (by rw [List.length_append, List.length_singleton]; omega)] at h
    cases h

theorem IsFirstMin.index_lt (h : IsFirstMin cost seen i c) : i < seen.length := by
  obtain ⟨x, hx, -⟩ := h.chosen
  exact (List.getElem?_eq_some_iff.mp hx).1

/-- An element that is not cheaper changes nothing. -/
theorem IsFirstMin.concat (h : IsFirstMin cost seen i c)
    (hx : ∀ d, cost x = some d → c ≤ d) : IsFirstMin cost (seen ++ [x]) i c where
  chosen := by
    obtain ⟨y, hy, hcost⟩ := h.chosen
    exact ⟨y, by rw [List.getElem?_append_left h.index_lt, hy], hcost⟩
  least := by
    intro j y d hy hcost
    rcases getElem?_concat_cases hy with hold | ⟨-, rfl⟩
    · exact h.least hold hcost
    · exact hx d hcost
  first := by
    intro j y d hy hcost hlt
    rcases getElem?_concat_cases hy with hold | ⟨rfl, -⟩
    · exact h.first hold hcost hlt
    · have := h.index_lt
      omega

/-- An element that is cheaper than all before it is the new first minimum. -/
theorem IsFirstMin.last (hx : cost x = some c)
    (hseen : ∀ {j : Nat} {y : α} {d : K}, seen[j]? = some y → cost y = some d → c < d) :
    IsFirstMin cost (seen ++ [x]) seen.length c where
  chosen := ⟨x, List.getElem?_concat_length, hx⟩
  least := by
    intro j y d hy hcost
    rcases getElem?_concat_cases hy with hold | ⟨-, rfl⟩
    · exact le_of_lt (hseen hold hcost)
    · rw [hx] at hcost
      exact le_of_eq (Option.some.inj hcost)
  first := by
    intro j y d hy hcost hlt
    rcases getElem?_concat_cases hy with hold | ⟨rfl, -⟩
    · exact hseen hold hcost
    · omega

theorem Searched.better {best : Option (Nat × K)} (h : Searched cost seen best) (x : α) :
    Searched cost (seen ++ [x]) (better best seen.length (cost x)) := by
  cases hcost : cost x with
  | none =>
    refine ⟨fun hnone y hy => ?_, fun hsome => ?_⟩
    · rcases List.mem_append.mp hy with hold | hnew
      · exact h.none hnone y hold
      · rwa [List.mem_singleton.mp hnew]
    · exact (h.some hsome).concat fun d hd => by rw [hcost] at hd; cases hd
  | some c =>
    cases best with
    | none =>
      -- the first element with a cost
      refine ⟨nofun, ?_⟩
      rintro i c' ⟨⟩
      refine .last hcost fun {j y d} hy hd => ?_
      rw [h.none rfl y (List.mem_of_getElem? hy)] at hd
      cases hd
    | some kept =>
      obtain ⟨j, d⟩ := kept
      have hkept := h.some rfl
      by_cases hlt : c < d
      · -- cheaper than the kept one, which no other element undercuts
        simp only [Framework.better, if_pos hlt]
        refine ⟨nofun, ?_⟩
        rintro i c' ⟨⟩
        exact .last hcost fun hy hd => lt_of_lt_of_le hlt (hkept.least hy hd)
      · simp only [Framework.better, if_neg hlt]
        refine ⟨nofun, ?_⟩
        rintro i c' ⟨⟩
        refine hkept.concat fun d' hd' => ?_
        rw [hcost] at hd'
        rw [← Option.some.inj hd']
        exact not_lt.mp hlt

theorem Searched.firstMinFrom : ∀ {xs seen : List α} {best : Option (Nat × K)},
    Searched cost seen best →
      Searched cost (seen ++ xs) (firstMinFrom cost seen.length xs best)
  | [], seen, best, h => by
    rw [List.append_nil]
    exact h
  | x :: xs, seen, best, h => by
    have hrest := @firstMinFrom xs _ _ (h.better x)
    rwa [List.append_assoc, List.length_append] at hrest

theorem searched_firstMin : Searched cost xs (firstMin cost xs) :=
  (⟨fun _ => nofun, nofun⟩ : Searched cost [] none).firstMinFrom

theorem firstMin_eq_none_iff : firstMin cost xs = none ↔ ∀ x ∈ xs, cost x = none := by
  refine ⟨searched_firstMin.none, fun h => ?_⟩
  cases hbest : firstMin cost xs with
  | none => rfl
  | some best =>
    obtain ⟨x, hx, hcost⟩ := (searched_firstMin.some hbest).chosen
    rw [h x (List.mem_of_getElem? hx)] at hcost
    cases hcost

end Framework
