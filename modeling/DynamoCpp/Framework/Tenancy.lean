import Mathlib.Data.List.Induction
import Mathlib.Logic.Function.Basic

/-! # Slots with one tenant

    Tenants come and go, and register for slots.  A slot has room for one tenant: whoever
    registers takes it over from the one before, and when its tenant goes, the slot is empty.
    So a slot is taken exactly if the last one to register for it is still there, whoever
    else has registered and may be there too.
-/

namespace Framework

universe u v

variable {K : Type u} {L : Type v} [DecidableEq K]

/-! ## The last to register -/

/-- Who was the last to register for each slot. -/
def lastFor (registered : List (K × L)) : K → Option L :=
  registered.foldl (fun last r => Function.update last r.1 (some r.2)) fun _ => none

@[simp] theorem lastFor_concat (registered : List (K × L)) (k : K) (l : L) :
    lastFor (registered ++ [(k, l)]) = Function.update (lastFor registered) k (some l) := by
  rw [lastFor, List.foldl_append]
  rfl

theorem mem_of_lastFor {registered : List (K × L)} {k : K} {l : L}
    (h : lastFor registered k = some l) : (k, l) ∈ registered := by
  induction registered using List.reverseRecOn with
  | nil => cases h
  | append_singleton registered r ih =>
    obtain ⟨k', l'⟩ := r
    rw [lastFor_concat] at h
    by_cases hk : k = k'
    · subst hk
      rw [Function.update_self] at h
      cases h
      exact List.mem_append_right _ List.mem_cons_self
    · rw [Function.update_of_ne hk] at h
      exact List.mem_append_left _ (ih h)

/-! ## Tenancies -/

/-- Each slot is held by the last one to register for it, as long as that one is there.
    `used` are the names given out so far. -/
structure Tenancy (used live : L → Prop) (holder : K → Option L) (registered : List (K × L)) :
    Prop where
  held : ∀ k l, holder k = some l ↔ lastFor registered k = some l ∧ live l
  live : ∀ l, live l → used l
  past : ∀ r ∈ registered, used r.2

namespace Tenancy

variable {used live : L → Prop} {holder : K → Option L} {registered : List (K × L)}

theorem empty : Tenancy used (fun _ => False) (fun _ : K => none) ([] : List (K × L)) where
  held := fun k l => iff_of_false (by simp) (by simp)
  live := fun _ h => h.elim
  past := fun _ h => by cases h

/-- A tenant takes a slot over. -/
theorem register (h : Tenancy used live holder registered) (k : K) {l : L} (hl : live l) :
    Tenancy used live (Function.update holder k (some l)) (registered ++ [(k, l)]) where
  held := by
    intro k' l'
    rw [lastFor_concat]
    by_cases hk : k' = k
    · subst hk
      rw [Function.update_self, Function.update_self]
      constructor
      · rintro hsome
        cases hsome
        exact ⟨rfl, hl⟩
      · exact fun hboth => hboth.1
    · rw [Function.update_of_ne hk, Function.update_of_ne hk]
      exact h.held k' l'
  live := h.live
  past := by
    intro r hr
    rcases List.mem_append.mp hr with hr | hr
    · exact h.past r hr
    · rw [List.mem_singleton.mp hr]
      exact h.live l hl

/-- A tenant comes under a name that was never used. -/
theorem enter (h : Tenancy used live holder registered) {used' live' : L → Prop} {l : L}
    (hfresh : ¬ used l) (hused : ∀ x, used x ∨ x = l → used' x)
    (hlive : ∀ x, live' x ↔ live x ∨ x = l) : Tenancy used' live' holder registered where
  held := by
    intro k x
    rw [h.held k x, hlive]
    constructor
    · exact fun ⟨hlast, hx⟩ => ⟨hlast, .inl hx⟩
    · rintro ⟨hlast, hx | rfl⟩
      · exact ⟨hlast, hx⟩
      · exact absurd (h.past _ (mem_of_lastFor hlast)) hfresh
  live := by
    intro x hx
    rcases (hlive x).mp hx with hx | rfl
    · exact hused x (.inl (h.live x hx))
    · exact hused x (.inr rfl)
  past := fun r hr => hused _ (.inl (h.past r hr))

/-- A tenant goes, and its slots are empty. -/
theorem leave [DecidableEq L] (h : Tenancy used live holder registered) {live' : L → Prop}
    (l : L) (hlive : ∀ x, live' x ↔ live x ∧ x ≠ l) :
    Tenancy used live' (fun k => if holder k = some l then none else holder k) registered where
  held := by
    intro k x
    have hholder : (if holder k = some l then none else holder k) = some x ↔
        holder k = some x ∧ x ≠ l := by
      by_cases hl : holder k = some l
      · rw [if_pos hl, hl]
        constructor
        · intro hnone
          cases hnone
        · rintro ⟨hx, hne⟩
          exact absurd (Option.some.inj hx).symm hne
      · rw [if_neg hl]
        constructor
        · intro hx
          refine ⟨hx, ?_⟩
          rintro rfl
          exact hl hx
        · exact fun hx => hx.1
    rw [hholder, h.held k x, hlive, and_assoc]
  live := fun x hx => h.live x ((hlive x).mp hx).1
  past := h.past

/-- A slot is taken exactly if the last one to register for it is there. -/
theorem isSome_holder (h : Tenancy used live holder registered) (k : K) :
    (holder k).isSome = true ↔ ∃ l, lastFor registered k = some l ∧ live l := by
  rw [Option.isSome_iff_exists]
  exact exists_congr fun l => h.held k l

end Tenancy

/-- Being taken by the last is the same as someone being there, unless the last one has gone
    and another has not. -/
theorem lastFor_live_iff {live : L → Prop} {registered : List (K × L)} {k : K} {taken : Prop}
    (h : taken ↔ ∃ l, lastFor registered k = some l ∧ live l) :
    (taken ↔ ∃ l, (k, l) ∈ registered ∧ live l) ↔
      ((∃ l, (k, l) ∈ registered ∧ live l) → ∃ l, lastFor registered k = some l ∧ live l) := by
  rw [h]
  constructor
  · exact fun heq => heq.mpr
  · intro himp
    refine ⟨?_, himp⟩
    rintro ⟨l, hlast, hl⟩
    exact ⟨l, mem_of_lastFor hlast, hl⟩

end Framework
