import Mathlib.Logic.Function.Basic
import Mathlib.Data.List.Count
import Mathlib.Data.List.Nodup

/-! # Items bound to owners, in two tables

    One table says which owner an item is bound to, the other lists the items of
    each owner.  `Bindings` says that the two tables agree: an item is listed
    exactly once, by its owner.  The rules are the ways in which both tables can
    change together: an owner comes, an item is attached to an owner or detached
    from it, an owner goes with all its items.
-/

namespace Framework

universe u v

variable {K : Type u} {L : Type v} [DecidableEq K] [BEq K] [LawfulBEq K] [DecidableEq L]

/-- The tables agree. -/
structure Bindings (owner : K → Option L) (members : L → Option (List K)) : Prop where
  listed : ∀ {k l}, owner k = some l → ∃ ks, members l = some ks ∧ ks.count k = 1
  bound  : ∀ {l ks k}, members l = some ks → k ∈ ks → owner k = some l

namespace Bindings

variable {owner : K → Option L} {members : L → Option (List K)} {k : K} {l : L} {ks : List K}

omit [DecidableEq K] [LawfulBEq K] [DecidableEq L] in
theorem empty : Bindings (fun _ : K => (none : Option L)) (fun _ => none) where
  listed := by
    intro k l h
    cases h
  bound := by
    intro l ks k h
    cases h

omit [DecidableEq K] [DecidableEq L] in
theorem mem_iff (h : Bindings owner members) (hl : members l = some ks) :
    k ∈ ks ↔ owner k = some l := by
  constructor
  · exact h.bound hl
  · intro hk
    obtain ⟨ks', hks', hcount⟩ := h.listed hk
    obtain rfl := Option.some.inj (hl.symm.trans hks')
    exact List.count_pos_iff.mp (by omega)

omit [DecidableEq K] [DecidableEq L] in
theorem nodup (h : Bindings owner members) (hl : members l = some ks) : ks.Nodup := by
  rw [List.nodup_iff_count_le_one]
  intro k
  by_cases hk : k ∈ ks
  · obtain ⟨ks', hks', hcount⟩ := h.listed (h.bound hl hk)
    obtain rfl := Option.some.inj (hl.symm.trans hks')
    exact Nat.le_of_eq hcount
  · rw [List.count_eq_zero_of_not_mem hk]
    exact Nat.zero_le 1

omit [DecidableEq K] [LawfulBEq K] in
/-- A new owner has no items. -/
theorem register (h : Bindings owner members) (hl : members l = none) :
    Bindings owner (Function.update members l (some [])) where
  listed := by
    intro k l' hk
    obtain ⟨ks, hks, hcount⟩ := h.listed hk
    have hne : l' ≠ l := by
      rintro rfl
      rw [hl] at hks
      cases hks
    exact ⟨ks, by rw [Function.update_of_ne hne, hks], hcount⟩
  bound := by
    intro l' ks k hks hk
    by_cases hl' : l' = l
    · subst hl'
      rw [Function.update_self] at hks
      obtain rfl := Option.some.inj hks
      cases hk
    · rw [Function.update_of_ne hl'] at hks
      exact h.bound hks hk

/-- An item that is free or bound to the owner becomes bound to it or free. -/
theorem rebind (h : Bindings owner members) (hl : members l = some ks)
    (hk : owner k = none ∨ owner k = some l) {o : Option L} (ho : o = none ∨ o = some l)
    {ks' : List K} (hself : ks'.count k = if o = some l then 1 else 0)
    (hothers : ∀ k' ≠ k, ks'.count k' = ks.count k') :
    Bindings (Function.update owner k o) (Function.update members l (some ks')) where
  listed := by
    intro k' l' hk'
    by_cases hkk : k' = k
    · subst hkk
      rw [Function.update_self] at hk'
      rcases ho with rfl | rfl
      · cases hk'
      · cases hk'
        exact ⟨ks', Function.update_self _ _ _, by rw [hself, if_pos rfl]⟩
    · rw [Function.update_of_ne hkk] at hk'
      obtain ⟨old, hold, hcount⟩ := h.listed hk'
      by_cases hll : l' = l
      · subst hll
        obtain rfl := Option.some.inj (hl.symm.trans hold)
        exact ⟨ks', Function.update_self _ _ _, (hothers k' hkk).trans hcount⟩
      · exact ⟨old, by rw [Function.update_of_ne hll, hold], hcount⟩
  bound := by
    intro l' old k' hold hmem
    by_cases hll : l' = l
    · subst hll
      rw [Function.update_self] at hold
      obtain rfl := Option.some.inj hold
      have hpos := List.count_pos_iff.mpr hmem
      by_cases hkk : k' = k
      · subst hkk
        rw [Function.update_self]
        by_contra hne
        rw [hself, if_neg hne] at hpos
        exact absurd hpos (Nat.lt_irrefl 0)
      · rw [hothers k' hkk] at hpos
        rw [Function.update_of_ne hkk]
        exact h.bound hl (List.count_pos_iff.mp hpos)
    · rw [Function.update_of_ne hll] at hold
      have hbound := h.bound hold hmem
      have hkk : k' ≠ k := by
        rintro rfl
        simp [hbound, hll] at hk
      rw [Function.update_of_ne hkk]
      exact hbound

/-- A free item is attached to an owner. -/
theorem attach (h : Bindings owner members) (hk : owner k = none) (hl : members l = some ks) :
    Bindings (Function.update owner k (some l)) (Function.update members l (some (ks ++ [k]))) := by
  -- it was not listed before
  have hnot : k ∉ ks := by
    intro hmem
    rw [h.bound hl hmem] at hk
    cases hk
  refine h.rebind hl (.inl hk) (.inr rfl) ?_ fun k' hkk => ?_
  · simp [List.count_eq_zero_of_not_mem hnot]
  · simp [List.count_append, hkk.symm]

/-- An item is detached from its owner. -/
theorem detach (h : Bindings owner members) (hk : owner k = some l) (hl : members l = some ks) :
    Bindings (Function.update owner k none)
      (Function.update members l (some (ks.filter (· ≠ k)))) := by
  refine h.rebind hl (.inr hk) (.inl rfl) ?_ fun k' hkk => List.count_filter (by simpa using hkk)
  simp [List.count_eq_zero]

omit [DecidableEq K] [LawfulBEq K] in
/-- An owner goes, and its items with it. -/
theorem retire (h : Bindings owner members) (l : L) :
    Bindings (fun k => if owner k = some l then none else owner k)
      (Function.update members l none) where
  listed := by
    intro k l' hk
    split at hk
    · cases hk
    · next hother =>
      obtain ⟨ks, hks, hcount⟩ := h.listed hk
      have hll : l' ≠ l := by
        rintro rfl
        exact hother hk
      exact ⟨ks, by rw [Function.update_of_ne hll, hks], hcount⟩
  bound := by
    intro l' ks k hks hk
    by_cases hll : l' = l
    · subst hll
      rw [Function.update_self] at hks
      cases hks
    · rw [Function.update_of_ne hll] at hks
      have hold := h.bound hks hk
      have hother : owner k ≠ some l := by
        rw [hold]
        exact fun heq => hll (Option.some.inj heq)
      rw [if_neg hother]
      exact hold

end Bindings

end Framework
