import Mathlib.Data.List.Basic

/-! # Delimited byte paths

    Paths are built by joining segments with separators that do not occur in
    the segments.  A path can then be read back segment by segment, and a
    prefix of a path that ends at a separator fixes every segment before it.
    A prefix that ends inside a segment fixes only the start of that segment.
-/

namespace Framework

variable {α : Type*} {sep : α} {a b x y : List α}

/-- A prefix that contains the first separator fixes the first segment. -/
theorem segment_prefix_iff (ha : sep ∉ a) (hb : sep ∉ b) :
    a ++ sep :: x <+: b ++ sep :: y ↔ a = b ∧ x <+: y := by
  induction a generalizing b with
  | nil =>
    cases b with
    | nil => simp [List.cons_prefix_cons]
    | cons c b =>
      -- the separator would be the first element of the segment `c :: b`
      have hne : sep ≠ c := fun h => hb (h ▸ List.mem_cons_self)
      simp [hne]
  | cons c a ih =>
    have ha' : sep ∉ a := fun h => ha (List.mem_cons_of_mem _ h)
    have hc : c ≠ sep := fun h => ha (h ▸ List.mem_cons_self)
    cases b with
    | nil => simp [hc]
    | cons d b =>
      have hb' : sep ∉ b := fun h => hb (List.mem_cons_of_mem _ h)
      simp only [List.cons_append, List.cons_prefix_cons, ih ha' hb', List.cons.injEq, and_assoc]

/-- Paths are read back segment by segment. -/
theorem segment_inj_iff (ha : sep ∉ a) (hb : sep ∉ b) :
    a ++ sep :: x = b ++ sep :: y ↔ a = b ∧ x = y := by
  constructor
  · intro heq
    have hpre : a ++ sep :: x <+: b ++ sep :: y := heq ▸ List.prefix_rfl
    obtain ⟨rfl, _⟩ := (segment_prefix_iff ha hb).mp hpre
    exact ⟨rfl, List.tail_eq_of_cons_eq (List.append_cancel_left heq)⟩
  · rintro ⟨rfl, rfl⟩
    rfl

/-- A prefix without the separator sees only the first segment. -/
theorem prefix_segment_iff (ha : sep ∉ a) : a <+: b ++ sep :: y ↔ a <+: b := by
  constructor
  · intro h
    by_cases hlen : a.length ≤ b.length
    · exact List.prefix_of_prefix_length_le h (List.prefix_append _ _) hlen
    · -- a longer prefix reaches past the separator
      have hsep : b ++ [sep] <+: a := by
        refine List.prefix_of_prefix_length_le ?_ h (by simp; omega)
        exact ⟨y, by simp⟩
      exact absurd (hsep.subset (by simp)) ha
  · exact fun h => h.trans (List.prefix_append _ _)

/-! ## Cutting at a separator -/

/-- What stands before and after the first separator. -/
def cut [DecidableEq α] (sep : α) : List α → Option (List α × List α)
  | [] => none
  | c :: s => if c = sep then some ([], s) else (cut sep s).map fun r => (c :: r.1, r.2)

theorem cut_eq_some [DecidableEq α] : ∀ {s a b : List α},
    cut sep s = some (a, b) ↔ sep ∉ a ∧ s = a ++ sep :: b
  | [], a, b => by simp [cut]
  | c :: s, a, b => by
    unfold cut
    by_cases hc : c = sep
    · subst hc
      rw [if_pos rfl]
      constructor
      · intro h
        cases h
        simp
      · rintro ⟨hnot, heq⟩
        cases a with
        | nil => simpa using heq
        | cons d a =>
          have hd : c = d := (List.cons.inj heq).1
          exact absurd (hd ▸ List.mem_cons_self) hnot
    · rw [if_neg hc]
      constructor
      · intro h
        obtain ⟨⟨a', b'⟩, hcut, heq⟩ := Option.map_eq_some_iff.mp h
        cases heq
        obtain ⟨hnot, rfl⟩ := cut_eq_some.mp hcut
        refine ⟨?_, rfl⟩
        rw [List.mem_cons]
        exact fun h => h.elim (fun h => hc h.symm) hnot
      · rintro ⟨hnot, heq⟩
        cases a with
        | nil => exact absurd (List.cons.inj heq).1 hc
        | cons d a =>
          obtain ⟨rfl, rfl⟩ := List.cons.inj heq
          rw [List.mem_cons] at hnot
          have hrest : cut sep (a ++ sep :: b) = some (a, b) :=
            cut_eq_some.mpr ⟨fun h => hnot (.inr h), rfl⟩
          exact congrArg (Option.map fun r => (c :: r.1, r.2)) hrest

end Framework
