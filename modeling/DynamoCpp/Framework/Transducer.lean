import Mathlib.Data.List.Basic

/-! # Transducers

    A machine reads inputs; each changes its state and may give outputs.

    * **Runs**: what the machine does with a list of inputs does not depend on how the list
      is cut into pieces.
    * **Lines**: a machine for lines becomes a machine for characters that keeps the
      unfinished line next to its state.  A loop that looks for the ends of lines in a piece
      of text does the same.
-/

namespace Framework

universe u v w

variable {σ : Type u} {α : Type v} {β : Type w}

/-! ## Runs -/

/-- The state after the inputs, and all outputs in order. -/
def transduce (step : σ → α → σ × List β) (s : σ) : List α → σ × List β
  | [] => (s, [])
  | a :: as =>
    let r := step s a
    let rest := transduce step r.1 as
    (rest.1, r.2 ++ rest.2)

variable {step : σ → α → σ × List β}

@[simp] theorem transduce_nil (s : σ) : transduce step s [] = (s, []) := rfl

theorem transduce_cons (s : σ) (a : α) (as : List α) :
    transduce step s (a :: as) =
      ((transduce step (step s a).1 as).1, (step s a).2 ++ (transduce step (step s a).1 as).2) :=
  rfl

@[simp] theorem transduce_singleton (s : σ) (a : α) : transduce step s [a] = step s a := by
  rw [transduce_cons, transduce_nil, List.append_nil]

theorem transduce_append (front back : List α) : ∀ s : σ,
    transduce step s (front ++ back) =
      ((transduce step (transduce step s front).1 back).1,
        (transduce step s front).2 ++ (transduce step (transduce step s front).1 back).2) := by
  induction front with
  | nil =>
    intro s
    rfl
  | cons a front ih =>
    intro s
    rw [List.cons_append, transduce_cons, ih, transduce_cons, List.append_assoc]

/-- The pieces of a list, one after the other. -/
theorem transduce_flatten (pieces : List (List α)) : ∀ s : σ,
    transduce step s pieces.flatten = transduce (transduce step) s pieces := by
  induction pieces with
  | nil =>
    intro s
    rfl
  | cons piece pieces ih =>
    intro s
    rw [List.flatten_cons, transduce_append, ih, transduce_cons]

/-! ## Lines -/

section lines

variable [DecidableEq α] (sep : α) (handle : σ → List α → σ × List β)

/-- A character ends the line, or is added to the unfinished one. -/
def lineStep (s : σ × List α) (c : α) : (σ × List α) × List β :=
  if c = sep then
    let r := handle s.1 s.2
    ((r.1, []), r.2)
  else ((s.1, s.2 ++ [c]), [])

/-- The loop over the segments between the separators of a piece: each but the last ends a
    line. -/
def lineLoop (s : σ × List α) : List (List α) → (σ × List α) × List β
  | [] => (s, [])
  | [rest] => ((s.1, s.2 ++ rest), [])
  | segment :: segments =>
    let r := handle s.1 (s.2 ++ segment)
    let rest := lineLoop (r.1, []) segments
    (rest.1, r.2 ++ rest.2)

variable {sep handle}

theorem transduce_unfinished {part : List α} : ∀ {s : σ × List α}, sep ∉ part →
    transduce (lineStep sep handle) s part = ((s.1, s.2 ++ part), []) := by
  induction part with
  | nil =>
    intro s _
    rw [transduce_nil, List.append_nil]
  | cons c part ih =>
    intro s hpart
    obtain ⟨hc, hrest⟩ := not_or.mp (fun h => hpart (List.mem_cons.mpr h))
    have hstep : lineStep sep handle s c = ((s.1, s.2 ++ [c]), []) :=
      if_neg fun h => hc h.symm
    rw [transduce_cons, hstep, ih hrest, List.append_assoc]
    rfl

/-- The rest of a line with its end. -/
theorem transduce_line {line rest : List α} {s : σ × List α} (hline : sep ∉ line) :
    transduce (lineStep sep handle) s (line ++ sep :: rest) =
      ((transduce (lineStep sep handle) ((handle s.1 (s.2 ++ line)).1, []) rest).1,
        (handle s.1 (s.2 ++ line)).2 ++
          (transduce (lineStep sep handle) ((handle s.1 (s.2 ++ line)).1, []) rest).2) := by
  have hstep : lineStep sep handle (s.1, s.2 ++ line) sep =
      (((handle s.1 (s.2 ++ line)).1, []), (handle s.1 (s.2 ++ line)).2) := if_pos rfl
  rw [transduce_append, transduce_unfinished hline, transduce_cons, hstep]
  rfl

/-- Whole lines are handled one after the other. -/
theorem transduce_lines {lines : List (List α)} : ∀ {s : σ}, (∀ line ∈ lines, sep ∉ line) →
    transduce (lineStep sep handle) (s, []) (lines.flatMap fun line => line ++ [sep]) =
      (((transduce handle s lines).1, []), (transduce handle s lines).2) := by
  induction lines with
  | nil =>
    intro s _
    rfl
  | cons line lines ih =>
    intro s hlines
    rw [List.flatMap_cons, List.append_assoc, List.singleton_append,
      transduce_line (hlines line List.mem_cons_self),
      ih fun l hl => hlines l (List.mem_cons_of_mem _ hl), List.nil_append, transduce_cons]

omit [DecidableEq α] in
/-- A character in front of the first segment belongs to the unfinished line. -/
theorem lineLoop_cons (s : σ × List α) (c : α) (segment : List α) (segments : List (List α)) :
    lineLoop handle s ((c :: segment) :: segments) =
      lineLoop handle (s.1, s.2 ++ [c]) (segment :: segments) := by
  cases segments with
  | nil | cons => simp [lineLoop]

/-- There is always a first segment. -/
theorem exists_splitOn_eq (sep : α) (text : List α) :
    ∃ segment segments, text.splitOn sep = segment :: segments :=
  List.exists_cons_of_ne_nil (List.splitOnP_ne_nil _ _)

/-- The segments of a text with one more character in front. -/
theorem splitOn_cons (sep c : α) (text : List α) :
    ∃ segment segments, text.splitOn sep = segment :: segments ∧
      (c :: text).splitOn sep =
        if c = sep then [] :: segment :: segments else (c :: segment) :: segments := by
  obtain ⟨segment, segments, hsplit⟩ := exists_splitOn_eq sep text
  refine ⟨segment, segments, hsplit, ?_⟩
  rw [List.splitOn, List.splitOnP_cons_eq_if_modifyHead, ← List.splitOn, hsplit,
    List.modifyHead_cons]
  simp only [beq_iff_eq]

/-- The loop does what the characters do one by one. -/
theorem lineLoop_splitOn (text : List α) : ∀ s : σ × List α,
    lineLoop handle s (text.splitOn sep) = transduce (lineStep sep handle) s text := by
  induction text with
  | nil =>
    intro s
    simp [lineLoop]
  | cons c text ih =>
    intro s
    obtain ⟨segment, segments, hsplit, hcons⟩ := splitOn_cons sep c text
    rw [hcons, transduce_cons, ← ih, hsplit, lineStep]
    split
    · -- the first segment is empty, and the loop handles what was kept of the line
      rw [lineLoop, List.append_nil]
      exact List.cons_ne_nil _ _
    · -- the first segment gets longer, and so does the unfinished line
      rw [lineLoop_cons]
      rfl

/-! ### The segments of a text -/

theorem notMem_of_mem_splitOn {text : List α} :
    ∀ {segment : List α}, segment ∈ text.splitOn sep → sep ∉ segment := by
  induction text with
  | nil => simp
  | cons c text ih =>
    obtain ⟨first, segments, hsplit, hcons⟩ := splitOn_cons sep c text
    intro segment hmem
    rw [hcons] at hmem
    have hfirst : sep ∉ first := ih (by rw [hsplit]; exact List.mem_cons_self)
    have hrest : ∀ l ∈ segments, sep ∉ l := fun l hl =>
      ih (by rw [hsplit]; exact List.mem_cons_of_mem _ hl)
    split at hmem
    · rcases List.mem_cons.mp hmem with rfl | hmem
      · exact List.not_mem_nil
      · exact (List.mem_cons.mp hmem).elim (fun h => h ▸ hfirst) (hrest segment)
    · next hc =>
      rcases List.mem_cons.mp hmem with rfl | hmem
      · rw [List.mem_cons]
        exact fun h => h.elim (fun h => hc h.symm) hfirst
      · exact hrest segment hmem

/-- Without a separator there is one segment. -/
theorem splitOn_eq_singleton {text : List α} (h : sep ∉ text) : text.splitOn sep = [text] := by
  refine List.splitOnP_eq_singleton fun c hc => ?_
  exact beq_eq_false_iff_ne.mpr fun heq => h (heq ▸ hc)

/-- The text is its first segment, and the others each behind a separator. -/
theorem eq_of_splitOn {text : List α} : ∀ {segment : List α} {segments : List (List α)},
    text.splitOn sep = segment :: segments →
      text = segment ++ segments.flatMap fun next => sep :: next := by
  induction text with
  | nil =>
    intro segment segments h
    obtain ⟨rfl, rfl⟩ := List.cons.inj (h.symm.trans (List.splitOn_nil sep))
    rfl
  | cons c text ih =>
    intro segment segments h
    obtain ⟨first, rest, hsplit, hcons⟩ := splitOn_cons sep c text
    have htext := ih hsplit
    rw [hcons] at h
    split at h
    · next hc =>
      obtain ⟨rfl, rfl⟩ := List.cons.inj h
      rw [hc, List.flatMap_cons, List.nil_append, List.cons_append, ← htext]
    · obtain ⟨rfl, rfl⟩ := List.cons.inj h
      rw [List.cons_append, ← htext]

/-- With a separator behind each segment it is the text with a separator behind it. -/
theorem flatMap_splitOn (sep : α) (text : List α) :
    ((text.splitOn sep).flatMap fun segment => segment ++ [sep]) = text ++ [sep] := by
  induction text with
  | nil => simp
  | cons c text ih =>
    obtain ⟨segment, segments, hsplit, hcons⟩ := splitOn_cons sep c text
    rw [hsplit, List.flatMap_cons] at ih
    rw [hcons]
    split
    · next hc =>
      rw [List.flatMap_cons, List.flatMap_cons, ih, hc]
      rfl
    · rw [List.flatMap_cons, List.cons_append, List.cons_append, ih]
      rfl

theorem mem_of_mem_splitOn {text segment : List α} {c : α} (hsegment : segment ∈ text.splitOn sep)
    (hc : c ∈ segment) : c ∈ text := by
  have hmem : c ∈ text ++ [sep] := by
    rw [← flatMap_splitOn]
    exact List.mem_flatMap.mpr ⟨segment, hsegment, List.mem_append_left _ hc⟩
  rcases List.mem_append.mp hmem with h | h
  · exact h
  · obtain rfl := List.mem_singleton.mp h
    exact absurd hc (notMem_of_mem_splitOn hsegment)

end lines

end Framework
