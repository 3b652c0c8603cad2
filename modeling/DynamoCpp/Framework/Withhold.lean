import Mathlib.Data.List.Infix
import Mathlib.Tactic.Common

/-! # Withholding what may begin a pattern

    A text arrives piece by piece and is passed on as early as possible, but no
    occurrence of a pattern may be passed on, not even in part.  It is enough to
    withhold the longest end of the text that begins a pattern: a later
    occurrence starts inside of it.

    * **First occurrences** of a pattern in a text.
    * **`Withheld`**: the text is free of patterns, and the end of it that is
      withheld is long enough.  The rules say where occurrences are after the
      next piece, and that the search for the next end keeps the invariant.
-/

namespace Framework

universe u

variable {α : Type u} [DecidableEq α]

/-! ## First occurrences -/

/-- The offset of the first occurrence. -/
def find (pattern : List α) : List α → Option Nat
  | [] => if pattern = [] then some 0 else none
  | a :: text =>
    if pattern <+: a :: text then some 0 else (find pattern text).map (· + 1)

/-- An occurrence, at an offset that the search reports. -/
theorem find_eq_some {pattern : List α} : ∀ {text : List α} {i : Nat},
    find pattern text = some i ↔ i ≤ text.length ∧ pattern <+: text.drop i ∧
      ∀ j < i, ¬ pattern <+: text.drop j
  | [], i => by
    unfold find
    by_cases hnil : pattern = []
    · subst hnil
      cases i <;> simp
    · simp [hnil]
  | a :: text, i => by
    unfold find
    by_cases hpre : pattern <+: a :: text
    · rw [if_pos hpre]
      cases i with
      | zero => simpa using hpre
      | succ i =>
        simp only [Option.some.injEq, reduceCtorEq, false_iff, not_and, not_forall]
        intro _ _
        exact ⟨0, Nat.succ_pos i, not_not.mpr hpre⟩
    · rw [if_neg hpre, Option.map_eq_some_iff]
      cases i with
      | zero => simp [hpre]
      | succ i =>
        simp only [Nat.add_right_cancel_iff, exists_eq_right, find_eq_some, List.length_cons,
          Nat.add_le_add_iff_right, List.drop_succ_cons]
        refine and_congr_right fun _ => and_congr_right fun _ => ?_
        constructor
        · intro h j hj
          cases j with
          | zero => exact hpre
          | succ j => exact h j (Nat.lt_of_succ_lt_succ hj)
        · exact fun h j hj => h (j + 1) (Nat.succ_lt_succ hj)

theorem find_eq_none {pattern : List α} : ∀ {text : List α},
    find pattern text = none ↔ ¬ pattern <:+: text
  | [] => by
    unfold find
    by_cases hnil : pattern = [] <;> simp [hnil]
  | a :: text => by
    unfold find
    rw [List.infix_cons_iff]
    by_cases hpre : pattern <+: a :: text
    · simp [hpre]
    · rw [if_neg hpre, Option.map_eq_none_iff, find_eq_none]
      simp [hpre]

/-- If nothing starts in the front part, the search can skip it. -/
theorem find_append {pattern text : List α} : ∀ {front : List α},
    (∀ j < front.length, ¬ pattern <+: (front ++ text).drop j) →
      find pattern (front ++ text) = (find pattern text).map (front.length + ·)
  | [], _ => by simp
  | a :: front, hfront => by
    have hhead : ¬ pattern <+: a :: (front ++ text) := hfront 0 (Nat.succ_pos _)
    have hrest : ∀ j < front.length, ¬ pattern <+: (front ++ text).drop j :=
      fun j hj => hfront (j + 1) (Nat.succ_lt_succ hj)
    rw [List.cons_append, find, if_neg hhead, find_append hrest, Option.map_map]
    congr 1
    funext i
    simp only [Function.comp_apply, List.length_cons]
    omega

/-! ## Beginnings of patterns -/

/-- `q` is the beginning of a pattern, but not the whole of it. -/
def Begins (patterns : List (List α)) (q : List α) : Prop :=
  ∃ p ∈ patterns, q <+: p ∧ q.length < p.length

instance (patterns : List (List α)) (q : List α) : Decidable (Begins patterns q) :=
  inferInstanceAs (Decidable (∃ p ∈ patterns, _))

/-- The last `n` elements. -/
def ending (n : Nat) (text : List α) : List α := text.drop (text.length - n)

/-- The length of the longest end of at most the given length that begins a pattern. -/
def holdLength (patterns : List (List α)) (text : List α) : Nat → Nat
  | 0 => 0
  | n + 1 =>
    if Begins patterns (ending (n + 1) text) then n + 1 else holdLength patterns text n

omit [DecidableEq α] in
theorem ending_suffix (n : Nat) (text : List α) : ending n text <:+ text := List.drop_suffix _ _

omit [DecidableEq α] in
theorem length_ending {n : Nat} {text : List α} (h : n ≤ text.length) :
    (ending n text).length = n := by
  rw [ending, List.length_drop]
  omega

omit [DecidableEq α] in
theorem eq_ending {q text : List α} (h : q <:+ text) : q = ending q.length text := by
  obtain ⟨front, rfl⟩ := h
  simp [ending]

theorem holdLength_le (patterns : List (List α)) (text : List α) :
    ∀ n, holdLength patterns text n ≤ n
  | 0 => Nat.le_refl 0
  | n + 1 => by
    unfold holdLength
    split
    · exact Nat.le_refl _
    · exact Nat.le_succ_of_le (holdLength_le patterns text n)

theorem le_holdLength (patterns : List (List α)) (text : List α) {k : Nat}
    (hk : Begins patterns (ending k text)) : ∀ n, k ≤ n → k ≤ holdLength patterns text n
  | 0, h => h
  | n + 1, h => by
    unfold holdLength
    split
    · exact h
    · next hno =>
      have hne : k ≠ n + 1 := by
        rintro rfl
        exact hno hk
      exact le_holdLength patterns text hk n (by omega)

theorem holdLength_begins (patterns : List (List α)) (text : List α) : ∀ n,
    holdLength patterns text n = 0 ∨
      Begins patterns (ending (holdLength patterns text n) text)
  | 0 => Or.inl rfl
  | n + 1 => by
    unfold holdLength
    split
    · next hyes => exact Or.inr hyes
    · exact holdLength_begins patterns text n

/-! ## The invariant -/

/-- No pattern occurs in the text, and the longest end of it that begins a pattern
    is withheld. -/
structure Withheld (patterns : List (List α)) (text pending : List α) : Prop where
  suffix  : pending <:+ text
  held    : pending = [] ∨ Begins patterns pending
  free    : ∀ p ∈ patterns, ¬ p <:+: text
  longest : ∀ q, q <:+ text → Begins patterns q → q.length ≤ pending.length

section withheld

variable {patterns : List (List α)} {text pending piece : List α}

omit [DecidableEq α] in
theorem withheld_nil (hne : ∀ p ∈ patterns, p ≠ []) : Withheld patterns [] [] where
  suffix := List.suffix_refl _
  held := Or.inl rfl
  free := by
    intro p hp hinfix
    exact hne p hp (List.eq_nil_of_infix_nil hinfix)
  longest := by
    intro q hq _
    rw [List.eq_nil_of_suffix_nil hq]

omit [DecidableEq α] in
/-- After the next piece, every occurrence starts in what was withheld. -/
theorem Withheld.starts_late (h : Withheld patterns text pending) {p : List α} (hp : p ∈ patterns)
    {j : Nat} (hj : j < text.length - pending.length) : ¬ p <+: (text ++ piece).drop j := by
  intro hpre
  rw [List.drop_append_of_le_length (by omega)] at hpre
  by_cases hlen : p.length ≤ (text.drop j).length
  · -- the occurrence would be complete without the piece
    have hold := List.prefix_of_prefix_length_le hpre (List.prefix_append _ _) hlen
    exact h.free p hp (hold.isInfix.trans (List.drop_suffix j text).isInfix)
  · -- its first part would be a longer end of the text than the one withheld
    have hbegin := List.prefix_of_prefix_length_le (List.prefix_append (text.drop j) piece) hpre
      (by omega)
    have hle := h.longest _ (List.drop_suffix j text) ⟨p, hp, hbegin, by omega⟩
    rw [List.length_drop] at hle
    omega

/-- Occurrences can be looked for in what was withheld and the next piece. -/
theorem Withheld.find_eq (h : Withheld patterns text pending) {p : List α} (hp : p ∈ patterns) :
    find p (text ++ piece) =
      (find p (pending ++ piece)).map (text.length - pending.length + ·) := by
  obtain ⟨front, rfl⟩ := h.suffix
  have hlen : (front ++ pending).length - pending.length = front.length := by simp
  rw [List.append_assoc, hlen]
  refine find_append ?_
  intro j hj
  rw [← List.append_assoc]
  exact h.starts_late hp (by rw [hlen]; exact hj)

omit [DecidableEq α] in
/-- An end that begins a pattern reaches back no further than what was withheld. -/
theorem Withheld.begins_late (h : Withheld patterns text pending) {q : List α}
    (hq : q <:+ text ++ piece) (hbegins : Begins patterns q) : q <:+ pending ++ piece := by
  obtain ⟨front, rfl⟩ := h.suffix
  rw [List.append_assoc] at hq
  refine List.suffix_of_suffix_length_le hq (List.suffix_append _ _) ?_
  by_cases hshort : q.length ≤ piece.length
  · rw [List.length_append]
    omega
  · -- without the piece, `q` is an end of the old text
    have hpiece : piece <:+ front ++ (pending ++ piece) := ⟨front ++ pending, by simp⟩
    obtain ⟨old, rfl⟩ := List.suffix_of_suffix_length_le hpiece hq (by omega)
    rw [← List.append_assoc, List.suffix_append_inj_of_length_eq rfl] at hq
    obtain ⟨p, hp, hpre, hlen⟩ := hbegins
    have hold := h.longest old hq.1
      ⟨p, hp, (List.prefix_append _ _).trans hpre, by rw [List.length_append] at hlen; omega⟩
    simp only [List.length_append]
    omega

/-- If there is none, the longest end of the two that begins a pattern is withheld
    next.  The search may start at any bound that no beginning exceeds. -/
theorem Withheld.next (h : Withheld patterns text pending) {bound : Nat}
    (hnone : ∀ p ∈ patterns, find p (pending ++ piece) = none)
    (hlen : bound ≤ (pending ++ piece).length)
    (hbound : ∀ q, q <:+ pending ++ piece → Begins patterns q → q.length ≤ bound) :
    Withheld patterns (text ++ piece)
      (ending (holdLength patterns (pending ++ piece) bound) (pending ++ piece)) where
  suffix := by
    obtain ⟨front, rfl⟩ := h.suffix
    exact (ending_suffix _ _).trans ⟨front, by simp⟩
  held := by
    refine (holdLength_begins patterns (pending ++ piece) bound).imp_left fun hzero => ?_
    rw [hzero, ending, Nat.sub_zero, List.drop_length]
  free := by
    intro p hp
    rw [← find_eq_none, h.find_eq hp, hnone p hp]
    rfl
  longest := by
    intro q hq hbegins
    have hlate := h.begins_late hq hbegins
    rw [length_ending ((holdLength_le _ _ _).trans hlen)]
    rw [eq_ending hlate] at hbegins
    exact le_holdLength patterns _ hbegins bound
      (hbound q hlate (by rw [eq_ending hlate]; exact hbegins))

omit [DecidableEq α] in
/-- Without patterns nothing is withheld. -/
theorem Withheld.pending_nil (h : Withheld ([] : List (List α)) text pending) : pending = [] := by
  obtain hnil | ⟨p, hp, _⟩ := h.held
  · exact hnil
  · exact absurd hp List.not_mem_nil

end withheld

/-! ## Cutting at a pattern -/

/-- The offset of the first occurrence of the first pattern, in the order of the
    list, that occurs at all. -/
def cutAt (patterns : List (List α)) (text : List α) : Option Nat :=
  patterns.findSome? fun p => find p text

/-- The text that is passed on in the end: pieces arrive until a pattern occurs,
    and the text is cut there. -/
def cutText (patterns : List (List α)) (text : List α) : List (List α) → List α
  | [] => text
  | piece :: pieces =>
    match cutAt patterns (text ++ piece) with
    | some i => (text ++ piece).take i
    | none => cutText patterns (text ++ piece) pieces

/-- When a pattern has occurred, none lies in front of the cut. -/
def CutsFirst (patterns : List (List α)) (text : List α) : List (List α) → Prop
  | [] => True
  | piece :: pieces =>
    match cutAt patterns (text ++ piece) with
    | some i => ∀ p ∈ patterns, find p ((text ++ piece).take i) = none
    | none => CutsFirst patterns (text ++ piece) pieces

instance decidableCutsFirst (patterns : List (List α)) : ∀ (text : List α)
    (pieces : List (List α)), Decidable (CutsFirst patterns text pieces)
  | _, [] => inferInstanceAs (Decidable True)
  | text, piece :: pieces =>
    show Decidable (match cutAt patterns (text ++ piece) with
      | some i => ∀ p ∈ patterns, find p ((text ++ piece).take i) = none
      | none => CutsFirst patterns (text ++ piece) pieces) from
    match cutAt patterns (text ++ piece) with
    | some _ => inferInstanceAs (Decidable (∀ p ∈ patterns, _))
    | none => decidableCutsFirst patterns (text ++ piece) pieces

theorem cutAt_eq_none {patterns : List (List α)} {text : List α} :
    cutAt patterns text = none ↔ ∀ p ∈ patterns, ¬ p <:+: text := by
  simp only [cutAt, List.findSome?_eq_none_iff, find_eq_none]

omit [DecidableEq α] in
theorem findSome?_congr {β : Type*} {f g : α → Option β} : ∀ {l : List α},
    (∀ x ∈ l, f x = g x) → l.findSome? f = l.findSome? g
  | [], _ => rfl
  | x :: l, h => by
    rw [List.findSome?_cons, List.findSome?_cons, h x List.mem_cons_self,
      findSome?_congr fun y hy => h y (List.mem_cons_of_mem x hy)]

/-- The cut can be looked for in what was withheld and the next piece. -/
theorem Withheld.cutAt_eq {patterns : List (List α)} {text pending piece : List α}
    (h : Withheld patterns text pending) :
    cutAt patterns (text ++ piece) =
      (cutAt patterns (pending ++ piece)).map (text.length - pending.length + ·) := by
  unfold cutAt
  rw [List.map_findSome?]
  exact findSome?_congr fun p hp => h.find_eq hp

/-- The patterns stay out of the text that is passed on exactly if every cut is
    in front of all of them. -/
theorem cutText_free_iff {patterns : List (List α)} : ∀ {pieces : List (List α)} {text : List α},
    (∀ p ∈ patterns, ¬ p <:+: text) →
      ((∀ p ∈ patterns, ¬ p <:+: cutText patterns text pieces) ↔
        CutsFirst patterns text pieces)
  | [], text, hfree => by simpa [cutText, CutsFirst] using hfree
  | piece :: pieces, text, hfree => by
    unfold cutText CutsFirst
    cases hcut : cutAt patterns (text ++ piece) with
    | some i => simp only [find_eq_none]
    | none => exact cutText_free_iff (cutAt_eq_none.mp hcut)

end Framework
