import Mathlib.Data.List.Infix
import Mathlib.Tactic.Common

/-! # Self-synchronizing codes

    The first letter of a word tells the length of the word, and its other
    letters begin no word.  A text is a sequence of words.  So a word that occurs
    in a text is one of the words of the text: it stands between two texts.

    * **Texts** can be cut where a text ends, and around every word.
    * **`without`** removes a word from a text, in one pass.
-/

namespace Framework

universe u

/-- Letters that begin words and letters that continue them. -/
structure SyncCode (α : Type u) where
  /-- The length of the words that begin with the letter; 0 if none does. -/
  length           : α → Nat
  continues        : α → Bool
  length_continues : ∀ a, continues a = true → length a = 0

namespace SyncCode

variable {α : Type u} (c : SyncCode α)

/-- A letter and as many continuations as it announces. -/
structure IsWord (lead : α) (rest : List α) : Prop where
  length    : c.length lead = rest.length + 1
  continues : ∀ a ∈ rest, c.continues a = true

inductive IsText : List α → Prop where
  | nil : IsText []
  | cons {lead : α} {rest text : List α} : c.IsWord lead rest → IsText text →
    IsText (lead :: rest ++ text)

variable {c} {lead lead' : α} {rest rest' text text' a b : List α}

/-! ## Words in texts -/

theorem IsWord.isText (h : c.IsWord lead rest) : c.IsText (lead :: rest) := by
  have htext := IsText.cons h .nil
  rwa [List.append_nil] at htext

theorem IsText.append (ha : c.IsText a) (hb : c.IsText b) : c.IsText (a ++ b) := by
  induction ha with
  | nil => exact hb
  | cons hword _ ih =>
    rw [List.append_assoc]
    exact .cons hword ih

/-- The first letter says where the first word ends. -/
theorem IsWord.unique (h : c.IsWord lead rest) (h' : c.IsWord lead rest')
    (heq : rest ++ text = rest' ++ text') : rest = rest' ∧ text = text' := by
  have hlen : rest.length = rest'.length := by
    have hsame := h.length.symm.trans h'.length
    omega
  exact List.append_inj heq hlen

/-- No word begins at a continuation. -/
theorem IsWord.not_continues (h : c.IsWord lead rest) : c.continues lead ≠ true := by
  intro hcont
  have hzero := c.length_continues lead hcont
  rw [h.length] at hzero
  cases hzero

/-- A word does not begin inside of another word. -/
theorem IsWord.not_inside (h : c.IsWord lead rest) (h' : c.IsWord lead' rest') {j : Nat}
    (hpos : 0 < j) (hj : j < rest'.length + 1) :
    ¬ lead :: rest <+: (lead' :: rest' ++ text).drop j := by
  intro hpre
  obtain ⟨i, rfl⟩ : ∃ i, j = i + 1 := ⟨j - 1, by omega⟩
  have hi : i < rest'.length := by omega
  rw [List.cons_append, List.drop_succ_cons, List.drop_append_of_le_length (Nat.le_of_lt hi),
    List.drop_eq_getElem_cons hi, List.cons_append, List.cons_prefix_cons] at hpre
  -- behind its first letter the other word has continuations only
  refine h.not_continues ?_
  rw [hpre.1]
  exact h'.continues _ (List.getElem_mem hi)

/-- A word begins nowhere in another word. -/
theorem IsWord.not_prefix (h : c.IsWord lead rest) (h' : c.IsWord lead' rest')
    (hne : lead :: rest ≠ lead' :: rest') :
    ∀ j < (lead' :: rest').length, ¬ lead :: rest <+: (lead' :: rest' ++ text).drop j := by
  intro j hj hpre
  cases j with
  | zero =>
    obtain ⟨t, heq⟩ := hpre
    simp only [List.drop_zero, List.cons_append, List.cons.injEq] at heq
    obtain ⟨rfl, heq⟩ := heq
    exact hne (congrArg (lead :: ·) (h.unique h' heq).1)
  | succ j => exact h.not_inside h' (Nat.succ_pos j) hj hpre

/-- A word of a text stands between two texts. -/
theorem IsText.around_word (hword : c.IsWord lead rest) (ht : c.IsText text) :
    ∀ {a b : List α}, text = a ++ (lead :: rest ++ b) → c.IsText a ∧ c.IsText b := by
  induction ht with
  | nil =>
    intro a b heq
    simp at heq
  | @cons lead' rest' text' hword' htext' ih =>
    intro a b heq
    by_cases ha : a = []
    · subst ha
      simp only [List.nil_append, List.cons_append, List.cons.injEq] at heq
      obtain ⟨rfl, heq⟩ := heq
      obtain ⟨-, rfl⟩ := hword'.unique hword heq
      exact ⟨.nil, htext'⟩
    · -- the occurrence begins behind the first word
      have hlen : rest'.length + 1 ≤ a.length := by
        by_contra hshort
        refine hword.not_inside hword' (List.length_pos_iff.mpr ha)
          (by omega : a.length < rest'.length + 1)
          (?_ : lead :: rest <+: (lead' :: rest' ++ text').drop a.length)
        rw [heq, List.drop_left]
        exact List.prefix_append _ _
      obtain ⟨a', rfl⟩ : lead' :: rest' <+: a := by
        refine List.prefix_of_prefix_length_le (List.prefix_append _ text') ?_ hlen
        rw [heq]
        exact List.prefix_append _ _
      -- what is in front of the occurrence goes on with the rest of the text
      rw [List.append_assoc, List.append_cancel_left_eq] at heq
      obtain ⟨ha', hb⟩ := ih heq
      exact ⟨.cons hword' ha', hb⟩

/-- A nonempty text does not begin with a continuation. -/
theorem IsText.head_not_continues {first : α} (h : c.IsText (first :: text)) :
    c.continues first ≠ true := by
  generalize hwhole : first :: text = whole at h
  cases h with
  | nil => cases hwhole
  | cons hword _ =>
    cases hwhole
    exact hword.not_continues

/-- A word at the end of two texts is at the end of the second, if that is not empty. -/
theorem IsText.word_suffix_append (hword : c.IsWord lead rest) (hb : c.IsText b) (hne : b ≠ []) :
    lead :: rest <:+ a ++ b ↔ lead :: rest <:+ b := by
  constructor
  · intro h
    rcases Nat.lt_or_ge b.length (lead :: rest).length with hshort | hlong
    · -- otherwise the second text would begin inside of the word
      have hinside : b <:+ lead :: rest :=
        List.suffix_of_suffix_length_le (List.suffix_append a b) h (Nat.le_of_lt hshort)
      rcases List.suffix_cons_iff.mp hinside with rfl | hrest
      · exact absurd hshort (Nat.lt_irrefl _)
      · obtain ⟨first, text, rfl⟩ := List.exists_cons_of_ne_nil hne
        have hmem : first ∈ rest := hrest.subset List.mem_cons_self
        exact absurd (hword.continues first hmem) hb.head_not_continues
    · exact List.suffix_of_suffix_length_le h (List.suffix_append a b) hlong
  · exact fun h => h.trans (List.suffix_append a b)

/-! ## The words in a list of letters -/

/-- The complete words in a list of letters, whatever stands between them.  No word begins
    inside of another one, so every letter is asked. -/
def words (c : SyncCode α) : List α → List (List α)
  | [] => []
  | lead :: rest =>
    let tail := rest.take (c.length lead - 1)
    if c.length lead = tail.length + 1 ∧ tail.all c.continues = true then
      (lead :: tail) :: c.words rest
    else c.words rest

theorem words_cons_of_not (h : ¬ c.IsWord lead (rest.take (c.length lead - 1))) :
    c.words (lead :: rest) = c.words rest :=
  if_neg fun ⟨hlen, hall⟩ => h ⟨hlen, List.all_eq_true.mp hall⟩

theorem IsWord.words_cons (h : c.IsWord lead (rest.take (c.length lead - 1))) :
    c.words (lead :: rest) = (lead :: rest.take (c.length lead - 1)) :: c.words rest :=
  if_pos ⟨h.length, List.all_eq_true.mpr h.continues⟩

/-- No word begins at a continuation. -/
theorem words_continues (h : ∀ a ∈ rest, c.continues a = true) (text : List α) :
    c.words (rest ++ text) = c.words text := by
  induction rest with
  | nil => rfl
  | cons a rest ih =>
    obtain ⟨ha, hrest⟩ := List.forall_mem_cons.mp h
    exact (words_cons_of_not fun hword => hword.not_continues ha).trans (ih hrest)

theorem IsWord.words_append (h : c.IsWord lead rest) (text : List α) :
    c.words (lead :: rest ++ text) = (lead :: rest) :: c.words text := by
  have htake : (rest ++ text).take (c.length lead - 1) = rest := by
    rw [h.length, Nat.add_sub_cancel, List.take_left]
  have hcons := IsWord.words_cons (htake.symm ▸ h)
  rwa [htake, words_continues h.continues] at hcons

theorem words_suffix (text : List α) : ∀ front : List α, c.words text <:+ c.words (front ++ text)
  | [] => List.suffix_rfl
  | a :: front => by
    have hrest := words_suffix text front
    rw [List.cons_append, words]
    split
    · exact hrest.trans (List.suffix_cons _ _)
    · exact hrest

/-! ## Removing a word -/

section without

variable [DecidableEq α]

/-- Skips the given number of letters, then goes on without the word. -/
def withoutFrom (word : List α) : Nat → List α → List α
  | _, [] => []
  | k + 1, _ :: text => withoutFrom word k text
  | 0, a :: text =>
    if word <+: a :: text then withoutFrom word (word.length - 1) text
    else a :: withoutFrom word 0 text

/-- The text without the occurrences of the word. -/
def without (word text : List α) : List α := withoutFrom word 0 text

@[simp] theorem without_nil (word : List α) : without word [] = [] := rfl

theorem withoutFrom_drop (word : List α) : ∀ (k : Nat) (text : List α),
    withoutFrom word k text = without word (text.drop k)
  | 0, _ => rfl
  | _ + 1, [] => rfl
  | k + 1, _ :: text => withoutFrom_drop word k text

theorem without_self (lead : α) (rest text : List α) :
    without (lead :: rest) (lead :: rest ++ text) = without (lead :: rest) text := by
  have hpre : lead :: rest <+: lead :: (rest ++ text) := List.prefix_append (lead :: rest) text
  rw [without, List.cons_append, withoutFrom, if_pos hpre, withoutFrom_drop]
  simp

/-- Letters at which the word does not begin stay. -/
theorem without_append {word : List α} : ∀ {front : List α},
    (∀ j < front.length, ¬ word <+: (front ++ text).drop j) →
      without word (front ++ text) = front ++ without word text
  | [], _ => rfl
  | a :: front, hfront => by
    have hhead : ¬ word <+: a :: (front ++ text) := hfront 0 (Nat.succ_pos _)
    have hrest : without word (front ++ text) = front ++ without word text :=
      without_append fun j hj => hfront (j + 1) (Nat.succ_lt_succ hj)
    rw [List.cons_append, without, withoutFrom, if_neg hhead]
    exact congrArg (a :: ·) hrest

theorem IsWord.without_ne (h : c.IsWord lead rest) (h' : c.IsWord lead' rest')
    (hne : lead :: rest ≠ lead' :: rest') (text : List α) :
    without (lead :: rest) (lead' :: rest' ++ text) =
      lead' :: rest' ++ without (lead :: rest) text :=
  without_append (h.not_prefix h' hne)

/-- A word is removed from texts one by one. -/
theorem IsText.without_append (hword : c.IsWord lead rest) (ha : c.IsText a) (b : List α) :
    without (lead :: rest) (a ++ b) = without (lead :: rest) a ++ without (lead :: rest) b := by
  induction ha with
  | nil => rfl
  | @cons lead' rest' text hword' _ ih =>
    rw [List.append_assoc]
    -- the first word is the one that goes, or it stays as a whole
    by_cases hsame : lead :: rest = lead' :: rest'
    · rw [← hsame, without_self, without_self, ih]
    · rw [hword.without_ne hword' hsame, hword.without_ne hword' hsame, ih, List.append_assoc]

/-- A text that does not contain the word stays as it is. -/
theorem without_of_not_isInfix {word : List α} (h : ¬ word <:+: text) :
    without word text = text := by
  have hfront : ∀ j < text.length, ¬ word <+: (text ++ []).drop j := by
    intro j _ hpre
    rw [List.append_nil] at hpre
    exact h (hpre.isInfix.trans (List.drop_suffix j text).isInfix)
  have hall := without_append hfront
  rwa [List.append_nil, without_nil, List.append_nil] at hall

end without

end SyncCode

end Framework
