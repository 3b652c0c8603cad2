import DynamoCpp.Framework.SyncCode
import DynamoCpp.Llm.Tokenizers

/-! # Lossy decoding of bytes

    `utf8_lossy` takes a character where the lead byte is followed by as many
    continuation bytes as it announces.  Anything else becomes U+FFFD, byte by
    byte, with one exception: a lead byte that announces more bytes than are left
    ends the loop, and what stands behind it is dropped, whatever it is.
-/

namespace DynamoCpp.Llm

open Framework SyncCode

/-- Characters as `utf8_lossy` takes them; overlong ones and surrogates are among them. -/
def utf8 : SyncCode UInt8 where
  length           := utf8SeqLen
  continues        := fun byte => byte &&& 0xC0 == 0x80
  length_continues := by
    rintro ⟨byte⟩
    revert byte
    decide

theorem isWord_replacementChar : utf8.IsWord 0xEF [0xBF, 0xBD] :=
  ⟨rfl, List.forall_mem_cons.mpr ⟨rfl, List.forall_mem_singleton.mpr rfl⟩⟩

/-! ## The turns of the loop -/

section turns

variable {lead : UInt8} {rest bytes : Bytes}

theorem utf8Lossy_cons (lead : UInt8) (bytes : Bytes) :
    utf8Lossy (lead :: bytes) =
      if utf8SeqLen lead = 0 then replacementChar ++ utf8Lossy bytes
      else if bytes.length + 1 < utf8SeqLen lead then replacementChar
      else if (bytes.take (utf8SeqLen lead - 1)).all fun byte => byte &&& 0xC0 == 0x80 then
        lead :: bytes.take (utf8SeqLen lead - 1) ++ utf8Lossy (bytes.drop (utf8SeqLen lead - 1))
      else replacementChar ++ utf8Lossy bytes := by
  have hdrop : utf8LossyLoop bytes.length (bytes.drop (utf8SeqLen lead - 1)) =
      utf8Lossy (bytes.drop (utf8SeqLen lead - 1)) :=
    utf8LossyLoop_fuel (by rw [List.length_drop]; exact Nat.sub_le _ _) le_rfl
  rw [← hdrop]
  rfl

/-- A character is copied. -/
theorem utf8Lossy_char (h : utf8.IsWord lead rest) (bytes : Bytes) :
    utf8Lossy (lead :: rest ++ bytes) = lead :: rest ++ utf8Lossy bytes := by
  have hlen : utf8SeqLen lead = rest.length + 1 := h.length
  have hall : (rest.all fun byte => byte &&& 0xC0 == 0x80) = true :=
    List.all_eq_true.mpr h.continues
  have hfits : ¬ (rest ++ bytes).length + 1 < rest.length + 1 := by
    rw [List.length_append]
    omega
  rw [List.cons_append, utf8Lossy_cons, hlen, if_neg (Nat.succ_ne_zero _), if_neg hfits,
    Nat.add_sub_cancel, List.take_left, List.drop_left, if_pos hall]

/-- A sequence that does not fit ends the loop. -/
theorem utf8Lossy_cut (h : bytes.length + 1 < utf8SeqLen lead) :
    utf8Lossy (lead :: bytes) = replacementChar := by
  rw [utf8Lossy_cons, if_neg (by omega), if_pos h]

/-- A byte that begins no character is replaced. -/
theorem utf8Lossy_skip (hfits : utf8SeqLen lead ≤ bytes.length + 1)
    (hno : ¬ utf8.IsWord lead (bytes.take (utf8SeqLen lead - 1))) :
    utf8Lossy (lead :: bytes) = replacementChar ++ utf8Lossy bytes := by
  rw [utf8Lossy_cons]
  by_cases hzero : utf8SeqLen lead = 0
  · rw [if_pos hzero]
  · have hlen : utf8SeqLen lead = (bytes.take (utf8SeqLen lead - 1)).length + 1 := by
      rw [List.length_take]
      omega
    rw [if_neg hzero, if_neg (by omega), if_neg]
    exact fun hall => hno ⟨hlen, List.all_eq_true.mp hall⟩

/-- Induction along the loop. -/
theorem lossy_induction {motive : Bytes → Prop} (nil : motive [])
    (char : ∀ (lead : UInt8) (rest bytes : Bytes), utf8.IsWord lead rest → motive bytes →
      motive (lead :: rest ++ bytes))
    (cut : ∀ (lead : UInt8) (bytes : Bytes), bytes.length + 1 < utf8SeqLen lead →
      motive (lead :: bytes))
    (skip : ∀ (lead : UInt8) (bytes : Bytes), utf8SeqLen lead ≤ bytes.length + 1 →
      ¬ utf8.IsWord lead (bytes.take (utf8SeqLen lead - 1)) → motive bytes →
      motive (lead :: bytes)) :
    ∀ bytes : Bytes, motive bytes := by
  intro bytes
  induction hlen : bytes.length using Nat.strong_induction_on generalizing bytes with
  | _ n ih =>
    subst hlen
    cases bytes with
    | nil => exact nil
    | cons lead bytes =>
      -- the tests of the loop, in their order
      rcases Nat.lt_or_ge (bytes.length + 1) (utf8SeqLen lead) with hcut | hfits
      · exact cut lead bytes hcut
      · by_cases hword : utf8.IsWord lead (bytes.take (utf8SeqLen lead - 1))
        · have hshorter : (bytes.drop (utf8SeqLen lead - 1)).length < (lead :: bytes).length := by
            rw [List.length_drop, List.length_cons]
            omega
          have hrest := ih _ hshorter _ rfl
          have hchar := char lead _ _ hword hrest
          rwa [List.cons_append, List.take_append_drop] at hchar
        · exact skip lead bytes hfits hword (ih _ (Nat.lt_succ_self _) bytes rfl)

end turns

/-! ## Characters -/

theorem isText_utf8Lossy (bytes : Bytes) : utf8.IsText (utf8Lossy bytes) := by
  induction bytes using lossy_induction with
  | nil => exact .nil
  | char lead rest bytes hchar ih =>
    rw [utf8Lossy_char hchar]
    exact .cons hchar ih
  | cut lead bytes hcut =>
    rw [utf8Lossy_cut hcut]
    exact isWord_replacementChar.isText
  | skip lead bytes hfits hno ih =>
    rw [utf8Lossy_skip hfits hno]
    exact .cons isWord_replacementChar ih

/-- The complete characters in a byte string, in their order. -/
def characters (s : Bytes) : List Bytes := utf8.words s

/-- Somewhere a lead byte announces more bytes than are left, and among those there is a
    complete character of the given kind. -/
def CutsOff (kind : Bytes → Bool) (s : Bytes) : Prop :=
  ∃ front lead rest, s = front ++ lead :: rest ∧ rest.length + 1 < utf8SeqLen lead ∧
    (characters rest).filter kind ≠ []

/-- The ASCII bytes of a string, in their order. -/
def asciiBytes (s : Bytes) : Bytes := s.filter (· < 0x80)

def isAscii (char : Bytes) : Bool := char.length = 1

def notReplacement (char : Bytes) : Bool := char ≠ replacementChar

section characters

variable {kind : Bytes → Bool} {lead : UInt8} {rest bytes : Bytes}

theorem cutsOff_cons :
    CutsOff kind (lead :: bytes) ↔
      (bytes.length + 1 < utf8SeqLen lead ∧ (characters bytes).filter kind ≠ []) ∨
        CutsOff kind bytes := by
  constructor
  · rintro ⟨front, lead', rest, heq, hlen, hchars⟩
    cases front with
    | nil =>
      cases heq
      exact .inl ⟨hlen, hchars⟩
    | cons first front =>
      cases heq
      exact .inr ⟨front, lead', rest, rfl, hlen, hchars⟩
  · rintro (⟨hlen, hchars⟩ | ⟨front, lead', rest, rfl, hlen, hchars⟩)
    · exact ⟨[], lead, bytes, rfl, hlen, hchars⟩
    · exact ⟨lead :: front, lead', rest, rfl, hlen, hchars⟩

/-- A byte whose sequence fits cuts nothing off. -/
theorem cutsOff_fits (hfits : utf8SeqLen lead ≤ bytes.length + 1) :
    CutsOff kind (lead :: bytes) ↔ CutsOff kind bytes := by
  rw [cutsOff_cons]
  exact or_iff_right fun h => Nat.not_lt.mpr hfits h.1

theorem cutsOff_char (h : utf8.IsWord lead rest) :
    CutsOff kind (lead :: rest ++ bytes) ↔ CutsOff kind bytes := by
  -- a continuation announces nothing
  have hrest : ∀ front : Bytes, (∀ byte ∈ front, utf8.continues byte = true) →
      (CutsOff kind (front ++ bytes) ↔ CutsOff kind bytes) := by
    intro front hfront
    induction front with
    | nil => rfl
    | cons byte front ih =>
      have hzero : utf8SeqLen byte = 0 :=
        utf8.length_continues byte (hfront byte List.mem_cons_self)
      rw [List.cons_append, cutsOff_fits (by omega)]
      exact ih fun b hb => hfront b (List.mem_cons_of_mem _ hb)
  have hlen : utf8SeqLen lead = rest.length + 1 := h.length
  rw [List.cons_append, cutsOff_fits (by rw [List.length_append]; omega)]
  exact hrest rest h.continues

/-- The characters of a kind survive exactly if none of them is cut off. -/
theorem filter_characters_iff (hkind : kind replacementChar = false) (s : Bytes) :
    (characters (utf8Lossy s)).filter kind = (characters s).filter kind ↔ ¬ CutsOff kind s := by
  -- a replacement character is not of the kind
  have hreplaced : ∀ bytes, (characters (replacementChar ++ bytes)).filter kind =
      (characters bytes).filter kind := by
    intro bytes
    exact (congrArg (List.filter kind) (isWord_replacementChar.words_append bytes)).trans
      (List.filter_cons_of_neg (ne_true_of_eq_false hkind))
  induction s using lossy_induction with
  | nil =>
    refine iff_of_true rfl ?_
    rintro ⟨front, lead, rest, heq, -⟩
    simp at heq
  | char lead rest bytes hchar ih =>
    have hfirst : ∀ text, (characters (lead :: rest ++ text)).filter kind =
        [lead :: rest].filter kind ++ (characters text).filter kind := by
      intro text
      rw [← List.filter_append]
      exact congrArg (List.filter kind) (hchar.words_append text)
    rw [utf8Lossy_char hchar, cutsOff_char hchar, hfirst, hfirst, List.append_cancel_left_eq]
    exact ih
  | cut lead bytes hcut =>
    have hno : ¬ utf8.IsWord lead (bytes.take (utf8SeqLen lead - 1)) := by
      intro hword
      have hlen : utf8SeqLen lead = _ := hword.length
      rw [List.length_take] at hlen
      omega
    have hdropped : characters (lead :: bytes) = characters bytes := words_cons_of_not hno
    have hnil : (characters replacementChar).filter kind = [] := hreplaced []
    rw [utf8Lossy_cut hcut, hnil, hdropped, cutsOff_cons]
    constructor
    · rintro hnone (⟨-, hsome⟩ | ⟨front, lead', rest, rfl, -, hsome⟩)
      · exact hsome hnone.symm
      · -- what stands further behind is dropped as well
        have hrest : (characters rest).filter kind <:+
            (characters (front ++ lead' :: rest)).filter kind := by
          rw [← List.singleton_append, ← List.append_assoc]
          exact (words_suffix rest (front ++ [lead'])).filter kind
        rw [← hnone] at hrest
        exact hsome (List.suffix_nil.mp hrest)
    · intro hkept
      by_contra hsome
      exact hkept (.inl ⟨hcut, fun hnone => hsome hnone.symm⟩)
  | skip lead bytes hfits hno ih =>
    have hskipped : characters (lead :: bytes) = characters bytes := words_cons_of_not hno
    rw [utf8Lossy_skip hfits hno, hreplaced, hskipped, cutsOff_fits hfits]
    exact ih

theorem lt_of_utf8SeqLen_eq_one (h : utf8SeqLen lead = 1) : lead < 0x80 := by
  by_contra hge
  rw [utf8SeqLen, if_neg hge] at h
  split_ifs at h <;> omega

/-- An ASCII byte is a character by itself. -/
theorem filter_isAscii (s : Bytes) : (characters s).filter isAscii = (asciiBytes s).map ([·]) := by
  induction s with
  | nil => rfl
  | cons byte s ih =>
    by_cases hascii : byte < 0x80
    · have hword : utf8.IsWord byte [] := ⟨if_pos hascii, by simp⟩
      have hfirst : characters (byte :: s) = [byte] :: characters s := hword.words_append s
      have hkept : asciiBytes (byte :: s) = byte :: asciiBytes s :=
        List.filter_cons_of_pos (by simpa using hascii)
      rw [hfirst, hkept, List.map_cons, ← ih]
      rfl
    · have hdropped : asciiBytes (byte :: s) = asciiBytes s :=
        List.filter_cons_of_neg (by simpa using hascii)
      rw [hdropped, ← ih]
      by_cases hword : utf8.IsWord byte (s.take (utf8SeqLen byte - 1))
      · -- a character of more than one byte is not ASCII
        have hlen : utf8SeqLen byte = _ := hword.length
        have hone : ¬ isAscii (byte :: s.take (utf8SeqLen byte - 1)) = true := by
          intro hone
          have hshort : (byte :: s.take (utf8SeqLen byte - 1)).length = 1 := of_decide_eq_true hone
          rw [← List.length_cons, hshort] at hlen
          exact hascii (lt_of_utf8SeqLen_eq_one hlen)
        exact (congrArg (List.filter isAscii) hword.words_cons).trans
          (List.filter_cons_of_neg hone)
      · exact congrArg (List.filter isAscii) (words_cons_of_not hword)

end characters

/-- **Characters are kept unless they are cut off.**  The result is text.  The characters of a
    string survive lossy decoding exactly if none of them stands behind a lead byte that
    announces more bytes than are left, and so do its ASCII bytes. -/
theorem characters_utf8Lossy_iff (s : Bytes) :
    utf8.IsText (utf8Lossy s) ∧
    ((characters (utf8Lossy s)).filter notReplacement = (characters s).filter notReplacement ↔
      ¬ CutsOff notReplacement s) ∧
    (asciiBytes (utf8Lossy s) = asciiBytes s ↔ ¬ CutsOff isAscii s) := by
  refine ⟨isText_utf8Lossy s, filter_characters_iff (by decide) s, ?_⟩
  rw [← filter_characters_iff (by decide) s, filter_isAscii, filter_isAscii]
  exact (List.map_injective_iff.mpr fun _ _ h => List.singleton_inj.mp h).eq_iff.symm

/-- The lead byte of a sequence of three bytes and one more byte: the letter is lost.  Behind
    the lead byte of a sequence of four, so is a character of two bytes. -/
theorem lossy_swallows_letter :
    (asciiBytes [0xE2, 0x41] = [0x41] ∧ asciiBytes (utf8Lossy [0xE2, 0x41]) = []) ∧
    (characters [0xF0, 0xC3, 0xA9]).filter notReplacement = [[0xC3, 0xA9]] ∧
    (characters (utf8Lossy [0xF0, 0xC3, 0xA9])).filter notReplacement = [] := by decide

end DynamoCpp.Llm
