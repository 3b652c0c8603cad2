import DynamoCpp.Framework.Document
import DynamoCpp.Llm.LossyDecoding

/-! # Incremental decoding

    `Sequence::append_token_id` decodes the tokens since `prefix_offset` again
    and returns what is new, unless the text ends in U+FFFD.  A text that does
    not end in U+FFFD ends with a character or a special token, so decoding can
    be cut there: the window gives what decoding from the start would give.
-/

namespace DynamoCpp.Llm

open Framework ByteLevelTokenizer SyncCode

/-! ## Lossy decoding and characters -/

theorem utf8Lossy_text {bytes : Bytes} (h : utf8.IsText bytes) : utf8Lossy bytes = bytes := by
  induction h with
  | nil => rfl
  | cons hchar _ ih => rw [utf8Lossy_char hchar, ih]

theorem utf8Lossy_eq_nil {bytes : Bytes} : utf8Lossy bytes = [] ↔ bytes = [] := by
  constructor
  · intro h
    induction bytes using lossy_induction with
    | nil => rfl
    | char lead rest bytes hchar _ =>
      rw [utf8Lossy_char hchar] at h
      cases h
    | cut lead bytes hcut =>
      rw [utf8Lossy_cut hcut] at h
      cases h
    | skip lead bytes hfits hno _ =>
      rw [utf8Lossy_skip hfits hno] at h
      cases h
  · rintro rfl
    rfl

/-- Bytes that do not end in U+FFFD can be decoded by themselves. -/
theorem utf8Lossy_append {a : Bytes} (h : ¬ replacementChar <:+ utf8Lossy a) (b : Bytes) :
    utf8Lossy (a ++ b) = utf8Lossy a ++ utf8Lossy b := by
  induction a using lossy_induction with
  | nil => rfl
  | char lead rest bytes hchar ih =>
    rw [utf8Lossy_char hchar] at h
    rw [List.append_assoc, utf8Lossy_char hchar, utf8Lossy_char hchar, List.append_assoc,
      ih fun hsuffix => h (hsuffix.trans (List.suffix_append _ _))]
  | cut lead bytes hcut =>
    rw [utf8Lossy_cut hcut] at h
    exact absurd (List.suffix_refl _) h
  | skip lead bytes hfits hno ih =>
    -- the sequence fits already, so more bytes do not change what is seen of it
    have htake : (bytes ++ b).take (utf8SeqLen lead - 1) = bytes.take (utf8SeqLen lead - 1) :=
      List.take_append_of_le_length (by omega)
    have hfits' : utf8SeqLen lead ≤ (bytes ++ b).length + 1 := by
      rw [List.length_append]
      omega
    rw [utf8Lossy_skip hfits hno] at h
    rw [List.cons_append, utf8Lossy_skip hfits' (by rwa [htake]), utf8Lossy_skip hfits hno,
      List.append_assoc, ih fun hsuffix => h (hsuffix.trans (List.suffix_append _ _))]

theorem endsWithReplacement_iff {s : Bytes} :
    endsWithReplacement s = true ↔ replacementChar <:+ s := by
  rw [endsWithReplacement, List.suffix_iff_eq_drop, Bool.and_eq_true, decide_eq_true_eq,
    beq_iff_eq, eq_comm (a := replacementChar)]
  refine and_iff_right_of_imp fun h => ?_
  have hlen := congrArg List.length h
  rw [List.length_drop] at hlen
  simp only [replacementChar, List.length_cons] at hlen
  omega

/-- On characters the loop of `remove_replacement_chars` is one pass. -/
theorem removeLoop_text : ∀ {fuel : Nat} {text : Bytes}, text.length ≤ fuel → utf8.IsText text →
    removeLoop fuel text = without replacementChar text
  | 0, text, hlen, _ => by
    obtain rfl := List.eq_nil_of_length_eq_zero (Nat.le_zero.mp hlen)
    rfl
  | fuel + 1, text, hlen, htext => by
    unfold removeLoop
    cases hfind : find replacementChar text with
    | none => exact (without_of_not_isInfix (find_eq_none.mp hfind)).symm
    | some pos =>
      obtain ⟨hpos, ⟨after, hafter⟩, -⟩ := find_eq_some.mp hfind
      obtain ⟨before, rfl, rfl⟩ : ∃ before, text = before ++ (replacementChar ++ after) ∧
          pos = before.length := by
        refine ⟨text.take pos, ?_, ?_⟩
        · rw [hafter, List.take_append_drop]
        · rw [List.length_take, Nat.min_eq_left hpos]
      -- the occurrence is a character of the text, so what is left of it is a text again
      obtain ⟨hbefore, hrest⟩ := htext.around_word isWord_replacementChar rfl
      dsimp only
      rw [List.take_left, ← List.drop_drop, List.drop_left, List.drop_left]
      have hshorter : (before ++ after).length ≤ fuel := by
        simp only [List.length_append, replacementChar, List.length_cons, List.length_nil] at hlen ⊢
        omega
      have hself : without replacementChar (replacementChar ++ after) =
          without replacementChar after := without_self _ _ after
      rw [removeLoop_text hshorter (hbefore.append hrest)]
      refine (hbefore.without_append isWord_replacementChar after).trans ?_
      refine Eq.trans ?_ (hbefore.without_append isWord_replacementChar _).symm
      exact congrArg (_ ++ ·) hself.symm

theorem removeReplacementChars_text {text : Bytes} (h : utf8.IsText text) :
    removeReplacementChars text = without replacementChar text :=
  removeLoop_text le_rfl h

/-! ## Decoding tokens -/

namespace ByteLevelTokenizer

/-- The text of a special token. -/
def specialText (id : TokenIdType) : Bytes := if id = bosId then str "<s>" else str "</s>"

/-- The text of tokens below 258, with bytes that stand in front of them. -/
def decoded (bytes : Bytes) : List TokenIdType → Bytes
  | [] => utf8Lossy bytes
  | id :: ids =>
    if id < 256 then decoded (bytes ++ [UInt8.ofNat id.toNat]) ids
    else utf8Lossy bytes ++ (specialText id ++ decoded [] ids)

theorem decodeLoop_eq {ids : List TokenIdType} : ∀ {bytes out : Bytes}, (∀ id ∈ ids, id < 258) →
    decodeLoop false bytes out ids = .ok (out ++ decoded bytes ids) := by
  induction ids with
  | nil =>
    intro bytes out _
    rfl
  | cons id ids ih =>
    intro bytes out h
    have hrest : ∀ x ∈ ids, x < 258 := fun x hx => h x (List.mem_cons_of_mem _ hx)
    have hid : id < 258 := h id List.mem_cons_self
    unfold decodeLoop decoded
    by_cases hbyte : id < 256
    · rw [if_pos hbyte, if_pos hbyte]
      exact ih hrest
    · rw [if_neg hbyte, if_neg hbyte, if_neg Bool.false_ne_true, specialText]
      by_cases hbos : id = bosId
      · rw [if_pos hbos, if_pos hbos, ih hrest]
        simp only [List.append_assoc]
      · have heos : id = eosId := by
          have hne : id.toNat ≠ 256 := fun heq => hbos (UInt32.toNat_inj.mp heq)
          rw [UInt32.lt_iff_toNat_lt] at hid hbyte
          refine UInt32.toNat_inj.mp ?_
          show id.toNat = 257
          have h258 : (258 : UInt32).toNat = 258 := rfl
          have h256 : (256 : UInt32).toNat = 256 := rfl
          omega
        rw [if_neg hbos, if_neg hbos, if_pos heos, ih hrest]
        simp only [List.append_assoc]

/-- Tokens below 258 are decoded. -/
theorem decode_eq {ids : List TokenIdType} (h : ∀ id ∈ ids, id < 258) :
    decode ids false = .ok (decoded [] ids) := decodeLoop_eq h

theorem isText_specialText (id : TokenIdType) : utf8.IsText (specialText id) := by
  have hascii : ∀ s : Bytes, (∀ byte ∈ s, byte < 0x80) → utf8.IsText s := by
    intro s hs
    induction s with
    | nil => exact .nil
    | cons byte s ih =>
      have hword : utf8.IsWord byte [] :=
        ⟨if_pos (hs byte List.mem_cons_self), fun _ h => nomatch h⟩
      exact .cons hword (ih fun b hb => hs b (List.mem_cons_of_mem _ hb))
  unfold specialText
  split <;> exact hascii _ (by simp [str])

theorem isText_decoded : ∀ (ids : List TokenIdType) (bytes : Bytes), utf8.IsText (decoded bytes ids)
  | [], bytes => isText_utf8Lossy bytes
  | id :: ids, bytes => by
    unfold decoded
    split
    · exact isText_decoded ids _
    · exact (isText_utf8Lossy bytes).append
        ((isText_specialText id).append (isText_decoded ids []))

theorem decoded_ne_nil : ∀ {ids : List TokenIdType} {bytes : Bytes}, bytes ≠ [] ∨ ids ≠ [] →
    decoded bytes ids ≠ []
  | [], bytes, h => fun hnil => h.elim (fun hb => hb (utf8Lossy_eq_nil.mp hnil)) fun hi => hi rfl
  | id :: ids, bytes, _ => by
    unfold decoded
    split
    · exact decoded_ne_nil (.inl (by simp))
    · intro hnil
      rw [List.append_eq_nil_iff, List.append_eq_nil_iff, specialText] at hnil
      have hspecial := hnil.2.1
      split at hspecial <;> exact absurd hspecial (by decide)

/-- Bytes that do not end in U+FFFD are decoded by themselves. -/
theorem decoded_bytes_append {x : Bytes} (h : ¬ replacementChar <:+ utf8Lossy x) :
    ∀ (ids : List TokenIdType) (y : Bytes), decoded (x ++ y) ids = utf8Lossy x ++ decoded y ids
  | [], y => utf8Lossy_append h y
  | id :: ids, y => by
    unfold decoded
    split
    · rw [List.append_assoc, decoded_bytes_append h ids]
    · rw [utf8Lossy_append h, List.append_assoc]

/-- So are tokens. -/
theorem decoded_append {b : List TokenIdType} : ∀ {a : List TokenIdType} {bytes : Bytes},
    ¬ replacementChar <:+ decoded bytes a →
      decoded bytes (a ++ b) = decoded bytes a ++ decoded [] b
  | [], bytes, h => by
    have hcut := decoded_bytes_append h b []
    rwa [List.append_nil] at hcut
  | id :: a, bytes, h => by
    unfold decoded at h
    rw [List.cons_append, decoded, decoded]
    split at h
    · next hbyte => rw [if_pos hbyte, if_pos hbyte, decoded_append h]
    · next hspecial =>
      have hrest : ¬ replacementChar <:+ decoded [] a := fun hsuffix =>
        h ((hsuffix.trans (List.suffix_append _ _)).trans (List.suffix_append _ _))
      rw [if_neg hspecial, if_neg hspecial, decoded_append hrest]
      simp only [List.append_assoc]

/-- Decoding can be cut where the text in front does not end in U+FFFD. -/
theorem decoded_take_drop {ids : List TokenIdType} {n : Nat}
    (h : ¬ replacementChar <:+ decoded [] (ids.take n)) :
    decoded [] ids = decoded [] (ids.take n) ++ decoded [] (ids.drop n) := by
  have hcut := decoded_append (b := ids.drop n) h
  rwa [List.take_append_drop] at hcut

end ByteLevelTokenizer

/-! ## The window -/

theorem boundaryBefore_self {text : Bytes} {n : Nat} (h : isCharBoundary text n = true) :
    boundaryBefore text n = n := by
  cases n with
  | zero => rfl
  | succ n => rw [boundaryBefore, if_pos h]

/-- A text begins with a character boundary. -/
theorem isCharBoundary_append {text : Bytes} (front : Bytes) (h : utf8.IsText text) :
    isCharBoundary (front ++ text) front.length = true := by
  unfold isCharBoundary
  rw [List.getElem?_append_right le_rfl, Nat.sub_self]
  cases text with
  | nil => rfl
  | cons first text =>
    have hfirst : ¬ (first &&& 0xC0 == 0x80) = true := h.head_not_continues
    rw [beq_iff_eq] at hfirst
    simpa using .inr hfirst

namespace Sequence

/-- The sequence after the tokens were appended one by one. -/
def appended (tokenizer : Tokenizer) (s : Sequence) (ids : List TokenIdType) : Sequence :=
  ids.foldl (fun s id => (s.appendTokenId tokenizer id).2) s

open ByteLevelTokenizer

/-- `text` was returned for the tokens `ids`: it is the text of the tokens in front of
    `read_offset`, the last point where decoding can be cut. -/
structure Returned (ids : List TokenIdType) (text : Bytes) (s : Sequence) : Prop where
  tokenIds : s.tokenIds = ids
  ordered  : s.prefixOffset ≤ s.readOffset ∧ s.readOffset ≤ ids.length
  cutFront : ¬ replacementChar <:+ decoded [] (ids.take s.prefixOffset)
  cut      : ¬ replacementChar <:+ decoded [] (ids.take s.readOffset)
  text     : text = SyncCode.without replacementChar (decoded [] (ids.take s.readOffset))
  latest   : ∀ n, s.readOffset < n → n ≤ ids.length →
    replacementChar <:+ decoded [] (ids.take n)

theorem returned_init : Returned [] [] {} where
  tokenIds := rfl
  ordered := ⟨le_rfl, le_rfl⟩
  cutFront := by decide
  cut := by decide
  text := rfl
  latest := fun n hpos hlen => absurd hpos (Nat.not_lt.mpr hlen)

section step

variable {ids : List TokenIdType} {text : Bytes} {s : Sequence} {id : TokenIdType}

/-- The text of the window is the text returned last, and what is new. -/
theorem Returned.window (h : Returned ids text s) (id : TokenIdType) :
    decoded [] ((ids ++ [id]).drop s.prefixOffset) =
        decoded [] (((ids ++ [id]).take s.readOffset).drop s.prefixOffset) ++
          decoded [] ((ids ++ [id]).drop s.readOffset) ∧
      decoded [] (ids ++ [id]) =
        decoded [] (ids.take s.readOffset) ++ decoded [] ((ids ++ [id]).drop s.readOffset) := by
  obtain ⟨hpr, hrl⟩ := h.ordered
  have htake : ∀ {n : Nat}, n ≤ ids.length → (ids ++ [id]).take n = ids.take n :=
    fun hn => List.take_append_of_le_length hn
  have hread : ¬ replacementChar <:+ decoded [] ((ids ++ [id]).take s.readOffset) := by
    rw [htake hrl]
    exact h.cut
  have hfront : ¬ replacementChar <:+
      decoded [] (((ids ++ [id]).take s.readOffset).take s.prefixOffset) := by
    rw [List.take_take, Nat.min_eq_left hpr, htake (hpr.trans hrl)]
    exact h.cutFront
  constructor
  · -- the tokens of the window end where decoding can be cut
    have hwindow : ¬ replacementChar <:+
        decoded [] (((ids ++ [id]).take s.readOffset).drop s.prefixOffset) := by
      intro hsuffix
      rw [decoded_take_drop hfront] at hread
      exact hread (hsuffix.trans (List.suffix_append _ _))
    rw [← decoded_append hwindow]
    congr 1
    conv_lhs => rw [← List.take_append_drop s.readOffset (ids ++ [id])]
    refine List.drop_append_of_le_length ?_
    rw [List.length_take, List.length_append]
    omega
  · rw [decoded_take_drop hread, htake hrl]

/-- The text of the tokens from `read_offset` on. -/
def fresh (s : Sequence) (ids : List TokenIdType) : Bytes := decoded [] (ids.drop s.readOffset)

/-- There is something new, and it alone decides whether a text ends in U+FFFD. -/
theorem Returned.fresh_ends (h : Returned ids text s) (id : TokenIdType) :
    s.fresh (ids ++ [id]) ≠ [] ∧ ∀ front, replacementChar <:+ front ++ s.fresh (ids ++ [id]) ↔
      replacementChar <:+ s.fresh (ids ++ [id]) := by
  have hne : s.fresh (ids ++ [id]) ≠ [] := by
    refine decoded_ne_nil (.inr fun hnil => ?_)
    have hlen := congrArg List.length hnil
    have hread := h.ordered.2
    simp at hlen
    omega
  exact ⟨hne, fun front => (isText_decoded _ _).word_suffix_append isWord_replacementChar hne⟩

/-- The text is held back: it may go on with the bytes of the next token. -/
theorem Returned.hold (h : Returned ids text s)
    (hends : replacementChar <:+ s.fresh (ids ++ [id])) :
    Returned (ids ++ [id]) text { s with tokenIds := ids ++ [id] } := by
  obtain ⟨hpr, hrl⟩ := h.ordered
  have htake : ∀ {n : Nat}, n ≤ ids.length → (ids ++ [id]).take n = ids.take n :=
    fun hn => List.take_append_of_le_length hn
  refine ⟨rfl, ⟨hpr, ?_⟩, ?_, ?_, ?_, ?_⟩
  · rw [List.length_append]
    exact Nat.le_add_right_of_le hrl
  · rw [htake (hpr.trans hrl)]
    exact h.cutFront
  · rw [htake hrl]
    exact h.cut
  · rw [htake hrl]
    exact h.text
  · intro n hn hlen
    -- the new token is behind the last cut as well
    rcases Nat.lt_or_ge ids.length n with hlast | hold
    · rw [List.take_of_length_le (by rw [List.length_append]; exact hlast), (h.window id).2]
      exact ((h.fresh_ends id).2 _).mpr hends
    · rw [htake hold]
      exact h.latest n hn hold

/-- The text is returned: decoding can be cut behind the new token. -/
theorem Returned.release (h : Returned ids text s)
    (hends : ¬ replacementChar <:+ s.fresh (ids ++ [id])) :
    Returned (ids ++ [id])
      (text ++ without replacementChar (s.fresh (ids ++ [id])))
      { s with
        tokenIds := ids ++ [id]
        prefixOffset := s.readOffset
        readOffset := (ids ++ [id]).length } := by
  have hrl := h.ordered.2
  have htake : (ids ++ [id]).take s.readOffset = ids.take s.readOffset :=
    List.take_append_of_le_length hrl
  refine ⟨rfl, ⟨?_, le_rfl⟩, ?_, ?_, ?_, ?_⟩
  · show s.readOffset ≤ (ids ++ [id]).length
    rw [List.length_append]
    exact Nat.le_add_right_of_le hrl
  · show ¬ replacementChar <:+ decoded [] ((ids ++ [id]).take s.readOffset)
    rw [htake]
    exact h.cut
  · show ¬ replacementChar <:+ decoded [] ((ids ++ [id]).take (ids ++ [id]).length)
    rw [List.take_length, (h.window id).2]
    exact fun hend => hends (((h.fresh_ends id).2 _).mp hend)
  · show _ = without replacementChar
      (decoded [] ((ids ++ [id]).take (ids ++ [id]).length))
    rw [List.take_length, (h.window id).2, h.text]
    exact ((isText_decoded _ _).without_append isWord_replacementChar _).symm
  · exact fun n hlast hlen => absurd hlast (Nat.not_lt.mpr hlen)

/-- One call of `append_token_id`. -/
theorem Returned.step (h : Returned ids text s) (hids : ∀ x ∈ ids, x < 258) (hid : id < 258) :
    ∃ new, (s.appendTokenId byteLevelTokenizer id).1 = .ok new ∧
      Returned (ids ++ [id]) (text ++ new) (s.appendTokenId byteLevelTokenizer id).2 := by
  have hall : ∀ x ∈ ids ++ [id], x < 258 := by
    intro x hx
    rcases List.mem_append.mp hx with hx | hx
    · exact hids x hx
    · rw [List.mem_singleton.mp hx]
      exact hid
  have hprefix : byteLevelTokenizer.decode (((ids ++ [id]).take s.readOffset).drop s.prefixOffset)
      false = .ok (decoded [] (((ids ++ [id]).take s.readOffset).drop s.prefixOffset)) :=
    decode_eq fun x hx => hall x (List.mem_of_mem_take (List.mem_of_mem_drop hx))
  have hwhole : byteLevelTokenizer.decode ((ids ++ [id]).drop s.prefixOffset) false =
      .ok (decoded [] (((ids ++ [id]).take s.readOffset).drop s.prefixOffset) ++
        s.fresh (ids ++ [id])) :=
    (decode_eq fun x hx => hall x (List.mem_of_mem_drop hx)).trans
      (congrArg Except.ok (h.window id).1)
  -- the window grows with every token, so only the test for U+FFFD decides
  obtain ⟨hne, hends⟩ := h.fresh_ends id
  have hlonger : ∀ front : Bytes, front.length < (front ++ s.fresh (ids ++ [id])).length := by
    intro front
    rw [List.length_append]
    exact Nat.lt_add_of_pos_right (List.length_pos_iff.mpr hne)
  simp only [appendTokenId, h.tokenIds, hprefix, hwhole, if_pos (hlonger _)]
  by_cases hhold : replacementChar <:+ s.fresh (ids ++ [id])
  · rw [if_pos (endsWithReplacement_iff.mpr ((hends _).mpr hhold))]
    refine ⟨[], rfl, ?_⟩
    rw [List.append_nil]
    exact h.hold hhold
  · -- a text begins at a character boundary, so nothing is moved back
    have htext : utf8.IsText (s.fresh (ids ++ [id])) := isText_decoded _ _
    rw [if_neg fun hend => hhold ((hends _).mp (endsWithReplacement_iff.mp hend)),
      boundaryBefore_self (isCharBoundary_append _ htext), List.drop_left,
      removeReplacementChars_text htext]
    exact ⟨_, rfl, h.release hhold⟩

end step

/-- All calls. -/
theorem Returned.appended (ids : List TokenIdType) : ∀ {done : List TokenIdType} {text : Bytes}
    {s : Sequence}, Returned done text s → (∀ x ∈ done ++ ids, x < 258) →
      ∃ texts : List Bytes, s.appendAll byteLevelTokenizer ids = texts.map .ok ∧
        Returned (done ++ ids) (text ++ texts.flatten) (s.appended byteLevelTokenizer ids) := by
  induction ids with
  | nil =>
    intro done text s h _
    refine ⟨[], rfl, ?_⟩
    rw [List.append_nil, List.flatten_nil, List.append_nil]
    exact h
  | cons id ids ih =>
    intro done text s h hall
    obtain ⟨new, hok, hstep⟩ := h.step (fun x hx => hall x (List.mem_append_left _ hx))
      (hall id (List.mem_append_right _ List.mem_cons_self))
    rw [List.append_cons] at hall
    obtain ⟨texts, hrest, hdone⟩ := ih hstep hall
    refine ⟨new :: texts, ?_, ?_⟩
    · show (s.appendTokenId byteLevelTokenizer id).1 ::
        (s.appendTokenId byteLevelTokenizer id).2.appendAll byteLevelTokenizer ids = _
      rw [hok, hrest]
      rfl
    · rw [List.append_cons, List.flatten_cons, ← List.append_assoc]
      exact hdone

end Sequence

/-! ## Main result -/

/-- The tokens are decoded to a text that does not end in U+FFFD. -/
def EndsComplete (ids : List TokenIdType) : Prop :=
  ∃ text, ByteLevelTokenizer.decode ids false = .ok text ∧ endsWithReplacement text = false

section characters

/-- The encoding of a character. -/
theorem isText_utf8EncodeChar (c : Char) : utf8.IsText (String.utf8EncodeChar c) := by
  have hcont : ∀ n, utf8.continues (UInt8.ofNat (n % 64 + 128)) = true := by
    have hsmall : ∀ k < 64, utf8.continues (UInt8.ofNat (k + 128)) = true := by decide
    exact fun n => hsmall _ (Nat.mod_lt n (by decide))
  have hone : ∀ n ≤ 127, utf8.length (UInt8.ofNat n) = 1 := by decide
  have htwo : ∀ n, utf8.length (UInt8.ofNat (n % 32 + 192)) = 2 := by
    have hsmall : ∀ k < 32, utf8.length (UInt8.ofNat (k + 192)) = 2 := by decide
    exact fun n => hsmall _ (Nat.mod_lt n (by decide))
  have hthree : ∀ n, utf8.length (UInt8.ofNat (n % 16 + 224)) = 3 := by
    have hsmall : ∀ k < 16, utf8.length (UInt8.ofNat (k + 224)) = 3 := by decide
    exact fun n => hsmall _ (Nat.mod_lt n (by decide))
  have hfour : ∀ n, utf8.length (UInt8.ofNat (n % 8 + 240)) = 4 := by
    have hsmall : ∀ k < 8, utf8.length (UInt8.ofNat (k + 240)) = 4 := by decide
    exact fun n => hsmall _ (Nat.mod_lt n (by decide))
  unfold String.utf8EncodeChar
  dsimp only
  split
  · next hle => exact SyncCode.IsWord.isText ⟨hone _ hle, fun _ h => nomatch h⟩
  · split
    · exact SyncCode.IsWord.isText ⟨htwo _, List.forall_mem_singleton.mpr (hcont _)⟩
    · split
      · exact SyncCode.IsWord.isText
          ⟨hthree _, List.forall_mem_cons.mpr ⟨hcont _, List.forall_mem_singleton.mpr (hcont _)⟩⟩
      · exact SyncCode.IsWord.isText
          ⟨hfour _, List.forall_mem_cons.mpr ⟨hcont _,
            List.forall_mem_cons.mpr ⟨hcont _, List.forall_mem_singleton.mpr (hcont _)⟩⟩⟩

theorem isText_of_isUtf8 {s : Bytes} (h : IsUtf8 s) : utf8.IsText s := by
  obtain ⟨chars, hchars⟩ := h
  have hbytes : s = chars.flatMap String.utf8EncodeChar := List.toByteArray_inj.mp hchars
  rw [hbytes]
  clear hchars hbytes
  induction chars with
  | nil => exact .nil
  | cons c chars ih =>
    rw [List.flatMap_cons]
    exact (isText_utf8EncodeChar c).append ih

end characters

namespace ByteLevelTokenizer

theorem encode_lt (text : Bytes) : ∀ id ∈ (encode text).tokenIds, id < 256 := by
  intro id hid
  obtain ⟨byte, -, rfl⟩ := List.mem_map.mp hid
  rw [UInt32.lt_iff_toNat_lt, UInt32.toNat_ofNat',
    Nat.mod_eq_of_lt (by have := byte.toNat_lt; omega)]
  exact byte.toNat_lt

theorem decoded_encode (text : Bytes) : ∀ bytes : Bytes,
    decoded bytes (encode text).tokenIds = utf8Lossy (bytes ++ text) := by
  induction text with
  | nil =>
    intro bytes
    rw [List.append_nil]
    rfl
  | cons byte text ih =>
    intro bytes
    have hbyte : (UInt32.ofNat byte.toNat).toNat = byte.toNat := by
      rw [UInt32.toNat_ofNat', Nat.mod_eq_of_lt (by have := byte.toNat_lt; omega)]
    have hlt : UInt32.ofNat byte.toNat < 256 :=
      encode_lt (byte :: text) _ (List.mem_map.mpr ⟨byte, List.mem_cons_self, rfl⟩)
    show decoded bytes (UInt32.ofNat byte.toNat :: (encode text).tokenIds) = _
    rw [decoded, if_pos hlt, ih, hbyte, UInt8.ofNat_toNat, List.append_assoc]
    rfl

end ByteLevelTokenizer

/-- **Incremental decoding is decoding.**  After any tokens below 258 the strings that
    `append_token_id` has returned make up the text of the first `read_offset` tokens
    without U+FFFD, and `read_offset` is the length of the longest beginning that does not
    end in U+FFFD.  For the bytes of a UTF-8 text without U+FFFD they make up the text. -/
theorem incremental_eq_whole :
    (∀ ids : List TokenIdType, (∀ id ∈ ids, id < 258) →
      ∃ (texts : List Bytes) (whole : Bytes),
        Sequence.appendAll byteLevelTokenizer {} ids = texts.map .ok ∧
        ByteLevelTokenizer.decode
          (ids.take (Sequence.appended byteLevelTokenizer {} ids).readOffset) false = .ok whole ∧
        texts.flatten = SyncCode.without replacementChar whole ∧
        (Sequence.appended byteLevelTokenizer {} ids).readOffset ≤ ids.length ∧
        ((Sequence.appended byteLevelTokenizer {} ids).readOffset = 0 ∨
          EndsComplete (ids.take (Sequence.appended byteLevelTokenizer {} ids).readOffset)) ∧
        ∀ n, 0 < n → n ≤ ids.length → EndsComplete (ids.take n) →
          n ≤ (Sequence.appended byteLevelTokenizer {} ids).readOffset) ∧
    ∀ text : Bytes, IsUtf8 text → ¬ replacementChar <:+: text →
      ∃ texts : List Bytes,
        Sequence.appendAll byteLevelTokenizer {} (ByteLevelTokenizer.encode text).tokenIds =
          texts.map .ok ∧ texts.flatten = text := by
  have hcomplete : ∀ ids : List TokenIdType, (∀ id ∈ ids, id < 258) →
      (EndsComplete ids ↔ ¬ replacementChar <:+ decoded [] ids) := by
    intro ids hids
    unfold EndsComplete
    rw [decode_eq hids, ← endsWithReplacement_iff, Bool.not_eq_true]
    constructor
    · rintro ⟨text, ⟨⟩, hends⟩
      exact hends
    · exact fun hends => ⟨_, rfl, hends⟩
  have hbelow : ∀ {ids : List TokenIdType}, (∀ id ∈ ids, id < 258) → ∀ n, ∀ id ∈ ids.take n,
      id < 258 := fun hids _ id hid => hids id (List.mem_of_mem_take hid)
  constructor
  · intro ids hids
    obtain ⟨texts, hall, hdone⟩ := Sequence.returned_init.appended ids hids
    refine ⟨texts, _, hall, decode_eq (hbelow hids _), hdone.text,
      hdone.ordered.2, .inr ((hcomplete _ (hbelow hids _)).mpr hdone.cut), ?_⟩
    intro n _ hlen hn
    by_contra hlast
    exact (hcomplete _ (hbelow hids n)).mp hn (hdone.latest n (Nat.not_le.mp hlast) hlen)
  · intro text hutf8 hfree
    have hids : ∀ id ∈ (encode text).tokenIds, id < 258 :=
      fun id hid => UInt32.lt_trans (encode_lt text id hid) (by decide)
    have hwhole : decoded [] (encode text).tokenIds = text :=
      (decoded_encode text []).trans (utf8Lossy_text (isText_of_isUtf8 hutf8))
    obtain ⟨texts, hall, hdone⟩ := Sequence.returned_init.appended
      (encode text).tokenIds hids
    refine ⟨texts, hall, ?_⟩
    -- the whole text does not end in U+FFFD, so everything was returned
    have hread : (Sequence.appended byteLevelTokenizer {}
        (encode text).tokenIds).readOffset =
          (encode text).tokenIds.length := by
      refine Nat.le_antisymm hdone.ordered.2 (Nat.not_lt.mp fun hlt => ?_)
      have hends := hdone.latest _ hlt le_rfl
      rw [List.nil_append, List.take_length, hwhole] at hends
      exact hfree hends.isInfix
    have htext := hdone.text
    rw [List.nil_append, List.nil_append, hread, List.take_length, hwhole,
      without_of_not_isInfix hfree] at htext
    exact htext

/-- A euro sign, byte by byte, then a lead byte without a continuation and a letter. -/
theorem euro_decoded :
    (∃ texts : List Bytes,
      Sequence.appendAll byteLevelTokenizer {} [0xE2, 0x82, 0xAC, 256, 0xC3, 0x41] =
        texts.map .ok ∧ texts.flatten = [0xE2, 0x82, 0xAC] ++ str "<s>A") ∧
    ∃ texts : List Bytes,
      Sequence.appendAll byteLevelTokenizer {}
        (ByteLevelTokenizer.encode [0xE2, 0x82, 0xAC]).tokenIds = texts.map .ok ∧
          texts.flatten = [0xE2, 0x82, 0xAC] := by
  obtain ⟨hids, htext⟩ := incremental_eq_whole
  constructor
  · obtain ⟨texts, whole, hall, hwhole, hflat, -⟩ :=
      hids [0xE2, 0x82, 0xAC, 256, 0xC3, 0x41] (by simp)
    refine ⟨texts, hall, ?_⟩
    have hdecode : whole = [0xE2, 0x82, 0xAC] ++ str "<s>" ++ replacementChar ++ str "A" :=
      Except.ok.inj (hwhole.symm.trans (by decide +kernel))
    rw [hflat, hdecode]
    decide
  · exact htext [0xE2, 0x82, 0xAC] (by decide) (by decide)

end DynamoCpp.Llm
