import DynamoCpp.Llm.Tokenizers

/-! # The stop-sequence decoder

    `StopSequenceDecoder` of `llm/tokenizers.cpp` detokenizes and hides stop sequences.
    It holds text back as long as all the text since the last release begins a stop
    sequence, and releases all of it otherwise.

    The decoder notices a stop sequence only if the text since the last release is that
    sequence and none listed before it is longer and begins with it (`HeldExactly`).
    A stop sequence that starts inside of the held text, or behind other text of one
    token, is released.
-/

open Framework

namespace DynamoCpp.Llm

/-! ## The decoder -/

inductive SequenceDecoderOutput.Kind where
  | text | held | stopped | stoppedWithText
deriving DecidableEq

/-- The output of one step. -/
structure SequenceDecoderOutput where
  kind : SequenceDecoderOutput.Kind := .text
  text : Bytes := []
deriving DecidableEq

structure StopSequenceConfig where
  stopTokenIdsVisible : List TokenIdType := []
  stopTokenIdsHidden  : List TokenIdType := []
  stopSequencesHidden : List Bytes := []
deriving DecidableEq

structure StopSequenceDecoder where
  sequence : Sequence := {}
  config   : StopSequenceConfig
  stopped  : Bool := false
  /-- Jailed text. -/
  state    : Bytes := []
deriving DecidableEq

namespace StopSequenceDecoder

/-- The part of `append_token_id` after the new text has been added to the state. -/
def settle (d : StopSequenceDecoder) (tokenId : TokenIdType) :
    SequenceDecoderOutput × StopSequenceDecoder :=
  if tokenId ∈ d.config.stopTokenIdsHidden then
    ({ kind := .stopped }, { d with stopped := true, state := [] })
  else if tokenId ∈ d.config.stopTokenIdsVisible then
    ({ kind := .stoppedWithText, text := d.state }, { d with stopped := true, state := [] })
  else
    -- the first stop sequence that begins with the state decides
    match d.config.stopSequencesHidden.find? d.state.isPrefixOf with
    | some stop =>
      if stop = d.state then ({ kind := .stopped }, { d with stopped := true })
      else ({ kind := .held }, d)
    | none => ({ text := d.state }, { d with state := [] })

/-- The decoder when the sequence has decoded a token. -/
def grow (d : StopSequenceDecoder) (sequence : Sequence) (piece : Bytes) : StopSequenceDecoder :=
  { d with sequence := sequence, state := d.state ++ piece }

variable (tokenizer : Tokenizer)

def appendTokenId (d : StopSequenceDecoder) (tokenId : TokenIdType) :
    Except Bytes SequenceDecoderOutput × StopSequenceDecoder :=
  if d.stopped then (.error (str "Decoder is stopped"), d)
  else
    match d.sequence.appendTokenId tokenizer tokenId with
    | (.error e, sequence) => (.error e, { d with sequence := sequence })
    | (.ok piece, sequence) =>
      let (out, d) := (d.grow sequence piece).settle tokenId
      (.ok out, d)

/-- The tokens are fed until the decoder stops: all text it outputs, and the decoder in
    the end.  A step in which the tokenizer throws outputs nothing. -/
def feed (d : StopSequenceDecoder) : List TokenIdType → Bytes × StopSequenceDecoder
  | [] => ([], d)
  | tokenId :: tokenIds =>
    if d.stopped then ([], d)
    else
      match d.appendTokenId tokenizer tokenId with
      | (.error _, d) => d.feed tokenIds
      | (.ok out, d) =>
        let (text, d) := d.feed tokenIds
        (out.text ++ text, d)

end StopSequenceDecoder

/-! ## What it should hide -/

/-- The text that is decoded when the tokens are appended one by one. -/
def Sequence.decodedText (tokenizer : Tokenizer) (s : Sequence) (tokenIds : List TokenIdType) :
    Bytes :=
  (s.appendAll tokenizer tokenIds).flatMap fun outcome => outcome.toOption.getD []

/-- A stop sequence occurs in the text. -/
def Occurs (stops : List Bytes) (text : Bytes) : Prop := ∃ stop ∈ stops, stop <:+: text

instance (stops : List Bytes) (text : Bytes) : Decidable (Occurs stops text) :=
  inferInstanceAs (Decidable (∃ stop ∈ stops, _))

/-- The text is a stop sequence, and none listed before it begins with it. -/
def Completes (stops : List Bytes) (text : Bytes) : Prop :=
  stops.find? text.isPrefixOf = some text

instance (stops : List Bytes) (text : Bytes) : Decidable (Completes stops text) :=
  inferInstanceAs (Decidable (_ = _))

/-- The text since the last release, when there was no stop: all of it as long as it begins a
    stop sequence. -/
def jailed (stops : List Bytes) (text : Bytes) : Bytes :=
  if (stops.find? text.isPrefixOf).isSome then text else []

/-- What is released of it. -/
def released (stops : List Bytes) (text : Bytes) : Bytes :=
  if (stops.find? text.isPrefixOf).isSome then [] else text

theorem released_append_jailed (stops : List Bytes) (text : Bytes) :
    released stops text ++ jailed stops text = text := by
  unfold released jailed
  split
  · rfl
  · exact List.append_nil _

/-- The step in which the decoded text first has a stop sequence is that of a hidden stop
    token, or it completes one with the text held since the last release.  Steps behind a stop
    token do not count. -/
def HeldExactly (tokenizer : Tokenizer) (config : StopSequenceConfig) (s : Sequence)
    (text held : Bytes) : List TokenIdType → Prop
  | [] => True
  | tokenId :: tokenIds =>
    match s.appendTokenId tokenizer tokenId with
    | (.error _, s) => HeldExactly tokenizer config s text held tokenIds
    | (.ok piece, s) =>
      tokenId ∈ config.stopTokenIdsHidden ∨
        if Occurs config.stopSequencesHidden (text ++ piece) then
          tokenId ∉ config.stopTokenIdsVisible ∧
            Completes config.stopSequencesHidden (held ++ piece)
        else
          tokenId ∈ config.stopTokenIdsVisible ∨
            HeldExactly tokenizer config s (text ++ piece)
              (jailed config.stopSequencesHidden (held ++ piece)) tokenIds

instance decidableHeldExactly (tokenizer : Tokenizer) (config : StopSequenceConfig) :
    ∀ (s : Sequence) (text held : Bytes) (tokenIds : List TokenIdType),
      Decidable (HeldExactly tokenizer config s text held tokenIds)
  | _, _, _, [] => inferInstanceAs (Decidable True)
  | s, text, held, tokenId :: tokenIds =>
    show Decidable (match s.appendTokenId tokenizer tokenId with
      | (.error _, s) => HeldExactly tokenizer config s text held tokenIds
      | (.ok piece, s) =>
        tokenId ∈ config.stopTokenIdsHidden ∨
          if Occurs config.stopSequencesHidden (text ++ piece) then
            tokenId ∉ config.stopTokenIdsVisible ∧
              Completes config.stopSequencesHidden (held ++ piece)
          else
            tokenId ∈ config.stopTokenIdsVisible ∨
              HeldExactly tokenizer config s (text ++ piece)
                (jailed config.stopSequencesHidden (held ++ piece)) tokenIds) from
    match s.appendTokenId tokenizer tokenId with
    | (.error _, s) => decidableHeldExactly tokenizer config s text held tokenIds
    | (.ok piece, s) =>
      have := decidableHeldExactly tokenizer config s (text ++ piece)
        (jailed config.stopSequencesHidden (held ++ piece)) tokenIds
      inferInstance

/-! ## One step -/

theorem decodedText_cons (tokenizer : Tokenizer) (s : Sequence) (tokenId : TokenIdType)
    (tokenIds : List TokenIdType) :
    s.decodedText tokenizer (tokenId :: tokenIds) =
      (s.appendTokenId tokenizer tokenId).1.toOption.getD [] ++
        (s.appendTokenId tokenizer tokenId).2.decodedText tokenizer tokenIds := rfl

theorem occurs_of_completes {stops : List Bytes} {front held : Bytes} (h : Completes stops held) :
    Occurs stops (front ++ held) :=
  ⟨held, List.mem_of_find?_eq_some h, (List.suffix_append _ _).isInfix⟩

theorem Occurs.append {stops : List Bytes} {text : Bytes} (h : Occurs stops text) (rest : Bytes) :
    Occurs stops (text ++ rest) := by
  obtain ⟨stop, hstop, hinfix⟩ := h
  exact ⟨stop, hstop, hinfix.trans (List.prefix_append _ _).isInfix⟩

namespace StopSequenceDecoder

variable {tokenizer : Tokenizer} {d : StopSequenceDecoder} {tokenId : TokenIdType}
  {tokenIds : List TokenIdType} {front text : Bytes}

/-- Everything the last part of a step can do. -/
theorem settle_cases (d : StopSequenceDecoder) (tokenId : TokenIdType) :
    (tokenId ∈ d.config.stopTokenIdsHidden ∧ (d.settle tokenId).1.text = [] ∧
      (d.settle tokenId).2.stopped = true) ∨
    (tokenId ∉ d.config.stopTokenIdsHidden ∧ tokenId ∈ d.config.stopTokenIdsVisible ∧
      (d.settle tokenId).1.text = d.state ∧ (d.settle tokenId).2.stopped = true) ∨
    (tokenId ∉ d.config.stopTokenIdsHidden ∧ tokenId ∉ d.config.stopTokenIdsVisible ∧
      ((Completes d.config.stopSequencesHidden d.state ∧ (d.settle tokenId).1.text = [] ∧
          (d.settle tokenId).2.stopped = true) ∨
        (¬ Completes d.config.stopSequencesHidden d.state ∧
          (d.settle tokenId).2 =
            { d with state := jailed d.config.stopSequencesHidden d.state } ∧
          (d.settle tokenId).1.text = released d.config.stopSequencesHidden d.state))) := by
  unfold settle Completes jailed released
  by_cases hhidden : tokenId ∈ d.config.stopTokenIdsHidden
  · simp [hhidden]
  by_cases hvisible : tokenId ∈ d.config.stopTokenIdsVisible
  · simp [hhidden, hvisible]
  cases hfind : d.config.stopSequencesHidden.find? d.state.isPrefixOf with
  | none => simp [hhidden, hvisible]
  | some stop =>
    by_cases hstop : stop = d.state <;> simp [hhidden, hvisible, hstop]

/-- Neither the configuration nor the sequence changes. -/
theorem settle_frame (d : StopSequenceDecoder) (tokenId : TokenIdType) :
    (d.settle tokenId).2.config = d.config ∧ (d.settle tokenId).2.sequence = d.sequence := by
  unfold settle
  split_ifs
  · exact ⟨rfl, rfl⟩
  · exact ⟨rfl, rfl⟩
  · split
    · split <;> exact ⟨rfl, rfl⟩
    · exact ⟨rfl, rfl⟩

/-- Hiding, from a decoder that has released `front` of the decoded text. -/
def Hides (tokenizer : Tokenizer) (d : StopSequenceDecoder) (front text : Bytes)
    (tokenIds : List TokenIdType) : Prop :=
  ¬ Occurs d.config.stopSequencesHidden (front ++ (d.feed tokenizer tokenIds).1) ∧
    ∀ fed, fed <+: tokenIds →
      Occurs d.config.stopSequencesHidden (text ++ d.sequence.decodedText tokenizer fed) →
        (d.feed tokenizer fed).2.stopped = true

theorem feed_of_stopped (h : d.stopped = true) : d.feed tokenizer tokenIds = ([], d) := by
  cases tokenIds with
  | nil => rfl
  | cons tokenId tokenIds => rw [feed, if_pos h]

/-- After a stop only what has been released counts. -/
theorem hides_of_stopped (h : d.stopped = true) :
    d.Hides tokenizer front text tokenIds ↔ ¬ Occurs d.config.stopSequencesHidden front := by
  simp [Hides, feed_of_stopped h, h]

/-- A stop sequence in the text must have stopped the decoder. -/
theorem not_hides_of_occurs (h : d.stopped = false)
    (hoccurs : Occurs d.config.stopSequencesHidden text) :
    ¬ d.Hides tokenizer front text tokenIds := by
  intro hhides
  have hstopped := hhides.2 [] List.nil_prefix (hoccurs.append _)
  rw [feed, h] at hstopped
  cases hstopped

/-- Hiding looks at the tokens one by one. -/
theorem hides_cons {d' : StopSequenceDecoder} {released piece : Bytes}
    (hfree : ¬ Occurs d.config.stopSequencesHidden text) (hconfig : d'.config = d.config)
    (hfeed : ∀ fed, d.feed tokenizer (tokenId :: fed) =
      (released ++ (d'.feed tokenizer fed).1, (d'.feed tokenizer fed).2))
    (htext : ∀ fed, d.sequence.decodedText tokenizer (tokenId :: fed) =
      piece ++ d'.sequence.decodedText tokenizer fed) :
    d.Hides tokenizer front text (tokenId :: tokenIds) ↔
      d'.Hides tokenizer (front ++ released) (text ++ piece) tokenIds := by
  unfold Hides
  rw [hconfig, hfeed, ← List.append_assoc]
  refine and_congr_right fun _ => ?_
  constructor
  · intro h fed hfed hoccurs
    have hstopped := h (tokenId :: fed) ((List.prefix_cons_inj tokenId).mpr hfed)
    rw [hfeed, htext, ← List.append_assoc] at hstopped
    exact hstopped hoccurs
  · intro h fed hfed hoccurs
    cases fed with
    | nil => exact absurd (by simpa [Sequence.decodedText, Sequence.appendAll] using hoccurs) hfree
    | cons first fed =>
      obtain ⟨rfl, hrest⟩ := List.cons_prefix_cons.mp hfed
      rw [htext, ← List.append_assoc] at hoccurs
      rw [hfeed]
      exact h fed hrest hoccurs

section cons

variable (hrunning : d.stopped = false) (hfree : ¬ Occurs d.config.stopSequencesHidden text)

include hrunning hfree

theorem hides_error {e : Bytes} {sequence : Sequence}
    (happend : d.sequence.appendTokenId tokenizer tokenId = (.error e, sequence)) :
    d.Hides tokenizer front text (tokenId :: tokenIds) ↔
      Hides tokenizer { d with sequence := sequence } front text tokenIds := by
  have hcons := @hides_cons tokenizer d tokenId tokenIds front text
    { d with sequence := sequence } [] [] hfree rfl
    (fun fed => by simp [feed, hrunning, appendTokenId, happend])
    (fun fed => by simp [decodedText_cons, happend, Except.toOption])
  rwa [List.append_nil, List.append_nil] at hcons

theorem hides_ok {piece : Bytes} {sequence : Sequence}
    (happend : d.sequence.appendTokenId tokenizer tokenId = (.ok piece, sequence)) :
    d.Hides tokenizer front text (tokenId :: tokenIds) ↔
      ((d.grow sequence piece).settle tokenId).2.Hides tokenizer
        (front ++ ((d.grow sequence piece).settle tokenId).1.text) (text ++ piece) tokenIds := by
  obtain ⟨hconfig, hsequence⟩ := settle_frame (d.grow sequence piece) tokenId
  refine hides_cons hfree hconfig (fun fed => ?_) (fun fed => ?_)
  · simp [feed, hrunning, appendTokenId, happend]
  · rw [decodedText_cons, happend, hsequence]
    rfl

end cons

/-- What the last part of a step means for hiding: stop tokens end it, a stop sequence that
    occurs must be completed, and otherwise the decoder goes on with what it holds. -/
theorem hides_settle (hrunning : d.stopped = false)
    (hfront : ¬ Occurs d.config.stopSequencesHidden front) :
    (d.settle tokenId).2.Hides tokenizer (front ++ (d.settle tokenId).1.text) (front ++ d.state)
        tokenIds ↔
      tokenId ∈ d.config.stopTokenIdsHidden ∨
        if Occurs d.config.stopSequencesHidden (front ++ d.state) then
          tokenId ∉ d.config.stopTokenIdsVisible ∧ Completes d.config.stopSequencesHidden d.state
        else
          tokenId ∈ d.config.stopTokenIdsVisible ∨
            Hides tokenizer { d with state := jailed d.config.stopSequencesHidden d.state }
              (front ++ released d.config.stopSequencesHidden d.state) (front ++ d.state)
              tokenIds := by
  have hconfig := (settle_frame d tokenId).1
  rcases settle_cases d tokenId with
    ⟨hhidden, hout, hstopped⟩ | ⟨hhidden, hvisible, hout, hstopped⟩ |
    ⟨hhidden, hvisible, ⟨hcompletes, hout, hstopped⟩ | ⟨hcompletes, hnext, hout⟩⟩
  · -- a hidden stop token: the held text is dropped
    rw [hides_of_stopped hstopped, hconfig, hout, List.append_nil]
    exact iff_of_true hfront (.inl hhidden)
  · -- a visible stop token: everything is released
    rw [hides_of_stopped hstopped, hconfig, hout, or_iff_right hhidden]
    split
    · next hoccurs => exact iff_of_false (not_not.mpr hoccurs) fun h => h.1 hvisible
    · next hnone => exact iff_of_true hnone (.inl hvisible)
  · -- the stop sequence is noticed
    rw [hides_of_stopped hstopped, hconfig, hout, List.append_nil,
      if_pos (occurs_of_completes hcompletes)]
    exact iff_of_true hfront (.inr ⟨hvisible, hcompletes⟩)
  · rw [or_iff_right hhidden, hnext, hout]
    split
    · -- a stop sequence is there and is not noticed
      next hoccurs =>
      exact iff_of_false (not_hides_of_occurs hrunning hoccurs) fun h => hcompletes h.2
    · exact (or_iff_right hvisible).symm

/-! ## Main result -/

/-- One step of the decoder is one step of the condition. -/
theorem hides_iff (tokenIds : List TokenIdType) : ∀ {d : StopSequenceDecoder} {front : Bytes},
    d.stopped = false → ¬ Occurs d.config.stopSequencesHidden (front ++ d.state) →
      (d.Hides tokenizer front (front ++ d.state) tokenIds ↔
        HeldExactly tokenizer d.config d.sequence (front ++ d.state) d.state tokenIds) := by
  induction tokenIds with
  | nil =>
    intro d front _ hfree
    have hfront : ¬ Occurs d.config.stopSequencesHidden front := fun h => hfree (h.append _)
    simp [Hides, HeldExactly, feed, Sequence.decodedText, Sequence.appendAll, hfree, hfront]
  | cons tokenId tokenIds ih =>
    intro d front hrunning hfree
    have hfront : ¬ Occurs d.config.stopSequencesHidden front := fun h => hfree (h.append _)
    unfold HeldExactly
    rcases happend : d.sequence.appendTokenId tokenizer tokenId with ⟨e | piece, sequence⟩
    · rw [hides_error hrunning hfree happend]
      exact @ih { d with sequence := sequence } front hrunning hfree
    · rw [hides_ok hrunning hfree happend, List.append_assoc]
      refine (@hides_settle tokenizer (d.grow sequence piece) tokenId tokenIds front hrunning
        hfront).trans (or_congr_right ?_)
      change ite (Occurs d.config.stopSequencesHidden (front ++ (d.state ++ piece))) _ _ ↔
        ite (Occurs d.config.stopSequencesHidden (front ++ d.state ++ piece)) _ _
      rw [List.append_assoc]
      split
      · exact Iff.rfl
      · -- the decoder goes on: what it has released and what it holds is the text
        next hnone =>
        refine or_congr_right ?_
        have hkept : front ++ released d.config.stopSequencesHidden (d.state ++ piece) ++
            jailed d.config.stopSequencesHidden (d.state ++ piece) =
              front ++ (d.state ++ piece) := by
          rw [List.append_assoc, released_append_jailed]
        have hrest := @ih { d.grow sequence piece with
          state := jailed d.config.stopSequencesHidden (d.state ++ piece) }
          (front ++ released d.config.stopSequencesHidden (d.state ++ piece)) hrunning
          (by rw [hkept]; exact hnone)
        rw [hkept] at hrest
        exact hrest

/-- A fresh decoder. -/
def create (config : StopSequenceConfig) : StopSequenceDecoder := { config := config }

/-- **Stop sequences.**  A fresh decoder outputs no stop sequence, and has stopped whenever
    the decoded text has one, exactly if the first one is completed by the text held since
    the last release. -/
theorem stops_hidden_iff {config : StopSequenceConfig}
    (hne : ∀ stop ∈ config.stopSequencesHidden, stop ≠ []) (tokenIds : List TokenIdType) :
    ((∀ stop ∈ config.stopSequencesHidden,
          ¬ stop <:+: ((create config).feed tokenizer tokenIds).1) ∧
        ∀ fed, fed <+: tokenIds →
          (∃ stop ∈ config.stopSequencesHidden,
            stop <:+: Sequence.decodedText tokenizer {} fed) →
          ((create config).feed tokenizer fed).2.stopped = true) ↔
      HeldExactly tokenizer config {} [] [] tokenIds := by
  have hfree : ¬ Occurs config.stopSequencesHidden [] := by
    rintro ⟨stop, hstop, hinfix⟩
    exact hne stop hstop (List.eq_nil_of_infix_nil hinfix)
  refine Iff.trans ?_ (@hides_iff tokenizer tokenIds (create config) [] rfl hfree)
  refine and_congr_left fun _ => ?_
  simp [Occurs, create]

/-- The tokens `x`, `a`, `b` with the stop sequence `ab`. -/
theorem stop_hidden :
    ¬ str "ab" <:+: ((create { stopSequencesHidden := [str "ab"] }).feed byteLevelTokenizer
      [0x78, 0x61, 0x62]).1 := by
  have hhidden := (@stops_hidden_iff byteLevelTokenizer { stopSequencesHidden := [str "ab"] }
    (by decide) [0x78, 0x61, 0x62]).mpr (by decide)
  exact hhidden.1 (str "ab") (by decide)

/-- The tokens `a`, `a`, `a`, `b` with the stop sequence `aab`: `aaa` begins no stop sequence
    and is released, and then the `b` behind it. -/
theorem overlapping_stop_released :
    str "aab" <:+: ((create { stopSequencesHidden := [str "aab"] }).feed byteLevelTokenizer
        [0x61, 0x61, 0x61, 0x62]).1 ∧
      ((create { stopSequencesHidden := [str "aab"] }).feed byteLevelTokenizer
        [0x61, 0x61, 0x61, 0x62]).2.stopped = false := by
  decide

end StopSequenceDecoder

end DynamoCpp.Llm
