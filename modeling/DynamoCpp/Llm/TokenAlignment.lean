import DynamoCpp.Llm.Deltas
import DynamoCpp.Llm.StopSequences

/-! # Tokens and token ids

    `BackendOutput` is documented to have as many tokens as token ids.  `decode_stream` fills
    the two lists from different sources.  An item that passes through has the tokens that
    the engine gave it, if any; a delta that goes through the decoder has a token for every id
    up to the stop trigger, and all of its ids.
-/

open Framework

namespace DynamoCpp.Llm

/-! ## How far the decoder gets -/

namespace Decoder

variable {tokenizer : Tokenizer}

/-- A token stops the decoder: it is a hidden stop token, or a hidden stop sequence occurs in
    the jailed text and the text of the token. -/
def Stops (d : Decoder) (tokenId : TokenIdType) (decoded : Bytes) : Prop :=
  ¬ d.generatedTokens < d.minTokens ∧
    (tokenId ∈ d.hiddenStopIds ∨
      ∃ stop ∈ d.hiddenStopSequences, stop <:+: d.pending ++ decoded)

/-- No token stops the decoder but the last one, as far as the tokens can be decoded. -/
def StopsLast (tokenizer : Tokenizer) (d : Decoder) : List TokenIdType → Prop
  | [] => True
  | tokenId :: tokenIds =>
    match d.sequence.appendTokenId tokenizer tokenId with
    | (.error _, _) => True
    | (.ok decoded, sequence) =>
      ((d.count sequence).Stops tokenId decoded → tokenIds = []) ∧
        (¬ (d.count sequence).Stops tokenId decoded →
          ((d.count sequence).release tokenId decoded).2.StopsLast tokenizer tokenIds)

theorem release_trigger_iff (d : Decoder) (tokenId : TokenIdType) (decoded : Bytes) :
    (d.release tokenId decoded).1.stopTrigger.isSome ↔ d.Stops tokenId decoded := by
  unfold release Stops
  split_ifs with hmin hid hnil
  · simp [hmin]
  · simp [hmin, hid]
  · simp [hid, hnil]
  · have hoffset := matchStop_offset (d.pending ++ decoded) d.hiddenStopSequences
    dsimp only
    cases hmatch : matchStop (d.pending ++ decoded) d.hiddenStopSequences with
    | none =>
      rw [hmatch] at hoffset
      have hfree := cutAt_eq_none.mp hoffset.symm
      simp only [Option.isSome_none, Bool.false_eq_true, false_iff]
      rintro ⟨_, hstop | ⟨stop, hstop, hoccurs⟩⟩
      · exact hid hstop
      · exact hfree stop hstop hoccurs
    | some found =>
      rw [hmatch] at hoffset
      have hoccurs : ¬ ∀ stop ∈ d.hiddenStopSequences, ¬ stop <:+: d.pending ++ decoded := by
        rw [← cutAt_eq_none, ← hoffset]
        exact Option.some_ne_none _
      push Not at hoccurs
      exact iff_of_true rfl ⟨hmin, Or.inr hoccurs⟩

/-- One token of the loop: how it is decoded and whether it triggers. -/
theorem stopsLast_cons {d : Decoder} {tokenId : TokenIdType} {tokenIds : List TokenIdType}
    {decoded : Bytes} {sequence : Sequence}
    (happend : d.sequence.appendTokenId tokenizer tokenId = (.ok decoded, sequence)) :
    d.StopsLast tokenizer (tokenId :: tokenIds) ↔
      (((d.count sequence).release tokenId decoded).1.stopTrigger.isSome → tokenIds = []) ∧
        (¬ ((d.count sequence).release tokenId decoded).1.stopTrigger.isSome →
          ((d.count sequence).release tokenId decoded).2.StopsLast tokenizer tokenIds) := by
  rw [release_trigger_iff, StopsLast, happend]

/-- There is a token for every id up to the trigger. -/
theorem processLoop_aligned_iff (tokenIds : List TokenIdType) :
    ∀ {d d' : Decoder} {result result' : SeqResult},
      d.processLoop tokenizer result tokenIds = (.ok result', d') →
        (result'.tokens.length = result.tokens.length + tokenIds.length ↔
          d.StopsLast tokenizer tokenIds) := by
  induction tokenIds with
  | nil =>
    intro d d' result result' h
    cases h
    exact iff_of_true rfl trivial
  | cons tokenId tokenIds ih =>
    intro d d' result result' h
    unfold processLoop at h
    rcases happend : d.sequence.appendTokenId tokenizer tokenId with ⟨e | decoded, sequence⟩
    · rw [step_error happend] at h
      cases h
    · rw [step_ok happend] at h
      rw [stopsLast_cons happend]
      dsimp only at h
      cases htrigger : ((d.count sequence).release tokenId decoded).1.stopTrigger with
      | some trigger =>
        -- the token is added before the loop ends, those of the ids behind it are not
        rw [htrigger] at h
        cases h
        simp
      | none =>
        rw [htrigger] at h
        have hrest := ih h
        simp only [List.length_append, List.length_cons, List.length_nil] at hrest ⊢
        rw [show result.tokens.length + (tokenIds.length + 1) =
          result.tokens.length + (0 + 1) + tokenIds.length by omega, hrest]
        simp

/-- Nothing is thrown behind a stop. -/
theorem stopsLast_of_thrown (tokenIds : List TokenIdType) :
    ∀ {d d' : Decoder} {result : SeqResult} {e : Bytes},
      d.processLoop tokenizer result tokenIds = (.error e, d') →
        d.StopsLast tokenizer tokenIds := by
  induction tokenIds with
  | nil =>
    intro d d' result e h
    cases h
  | cons tokenId tokenIds ih =>
    intro d d' result e h
    unfold processLoop at h
    rcases happend : d.sequence.appendTokenId tokenizer tokenId with ⟨e' | decoded, sequence⟩
    · rw [StopsLast, happend]
      trivial
    · rw [step_ok happend] at h
      rw [stopsLast_cons happend]
      dsimp only at h
      cases htrigger : ((d.count sequence).release tokenId decoded).1.stopTrigger with
      | some trigger =>
        rw [htrigger] at h
        cases h
      | none =>
        rw [htrigger] at h
        simpa using ih h

end Decoder

/-! ## The stream -/

namespace Backend

variable (b : Backend)

/-- The item does not go through the decoder. -/
def passesThrough (item : Annotated LLMEngineOutput) (data : LLMEngineOutput) : Bool :=
  item.event.isSome || (data.text.isSome && !b.validateEngineDecode)

/-- An item that passes through brings a token for every id; the ids of another are not cut
    short by a stop. -/
def ItemAligned (d : Decoder) (item : Annotated LLMEngineOutput) : Prop :=
  ∀ data, item.data = some data →
    if b.passesThrough item data then (data.tokens.getD []).length = data.tokenIds.length
    else d.StopsLast b.tokenizer data.tokenIds

/-- The loop of `decode_stream` gets to an item, with the decoder as it is then. -/
inductive Gets : Decoder → List (Annotated LLMEngineOutput) → Decoder →
    Annotated LLMEngineOutput → Prop where
  | here (d : Decoder) (item : Annotated LLMEngineOutput)
      (items : List (Annotated LLMEngineOutput)) : Gets d (item :: items) d item
  | next {d d' d'' : Decoder} {item item' : Annotated LLMEngineOutput}
      {items : List (Annotated LLMEngineOutput)} {turn : Turn} :
      b.turn d item = (.ok turn, d') → turn.stopNow = false → Gets d' items d'' item' →
      Gets d (item :: items) d'' item'

/-- As many tokens as token ids. -/
def OutputAligned (out : Annotated BackendOutput) : Prop :=
  ∀ data, out.data = some data → data.tokens.length = data.tokenIds.length

variable {b} {d d' : Decoder} {item : Annotated LLMEngineOutput}

/-- A turn that yields. -/
theorem turn_aligned_iff {turn : Turn} (h : b.turn d item = (.ok turn, d')) :
    OutputAligned turn.out ↔ b.ItemAligned d item := by
  unfold Backend.turn at h
  unfold OutputAligned ItemAligned passesThrough
  cases hdata : item.data with
  | none =>
    rw [hdata] at h
    cases h
    simp
  | some data =>
    rw [hdata] at h
    dsimp only at h
    simp only [Option.some.injEq, forall_eq']
    split at h
    · -- the tokens are those of the engine
      next hpass =>
      cases h
      rw [if_pos hpass]
      simp [toBackendOutput]
    · -- the tokens are those that the decoder got to, the ids are all of them
      next hdecode =>
      rw [if_neg hdecode]
      rcases hprocess : d.processTokenIds b.tokenizer data.tokenIds with ⟨e | result, d''⟩
      · rw [hprocess] at h
        cases h
      · rw [hprocess] at h
        cases h
        rw [← Decoder.processLoop_aligned_iff data.tokenIds hprocess]
        simp [finishTurn, toBackendOutput]

/-- A turn that throws yields nothing. -/
theorem itemAligned_of_thrown {e : Bytes} (h : b.turn d item = (.error e, d')) :
    b.ItemAligned d item := by
  intro data hdata
  unfold turn at h
  rw [hdata] at h
  dsimp only at h
  unfold passesThrough
  split at h
  · cases h
  · next hdecode =>
    rw [if_neg hdecode]
    rcases hprocess : d.processTokenIds b.tokenizer data.tokenIds with ⟨e' | result, d''⟩
    · exact Decoder.stopsLast_of_thrown data.tokenIds hprocess
    · rw [hprocess] at h
      cases h

/-- The text that is released in the end comes without ids. -/
theorem tail_aligned (d : Decoder) (finished : Bool) :
    ∀ out ∈ (b.tail d finished).outputs, OutputAligned out := by
  intro out hout
  unfold tail at hout
  split_ifs at hout
  · cases hout
  · dsimp only at hout
    split_ifs at hout
    · cases hout
    · obtain rfl := List.mem_singleton.mp hout
      intro data hdata
      cases hdata
      rfl

theorem gets_cons {items : List (Annotated LLMEngineOutput)} {P : Decoder →
    Annotated LLMEngineOutput → Prop} :
    (∀ d' item', b.Gets d (item :: items) d' item' → P d' item') ↔
      P d item ∧ ∀ turn d'', b.turn d item = (.ok turn, d'') → turn.stopNow = false →
        ∀ d' item', b.Gets d'' items d' item' → P d' item' := by
  constructor
  · intro h
    exact ⟨h d item (.here d item items),
      fun turn d'' hturn hgo d' item' hgets => h d' item' (.next hturn hgo hgets)⟩
  · rintro ⟨hhere, hnext⟩ d' item' hgets
    cases hgets with
    | here => exact hhere
    | next hturn hgo hgets => exact hnext _ _ hturn hgo d' item' hgets

/-- **Tokens and ids.**  All outputs of a stream have as many tokens as token ids exactly if
    every item that the stream gets to is aligned. -/
theorem tokens_aligned_iff (b : Backend) (items : List (Annotated LLMEngineOutput)) :
    ∀ (d : Decoder) (finished : Bool),
      (∀ out ∈ (b.decodeStream d finished items).outputs, ∀ data, out.data = some data →
          data.tokens.length = data.tokenIds.length) ↔
        ∀ d' item, b.Gets d items d' item → b.ItemAligned d' item := by
  induction items with
  | nil =>
    intro d finished
    refine iff_of_true (tail_aligned d finished) ?_
    intro d' item hgets
    cases hgets
  | cons item items ih =>
    intro d finished
    rw [gets_cons, decodeStream]
    rcases hturn : b.turn d item with ⟨e | turn, d'⟩
    · simp [itemAligned_of_thrown hturn]
    · dsimp only
      rw [List.forall_mem_cons]
      refine and_congr (turn_aligned_iff hturn) ?_
      cases hstop : turn.stopNow with
      | true =>
        -- the other items are not looked at
        refine iff_of_true (tail_aligned d' _) ?_
        intro turn' d'' hsame hgo
        cases hsame
        rw [hstop] at hgo
        cases hgo
      | false =>
        rw [if_neg Bool.false_ne_true, ih]
        constructor
        · intro h turn' d'' hsame _
          cases hsame
          exact h
        · intro h
          exact h turn d' rfl hstop

/-- Text that the engine has decoded passes through without a token; and a delta whose second
    token is a hidden stop token has two tokens for three ids. -/
theorem tokens_misaligned :
    ((byteLevel.generate {} [.fromData { tokenIds := [0x61], text := some (str "a") }]).outputs.map
        fun out => out.data.map fun data => (data.tokens.length, data.tokenIds.length)) =
      [some (0, 1)] ∧
    ((byteLevel.generate { stopTokenIdsHidden := some [257] }
        [delta [0x61, 257, 0x62] none]).outputs.map
        fun out => out.data.map fun data => (data.tokens.length, data.tokenIds.length)) =
      [some (2, 3)] := by
  decide

end Backend

end DynamoCpp.Llm
