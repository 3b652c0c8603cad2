import DynamoCpp.Llm.Tokenizers

/-! # The backend operator

    `llm/backend.cpp`: the stage between the preprocessor and the engine.  The
    `Decoder` detokenizes the deltas of the engine and enforces the stop
    conditions: hidden stop tokens cut the stream, hidden stop sequences cut it
    in front of the matched text.  Text that may begin a stop sequence is held
    back in `pending`.  `decodeStream` runs the decoder over the engine's stream.

    Every function that calls the tokenizer may throw what the tokenizer throws;
    it then returns the error and the decoder as the exception leaves it.
-/

open Framework

namespace DynamoCpp.Llm

/-! ## Protocol types -/

inductive FinishReason.Kind where
  | eos | length | stop | error | cancelled
deriving DecidableEq

structure FinishReason where
  kind         : FinishReason.Kind := .stop
  errorMessage : Bytes := []
deriving DecidableEq

namespace FinishReason

def length : FinishReason := { kind := .length }

def stop : FinishReason := { kind := .stop }

end FinishReason

structure StopConditions where
  maxTokens          : Option UInt32 := none
  stop               : Option (List Bytes) := none
  stopTokenIdsHidden : Option (List TokenIdType) := none
  minTokens          : Option UInt32 := none
  ignoreEos          : Option Bool := none
deriving DecidableEq

/-- The response envelope of `pipeline/annotated.h`. -/
structure Annotated (α : Type) where
  data    : Option α := none
  id      : Option Bytes := none
  event   : Option Bytes := none
  comment : Option (List Bytes) := none

def Annotated.fromData {α : Type} (value : α) : Annotated α := { data := some value }

structure LLMEngineOutput where
  tokenIds     : List TokenIdType := []
  tokens       : Option (List (Option Bytes)) := none
  text         : Option Bytes := none
  cumLogProbs  : Option Float := none
  logProbs     : Option (List Float) := none
  finishReason : Option FinishReason := none

structure BackendOutput where
  tokenIds     : List TokenIdType := []
  tokens       : List (Option Bytes) := []
  text         : Option Bytes := none
  cumLogProbs  : Option Float := none
  logProbs     : Option (List Float) := none
  finishReason : Option FinishReason := none
  mdcsum       : Bytes := []

/-! ## The decoder -/

inductive StopTrigger.Kind where
  | maxTokensLimit | hiddenStopToken | hiddenStopSequence
deriving DecidableEq

/-- Why the decoder stopped a stream. -/
structure StopTrigger where
  kind     : StopTrigger.Kind := .maxTokensLimit
  tokenId  : TokenIdType := 0
  sequence : Bytes := []
deriving DecidableEq

def StopTrigger.finishReason (t : StopTrigger) : FinishReason :=
  if t.kind = .maxTokensLimit then FinishReason.length else FinishReason.stop

structure StepResult where
  token       : Option Bytes := none
  stopTrigger : Option StopTrigger := none
deriving DecidableEq

structure SeqResult where
  tokens      : List (Option Bytes) := []
  text        : Option Bytes := none
  stopTrigger : Option StopTrigger := none
deriving DecidableEq

structure Decoder where
  sequence            : Sequence := {}
  minTokens           : UInt32 := 0
  /-- An unordered set, only asked for membership. -/
  hiddenStopIds       : List TokenIdType := []
  hiddenStopSequences : List Bytes := []
  generatedTokens     : UInt32 := 0
  /-- Jailed text. -/
  pending             : Bytes := []
deriving DecidableEq

/-- No text is returned as `nullopt`. -/
def nonEmpty (text : Bytes) : Option Bytes := if text = [] then none else some text

@[simp] theorem getD_nonEmpty (text : Bytes) : (nonEmpty text).getD [] = text := by
  unfold nonEmpty
  split
  · next h => exact h.symm
  · rfl

/-- The first stop sequence of the list that occurs in the candidate, and where. -/
def matchStop (candidate : Bytes) : List Bytes → Option (Bytes × Nat)
  | [] => none
  | seq :: seqs =>
    match find seq candidate with
    | none => matchStop candidate seqs
    | some offset => some (seq, offset)

/-- The largest `seq.size() - 1`.  An empty sequence, for which the source wraps
    around, does not get here: it occurs in every candidate. -/
def maxHold (seqs : List Bytes) : Nat :=
  seqs.foldl (fun longest seq => max longest (seq.length - 1)) 0

/-- The loop over `len`: the longest suffix of the candidate, of at most that
    length, with which a longer stop sequence begins. -/
def holdLoop (seqs : List Bytes) (candidate : Bytes) : Nat → Nat
  | 0 => 0
  | n + 1 =>
    let len := n + 1
    let suffix := candidate.drop (candidate.length - len)
    if seqs.any fun seq => len < seq.length && seq.take len == suffix then len
    else holdLoop seqs candidate n

def hold (seqs : List Bytes) (candidate : Bytes) : Nat :=
  holdLoop seqs candidate (min candidate.length (maxHold seqs))

namespace Decoder

/-- The constructor. -/
def create (stopConditions : StopConditions) : Decoder where
  hiddenStopIds := stopConditions.stopTokenIdsHidden.getD []
  hiddenStopSequences := stopConditions.stop.getD []
  minTokens := stopConditions.minTokens.getD 0

def flush (d : Decoder) : Bytes × Decoder := (d.pending, { d with pending := [] })

/-- The part of `step` after the token has been decoded. -/
def release (d : Decoder) (tokenId : TokenIdType) (decoded : Bytes) : StepResult × Decoder :=
  if d.generatedTokens < d.minTokens then
    let (out, d) := d.flush
    ({ token := nonEmpty (out ++ decoded) }, d)
  else if tokenId ∈ d.hiddenStopIds then
    -- the text of the stop token is hidden, jailed text is legitimate
    let (out, d) := d.flush
    ({ token := nonEmpty out
       stopTrigger := some { kind := .hiddenStopToken, tokenId := tokenId } }, d)
  else if d.hiddenStopSequences = [] then
    ({ token := nonEmpty decoded }, d)
  else
    let candidate := d.pending ++ decoded
    match matchStop candidate d.hiddenStopSequences with
    | some (seq, offset) =>
      ({ token := nonEmpty (candidate.take offset)
         stopTrigger := some { kind := .hiddenStopSequence, sequence := seq } },
        { d with pending := [] })
    | none =>
      let kept := candidate.length - hold d.hiddenStopSequences candidate
      ({ token := nonEmpty (candidate.take kept) }, { d with pending := candidate.drop kept })

/-- Releasing text leaves everything but the jailed text alone. -/
theorem release_frame (d : Decoder) (tokenId : TokenIdType) (decoded : Bytes) :
    (d.release tokenId decoded).2 =
      { d with pending := (d.release tokenId decoded).2.pending } := by
  unfold release flush
  split_ifs
  · rfl
  · rfl
  · rfl
  · dsimp only
    split <;> rfl

section frame

variable (d : Decoder) (tokenId : TokenIdType) (decoded : Bytes)

@[simp] theorem release_sequence : (d.release tokenId decoded).2.sequence = d.sequence := by
  rw [release_frame]

@[simp] theorem release_minTokens : (d.release tokenId decoded).2.minTokens = d.minTokens := by
  rw [release_frame]

@[simp] theorem release_hiddenStopIds :
    (d.release tokenId decoded).2.hiddenStopIds = d.hiddenStopIds := by
  rw [release_frame]

@[simp] theorem release_hiddenStopSequences :
    (d.release tokenId decoded).2.hiddenStopSequences = d.hiddenStopSequences := by
  rw [release_frame]

end frame

/-- Without a trigger, what is released and what is jailed is what was jailed and
    the new text. -/
theorem release_conserves {d : Decoder} {tokenId : TokenIdType} {decoded : Bytes}
    (hjail : d.hiddenStopSequences = [] → d.pending = [])
    (htrigger : (d.release tokenId decoded).1.stopTrigger = none) :
    (d.release tokenId decoded).1.token.getD [] ++ (d.release tokenId decoded).2.pending =
      d.pending ++ decoded := by
  unfold release flush at htrigger ⊢
  split_ifs at htrigger ⊢ with hmin hstop hnone
  · simp
  · simp [hjail hnone]
  · dsimp only at htrigger ⊢
    cases hmatch : matchStop (d.pending ++ decoded) d.hiddenStopSequences with
    | some found =>
      rw [hmatch] at htrigger
      exact absurd htrigger (Option.some_ne_none _)
    | none => simp

/-- Without stop sequences nothing is jailed. -/
theorem release_jail {d : Decoder} (hjail : d.hiddenStopSequences = [] → d.pending = [])
    (tokenId : TokenIdType) (decoded : Bytes) (hnone : d.hiddenStopSequences = []) :
    (d.release tokenId decoded).2.pending = [] := by
  unfold release flush
  split_ifs
  · rfl
  · rfl
  · exact hjail hnone

section step

variable (tokenizer : Tokenizer)

/-- The decoder when a token has been appended. -/
def count (d : Decoder) (sequence : Sequence) : Decoder :=
  { d with generatedTokens := d.generatedTokens + 1, sequence := sequence }

def step (d : Decoder) (tokenId : TokenIdType) : Except Bytes StepResult × Decoder :=
  match d.sequence.appendTokenId tokenizer tokenId with
  | (.error e, sequence) => (.error e, d.count sequence)
  | (.ok decoded, sequence) =>
    let (result, d) := (d.count sequence).release tokenId decoded
    (.ok result, d)

section stepLemmas

variable {tokenizer} {d : Decoder} {tokenId : TokenIdType} {sequence : Sequence}

theorem step_error {e : Bytes}
    (h : d.sequence.appendTokenId tokenizer tokenId = (.error e, sequence)) :
    d.step tokenizer tokenId = (.error e, d.count sequence) := by
  rw [step, h]

theorem step_ok {decoded : Bytes}
    (h : d.sequence.appendTokenId tokenizer tokenId = (.ok decoded, sequence)) :
    d.step tokenizer tokenId =
      (.ok ((d.count sequence).release tokenId decoded).1,
        ((d.count sequence).release tokenId decoded).2) := by
  rw [step, h]

end stepLemmas

/-- The loop of `process_token_ids`. -/
def processLoop (d : Decoder) (result : SeqResult) :
    List TokenIdType → Except Bytes SeqResult × Decoder
  | [] => (.ok result, d)
  | tokenId :: tokenIds =>
    match d.step tokenizer tokenId with
    | (.error e, d) => (.error e, d)
    | (.ok stepResult, d) =>
      let text :=
        match stepResult.token with
        | none => result.text
        | some token => some (result.text.getD [] ++ token)
      let tokens := result.tokens ++ [stepResult.token]
      match stepResult.stopTrigger with
      | some trigger =>
        (.ok { tokens := tokens, text := text, stopTrigger := some trigger }, d)
      | none => processLoop d { tokens := tokens, text := text } tokenIds

def processTokenIds (d : Decoder) (tokenIds : List TokenIdType) :
    Except Bytes SeqResult × Decoder :=
  d.processLoop tokenizer {} tokenIds

end step

end Decoder

/-! ## The stream -/

def toBackendOutput (data : LLMEngineOutput) (mdcsum : Bytes) : BackendOutput where
  tokenIds := data.tokenIds
  tokens := data.tokens.getD []
  text := data.text
  cumLogProbs := data.cumLogProbs
  logProbs := data.logProbs
  finishReason := data.finishReason
  mdcsum := mdcsum

/-- The fields of `Backend` that `decode_stream` uses. -/
structure Backend where
  tokenizer            : Tokenizer
  mdcsum               : Bytes
  validateEngineDecode : Bool := false

/-- What one turn of the loop of `decode_stream` yields and does. -/
structure Turn where
  out            : Annotated BackendOutput
  /-- `context->stop_generating()` was called. -/
  stopGenerating : Bool := false
  finished       : Bool := false
  stopNow        : Bool := false

/-- What the stream has yielded in the end, and how it ended. -/
structure Emission where
  outputs        : List (Annotated BackendOutput) := []
  stopGenerating : Bool := false
  error          : Option Bytes := none

namespace Backend

variable (b : Backend)

/-- The end of a turn, when the decoder has processed the token ids of the delta. -/
def finishTurn (envelope : Annotated BackendOutput) (data : LLMEngineOutput)
    (result : SeqResult) (d : Decoder) : Turn × Decoder :=
  let decoderReason := result.stopTrigger.map StopTrigger.finishReason
  let stopGenerating := data.finishReason.isNone && decoderReason.isSome
  let reason := decoderReason.or data.finishReason
  -- a finishing delta releases jailed text, unless a stop sequence hid it
  let (text, d) :=
    if reason.isSome && result.stopTrigger.isNone then
      let (flushed, d) := d.flush
      (if flushed = [] then result.text else some (result.text.getD [] ++ flushed), d)
    else (result.text, d)
  let data := { data with finishReason := reason, text := text, tokens := some result.tokens }
  ({ out := { envelope with data := some (toBackendOutput data b.mdcsum) }
     stopGenerating := stopGenerating
     finished := reason.isSome
     stopNow := result.stopTrigger.isSome }, d)

/-- One turn of the loop.  The warnings of `validate_engine_decode` are only logged. -/
def turn (d : Decoder) (item : Annotated LLMEngineOutput) : Except Bytes Turn × Decoder :=
  let envelope : Annotated BackendOutput :=
    { id := item.id, event := item.event, comment := item.comment }
  match item.data with
  | none => (.ok { out := envelope }, d)
  | some data =>
    if item.event.isSome || (data.text.isSome && !b.validateEngineDecode) then
      -- events and text that the engine has decoded pass through
      (.ok { out := { envelope with data := some (toBackendOutput data b.mdcsum) } }, d)
    else
      match d.processTokenIds b.tokenizer data.tokenIds with
      | (.error e, d) => (.error e, d)
      | (.ok result, d) =>
        let (turn, d) := b.finishTurn envelope data result d
        (.ok turn, d)

/-- After the loop: a stream without a finishing delta releases jailed text. -/
def tail (d : Decoder) (finished : Bool) : Emission :=
  if finished then {}
  else
    let (flushed, _) := d.flush
    if flushed = [] then {}
    else { outputs := [Annotated.fromData { text := some flushed, mdcsum := b.mdcsum }] }

/-- `decode_stream` over the items that the engine's stream holds. -/
def decodeStream (d : Decoder) (finished : Bool) : List (Annotated LLMEngineOutput) → Emission
  | [] => b.tail d finished
  | item :: items =>
    match b.turn d item with
    | (.error e, _) => { error := some e }
    | (.ok turn, d) =>
      let finished := finished || turn.finished
      let rest := if turn.stopNow then b.tail d finished else decodeStream d finished items
      { outputs := turn.out :: rest.outputs
        stopGenerating := turn.stopGenerating || rest.stopGenerating
        error := rest.error }

/-- `generate`: the stream of a request with these stop conditions. -/
def generate (stopConditions : StopConditions) (items : List (Annotated LLMEngineOutput)) :
    Emission :=
  b.decodeStream (Decoder.create stopConditions) false items

end Backend

end DynamoCpp.Llm
