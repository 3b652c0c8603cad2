import DynamoCpp.Framework.Delimited
import DynamoCpp.Framework.Transducer
import DynamoCpp.Llm.Backend
import DynamoCpp.Llm.Protocols.Sse

/-! # Decoding server-sent events

    `SseDecoder` of `llm/protocols/sse.cpp` is fed pieces of an event stream and returns the
    messages that they complete.  It refines a machine that reads the bytes one by one and
    handles each line when its end arrives, so only the bytes matter, not how they are cut.
-/

namespace DynamoCpp.Llm

open Framework

/-! ## The decoder -/

def kSseDoneSentinel : Bytes := str "[DONE]"

namespace Sse

def trim (s : Bytes) : Bytes :=
  let s := s.dropWhile fun c => c = ' '.toUInt8 ∨ c = '\t'.toUInt8
  (s.reverse.dropWhile fun c => c = ' '.toUInt8 ∨ c = '\t'.toUInt8).reverse

/-- The line without the characters of its end. -/
def stripEnd (line : Bytes) : Bytes :=
  (line.reverse.dropWhile fun c => c = '\r'.toUInt8 ∨ c = '\n'.toUInt8).reverse

/-- Name and value of a field.  Without a colon the value is empty. -/
def fieldOf (line : Bytes) : Bytes × Bytes :=
  match cut ':'.toUInt8 line with
  | none => (line, [])
  | some (name, value) => (name, value.dropWhile fun c => c = ' '.toUInt8)

end Sse

/-- `SseMessage::empty` -/
def SseMessage.empty (m : SseMessage) : Bool :=
  m.id.isNone && m.event.isNone && m.data.isNone && m.comments.isNone

/-- The fields of the message that is being read. -/
structure SseFields where
  data     : Bytes := []
  event    : Bytes := []
  id       : Bytes := []
  comments : List Bytes := []
  deriving DecidableEq

namespace SseFields

/-- The data without the last line feed. -/
def dataText (f : SseFields) : Bytes :=
  if f.data.getLast? = some '\n'.toUInt8 then f.data.dropLast else f.data

/-- The message of the fields. -/
def message (f : SseFields) : SseMessage where
  id       := nonEmpty f.id
  event    := nonEmpty f.event
  data     := nonEmpty f.dataText
  comments := if f.comments = [] then none else some f.comments

def takePending (f : SseFields) : Option SseMessage × SseFields :=
  if f.data = [] ∧ f.event = [] ∧ f.id = [] ∧ f.comments = [] then (none, f)
  else (if f.message.empty then none else some f.message, {})

/-- The fields with that of a line.  `retry` and unknown fields are ignored. -/
def setField (f : SseFields) (name value : Bytes) : SseFields :=
  if name = str "event" then { f with event := value }
  else if name = str "data" then
    if value = kSseDoneSentinel then f
    else { f with data := (if f.data = [] then [] else f.data ++ str "\n") ++ value }
  else if name = str "id" then
    if 0 ∈ value then f else { f with id := value }
  else f

def processLine (f : SseFields) (line : Bytes) : SseFields × List SseMessage :=
  let line := Sse.stripEnd line
  if line = [] then
    -- a blank line ends the message
    let (message, f) := f.takePending
    (f, message.toList)
  else if line.head? = some ':'.toUInt8 then
    ({ f with comments := f.comments ++ [Sse.trim line.tail] }, [])
  else
    let (name, value) := Sse.fieldOf line
    (f.setField name value, [])

end SseFields

structure SseDecoder extends SseFields where
  lineBuffer : Bytes := []
  deriving DecidableEq

namespace SseDecoder

/-- The loop of `feed` over the segments between the line feeds of the chunk. -/
def feedLoop (d : SseDecoder) : List Bytes → SseDecoder × List SseMessage
  | [] => (d, [])
  | [rest] => ({ d with lineBuffer := d.lineBuffer ++ rest }, [])
  | segment :: segments =>
    let line := if d.lineBuffer = [] then segment else d.lineBuffer ++ segment
    let (fields, messages) := d.processLine line
    let (d, more) := feedLoop ⟨fields, []⟩ segments
    (d, messages ++ more)

/-- The messages that the chunk completes. -/
def feed (d : SseDecoder) (chunk : Bytes) : SseDecoder × List SseMessage :=
  d.feedLoop (chunk.splitOn '\n'.toUInt8)

/-- The end of the stream: a partial line is processed, and pending fields are a last
    message. -/
def finish (d : SseDecoder) : Option SseMessage × SseDecoder :=
  let (fields, messages) :=
    if d.lineBuffer = [] then (d.toSseFields, []) else d.processLine d.lineBuffer
  match messages with
  -- a partial line of carriage returns is a blank one
  | message :: _ => (some message, ⟨fields, []⟩)
  | [] =>
    let (message, fields) := fields.takePending
    (message, ⟨fields, []⟩)

/-- The messages of the pieces, fed one after the other. -/
def feedAll (d : SseDecoder) : List Bytes → SseDecoder × List SseMessage
  | [] => (d, [])
  | piece :: pieces =>
    let (d, messages) := d.feed piece
    let (d, more) := d.feedAll pieces
    (d, messages ++ more)

end SseDecoder

/-! ## The machine of the bytes -/

/-- One byte of an event stream; the second part of the state is the unfinished line. -/
abbrev sseByte : SseFields × Bytes → UInt8 → (SseFields × Bytes) × List SseMessage :=
  lineStep '\n'.toUInt8 SseFields.processLine

namespace SseDecoder

/-- The decoder as a state of the machine. -/
def toState (d : SseDecoder) : SseFields × Bytes := (d.toSseFields, d.lineBuffer)

def ofState (s : SseFields × Bytes) : SseDecoder := ⟨s.1, s.2⟩

@[simp] theorem ofState_toState (d : SseDecoder) : ofState d.toState = d := rfl

@[simp] theorem toState_ofState (s : SseFields × Bytes) : (ofState s).toState = s := rfl

/-- Looking at the line buffer first makes no difference. -/
theorem feedLoop_eq (segments : List Bytes) : ∀ d : SseDecoder,
    d.feedLoop segments =
      (ofState (lineLoop SseFields.processLine d.toState segments).1,
        (lineLoop SseFields.processLine d.toState segments).2) := by
  induction segments with
  | nil =>
    intro d
    rfl
  | cons segment segments ih =>
    intro d
    cases segments with
    | nil => rfl
    | cons next segments =>
      have hline : (if d.lineBuffer = [] then segment else d.lineBuffer ++ segment) =
          d.lineBuffer ++ segment := by
        split
        · next hempty => rw [hempty, List.nil_append]
        · rfl
      simp only [feedLoop, hline, ih]
      rfl

/-- **`feed` reads bytes.** -/
theorem feed_eq (d : SseDecoder) (chunk : Bytes) :
    d.feed chunk =
      (ofState (transduce sseByte d.toState chunk).1, (transduce sseByte d.toState chunk).2) := by
  rw [feed, feedLoop_eq, lineLoop_splitOn]

theorem feedAll_eq (pieces : List Bytes) : ∀ d : SseDecoder,
    d.feedAll pieces =
      (ofState (transduce (transduce sseByte) d.toState pieces).1,
        (transduce (transduce sseByte) d.toState pieces).2) := by
  induction pieces with
  | nil =>
    intro d
    rfl
  | cons piece pieces ih =>
    intro d
    simp only [feedAll, ih, feed_eq, transduce_cons, toState_ofState]

/-! ## Main result -/

/-- What is taken is no longer pending. -/
theorem takePending_twice (f : SseFields) : f.takePending.2.takePending.1 = none := by
  by_cases hnone : f.data = [] ∧ f.event = [] ∧ f.id = [] ∧ f.comments = []
  · have htake : f.takePending = (none, f) := if_pos hnone
    rw [htake, htake]
  · have htake : f.takePending.2 = {} := by rw [SseFields.takePending, if_neg hnone]
    rw [htake]
    rfl

theorem processLine_blank (f : SseFields) :
    f.processLine [] = (f.takePending.2, f.takePending.1.toList) := rfl

/-- Two line feeds end the line and the message. -/
theorem feed_blank (d : SseDecoder) :
    (d.feed (str "\n\n")).2 = (d.processLine d.lineBuffer).2 ++
      (d.processLine d.lineBuffer).1.takePending.1.toList := by
  have hbytes : str "\n\n" = ['\n'.toUInt8, '\n'.toUInt8] := by decide
  have hend : ∀ s : SseFields × Bytes, sseByte s '\n'.toUInt8 =
      (((s.1.processLine s.2).1, []), (s.1.processLine s.2).2) := fun s => if_pos rfl
  rw [feed_eq, hbytes, transduce_cons, transduce_singleton, hend, hend, processLine_blank]
  rfl

theorem finish_eq_head (d : SseDecoder) : d.finish.1 = (d.feed (str "\n\n")).2.head? := by
  rw [feed_blank]
  by_cases hbuffer : d.lineBuffer = []
  · -- the first line feed takes what is pending, and the second finds nothing
    rw [hbuffer, processLine_blank]
    simp only [finish, if_pos hbuffer]
    rw [takePending_twice]
    cases d.takePending.1 <;> rfl
  · simp only [finish, if_neg hbuffer]
    cases (d.processLine d.lineBuffer).2 with
    | nil => cases (d.processLine d.lineBuffer).1.takePending.1 <;> rfl
    | cons message messages => rfl

/-- **Chunks do not matter.**  However a stream is cut, from every state the decoder returns
    the same messages and ends in the same state; and `finish` returns the first message that
    two line feeds would complete. -/
theorem decoding_ignores_chunks (d : SseDecoder) :
    (∀ pieces : List Bytes, d.feedAll pieces = d.feed pieces.flatten) ∧
      d.finish.1 = (d.feed (str "\n\n")).2.head? := by
  refine ⟨fun pieces => ?_, finish_eq_head d⟩
  rw [feedAll_eq, feed_eq, transduce_flatten]

/-- A line that is cut between its carriage return and its line feed. -/
example :
    (feedAll {} [str "data: a\r", str "\n\r\n"]).2 = [{ data := some (str "a") }] := by
  decide

end SseDecoder

end DynamoCpp.Llm
