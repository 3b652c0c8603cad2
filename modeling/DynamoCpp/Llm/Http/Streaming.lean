import DynamoCpp.Llm.Http.ChunkedBody
import DynamoCpp.Llm.Http.Connection
import DynamoCpp.Llm.Protocols.OpenAi
import DynamoCpp.Llm.Protocols.SseRoundTrip

/-! # The streams of the OpenAI routes

    A streaming route sends the items of the response stream of an engine as server-sent
    events.  An exception of the engine stream, or a response that cannot be written as
    text, leaves the stream.  What does not throw reaches the client: its decoder reads the
    texts of the responses.
-/

namespace DynamoCpp.Llm

open Framework

namespace Http

/-! ## Sending a stream -/

section

variable {R : Type} (dump : R → Except Bytes Bytes)

/-- `stream_sse` on the items of a stream and the exception that ends it, if any: it stops
    when the sink reports that the client has gone. -/
def streamSse : List (Annotated R) → Option Bytes → BodyStream
  | [], none => .chunk encodeSseDone fun _ => .returns
  | [], some what => .throws what
  | item :: items, failure =>
    match item.data.mapM dump with
    | .error what => .throws what
    | .ok data =>
      .chunk (encodeSse ⟨item.id, item.event, data, item.comment⟩) fun connected =>
        if connected then streamSse items failure else .returns

end

/-! ## Which streams throw -/

/-- Whatever the sink answers, the stream returns. -/
def BodyStream.Quiet : BodyStream → Prop
  | .returns => True
  | .throws _ => False
  | .chunk _ next => ∀ answer, (next answer).Quiet

theorem BodyStream.Quiet.run (faults : Faults) : ∀ {stream : BodyStream}, stream.Quiet →
    ∀ o, (stream.run faults o).1 = .ok ()
  | .returns, _, _ => rfl
  | .chunk data _, h, o => (h (sink faults o data).1).run faults (sink faults o data).2

/-- If the routes only hand out quiet streams, every connection ends normally and is
    removed. -/
theorem serveConnection_of_quiet {routes : Routes}
    (hquiet : ∀ (key : Bytes) handler call request response stream, routes[key]? = some handler →
      handler call request = .ok response → response.stream = some stream → stream.Quiet)
    (faults : Faults) (stopping : Nat → Bool) (r : LineReader) (connId : Nat) (live : LiveFds) :
    serveConnection routes faults stopping r connId live = some (.ok (), live.erase connId) := by
  refine (serveConnection_ok_iff routes faults stopping r connId live).mpr ?_
  rintro what ⟨turn, r', o', -, -, request, keepAlive, handler, response, stream, -, hroute,
    hcall, hstream, -, hthrows⟩
  have hok := (hquiet _ handler turn request response stream hroute hcall hstream).run faults
    (writeAllFd faults o' (response.chunkedHead keepAlive)).2
  rw [hthrows] at hok
  cases hok

theorem short_stream_served :
    serveConnection (Routes.handle ∅ (str "GET") (str "/s") fun _ _ =>
        .ok { stream := some (.chunk (str "a") fun _ => .returns) })
      (fun _ => none) (fun _ => false) streamRequest 0 ∅ =
        some (.ok (), (∅ : LiveFds).erase 0) := by
  refine serveConnection_of_quiet (fun key handler call request response stream hroute hcall
    hstream => ?_) _ _ _ _ _
  obtain ⟨-, rfl⟩ | h := OrdMap.get_of_insert hroute
  · cases hcall
    cases hstream
    exact fun _ => trivial
  · simp at h

/-! ## What a client reads -/

open SseFields SseDecoder

/-- After a message the decoder is as fresh as before. -/
theorem feed_encodeSse_fst (m : SseMessage) : (feed {} (encodeSse m)).1 = {} := by
  rw [feed_eq, encodeSse_eq, joinLines]
  show ofState (transduce sseByte ({}, []) _).1 = {}
  rw [transduce_lines m.lines_notMem, SseMessage.lines, transduce_append, transduce_singleton,
    processLine_blank, takePending_snd]
  rfl

/-- The events of a stream are read one by one, and its end is no message. -/
theorem feedAll_events (messages : List SseMessage) :
    feedAll {} (messages.map encodeSse ++ [encodeSseDone]) =
      ({}, messages.flatMap fun m => (feed {} (encodeSse m)).2) := by
  induction messages with
  | nil => decide
  | cons m messages ih =>
    have hfeed : feed {} (encodeSse m) = ({}, (feed {} (encodeSse m)).2) :=
      Prod.ext (feed_encodeSse_fst m) rfl
    rw [List.map_cons, List.cons_append, feedAll, hfeed]
    dsimp only
    rw [ih]
    rfl

/-- A text in one line is read as it was written. -/
theorem feed_line {text : Bytes} (h : text ≠ [] ∧ Plain text ∧ Flush text) :
    (feed {} (encodeSse { data := some text })).2 = [{ data := some text }] := by
  obtain ⟨hne, hplain, hflush⟩ := h
  have hread : readData text = text := by
    rw [readData, splitOn_eq_singleton hplain.noFeed]
    exact addData_of_flush hplain hflush
  have htext : dataText { data := text } = text :=
    if_neg fun h => hplain.noFeed (List.mem_of_getLast? h)
  rw [feed_data, hread, htext, nonEmpty, if_neg hne]
  rfl

variable {R : Type} {dump : R → Except Bytes Bytes} {responses : List R} {texts : List Bytes}

theorem streamSse_passes (h : List.Forall₂ (fun v text => dump v = .ok text) responses texts) :
    (streamSse dump (responses.map .fromData) none).Passes
      ((texts.map fun text => { data := some text }).map encodeSse ++ [encodeSseDone]) := by
  induction h with
  | nil => exact .chunk .returns
  | @cons v text responses texts hv _ ih =>
    have hdata : (some v).mapM dump = .ok (some text) := congrArg (Except.map some) hv
    rw [List.map_cons, streamSse, Annotated.fromData, hdata]
    exact .chunk ih

/-- **Responses arrive.**  A streaming route whose responses are written as lines of text sends
    a chunked body of which the decoder of a client reads these texts, in order and nothing
    else, however the connection cuts the body. -/
theorem responses_arrive
    (hdump : List.Forall₂ (fun v text => dump v = .ok text) responses texts)
    (htexts : ∀ text ∈ texts, text ≠ [] ∧ Plain text ∧ Flush text) {response : HttpResponse}
    (hstream : response.stream = some (streamSse dump (responses.map .fromData) none))
    (keepAlive : Bool) (o : Output) :
    ∃ body parts, dechunk body = some (parts, []) ∧
      (writeResponse (fun _ => none) o response keepAlive).2.bytes =
        o.bytes ++ (response.chunkedHead keepAlive ++ body) ∧
      ∀ pieces, pieces.flatten = parts.flatten →
        feedAll {} pieces = ({}, texts.map fun text => { data := some text }) := by
  have hsent := (writeResponse_of_passes (fun _ h => absurd rfl h) hstream (streamSse_passes hdump)
    keepAlive o).resolve_right fun hpart => nomatch hpart.2 _ (Nat.le_refl _)
  refine ⟨_, _, dechunk_chunkedBody ?_, hsent, fun pieces hpieces => ?_⟩
  · exact fun part hpart => of_decide_eq_true (List.mem_filter.mp hpart).2
  · rw [List.flatten_filter_ne_nil] at hpieces
    rw [feedAll_eq, ← transduce_flatten, hpieces, transduce_flatten, ← feedAll_eq, feedAll_events,
      List.flatMap_map, ← List.flatMap_singleton' (texts.map _), List.flatMap_map]
    exact congrArg _ (List.flatMap_congr fun text h => feed_line (htexts text h))

/-- Two responses. -/
theorem responses_arrive_two :
    ∃ body parts, dechunk body = some (parts, []) ∧
      (writeResponse (fun _ => none) {}
        { stream := some (streamSse .ok [.fromData (str "1"), .fromData (str "2")] none) }
        true).2.bytes = HttpResponse.chunkedHead {} true ++ body ∧
      ∀ pieces, pieces.flatten = parts.flatten →
        feedAll {} pieces = ({}, [{ data := some (str "1") }, { data := some (str "2") }]) := by
  refine @responses_arrive Bytes .ok [str "1", str "2"] [str "1", str "2"]
    (.cons rfl (.cons rfl .nil)) ?_ _ rfl true {}
  refine List.forall_mem_cons.mpr ⟨?_, List.forall_mem_singleton.mpr ?_⟩
  · exact ⟨by decide, ⟨by decide, by decide, by decide⟩,
      (by decide : (str "1").head? ≠ some ' '.toUInt8)⟩
  · exact ⟨by decide, ⟨by decide, by decide, by decide⟩,
      (by decide : (str "2").head? ≠ some ' '.toUInt8)⟩

end Http

end DynamoCpp.Llm
