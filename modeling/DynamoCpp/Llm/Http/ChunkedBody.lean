import DynamoCpp.Framework.ChunkedCoding
import DynamoCpp.Framework.Digits
import DynamoCpp.Llm.Http.Server

/-! # Chunked responses

    A streamed response is sent in the chunked coding: `write_response` gives the stream a
    sink that sends every chunk with its size, and sends the last chunk, of size zero, when
    the stream has returned.  An empty chunk would end the body too early, so the sink sends
    nothing for it.

    `write_all_fd` goes on after an interruption and after a send that took only a part of
    the bytes.  What it has sent is all of the data, or a proper beginning of it if a send
    failed, so that a connection is described by the writes that fail (`Faults`).
-/

namespace DynamoCpp.Llm.Http

open Framework

/-! ## Sending -/

/-- What a call of `send` does with the bytes that it is given. -/
inductive Send where
  /-- `EINTR` -/
  | interrupted
  | failed
  /-- It takes so many of them, or all. -/
  | took (n : Nat)

/-- The loop of `write_all_fd` over the results of `send`: its result and what was sent, or
    nothing if it is still running. -/
def sendLoop : List Send → Bytes → Option (Bool × Bytes)
  | _, [] => some (true, [])
  | [], _ => none
  | .interrupted :: sends, data => sendLoop sends data
  | .failed :: _, _ => some (false, [])
  | .took n :: sends, data =>
    (sendLoop sends (data.drop n)).map fun r => (r.1, data.take n ++ r.2)

theorem sendLoop_spec (sends : List Send) : ∀ {data sent : Bytes} {ok : Bool},
    sendLoop sends data = some (ok, sent) →
      sent <+: data ∧ (ok = true → sent = data) ∧ (ok = false → sent.length < data.length) := by
  induction sends with
  | nil =>
    intro data sent ok h
    cases data with
    | nil =>
      cases h
      exact ⟨List.prefix_rfl, fun _ => rfl, Bool.noConfusion⟩
    | cons c data => cases h
  | cons send sends ih =>
    intro data sent ok h
    cases data with
    | nil =>
      cases h
      exact ⟨List.prefix_rfl, fun _ => rfl, Bool.noConfusion⟩
    | cons c data =>
      cases send with
      | interrupted => exact ih h
      | failed =>
        cases h
        exact ⟨List.nil_prefix, Bool.noConfusion, fun _ => Nat.zero_lt_succ _⟩
      | took n =>
        -- what this call took, and what the other calls sent of the rest
        obtain ⟨⟨ok', rest⟩, hrest, heq⟩ := Option.map_eq_some_iff.mp h
        cases heq
        obtain ⟨hsub, hall, hpart⟩ := ih hrest
        refine ⟨?_, fun hok => ?_, fun hok => ?_⟩
        · have hjoin := (List.prefix_append_right_inj ((c :: data).take n)).mpr hsub
          rwa [List.take_append_drop] at hjoin
        · rw [hall hok, List.take_append_drop]
        · have hlt := hpart hok
          rw [List.length_drop] at hlt
          rw [List.length_append, List.length_take]
          dsimp only
          omega

/-- Every outcome of the loop is that of a write which fails or not. -/
theorem writeAllFd_of_sendLoop {sends : List Send} {data sent : Bytes} {ok : Bool}
    (h : sendLoop sends data = some (ok, sent)) (hne : data ≠ []) :
    ∃ fault, ∀ (faults : Faults) (o : Output), faults o.writes = fault →
      writeAllFd faults o data = (ok, ⟨o.bytes ++ sent, o.writes + 1⟩) := by
  obtain ⟨hsub, hall, hpart⟩ := sendLoop_spec sends h
  cases ok with
  | true =>
    refine ⟨none, fun faults o hfault => ?_⟩
    rw [writeAllFd, if_neg hne, hfault, hall rfl]
  | false =>
    refine ⟨some sent.length, fun faults o hfault => ?_⟩
    have hlt := hpart rfl
    have htake : data.dropLast.take sent.length = sent := by
      rw [List.dropLast_eq_take, List.take_take, Nat.min_eq_left (by omega)]
      exact (List.prefix_iff_eq_take.mp hsub).symm
    rw [writeAllFd, if_neg hne, hfault]
    dsimp only
    rw [htake]

theorem text_sent_in_parts :
    ∃ fault, ∀ (faults : Faults) (o : Output), faults o.writes = fault →
      writeAllFd faults o (str "abc") = (true, ⟨o.bytes ++ str "abc", o.writes + 1⟩) :=
  @writeAllFd_of_sendLoop [.took 1, .interrupted, .took 5] _ _ _ (by decide) (by decide)

/-! ## The receiver -/

def hexValue (c : UInt8) : Option Nat :=
  if '0'.toUInt8 ≤ c ∧ c ≤ '9'.toUInt8 then some (c.toNat - 48)
  else if 'a'.toUInt8 ≤ c ∧ c ≤ 'f'.toUInt8 then some (c.toNat - 87)
  else if 'A'.toUInt8 ≤ c ∧ c ≤ 'F'.toUInt8 then some (c.toNat - 55)
  else none

/-- A receiver of a chunked body (RFC 9112) that accepts neither extensions nor trailers: the
    chunks before the one of size zero, and what follows the body. -/
def dechunk (s : Bytes) : Option (List Bytes × Bytes) :=
  Chunked.decode '\r'.toUInt8 '\n'.toUInt8 (readDigits 16 hexValue) s

/-- A chunk as it is sent. -/
def frame (chunk : Bytes) : Bytes :=
  digits 16 chunk.length ++ str "\r\n" ++ chunk ++ str "\r\n"

/-- The chunks as they are sent, and the last chunk. -/
def chunkedBody (chunks : List Bytes) : Bytes := chunks.flatMap frame ++ str "0\r\n\r\n"

theorem chunkedBody_eq (chunks : List Bytes) :
    chunkedBody chunks = Chunked.encode '\r'.toUInt8 '\n'.toUInt8 (digits 16) chunks := by
  have hframe : frame = Chunked.frame '\r'.toUInt8 '\n'.toUInt8 (digits 16) := by
    funext chunk
    have hcrlf : str "\r\n" = ['\r'.toUInt8, '\n'.toUInt8] := by decide
    rw [frame, Chunked.frame, hcrlf]
    simp
  rw [chunkedBody, Chunked.encode, hframe]
  rfl

theorem dechunk_chunkedBody {chunks : List Bytes} (hne : ∀ c ∈ chunks, c ≠ []) :
    dechunk (chunkedBody chunks) = some (chunks, []) := by
  have hsize : ∀ n, readDigits 16 hexValue (digits 16 n) = some n :=
    readDigits_toDigits (by decide) (by decide)
  -- a digit is no carriage return, so the line of a size ends behind the digits
  have hcr : ∀ n, '\r'.toUInt8 ∉ digits 16 n := by
    intro n hmem
    obtain ⟨c, hc, heq⟩ := List.mem_map.mp hmem
    obtain ⟨d, hd, rfl⟩ := digit_of_mem_toDigits (by decide) n c hc
    have hno : ∀ d < 16, d.digitChar.toUInt8 ≠ '\r'.toUInt8 := by decide
    exact hno d hd heq
  have hdecode := @Chunked.decode_encode _ _ '\r'.toUInt8 '\n'.toUInt8 _ _ hsize hcr chunks hne []
  rwa [List.append_nil, ← chunkedBody_eq] at hdecode

/-! ## The sender -/

/-- As long as the sink succeeds, the stream passes these chunks to it and then returns. -/
inductive BodyStream.Passes : BodyStream → List Bytes → Prop where
  | returns : Passes .returns []
  | chunk {data : Bytes} {next : Bool → BodyStream} {chunks : List Bytes} :
      Passes (next true) chunks → Passes (.chunk data next) (data :: chunks)

section sender

variable {faults : Faults}

/-- Once a write has failed nothing is sent any more. -/
def Lasting (faults : Faults) : Prop :=
  ∀ n, faults n ≠ none → ∀ m, n < m → faults m = some 0

/-- From this write on nothing is sent. -/
def Gone (faults : Faults) (n : Nat) : Prop := ∀ m, n ≤ m → faults m = some 0

theorem writeAllFd_of_gone {o : Output} (h : Gone faults o.writes) (data : Bytes) :
    (writeAllFd faults o data).2.bytes = o.bytes ∧
      Gone faults (writeAllFd faults o data).2.writes := by
  unfold writeAllFd
  split
  · exact ⟨rfl, h⟩
  · rw [h o.writes (Nat.le_refl _)]
    exact ⟨List.append_nil _, fun m hm => h m (Nat.le_of_succ_le hm)⟩

theorem run_of_gone (stream : BodyStream) : ∀ {o : Output}, Gone faults o.writes →
    (stream.run faults o).2.bytes = o.bytes ∧ Gone faults (stream.run faults o).2.writes := by
  induction stream with
  | returns | throws => exact fun h => ⟨rfl, h⟩
  | chunk data next ih =>
    intro o h
    have hsink : (sink faults o data).2.bytes = o.bytes ∧
        Gone faults (sink faults o data).2.writes := by
      unfold sink
      split
      · exact ⟨rfl, h⟩
      · exact writeAllFd_of_gone h _
    obtain ⟨hbytes, hgone⟩ := ih (sink faults o data).1 hsink.2
    exact ⟨hbytes.trans hsink.1, hgone⟩

/-- A write sends everything, or it is the last one that sends anything. -/
theorem writeAllFd_cases (hlasting : Lasting faults) (o : Output) (data : Bytes) :
    ((writeAllFd faults o data).1 = true ∧
        (writeAllFd faults o data).2.bytes = o.bytes ++ data) ∨
      (writeAllFd faults o data).2.bytes <+: o.bytes ++ data ∧
        Gone faults (writeAllFd faults o data).2.writes := by
  unfold writeAllFd
  split
  · next hempty => exact .inl ⟨rfl, by rw [hempty, List.append_nil]⟩
  · cases hfault : faults o.writes with
    | none => exact .inl ⟨rfl, rfl⟩
    | some n =>
      refine .inr ⟨?_, fun m hm => hlasting o.writes (by simp [hfault]) m hm⟩
      refine (List.prefix_append_right_inj _).mpr ?_
      exact (List.take_prefix _ _).trans (List.dropLast_prefix _)

/-- A stream sends its chunks, or the connection fails while it does. -/
theorem run_of_passes (hlasting : Lasting faults) {stream : BodyStream} {chunks : List Bytes}
    (h : stream.Passes chunks) : ∀ o : Output,
      ((stream.run faults o).1 = .ok () ∧ (stream.run faults o).2.bytes =
          o.bytes ++ (chunks.filter fun c => c ≠ []).flatMap frame) ∨
        (stream.run faults o).2.bytes <+:
            o.bytes ++ (chunks.filter fun c => c ≠ []).flatMap frame ∧
          Gone faults (stream.run faults o).2.writes := by
  induction h with
  | returns => exact fun o => .inl ⟨rfl, (List.append_nil _).symm⟩
  | @chunk data next chunks _ ih =>
    intro o
    by_cases hempty : data = []
    · -- nothing is sent for an empty chunk
      have hsink : sink faults o data = (true, o) := if_pos hempty
      rw [BodyStream.run, hsink, List.filter_cons_of_neg (by simp [hempty])]
      exact ih o
    · have hsink : sink faults o data = writeAllFd faults o (frame data) := if_neg hempty
      rw [BodyStream.run, hsink, List.filter_cons_of_pos (by simp [hempty]), List.flatMap_cons,
        ← List.append_assoc]
      rcases writeAllFd_cases hlasting o (frame data) with ⟨hok, hbytes⟩ | ⟨hsub, hgone⟩
      · rw [hok, ← hbytes]
        exact ih (writeAllFd faults o (frame data)).2
      · -- the stream learns of it, and whatever it does then sends nothing
        obtain ⟨hsame, hstill⟩ := run_of_gone (next (writeAllFd faults o (frame data)).1) hgone
        refine .inr ⟨?_, hstill⟩
        rw [hsame]
        exact hsub.trans (List.prefix_append _ _)

/-- The stream is run, and the last chunk is sent unless it throws. -/
def runToEnd (faults : Faults) (stream : BodyStream) (o : Output) : Except Bytes Unit × Output :=
  match stream.run faults o with
  | (.error what, o) => (.error what, o)
  | (.ok _, o) => (.ok (), (writeAllFd faults o (str "0\r\n\r\n")).2)

theorem writeResponse_of_stream {response : HttpResponse} {stream : BodyStream}
    (hstream : response.stream = some stream) (keepAlive : Bool) (o : Output) :
    writeResponse faults o response keepAlive =
      if (writeAllFd faults o (response.chunkedHead keepAlive)).1 then
        runToEnd faults stream (writeAllFd faults o (response.chunkedHead keepAlive)).2
      else (.ok (), (writeAllFd faults o (response.chunkedHead keepAlive)).2) := by
  unfold writeResponse
  rw [hstream]
  rfl

/-- If the connection has failed while the stream ran, the last chunk is not sent either. -/
theorem runToEnd_of_run_gone {stream : BodyStream} {o : Output}
    (h : Gone faults (stream.run faults o).2.writes) :
    (runToEnd faults stream o).2.bytes = (stream.run faults o).2.bytes ∧
      Gone faults (runToEnd faults stream o).2.writes := by
  unfold runToEnd
  split
  · next heq =>
    rw [heq] at h
    exact ⟨by rw [heq], h⟩
  · next heq =>
    rw [heq] at h
    rw [heq]
    exact writeAllFd_of_gone h _

/-- All of the bytes were sent, or a beginning of them and nothing will follow. -/
def Sent (faults : Faults) (o : Output) (bytes : Bytes) (o' : Output) : Prop :=
  o'.bytes = o.bytes ++ bytes ∨ o'.bytes <+: o.bytes ++ bytes ∧ Gone faults o'.writes

variable {stream : BodyStream} {chunks : List Bytes}

theorem runToEnd_of_passes (hlasting : Lasting faults) (h : stream.Passes chunks) (o : Output) :
    Sent faults o (chunkedBody (chunks.filter fun c => c ≠ [])) (runToEnd faults stream o).2 := by
  unfold Sent chunkedBody
  rw [← List.append_assoc]
  rcases run_of_passes hlasting h o with ⟨hok, hbytes⟩ | ⟨hsub, hgone⟩
  · have hend : (runToEnd faults stream o).2 =
        (writeAllFd faults (stream.run faults o).2 (str "0\r\n\r\n")).2 := by
      unfold runToEnd
      split
      · next heq =>
        rw [heq] at hok
        cases hok
      · next heq => rw [heq]
    rw [hend, ← hbytes]
    exact (writeAllFd_cases hlasting _ _).imp_left fun hsent => hsent.2
  · obtain ⟨hsame, hstill⟩ := runToEnd_of_run_gone hgone
    refine .inr ⟨?_, hstill⟩
    rw [hsame]
    exact hsub.trans (List.prefix_append _ _)

/-- A streamed response is sent with a chunked body. -/
theorem writeResponse_of_passes (hlasting : Lasting faults) {response : HttpResponse}
    (hstream : response.stream = some stream) (h : stream.Passes chunks) (keepAlive : Bool)
    (o : Output) :
    Sent faults o
      (response.chunkedHead keepAlive ++ chunkedBody (chunks.filter fun c => c ≠ []))
      (writeResponse faults o response keepAlive).2 := by
  rw [writeResponse_of_stream hstream, Sent, ← List.append_assoc]
  rcases writeAllFd_cases hlasting o (response.chunkedHead keepAlive) with
    ⟨hok, hbytes⟩ | ⟨hsub, hgone⟩
  · rw [hok, if_pos rfl, ← hbytes]
    exact runToEnd_of_passes hlasting h _
  · right
    split
    · -- the stream is run, but nothing of it is sent
      obtain ⟨hrun, hgone⟩ := run_of_gone stream hgone
      obtain ⟨hsame, hstill⟩ := runToEnd_of_run_gone hgone
      rw [hsame, hrun]
      exact ⟨hsub.trans (List.prefix_append _ _), hstill⟩
    · exact ⟨hsub.trans (List.prefix_append _ _), hgone⟩

end sender

/-! ## Main result -/

/-- **Chunked responses decode to what was written.**  Of a stream that passes some chunks to
    the sink and returns, the bytes after the header block are a chunked body: its chunks, none
    of them empty, are together what was passed, and nothing follows the last chunk.  On a
    connection that fails a beginning of this has been sent. -/
theorem chunked_body_decodes {response : HttpResponse} {stream : BodyStream} {chunks : List Bytes}
    (hstream : response.stream = some stream) (hpasses : stream.Passes chunks) (keepAlive : Bool) :
    ∃ body parts,
      dechunk body = some (parts, []) ∧ (∀ part ∈ parts, part ≠ []) ∧
        parts.flatten = chunks.flatten ∧
        (∀ faults o, (∀ n, faults n = none) →
          (writeResponse faults o response keepAlive).2.bytes =
            o.bytes ++ response.chunkedHead keepAlive ++ body) ∧
        ∀ faults o, Lasting faults →
          (writeResponse faults o response keepAlive).2.bytes <+:
            o.bytes ++ response.chunkedHead keepAlive ++ body := by
  have hne : ∀ part ∈ chunks.filter fun c => c ≠ [], part ≠ [] := by
    intro part hpart
    exact of_decide_eq_true (List.mem_filter.mp hpart).2
  refine ⟨_, _, dechunk_chunkedBody hne, hne, ?_, fun faults o hnone => ?_,
    fun faults o hlasting => ?_⟩
  · exact List.flatten_filter_ne_nil
  · have hlasting : Lasting faults := fun n hn => absurd (hnone n) hn
    rw [List.append_assoc]
    rcases writeResponse_of_passes hlasting hstream hpasses keepAlive o with hsent | ⟨_, hgone⟩
    · exact hsent
    · -- no write fails
      have hsome := hgone _ (Nat.le_refl _)
      rw [hnone] at hsome
      cases hsome
  · rw [List.append_assoc]
    rcases writeResponse_of_passes hlasting hstream hpasses keepAlive o with hsent | ⟨hsub, _⟩
    · exact ⟨[], (List.append_nil _).trans hsent⟩
    · exact hsub

/-- Two chunks with an empty one between them; the first looks like the last chunk of a body. -/
def threeChunks : BodyStream :=
  .chunk (str "0\r\n") fun _ => .chunk [] fun _ => .chunk (str "a") fun _ => .returns

theorem threeChunks_decoded :
    ∃ body parts, dechunk body = some (parts, []) ∧ parts.flatten = str "0\r\na" ∧
      (writeResponse (fun _ => none) {} { stream := some threeChunks } true).2.bytes =
        HttpResponse.chunkedHead { stream := some threeChunks } true ++ body := by
  obtain ⟨body, parts, hdecode, _, hflatten, hsent, _⟩ :=
    @chunked_body_decodes { stream := some threeChunks } threeChunks
      [str "0\r\n", [], str "a"] rfl (.chunk (.chunk (.chunk .returns))) true
  exact ⟨body, parts, hdecode, hflatten, hsent (fun _ => none) {} fun _ => rfl⟩

end DynamoCpp.Llm.Http
