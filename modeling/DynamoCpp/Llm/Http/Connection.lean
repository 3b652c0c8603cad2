import DynamoCpp.Llm.Http.Server

/-! # Connections of the HTTP server

    Every request takes bytes off the connection, so the loop of a connection ends.  What is
    read and what a handler throws ends in a response or in a closed connection; the one
    thing that leaves `handle_one` is an exception of a response stream, which is run by
    `write_response` outside of every `try`.  It ends the thread, and the connection stays
    in `live_fds`.
-/

namespace DynamoCpp.Llm.Http

open Framework

/-! ## Reading takes bytes off the connection -/

namespace LineReader

theorem bytes_next {r r' : LineReader} {c : UInt8} (h : r.next = some (c, r')) :
    r.bytes = c :: r'.bytes := by
  obtain ⟨buf, pieces⟩ := r
  cases buf with
  | cons b buf =>
    cases h
    rfl
  | nil =>
    cases pieces with
    | nil => cases h
    | cons piece pieces =>
      cases piece with
      | nil => cases h
      | cons b buf =>
        cases h
        rfl

/-- What a line leaves is a rest of what was there, a proper one if there was a line. -/
theorem readLineLoop_spec : ∀ (room : Nat) (line : Bytes) (r : LineReader),
    (readLineLoop room line r).2.bytes <:+ r.bytes ∧
      ((readLineLoop room line r).1.isSome = true →
        (readLineLoop room line r).2.bytes.length < r.bytes.length)
  | 0, _, r => ⟨List.suffix_refl _, Bool.noConfusion⟩
  | room + 1, line, r => by
    unfold readLineLoop
    cases hnext : r.next with
    | none => exact ⟨List.suffix_refl _, Bool.noConfusion⟩
    | some next =>
      obtain ⟨c, r'⟩ := next
      have hbytes := bytes_next hnext
      have hsuffix : r'.bytes <:+ r.bytes := by
        rw [hbytes]
        exact List.suffix_cons _ _
      have hshorter : r'.bytes.length < r.bytes.length := by
        rw [hbytes, List.length_cons]
        exact Nat.lt_succ_self _
      dsimp only
      split
      · exact ⟨hsuffix, fun _ => hshorter⟩
      · -- not the end of the line yet
        have ih := readLineLoop_spec room (line ++ [c]) r'
        exact ⟨ih.1.trans hsuffix, fun h => Nat.lt_trans (ih.2 h) hshorter⟩

theorem readLine_suffix (r : LineReader) (maxBytes : Nat) :
    (r.readLine maxBytes).2.bytes <:+ r.bytes := (readLineLoop_spec maxBytes [] r).1

theorem readLine_shorter {r r' : LineReader} {maxBytes : Nat} {line : Bytes}
    (h : r.readLine maxBytes = (some line, r')) : r'.bytes.length < r.bytes.length := by
  have hspec := (readLineLoop_spec maxBytes [] r).2
  rw [← readLine, h] at hspec
  exact hspec rfl

theorem readExactLoop_suffix (n : Nat) : ∀ (pieces : List Bytes) (out buf : Bytes),
    (readExactLoop n out buf pieces).2.bytes <:+ buf ++ pieces.flatten
  | [], out, buf => by
    unfold readExactLoop
    dsimp only
    split
    · exact List.nil_suffix
    · exact (List.suffix_append_self_iff.mpr (List.drop_suffix _ _))
  | piece :: pieces, out, buf => by
    unfold readExactLoop
    dsimp only
    split
    · split
      · -- `recv` got nothing
        next hempty =>
        subst hempty
        exact List.suffix_append _ _
      · exact (readExactLoop_suffix n pieces _ _).trans (List.suffix_append _ _)
    · exact (List.suffix_append_self_iff.mpr (List.drop_suffix _ _))

theorem readExact_suffix (r : LineReader) (n : Nat) : (r.readExact n).2.bytes <:+ r.bytes :=
  readExactLoop_suffix n r.pieces [] r.buf

end LineReader

theorem readHeaders_suffix : ∀ (fuel headerBytes : Nat) (headers : OrdMap Bytes Bytes)
    (r : LineReader), (readHeaders fuel headerBytes headers r).2.bytes <:+ r.bytes
  | 0, _, _, _ => List.suffix_refl _
  | fuel + 1, headerBytes, headers, r => by
    have hline := r.readLine_suffix kMaxHeaderBytes
    unfold readHeaders
    cases hread : r.readLine kMaxHeaderBytes with
    | mk line r' =>
      rw [hread] at hline
      cases line with
      | none => exact hline
      | some line =>
        dsimp only
        split
        · exact hline
        · split
          · exact hline
          · exact (readHeaders_suffix fuel _ _ r').trans hline

theorem readBody_suffix (r : LineReader) (request : HttpRequest) :
    (readBody r request).2.bytes <:+ r.bytes := by
  unfold readBody
  split
  · exact List.suffix_refl _
  · split
    · exact List.suffix_refl _
    · next length _ =>
      split
      · exact List.suffix_refl _
      · have hbody := r.readExact_suffix length
        cases hread : r.readExact length with
        | mk body r' =>
          rw [hread] at hbody
          cases body <;> exact hbody

variable {r : LineReader} {request : HttpRequest} {routes : Routes} {faults : Faults} {call : Nat}
  {o : Output} {what : Bytes}

/-- A request takes bytes off the connection. -/
theorem readRequest_shorter {r' : LineReader} {keepAlive : Bool}
    (h : readRequest r = (.request request keepAlive, r')) : r'.bytes.length < r.bytes.length := by
  unfold readRequest at h
  cases hline : r.readLine kMaxHeaderBytes with
  | mk line r₁ =>
    rw [hline] at h
    cases line with
    | none => cases h
    | some line =>
      have hshorter := LineReader.readLine_shorter hline
      dsimp only at h
      split at h
      · cases h
      · split at h
        · cases h
        · have hheaders := readHeaders_suffix (kMaxHeaderBytes + 1) 0 ∅ r₁
          cases hread : readHeaders (kMaxHeaderBytes + 1) 0 ∅ r₁ with
          | mk headers r₂ =>
            rw [hread] at h hheaders
            cases headers with
            | none => cases h
            | some headers =>
              have hr' : (readBody r₂ _).2 = r' := congrArg Prod.snd h
              have hsuffix : r'.bytes <:+ r₁.bytes := by
                rw [← hr']
                exact (readBody_suffix r₂ _).trans hheaders
              exact Nat.lt_of_le_of_lt hsuffix.length_le hshorter

/-- A request that is to be followed by another takes bytes off the connection. -/
theorem handleOne_shorter {r' : LineReader}
    {o' : Output} (h : handleOne routes faults call r o = (.ok true, r', o')) :
    r'.bytes.length < r.bytes.length := by
  unfold handleOne at h
  cases hread : readRequest r with
  | mk received r₁ =>
    rw [hread] at h
    cases received with
    | closed => cases h
    -- an error response closes the connection
    | refused error => cases congrArg Prod.fst h
    | request request keepAlive =>
      cases congrArg (fun x => x.2.1) h
      exact readRequest_shorter hread

/-! ## What leaves `handle_one` -/

theorem writeResponse_error_iff {response : HttpResponse}
    {keepAlive : Bool} :
    (writeResponse faults o response keepAlive).1 = .error what ↔
      ∃ stream, response.stream = some stream ∧
        (writeAllFd faults o (response.chunkedHead keepAlive)).1 = true ∧
        (stream.run faults (writeAllFd faults o (response.chunkedHead keepAlive)).2).1 =
          .error what := by
  unfold writeResponse
  cases hstream : response.stream with
  | none => simp
  | some stream =>
    cases hhead : (writeAllFd faults o (response.chunkedHead keepAlive)).1 with
    | false => simp [hhead]
    | true =>
      cases hrun : stream.run faults (writeAllFd faults o (response.chunkedHead keepAlive)).2 with
      | mk result o' => cases result <;> simp [hhead, hrun]

/-- A route streams its response, and the stream throws while it is written. -/
def StreamThrows (routes : Routes) (faults : Faults) (call : Nat) (r : LineReader) (o : Output)
    (what : Bytes) : Prop :=
  ∃ request keepAlive handler response stream,
    (readRequest r).1 = .request request keepAlive ∧
    routes[request.method ++ str " " ++ request.path]? = some handler ∧
    handler call request = .ok response ∧ response.stream = some stream ∧
    (writeAllFd faults o (response.chunkedHead keepAlive)).1 = true ∧
    (stream.run faults (writeAllFd faults o (response.chunkedHead keepAlive)).2).1 = .error what

/-- Only the response of a route is streamed. -/
theorem respond_of_stream
    {stream : BodyStream} (h : (respond routes call request).stream = some stream) :
    ∃ handler, routes[request.method ++ str " " ++ request.path]? = some handler ∧
      handler call request = .ok (respond routes call request) := by
  unfold respond at h ⊢
  cases hroute : routes[request.method ++ str " " ++ request.path]? with
  | none =>
    rw [hroute] at h
    cases h
  | some handler =>
    rw [hroute] at h
    cases hcall : handler call request with
    | error what =>
      simp only [hcall] at h
      cases h
    | ok response =>
      refine ⟨handler, rfl, ?_⟩
      simp only [hcall]

theorem respond_of_ok
    {handler : HttpHandler} {response : HttpResponse}
    (hroute : routes[request.method ++ str " " ++ request.path]? = some handler)
    (hcall : handler call request = .ok response) : respond routes call request = response := by
  simp only [respond, hroute, hcall]

theorem error_map_iff {α β : Type} (f : α → β) {x : Except Bytes α} :
    x.map f = .error what ↔ x = .error what := by
  cases x <;> simp [Except.map]

/-- The exceptions that leave `handle_one` are those of streams. -/
theorem handleOne_error_iff :
    (handleOne routes faults call r o).1 = .error what ↔
      StreamThrows routes faults call r o what := by
  unfold handleOne StreamThrows
  cases hread : readRequest r with
  | mk received r' =>
    cases received with
    | closed => simp
    -- the response to a refused request has no stream
    | refused error => simp [error_map_iff, writeResponse_error_iff, jsonError]
    | request request keepAlive =>
      dsimp only
      rw [error_map_iff, writeResponse_error_iff]
      constructor
      · rintro ⟨stream, hstream, hhead, hrun⟩
        obtain ⟨handler, hroute, hcall⟩ := respond_of_stream hstream
        exact ⟨request, keepAlive, handler, _, stream, rfl, hroute, hcall, hstream, hhead, hrun⟩
      · rintro ⟨_, _, handler, response, stream, ⟨⟩, hroute, hcall, hstream, hhead, hrun⟩
        rw [respond_of_ok hroute hcall]
        exact ⟨stream, hstream, hhead, hrun⟩

/-! ## Connections -/

/-- The loop of a connection gets from one turn to another. -/
inductive Reaches (routes : Routes) (faults : Faults) (stopping : Nat → Bool) :
    Nat → LineReader → Output → Nat → LineReader → Output → Prop where
  | here (turn : Nat) (r : LineReader) (o : Output) :
    Reaches routes faults stopping turn r o turn r o
  | next {turn turn' : Nat} {r r₁ r' : LineReader} {o o₁ o' : Output} :
    stopping turn = false → handleOne routes faults turn r o = (.ok true, r₁, o₁) →
    Reaches routes faults stopping (turn + 1) r₁ o₁ turn' r' o' →
    Reaches routes faults stopping turn r o turn' r' o'

/-- In some turn of the connection a stream throws. -/
def Throws (routes : Routes) (faults : Faults) (stopping : Nat → Bool) (turn : Nat)
    (r : LineReader) (o : Output) (what : Bytes) : Prop :=
  ∃ turn' r' o', Reaches routes faults stopping turn r o turn' r' o' ∧ stopping turn' = false ∧
    StreamThrows routes faults turn' r' o' what

/-- A stream throws in this turn or, if the connection goes on, in a later one. -/
theorem throws_iff {stopping : Nat → Bool} {turn : Nat} :
    Throws routes faults stopping turn r o what ↔ stopping turn = false ∧
      (StreamThrows routes faults turn r o what ∨
        ∃ r₁ o₁, handleOne routes faults turn r o = (.ok true, r₁, o₁) ∧
          Throws routes faults stopping (turn + 1) r₁ o₁ what) := by
  constructor
  · rintro ⟨turn', r', o', hreach, hgo, hthrows⟩
    cases hreach with
    | here => exact ⟨hgo, .inl hthrows⟩
    | next hgo₁ hone hrest =>
      exact ⟨hgo₁, .inr ⟨_, _, hone, turn', r', o', hrest, hgo, hthrows⟩⟩
  · rintro ⟨hgo, hthrows | ⟨r₁, o₁, hone, turn', r', o', hrest, hgo', hthrows⟩⟩
    · exact ⟨turn, r, o, .here turn r o, hgo, hthrows⟩
    · exact ⟨turn', r', o', .next hgo hone hrest, hgo', hthrows⟩

/-- The loop ends, with an exception exactly if a stream throws it. -/
theorem serveLoop_spec (routes : Routes) (faults : Faults) (stopping : Nat → Bool) :
    ∀ (fuel turn : Nat) (r : LineReader) (o : Output), r.bytes.length < fuel →
      ∃ result o', serveLoop routes faults stopping fuel turn r o = some (result, o') ∧
        ∀ what, result = .error what ↔ Throws routes faults stopping turn r o what
  | 0, _, _, _, h => absurd h (Nat.not_lt_zero _)
  | fuel + 1, turn, r, o, h => by
    have hthrows : ∀ what, Throws routes faults stopping turn r o what ↔ stopping turn = false ∧
        ((handleOne routes faults turn r o).1 = .error what ∨
          ∃ r₁ o₁, handleOne routes faults turn r o = (.ok true, r₁, o₁) ∧
            Throws routes faults stopping (turn + 1) r₁ o₁ what) := by
      intro what
      rw [throws_iff, handleOne_error_iff]
    simp only [hthrows]
    unfold serveLoop
    cases hstop : stopping turn with
    | true => exact ⟨.ok (), o, if_pos rfl, fun what => by simp⟩
    | false =>
      rw [if_neg Bool.false_ne_true]
      cases hone : handleOne routes faults turn r o with
      | mk result rest =>
        obtain ⟨r₁, o₁⟩ := rest
        cases result with
        | error what => exact ⟨.error what, o₁, rfl, fun what' => by simp⟩
        | ok goOn =>
          cases goOn with
          | false => exact ⟨.ok (), o₁, rfl, fun what => by simp⟩
          | true =>
            -- the next turn has fewer bytes to read, and so enough fuel
            have hshorter := handleOne_shorter hone
            obtain ⟨result, o', hloop, hresult⟩ :=
              serveLoop_spec routes faults stopping fuel (turn + 1) r₁ o₁ (by omega)
            refine ⟨result, o', hloop, fun what => ?_⟩
            rw [hresult]
            simp

section serveConnection

variable (routes : Routes) (faults : Faults) (stopping : Nat → Bool) (r : LineReader)
  (connId : Nat) (live : LiveFds)

theorem serveConnection_error_iff (what : Bytes) :
    serveConnection routes faults stopping r connId live = some (.error what, live) ↔
      Throws routes faults stopping 0 r {} what := by
  obtain ⟨result, o, hloop, hresult⟩ :=
    serveLoop_spec routes faults stopping (r.bytes.length + 1) 0 r {} (Nat.lt_succ_self _)
  rw [← hresult, serveConnection, hloop]
  cases result <;> simp

theorem serveConnection_ok_iff :
    serveConnection routes faults stopping r connId live = some (.ok (), live.erase connId) ↔
      ∀ what, ¬ Throws routes faults stopping 0 r {} what := by
  obtain ⟨result, o, hloop, hresult⟩ :=
    serveLoop_spec routes faults stopping (r.bytes.length + 1) 0 r {} (Nat.lt_succ_self _)
  simp only [← hresult, serveConnection, hloop]
  cases result <;> simp

end serveConnection

/-! ## Main result -/

/-- **Only streams get through.**  `handle_one` returns a boolean exactly if no response
    stream throws while it is written.  A connection always ends; it ends normally, and is
    removed from `live_fds`, exactly if in none of its turns a stream throws, and otherwise
    the exception of the stream leaves the thread and the connection stays in `live_fds`. -/
theorem failure_escapes_iff_stream_throws (routes : Routes) (faults : Faults) :
    (∀ call r o, (∃ goOn, (handleOne routes faults call r o).1 = .ok goOn) ↔
      ∀ what, ¬ StreamThrows routes faults call r o what) ∧
    ∀ stopping r connId live,
      (serveConnection routes faults stopping r connId live = some (.ok (), live.erase connId) ↔
        ∀ what, ¬ Throws routes faults stopping 0 r {} what) ∧
      ∀ what, serveConnection routes faults stopping r connId live = some (.error what, live) ↔
        Throws routes faults stopping 0 r {} what := by
  constructor
  · intro call r o
    simp only [← handleOne_error_iff]
    cases (handleOne routes faults call r o).1 <;> simp
  · intro stopping r connId live
    exact ⟨serveConnection_ok_iff routes faults stopping r connId live,
      serveConnection_error_iff routes faults stopping r connId live⟩

/-- A route whose stream fails after its first chunk. -/
def failingRoutes : Routes :=
  Routes.handle ∅ (str "GET") (str "/s") fun _ _ =>
    .ok { stream := some (.chunk (str "a") fun _ => .throws (str "engine failed")) }

def streamRequest : LineReader := { pieces := [str "GET /s HTTP/1.1\r\n\r\n"] }

/-- The failure of the stream leaves `handle_one` and the thread of the connection, and the
    connection is still listed. -/
theorem stream_failure_escapes :
    (handleOne failingRoutes (fun _ => none) 0 streamRequest {}).1 =
        .error (str "engine failed") ∧
      ∃ live, serveConnection failingRoutes (fun _ => none) (fun _ => false) streamRequest 0
          ((∅ : LiveFds).insert 0 7) = some (.error (str "engine failed"), live) ∧
        live[0]? = some 7 := by
  have hone : (handleOne failingRoutes (fun _ => none) 0 streamRequest {}).1 =
      .error (str "engine failed") := by
    decide +kernel
  refine ⟨hone, (∅ : LiveFds).insert 0 7, ?_, by decide⟩
  rfl

end DynamoCpp.Llm.Http
