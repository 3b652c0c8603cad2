import DynamoCpp.Framework.KeyedFold
import DynamoCpp.Llm.Http.Connection
import Mathlib.Data.List.TakeWhile

/-! # Requests on a connection

    `recv` delivers the bytes of a connection in pieces of any size.  `handle_one` gets one
    request off them: the request line, the header lines up to the blank one, and a body if
    `Content-Length` announces one.  Requests that follow each other are read one after the
    other, none of their bytes is left over, and none of the bytes behind them is touched.
-/

namespace DynamoCpp.Llm.Http

open Framework

/-! ## Reading what is delivered -/

namespace LineReader

/-- The reader gets these bytes, in some pieces. -/
structure Delivers (r : LineReader) (bytes : Bytes) : Prop where
  nonempty : [] ∉ r.pieces
  bytes_eq : r.bytes = bytes

variable {r : LineReader} {rest : Bytes}

theorem Delivers.next {c : UInt8} (h : r.Delivers (c :: rest)) :
    ∃ r', r.next = some (c, r') ∧ r'.Delivers rest := by
  obtain ⟨buf, pieces⟩ := r
  obtain ⟨hnonempty, hbytes⟩ := h
  cases buf with
  | cons b buf =>
    obtain ⟨rfl, hrest⟩ := List.cons.inj hbytes
    exact ⟨⟨buf, pieces⟩, rfl, hnonempty, hrest⟩
  | nil =>
    cases pieces with
    | nil => cases hbytes
    | cons piece pieces =>
      cases piece with
      | nil => exact absurd List.mem_cons_self hnonempty
      | cons b piece =>
        obtain ⟨rfl, hrest⟩ := List.cons.inj hbytes
        exact ⟨⟨piece, pieces⟩, rfl, fun h => hnonempty (List.mem_cons_of_mem _ h), hrest⟩

/-- A line without its carriage return. -/
def stripCr (line : Bytes) : Bytes :=
  if line.getLast? = some '\r'.toUInt8 then line.dropLast else line

theorem readLineLoop_delivers (raw : Bytes) : ∀ {room : Nat} {line : Bytes} {r : LineReader},
    r.Delivers (raw ++ '\n'.toUInt8 :: rest) → '\n'.toUInt8 ∉ raw → raw.length < room →
      ∃ r', readLineLoop room line r = (some (stripCr (line ++ raw)), r') ∧ r'.Delivers rest := by
  induction raw with
  | nil =>
    intro room line r h _ hroom
    obtain ⟨room, rfl⟩ := Nat.exists_eq_succ_of_ne_zero (Nat.ne_of_gt hroom)
    obtain ⟨r', hnext, hrest⟩ := h.next
    refine ⟨r', ?_, hrest⟩
    rw [readLineLoop, hnext, List.append_nil]
    exact if_pos rfl
  | cons c raw ih =>
    intro room line r h hraw hroom
    obtain ⟨room, rfl⟩ := Nat.exists_eq_succ_of_ne_zero (Nat.ne_zero_of_lt hroom)
    obtain ⟨r₁, hnext, hrest⟩ := h.next
    have hc : c ≠ '\n'.toUInt8 := fun heq => hraw (heq ▸ List.mem_cons_self)
    have hraw : '\n'.toUInt8 ∉ raw := fun h => hraw (List.mem_cons_of_mem _ h)
    obtain ⟨r', hloop, hrest⟩ := ih hrest hraw (Nat.lt_of_succ_lt_succ hroom)
    refine ⟨r', ?_, hrest⟩
    rw [readLineLoop, hnext]
    dsimp only
    rw [if_neg hc, hloop, List.append_assoc, List.singleton_append]

/-- A line that is longer than the limit is not read. -/
theorem readLineLoop_too_long (room : Nat) : ∀ {raw line : Bytes} {r : LineReader},
    r.Delivers (raw ++ rest) → '\n'.toUInt8 ∉ raw → room ≤ raw.length →
      (readLineLoop room line r).1 = none := by
  induction room with
  | zero => exact fun _ _ _ => rfl
  | succ room ih =>
    intro raw line r h hraw hlong
    cases raw with
    | nil => cases hlong
    | cons c raw =>
      obtain ⟨r₁, hnext, hrest⟩ := h.next
      have hc : c ≠ '\n'.toUInt8 := fun heq => hraw (heq ▸ List.mem_cons_self)
      rw [readLineLoop, hnext]
      dsimp only
      rw [if_neg hc]
      exact ih hrest (fun h => hraw (List.mem_cons_of_mem _ h)) (Nat.le_of_succ_le_succ hlong)

/-- Exactly as many bytes are read as were asked for, across the pieces. -/
theorem readExactLoop_delivers (pieces : List Bytes) : ∀ {out buf body : Bytes}, [] ∉ pieces →
    buf ++ pieces.flatten = body ++ rest →
      ∃ r', readExactLoop (out.length + body.length) out buf pieces = (some (out ++ body), r') ∧
        r'.Delivers rest := by
  -- all that is missing is in the buffer
  have hbuffered : ∀ {pieces : List Bytes} {out body more : Bytes}, [] ∉ pieces →
      rest = more ++ pieces.flatten →
      ∃ r', readExactLoop (out.length + body.length) out (body ++ more) pieces =
        (some (out ++ body), r') ∧ r'.Delivers rest := by
    intro pieces out body more hnonempty hrest
    refine ⟨⟨more, pieces⟩, ?_, hnonempty, hrest.symm⟩
    cases pieces <;> simp [readExactLoop]
  induction pieces with
  | nil =>
    intro out buf body hnonempty hbytes
    rw [List.flatten_nil, List.append_nil] at hbytes
    rw [hbytes]
    exact hbuffered hnonempty (List.append_nil _).symm
  | cons piece pieces ih =>
    intro out buf body hnonempty hbytes
    rcases List.append_eq_append_iff.mp hbytes with ⟨more, rfl, hmore⟩ | ⟨more, rfl, hrest⟩
    · by_cases hempty : more = []
      · -- the buffer has all of it
        subst hempty
        rw [List.append_nil]
        have hbuf := @hbuffered (piece :: pieces) out buf [] hnonempty hmore.symm
        rwa [List.append_nil] at hbuf
      · -- the buffer is used up, and `recv` brings the next piece
        have hpiece : piece ≠ [] := fun h => hnonempty (h ▸ List.mem_cons_self)
        have hpieces : [] ∉ pieces := fun h => hnonempty (List.mem_cons_of_mem _ h)
        obtain ⟨r', hloop, hrest⟩ := @ih (out ++ buf) piece more hpieces hmore
        refine ⟨r', ?_, hrest⟩
        have hlt : 0 < more.length := List.length_pos_iff.mpr hempty
        rw [List.append_assoc, List.length_append, Nat.add_assoc] at hloop
        rw [readExactLoop, List.length_append, ← hloop]
        simp [hlt, hpiece]
    · exact hbuffered hnonempty hrest

theorem Delivers.readExact {body : Bytes} (h : r.Delivers (body ++ rest)) :
    ∃ r', r.readExact body.length = (some body, r') ∧ r'.Delivers rest := by
  have hread := @readExactLoop_delivers rest r.pieces [] r.buf body h.nonempty h.bytes_eq
  rwa [List.length_nil, Nat.zero_add] at hread

end LineReader

/-! ## Lines -/

/-- A line on the wire: its text, and whether it ends with a carriage return and a line feed or
    with a line feed alone. -/
structure Line where
  text  : Bytes
  crlf  : Bool := true
  noLf  : '\n'.toUInt8 ∉ text
  plain : crlf = false → text.getLast? ≠ some '\r'.toUInt8

namespace Line

/-- What stands before the line feed. -/
def raw (l : Line) : Bytes := if l.crlf then l.text ++ ['\r'.toUInt8] else l.text

def encode (l : Line) : Bytes := l.raw ++ ['\n'.toUInt8]

theorem lf_notMem_raw (l : Line) : '\n'.toUInt8 ∉ l.raw := by
  unfold raw
  split
  · rw [List.mem_append, List.mem_singleton]
    exact fun h => h.elim l.noLf (by decide)
  · exact l.noLf

theorem stripCr_raw (l : Line) : LineReader.stripCr l.raw = l.text := by
  unfold raw LineReader.stripCr
  cases hcrlf : l.crlf with
  | true => simp
  | false => simp [l.plain hcrlf]

theorem length_le_raw (l : Line) : l.text.length ≤ l.raw.length := by
  unfold raw
  split <;> simp

theorem length_raw_le (l : Line) : l.raw.length ≤ l.text.length + 1 := by
  unfold raw
  split <;> simp

/-- A header field: the name in lower case, and the value without the blanks around it. -/
def field (l : Line) : Option (Bytes × Bytes) :=
  (cut ':'.toUInt8 l.text).map fun f => (lowercase f.1, trimSv f.2)

end Line

variable {r : LineReader} {rest : Bytes}

theorem LineReader.Delivers.readLine {l : Line} {maxBytes : Nat}
    (h : r.Delivers (l.encode ++ rest)) (hfits : l.raw.length < maxBytes) :
    ∃ r', r.readLine maxBytes = (some l.text, r') ∧ r'.Delivers rest := by
  rw [Line.encode, List.append_assoc] at h
  obtain ⟨r', hline, hrest⟩ := @LineReader.readLineLoop_delivers _ l.raw _ [] _ h l.lf_notMem_raw
    hfits
  rw [List.nil_append, l.stripCr_raw] at hline
  exact ⟨r', hline, hrest⟩

/-! ## Headers -/

/-- The header lines are read up to the blank one, each counted with the length of its text. -/
theorem readHeaders_delivers {blank : Line} (hblank : blank.text = []) {rest : Bytes}
    (lines : List Line) : ∀ {fuel headerBytes : Nat} {headers : OrdMap Bytes Bytes}
      {r : LineReader}, r.Delivers (lines.flatMap Line.encode ++ blank.encode ++ rest) →
    (∀ l ∈ lines, l.text ≠ [] ∧ l.raw.length < kMaxHeaderBytes) →
    headerBytes + (lines.flatMap fun l => l.text).length ≤ kMaxHeaderBytes →
    lines.length < fuel →
    ∃ r', readHeaders fuel headerBytes headers r =
        (some (lines.foldl (fun headers l => headerLine headers l.text) headers), r') ∧
      r'.Delivers rest := by
  induction lines with
  | nil =>
    intro fuel headerBytes headers r h _ _ hfuel
    obtain ⟨fuel, rfl⟩ := Nat.exists_eq_succ_of_ne_zero (Nat.ne_of_gt hfuel)
    have hfits : blank.raw.length < kMaxHeaderBytes := by
      have hle := blank.length_raw_le
      rw [hblank] at hle
      exact Nat.lt_of_le_of_lt hle (by decide)
    obtain ⟨r', hline, hrest⟩ := h.readLine hfits
    refine ⟨r', ?_, hrest⟩
    rw [readHeaders, hline, hblank]
    rfl
  | cons l lines ih =>
    intro fuel headerBytes headers r h hlines hsum hfuel
    obtain ⟨fuel, rfl⟩ := Nat.exists_eq_succ_of_ne_zero (Nat.ne_zero_of_lt hfuel)
    obtain ⟨⟨htext, hfits⟩, hlines⟩ := List.forall_mem_cons.mp hlines
    rw [List.flatMap_cons, List.length_append] at hsum
    rw [List.flatMap_cons, List.append_assoc, List.append_assoc] at h
    obtain ⟨r₁, hline, hrest⟩ := h.readLine hfits
    rw [← List.append_assoc] at hrest
    obtain ⟨r', hread, hrest⟩ := @ih fuel (headerBytes + l.text.length) (headerLine headers l.text)
      r₁ hrest hlines (by omega) (Nat.lt_of_succ_lt_succ hfuel)
    refine ⟨r', ?_, hrest⟩
    rw [readHeaders, hline]
    dsimp only
    rw [if_neg htext, if_neg (by omega), hread]
    rfl

/-- The value of the last field of a name. -/
def named (lines : List Line) (name : Bytes) : Option Bytes :=
  ((lines.filterMap Line.field).filter fun f => f.1 = name).getLast?.map fun f => f.2

/-- The headers of a request: of each name the last field is kept. -/
def headersOf (lines : List Line) : OrdMap Bytes Bytes :=
  (lines.filterMap Line.field).foldl (fun headers f => headers.insert f.1 f.2) ∅

theorem foldl_headerLine (lines : List Line) : ∀ headers : OrdMap Bytes Bytes,
    lines.foldl (fun headers l => headerLine headers l.text) headers =
      (lines.filterMap Line.field).foldl (fun headers f => headers.insert f.1 f.2) headers := by
  induction lines with
  | nil => exact fun headers => rfl
  | cons l lines ih =>
    intro headers
    rw [List.foldl_cons, ih, List.filterMap_cons, headerLine, Line.field]
    cases cut ':'.toUInt8 l.text with
    | none => rfl
    | some f => rfl

theorem getElem?_headersOf (lines : List Line) (name : Bytes) :
    (headersOf lines)[name]? = named lines name := by
  have hgather := @getElem?_gather_empty Bytes (Bytes × Bytes) Bytes (fun f => f.2)
    (fun _ f => f.2) _ _ _ _ (fun f => f.1) (lines.filterMap Line.field) name
  rw [keyFold_replace] at hgather
  exact hgather

/-! ## Requests -/

/-- A decimal numeral. -/
structure Decimal (ds : Bytes) (n : Nat) : Prop where
  nonempty : ds ≠ []
  digit    : ∀ d ∈ ds, isDigit d = true
  value    : ds.foldl (fun n d => 10 * n + (d - '0'.toUInt8).toNat) 0 = n

theorem not_sign_of_isDigit {c : UInt8} (h : isDigit c = true) :
    isSpace c = false ∧ c ≠ '-'.toUInt8 ∧ c ≠ '+'.toUInt8 := by
  -- blanks and signs have smaller codes than the digits
  have hlow : 48 ≤ c.toNat :=
    UInt8.le_iff_toNat_le.mp (of_decide_eq_true (Bool.and_eq_true_iff.mp h).1)
  refine ⟨?_, ?_, ?_⟩
  · rw [Bool.eq_false_iff]
    intro hspace
    simp only [isSpace, Bool.or_eq_true, beq_iff_eq, Bool.and_eq_true, decide_eq_true_eq] at hspace
    rcases hspace with rfl | ⟨_, hle⟩
    · exact absurd hlow (by decide)
    · have hhigh : c.toNat ≤ 13 := UInt8.le_iff_toNat_le.mp hle
      omega
  · rintro rfl
    exact absurd hlow (by decide)
  · rintro rfl
    exact absurd hlow (by decide)

theorem stoull_of_decimal {ds : Bytes} {n : Nat} (h : Decimal ds n) (hn : n < UInt64.size) :
    stoull ds = some n := by
  obtain ⟨d, rest, hcons⟩ := List.exists_cons_of_ne_nil h.nonempty
  have hd : d ∈ ds := hcons ▸ List.mem_cons_self
  obtain ⟨hspace, hminus, hplus⟩ := not_sign_of_isDigit (h.digit d hd)
  have hdrop : ds.dropWhile isSpace = ds := by
    rw [hcons, List.dropWhile_cons_of_neg (by simp [hspace])]
  have htake : ds.takeWhile isDigit = ds := List.takeWhile_eq_self_iff.mpr h.digit
  have hhead : ds.head? = some d := by rw [hcons]; rfl
  have hsign : ∀ c : UInt8, c ≠ d → (some d == some c) = false := by
    intro c hc
    exact beq_eq_false_iff_ne.mpr fun heq => hc (Option.some.inj heq).symm
  unfold stoull
  simp only [hdrop, hhead, hsign _ hminus.symm, hsign _ hplus.symm, Bool.or_false,
    Bool.false_eq_true, if_false, htake, h.value]
  exact if_neg fun hor => hor.elim h.nonempty (Nat.not_le_of_lt hn)

/-- Without a `Content-Length` there is no body, and otherwise it is the length of the body. -/
inductive Announces (lines : List Line) (body : Bytes) : Prop where
  | absent : named lines (str "content-length") = none → body = [] → Announces lines body
  | length {ds : Bytes} : named lines (str "content-length") = some ds →
      Decimal ds body.length → body.length ≤ kMaxBodyBytes → Announces lines body

/-- A request on the wire.  Between method and version are two spaces or more. -/
structure WireRequest where
  method       : Bytes
  target       : Bytes
  version      : Bytes
  line         : Line
  headers      : List Line
  blank        : Line
  body         : Bytes
  line_text    : line.text = method ++ ' '.toUInt8 :: (target ++ ' '.toUInt8 :: version)
  method_word  : ' '.toUInt8 ∉ method
  version_word : ' '.toUInt8 ∉ version
  headers_fit  : ∀ l ∈ headers, l.text ≠ [] ∧ l.raw.length < kMaxHeaderBytes
  headers_sum  : (headers.flatMap fun l => l.text).length ≤ kMaxHeaderBytes
  blank_text   : blank.text = []
  announced    : Announces headers body

namespace WireRequest

def encode (q : WireRequest) : Bytes :=
  q.line.encode ++ q.headers.flatMap Line.encode ++ q.blank.encode ++ q.body

/-- What a handler gets. -/
def received (q : WireRequest) : HttpRequest where
  method  := q.method
  target  := q.target
  path    := pathOf q.target
  headers := headersOf q.headers
  body    := q.body

/-- It says `Connection: close`. -/
def closes (q : WireRequest) : Bool :=
  (named q.headers (str "connection")).any fun value => lowercase value = str "close"

end WireRequest

theorem requestLine_words {method target version : Bytes} (hmethod : ' '.toUInt8 ∉ method)
    (hversion : ' '.toUInt8 ∉ version) :
    requestLine (method ++ ' '.toUInt8 :: (target ++ ' '.toUInt8 :: version)) =
      some (method, target) := by
  have hfirst := cut_eq_some.mpr
    ⟨hmethod, @rfl Bytes (method ++ ' '.toUInt8 :: (target ++ ' '.toUInt8 :: version))⟩
  -- the target ends at the last space, so it may have spaces itself
  have hlast : cut ' '.toUInt8 (target ++ ' '.toUInt8 :: version).reverse =
      some (version.reverse, target.reverse) := by
    rw [cut_eq_some]
    exact ⟨fun h => hversion (List.mem_reverse.mp h), by simp⟩
  rw [requestLine, hfirst]
  dsimp only
  rw [hlast]
  dsimp only
  rw [List.reverse_reverse]

theorem readBody_delivers {lines : List Line} {body rest : Bytes} {r : LineReader}
    {request : HttpRequest} (hannounced : Announces lines body)
    (hheaders : request.headers = headersOf lines) (hempty : request.body = [])
    (h : r.Delivers (body ++ rest)) :
    ∃ r', readBody r request =
        (.request { request with body := body } (keepAlive request.headers), r') ∧
      r'.Delivers rest := by
  obtain ⟨method, target, path, headers, unread⟩ := request
  obtain rfl : headers = headersOf lines := hheaders
  obtain rfl : unread = [] := hempty
  unfold readBody
  rw [getElem?_headersOf]
  cases hannounced with
  | absent habsent hbody =>
    subst hbody
    rw [habsent]
    exact ⟨r, rfl, h⟩
  | length hlength hdecimal hle =>
    have hstoull := stoull_of_decimal hdecimal (Nat.lt_of_le_of_lt hle (by decide))
    obtain ⟨r', hread, hrest⟩ := h.readExact
    refine ⟨r', ?_, hrest⟩
    rw [hlength]
    dsimp only
    rw [hstoull]
    dsimp only
    rw [if_neg (Nat.not_lt_of_le hle), hread]

theorem keepAlive_headersOf (q : WireRequest) : keepAlive (headersOf q.headers) = !q.closes := by
  unfold keepAlive WireRequest.closes
  rw [getElem?_headersOf]
  cases named q.headers (str "connection") with
  | none => rfl
  | some value => simp

/-- Every header line counts towards the limit. -/
theorem length_le_length_texts {lines : List Line} (h : ∀ l ∈ lines, l.text ≠ []) :
    lines.length ≤ (lines.flatMap fun l => l.text).length := by
  induction lines with
  | nil => exact Nat.le_refl _
  | cons l lines ih =>
    obtain ⟨hl, hlines⟩ := List.forall_mem_cons.mp h
    have hpos := List.length_pos_iff.mpr hl
    have hle := ih hlines
    rw [List.flatMap_cons, List.length_append, List.length_cons]
    omega

/-- One request is read, and nothing behind it. -/
theorem readRequest_delivers {q : WireRequest} (hfits : q.line.raw.length < kMaxHeaderBytes)
    (h : r.Delivers (q.encode ++ rest)) :
    ∃ r', readRequest r = (.request q.received (!q.closes), r') ∧ r'.Delivers rest := by
  have hparts : q.encode ++ rest =
      q.line.encode ++ (q.headers.flatMap Line.encode ++ q.blank.encode ++ (q.body ++ rest)) := by
    simp [WireRequest.encode]
  rw [hparts] at h
  obtain ⟨r₁, hline, h₁⟩ := h.readLine hfits
  have hcount := length_le_length_texts fun l hl => (q.headers_fit l hl).1
  have hsum := q.headers_sum
  -- so there are fewer lines than turns of the header loop
  obtain ⟨r₂, hread, h₂⟩ := @readHeaders_delivers q.blank q.blank_text _ q.headers
    (kMaxHeaderBytes + 1) 0 ∅ r₁ h₁ q.headers_fit (by omega) (by omega)
  rw [foldl_headerLine] at hread
  obtain ⟨r', hbody, hrest⟩ := @readBody_delivers q.headers q.body rest r₂
    { method := q.method, target := q.target, path := pathOf q.target,
      headers := headersOf q.headers } q.announced rfl rfl h₂
  refine ⟨r', ?_, hrest⟩
  rw [← keepAlive_headersOf]
  have hne : q.line.text ≠ [] := by
    rw [q.line_text]
    simp
  unfold readRequest
  rw [hline]
  dsimp only
  rw [if_neg hne, q.line_text, requestLine_words q.method_word q.version_word]
  rw [hread]
  exact hbody

/-- A request line that is too long closes the connection. -/
theorem handleOne_of_too_long {q : WireRequest} (hlong : kMaxHeaderBytes ≤ q.line.raw.length)
    (h : r.Delivers (q.encode ++ rest)) (routes : Routes) (faults : Faults) (call : Nat)
    (o : Output) :
    ∃ r', handleOne routes faults call r o = (.ok false, r', o) := by
  have hparts : q.encode ++ rest = q.line.raw ++ (['\n'.toUInt8] ++
      (q.headers.flatMap Line.encode ++ q.blank.encode ++ (q.body ++ rest))) := by
    simp [WireRequest.encode, Line.encode]
  rw [hparts] at h
  have hnone : (r.readLine kMaxHeaderBytes).1 = none :=
    LineReader.readLineLoop_too_long kMaxHeaderBytes h q.line.lf_notMem_raw hlong
  unfold handleOne readRequest
  cases hline : r.readLine kMaxHeaderBytes with
  | mk line r' =>
    rw [hline] at hnone
    cases hnone
    exact ⟨r', rfl⟩

/-! ## Main result -/

/-- `handle_one` is called once for each request: it passes the request to the routes, and
    returns whether the connection goes on, unless the response stream throws. -/
inductive Handles (routes : Routes) (faults : Faults) :
    Nat → LineReader → Output → List HttpRequest → LineReader → Prop where
  | done (call : Nat) (r : LineReader) (o : Output) : Handles routes faults call r o [] r
  | next {call : Nat} {r r₁ r' : LineReader} {o : Output} {request : HttpRequest}
      {requests : List HttpRequest} {goOn : Bool} {written : Except Bytes Unit × Output} :
      written = writeResponse faults o (respond routes call request) goOn →
      handleOne routes faults call r o = (written.1.map fun _ => goOn, r₁, written.2) →
      (requests ≠ [] → goOn = true) →
      Handles routes faults (call + 1) r₁ written.2 requests r' →
      Handles routes faults call r o (request :: requests) r'

/-- **Requests are framed exactly.**  Requests that follow each other, none but the last of
    which closes the connection, are passed to the routes in their order, and the bytes behind
    them are left; of the fields of one name the last is kept. -/
theorem requests_framed (routes : Routes) (faults : Faults) {requests : List WireRequest}
    (hfits : ∀ q ∈ requests, q.line.raw.length < kMaxHeaderBytes)
    (hclose : ∀ q ∈ requests.dropLast, q.closes = false) {r : LineReader} {rest : Bytes}
    (h : r.Delivers (requests.flatMap WireRequest.encode ++ rest)) (call : Nat) (o : Output) :
    (∃ r', Handles routes faults call r o (requests.map WireRequest.received) r' ∧
        r'.Delivers rest) ∧
      ∀ q ∈ requests, ∀ name, q.received.headers[name]? = named q.headers name := by
  refine ⟨?_, fun q _ name => getElem?_headersOf q.headers name⟩
  induction requests generalizing r call o with
  | nil => exact ⟨r, .done call r o, h⟩
  | cons q requests ih =>
    obtain ⟨hfits, hrestFits⟩ := List.forall_mem_cons.mp hfits
    rw [List.flatMap_cons, List.append_assoc] at h
    obtain ⟨r₁, hread, hrest⟩ := readRequest_delivers hfits h
    have hrestClose : ∀ q' ∈ requests.dropLast, q'.closes = false := by
      intro q' hq'
      refine hclose q' ?_
      cases requests with
      | nil => cases hq'
      | cons q₁ requests => exact List.mem_cons_of_mem _ hq'
    obtain ⟨r', hhandles, hdelivers⟩ := ih hrestFits hrestClose hrest (call + 1)
      (writeResponse faults o (respond routes call q.received) (!q.closes)).2
    refine ⟨r', .next rfl ?_ ?_ hhandles, hdelivers⟩
    · rw [handleOne, hread]
    · -- a request that is followed by another does not close the connection
      intro hmore
      have hmem : q ∈ (q :: requests).dropLast := by
        cases requests with
        | nil => exact absurd rfl hmore
        | cons q₁ requests => exact List.mem_cons_self
      rw [hclose q hmem]
      rfl

/-- Two requests with a body and a route that answers with it, in three pieces. -/
theorem posted_framed :
    ∃ (q : WireRequest) (r : LineReader) (routes : Routes), q.body = str "hi" ∧ q.closes = false ∧
      (respond routes 1 q.received).body = str "hi" ∧ r.Delivers (q.encode ++ q.encode) ∧
      ∃ r', Handles routes (fun _ => none) 0 r {} [q.received, q.received] r' ∧
        r'.Delivers [] := by
  have hdecimal : Decimal (str "2") 2 := by
    refine ⟨by decide, fun d hd => ?_, by decide⟩
    obtain rfl := List.mem_singleton.mp hd
    rfl
  let q : WireRequest :=
    { method       := str "POST"
      target       := str "/a"
      version      := str "HTTP/1.1"
      line         := ⟨str "POST /a HTTP/1.1", true, by decide, by decide⟩
      headers      := [⟨str "Content-Length: 2", true, by decide, by decide⟩]
      blank        := ⟨[], true, by decide, by decide⟩
      body         := str "hi"
      line_text    := by decide
      method_word  := by decide
      version_word := by decide
      headers_fit  := fun l hl => by
        obtain rfl := List.mem_singleton.mp hl
        exact ⟨by decide, by decide⟩
      headers_sum  := by decide
      blank_text   := rfl
      announced    := .length (by decide) hdecimal (by decide) }
  let r : LineReader :=
    { pieces := [str "POST /a", str " HTTP/1.1\r\nContent-Length: 2\r\n\r\nhiPO",
        str "ST /a HTTP/1.1\r\nContent-Length: 2\r\n\r\nhi"] }
  have hdelivers : r.Delivers (q.encode ++ q.encode) := ⟨by decide, rfl⟩
  have hfits : q.line.raw.length < kMaxHeaderBytes := (by decide : 17 < 65536)
  have hframed := @requests_framed
    (Routes.handle ∅ (str "POST") (str "/a") fun _ request => .ok { body := request.body })
    (fun _ => none) [q, q] (by simpa using hfits) (List.forall_mem_singleton.mpr rfl) r []
    hdelivers 0 {}
  exact ⟨q, r, _, rfl, rfl, rfl, hdelivers, hframed.1⟩

/-- A `GET` of any target. -/
theorem exists_get (target : Bytes) (htarget : '\n'.toUInt8 ∉ target) :
    ∃ q : WireRequest, q.target = target ∧ q.headers = [] ∧ q.body = [] := by
  have hlf : '\n'.toUInt8 ∉
      str "GET" ++ ' '.toUInt8 :: (target ++ ' '.toUInt8 :: str "HTTP/1.1") := by
    simp only [List.mem_append, List.mem_cons, not_or]
    exact ⟨by decide, by decide, htarget, by decide, by decide⟩
  let q : WireRequest :=
    { method       := str "GET"
      target       := target
      version      := str "HTTP/1.1"
      line         := ⟨_, true, hlf, Bool.noConfusion⟩
      headers      := []
      blank        := ⟨[], true, by decide, by decide⟩
      body         := []
      line_text    := rfl
      method_word  := by decide
      version_word := by decide
      headers_fit  := fun l hl => by cases hl
      headers_sum  := Nat.zero_le _
      blank_text   := rfl
      announced    := .absent rfl rfl }
  exact ⟨q, rfl, rfl, rfl⟩

/-- A request line of more than 64 KiB, delivered byte by byte, closes the connection. -/
theorem long_request_line_closed :
    ∃ (q : WireRequest) (r : LineReader), q.headers = [] ∧ q.body = [] ∧ r.Delivers q.encode ∧
      ∀ routes faults call o, ∃ r', handleOne routes faults call r o = (.ok false, r', o) := by
  have hlf : '\n'.toUInt8 ∉ List.replicate kMaxHeaderBytes 'a'.toUInt8 := by
    rw [List.mem_replicate]
    exact fun h => absurd h.2 (by decide)
  obtain ⟨q, htarget, hheaders, hbody⟩ := exists_get _ hlf
  have hdelivers : LineReader.Delivers { pieces := q.encode.map fun c => [c] } q.encode := by
    refine ⟨by simp, ?_⟩
    simp [LineReader.bytes, ← List.flatMap_def]
  have hlong : kMaxHeaderBytes ≤ q.line.raw.length := by
    refine Nat.le_trans ?_ q.line.length_le_raw
    rw [q.line_text, htarget, List.length_append, List.length_cons, List.length_append,
      List.length_replicate]
    omega
  have hmore := List.append_nil q.encode
  refine ⟨q, _, hheaders, hbody, hdelivers, ?_⟩
  exact handleOne_of_too_long hlong ⟨hdelivers.nonempty, hdelivers.bytes_eq.trans hmore.symm⟩

end DynamoCpp.Llm.Http
