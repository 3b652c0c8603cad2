import DynamoCpp.Transports.Codec

/-! # Frames on a socket

    `Socket::write_all`, `read_exact`, `read_frame` and `write_frame` over a plain
    socket.  The environment decides how many bytes a call of `send` accepts and how
    many bytes have arrived when `recv` is called, and may interrupt any call.  A stream
    is the list of what the calls of `recv` will meet; it ends where the peer has closed
    its side.
-/

namespace DynamoCpp.Transports

open Framework TwoPartCodec

/-! ## Sending -/

/-- The outcome of one `send`. -/
inductive Sending where
  | accepted (n : Nat) (positive : 0 < n)
  /-- -1 with `EINTR`. -/
  | interrupted
  /-- 0, or -1 with any other error. -/
  | failed

/-- The bytes handed to the peer and the result of `write_all`. -/
def writeAll : List Sending → Bytes → Bytes × Bool
  | _, [] => ([], true)
  -- no call succeeds any more
  | [], _ => ([], false)
  | .accepted n _ :: sends, buf =>
    let r := writeAll sends (buf.drop n)
    (buf.take n ++ r.1, r.2)
  | .interrupted :: sends, buf => writeAll sends buf
  | .failed :: _, _ => ([], false)

def writeFrame (sends : List Sending) (msg : TwoPartMessage) : Except Thrown (Bytes × Bool) :=
  (encode none msg).map (writeAll sends)

/-! ## Receiving -/

/-- What one `recv` meets. -/
inductive Recv where
  /-- Bytes that have arrived.  The call takes as many of them as it has room for, and
      leaves the others to the next call. -/
  | piece (bytes : Bytes) (nonempty : bytes ≠ [])
  /-- -1 with `EINTR`. -/
  | interrupted
  /-- -1 with any other error. -/
  | failed

/-- `read_exact`, with `n` bytes to go: the bytes it has read if it succeeds, and what is
    left of the stream. -/
def readExact : List Recv → Nat → Bytes → Option Bytes × List Recv
  | stream, 0, got => (some got, stream)
  -- `recv` returns 0
  | [], _, _ => (none, [])
  | .interrupted :: stream, n, got => readExact stream n got
  | .failed :: stream, _, _ => (none, stream)
  | .piece bytes _ :: stream, n, got =>
    if h : bytes.length ≤ n then readExact stream (n - bytes.length) (got ++ bytes)
    else
      have hrest : bytes.drop n ≠ [] := by
        rw [ne_eq, List.drop_eq_nil_iff]
        exact h
      (some (got ++ bytes.take n), .piece (bytes.drop n) hrest :: stream)

/-- Reads the rest of a frame; if there is none, the socket is not asked. -/
def readRest (stream : List Recv) (len : UInt64) : Option Bytes × List Recv :=
  if len = 0 then (some [], stream) else readExact stream len.toNat []

/-- `read_frame`: a message, nothing at the end of the stream, or an exception. -/
def readFrame (maxFrameBytes : UInt64) (stream : List Recv) :
    Except Thrown (Option TwoPartMessage) × List Recv :=
  match readExact stream kPreludeSize.toNat [] with
  | (none, stream) => (.ok none, stream)
  | (some prelude, stream) =>
    if headerLen prelude + bodyLen prelude > maxFrameBytes then
      (.error (.runtimeError (str "frame too large")), stream)
    else
      match readRest stream (headerLen prelude + bodyLen prelude) with
      | (none, stream) => (.error (.runtimeError (str "connection closed mid-frame")), stream)
      | (some rest, stream) => ((decode (prelude ++ rest)).map some, stream)

/-- The results of the first `n` calls of `read_frame`. -/
def readFrames (maxFrameBytes : UInt64) :
    Nat → List Recv → List (Except Thrown (Option TwoPartMessage))
  | 0, _ => []
  | n + 1, stream =>
    let r := readFrame maxFrameBytes stream
    r.1 :: readFrames maxFrameBytes n r.2

/-! ## What is sent -/

/-- If `write_all` returns true, the peer has been handed the whole buffer. -/
theorem writeAll_true {sends : List Sending} :
    ∀ {buf out : Bytes}, writeAll sends buf = (out, true) → out = buf := by
  induction sends with
  | nil =>
    intro buf out h
    cases buf with
    | nil => cases h; rfl
    | cons b bs => cases h
  | cons first sends ih =>
    intro buf out h
    cases buf with
    | nil => cases h; rfl
    | cons b bs =>
      cases first with
      | accepted n =>
        obtain ⟨hout, hok⟩ := Prod.mk.inj h
        have hrest : (writeAll sends ((b :: bs).drop n)).1 = (b :: bs).drop n :=
          ih (Prod.ext rfl hok)
        rw [hrest] at hout
        rw [← hout]
        exact List.take_append_drop n (b :: bs)
      | interrupted => exact ih h
      | failed => cases h

/-- The peer has been sent the frame of a message. -/
def WritesFrame (m : TwoPartMessage) (frame : Bytes) : Prop :=
  ∃ sends, writeFrame sends m = .ok (frame, true)

variable {m : TwoPartMessage} {stream : List Recv}

theorem WritesFrame.encode {frame : Bytes} (h : WritesFrame m frame) :
    encode none m = .ok frame := by
  obtain ⟨sends, hsends⟩ := h
  unfold writeFrame at hsends
  cases hencode : TwoPartCodec.encode none m with
  | error e =>
    rw [hencode] at hsends
    cases hsends
  | ok buf =>
    rw [hencode] at hsends
    rw [writeAll_true (Except.ok.inj hsends)]

/-- Every message that fits in a string has a frame. -/
theorem exists_writesFrame
    (h : 24 + m.header.length + m.data.length < 2 ^ 64) : ∃ frame, WritesFrame m frame := by
  have hencode := encode_eq_ok.mpr ⟨h, rfl⟩
  generalize prelude m ++ m.header ++ m.data = frame at hencode
  have hlength := length_of_encode hencode
  cases frame with
  | nil =>
    rw [List.length_nil] at hlength
    omega
  | cons b frame =>
    -- one `send` takes it all
    refine ⟨b :: frame, [.accepted (frame.length + 1) (Nat.succ_pos _)], ?_⟩
    rw [writeFrame, hencode]
    simp [Except.map, writeAll]

/-! ## What is received -/

/-- The bytes that arrive. -/
def content : List Recv → Bytes
  | [] => []
  | .piece bytes _ :: stream => bytes ++ content stream
  | .interrupted :: stream => content stream
  | .failed :: stream => content stream

/-- The stream delivers these bytes, cut in any way and with any interruptions, and
    ends. -/
def Delivers (stream : List Recv) (wire : Bytes) : Prop :=
  content stream = wire ∧ ∀ a ∈ stream, a ≠ .failed

theorem Delivers.tail {a : Recv} {wire : Bytes}
    (h : Delivers (a :: stream) wire) : Delivers stream (content stream) :=
  ⟨rfl, fun b hb => h.2 b (List.mem_cons_of_mem a hb)⟩

theorem readExact_zero (stream : List Recv) (got : Bytes) :
    readExact stream 0 got = (some got, stream) := by
  cases stream <;> rfl

section piece

variable {bytes : Bytes} {nonempty : bytes ≠ []} {stream : List Recv} {n : Nat} {got : Bytes}

/-- A piece that is taken as a whole. -/
theorem readExact_whole (h : bytes.length ≤ n) :
    readExact (.piece bytes nonempty :: stream) n got =
      readExact stream (n - bytes.length) (got ++ bytes) := by
  have hpos : 0 < bytes.length := List.length_pos_of_ne_nil nonempty
  cases n with
  | zero => omega
  | succ n =>
    rw [readExact.eq_def]
    exact dif_pos h

/-- A piece of which more has arrived than is asked for. -/
theorem readExact_part (hn : n ≠ 0) (h : ¬ bytes.length ≤ n) (hrest : bytes.drop n ≠ []) :
    readExact (.piece bytes nonempty :: stream) n got =
      (some (got ++ bytes.take n), .piece (bytes.drop n) hrest :: stream) := by
  cases n with
  | zero => exact absurd rfl hn
  | succ n =>
    rw [readExact.eq_def]
    exact dif_neg h

end piece

/-- `read_exact` returns the next bytes of the stream. -/
theorem readExact_delivers {stream : List Recv} : ∀ {next rest got : Bytes},
    Delivers stream (next ++ rest) →
      ∃ stream', readExact stream next.length got = (some (got ++ next), stream') ∧
        Delivers stream' rest := by
  -- induction on what the calls of `recv` meet
  induction stream with
  | nil =>
    intro next rest got h
    obtain ⟨rfl, rfl⟩ := List.append_eq_nil_iff.mp h.1.symm
    exact ⟨[], by rw [List.append_nil]; rfl, h⟩
  | cons a stream ih =>
    intro next rest got h
    cases next with
    | nil => exact ⟨a :: stream, by rw [List.append_nil]; rfl, h⟩
    | cons b next =>
      cases a with
      | interrupted => exact ih ⟨h.1, h.tail.2⟩
      | failed => exact absurd rfl (h.2 _ List.mem_cons_self)
      | piece bytes nonempty =>
        -- the piece and the bytes asked for are both at the front of what arrives
        have hpiece : bytes <+: b :: next ++ rest := ⟨content stream, h.1⟩
        have hnext : b :: next <+: b :: next ++ rest := List.prefix_append _ _
        by_cases hfits : bytes.length ≤ (b :: next).length
        · obtain ⟨next', hnext'⟩ := List.prefix_of_prefix_length_le hpiece hnext hfits
          have hrest : content stream = next' ++ rest := by
            have hwire : bytes ++ content stream = b :: next ++ rest := h.1
            rw [← hnext', List.append_assoc] at hwire
            exact List.append_cancel_left hwire
          obtain ⟨stream', hread, hdelivers⟩ := @ih next' rest (got ++ bytes) ⟨hrest, h.tail.2⟩
          have hlength : (b :: next).length - bytes.length = next'.length := by
            rw [← hnext', List.length_append, Nat.add_sub_cancel_left]
          refine ⟨stream', ?_, hdelivers⟩
          rw [readExact_whole hfits, hlength, hread, List.append_assoc, hnext']
        · obtain ⟨left, hleft⟩ :=
            List.prefix_of_prefix_length_le hnext hpiece (Nat.le_of_not_le hfits)
          have hdrop : bytes.drop (b :: next).length = left := by
            rw [← hleft, List.drop_left' rfl]
          have htake : bytes.take (b :: next).length = b :: next := by
            rw [← hleft, List.take_left' rfl]
          have hne : bytes.drop (b :: next).length ≠ [] := by
            rw [ne_eq, List.drop_eq_nil_iff]
            exact hfits
          have hasked : (b :: next).length ≠ 0 := Nat.succ_ne_zero _
          refine ⟨.piece (bytes.drop (b :: next).length) hne :: stream, ?_, ?_, ?_⟩
          · rw [readExact_part hasked hfits hne, htake]
          · show bytes.drop (b :: next).length ++ content stream = rest
            have hwire : bytes ++ content stream = b :: next ++ rest := h.1
            rw [← hleft, List.append_assoc] at hwire
            rw [hdrop]
            exact List.append_cancel_left hwire
          · intro a ha
            rcases List.mem_cons.mp ha with rfl | ha
            · exact Recv.noConfusion
            · exact h.tail.2 a ha

/-- At the end of the stream `read_exact` fails. -/
theorem readExact_eof (h : Delivers stream []) {n : Nat} (hn : n ≠ 0)
    (got : Bytes) : readExact stream n got = (none, []) := by
  obtain ⟨n, rfl⟩ := Nat.exists_eq_succ_of_ne_zero hn
  induction stream with
  | nil => rfl
  | cons a stream ih =>
    cases a with
    | interrupted => exact ih ⟨h.1, h.tail.2⟩
    | failed => exact absurd rfl (h.2 _ List.mem_cons_self)
    | piece bytes nonempty => exact absurd (List.append_eq_nil_iff.mp h.1).1 nonempty

theorem readRest_eq (stream : List Recv) (len : UInt64) :
    readRest stream len = readExact stream len.toNat [] := by
  unfold readRest
  split
  · next h => rw [h, UInt64.toNat_zero, readExact_zero]
  · rfl

/-! ## Frames -/

/-- `read_frame` returns the message whose frame comes next. -/
theorem readFrame_frame {maxFrameBytes : UInt64} {frame rest : Bytes}
    (hframe : encode none m = .ok frame)
    (hfits : m.header.length + m.data.length ≤ maxFrameBytes.toNat)
    (h : Delivers stream (frame ++ rest)) :
    ∃ stream', readFrame maxFrameBytes stream = (.ok (some m), stream') ∧
      Delivers stream' rest := by
  have hdecode := decode_encode hframe
  obtain ⟨hstring, rfl⟩ := encode_eq_ok.mp hframe
  rw [List.append_assoc] at hdecode
  have hwire : Delivers stream (prelude m ++ ((m.header ++ m.data) ++ rest)) := by
    rwa [List.append_assoc (prelude m), List.append_assoc (prelude m)] at h
  obtain ⟨stream₁, hprelude, h₁⟩ := @readExact_delivers _ _ _ [] hwire
  obtain ⟨stream₂, hrest, h₂⟩ := @readExact_delivers _ _ _ [] h₁
  rw [List.nil_append] at hprelude hrest
  have hheader := headerLen_prelude m []
  have hbody := bodyLen_prelude m []
  rw [List.append_nil] at hheader hbody
  -- the lengths in the prelude, added as machine integers
  have hlen : (size m.header + size m.data).toNat = (m.header ++ m.data).length := by
    rw [UInt64.toNat_add, toNat_size (by omega), toNat_size (by omega), List.length_append]
    omega
  have hlimit : ¬ size m.header + size m.data > maxFrameBytes := by
    rw [gt_iff_lt, UInt64.lt_iff_toNat_lt, hlen, List.length_append]
    omega
  refine ⟨stream₂, ?_, h₂⟩
  rw [length_prelude] at hprelude
  unfold readFrame
  rw [show kPreludeSize.toNat = 24 from rfl, hprelude]
  simp only [hheader, hbody]
  rw [if_neg hlimit, readRest_eq, hlen, hrest]
  simp only [hdecode]
  rfl

theorem readFrame_eof (h : Delivers stream []) (maxFrameBytes : UInt64) :
    readFrame maxFrameBytes stream = (.ok none, []) := by
  unfold readFrame
  rw [readExact_eof h (by decide)]

/-- **Frame streams survive any segmentation.**  If the frames of some messages arrive one
    after another, cut into pieces in any way and with any interruptions, successive calls
    of `read_frame` return the messages in order, and nothing at the end of the stream. -/
theorem frames_survive_segmentation {maxFrameBytes : UInt64} {msgs : List TwoPartMessage}
    {frames : List Bytes} (hframes : List.Forall₂ WritesFrame msgs frames)
    (hfits : ∀ m ∈ msgs, m.header.length + m.data.length ≤ maxFrameBytes.toNat)
    {stream : List Recv} (hstream : Delivers stream frames.flatten) :
    readFrames maxFrameBytes (msgs.length + 1) stream =
        msgs.map (fun m => .ok (some m)) ++ [.ok none] ∧
      (∀ m frame, WritesFrame m frame → decode frame = .ok m) ∧
      ∀ m : TwoPartMessage, 24 + m.header.length + m.data.length < 2 ^ 64 →
        ∃ frame, WritesFrame m frame := by
  refine ⟨?_, fun m frame h => decode_encode h.encode, fun m h => exists_writesFrame h⟩
  induction hframes generalizing stream with
  | nil =>
    show (readFrame maxFrameBytes stream).1 :: _ = _
    rw [readFrame_eof hstream]
    rfl
  | @cons m frame msgs frames hframe _ ih =>
    obtain ⟨stream', hread, hdelivers⟩ :=
      readFrame_frame hframe.encode (hfits m List.mem_cons_self) hstream
    show (readFrame maxFrameBytes stream).1 ::
      readFrames maxFrameBytes (msgs.length + 1) (readFrame maxFrameBytes stream).2 = _
    rw [hread, ih (fun m hm => hfits m (List.mem_cons_of_mem _ hm)) hdelivers]
    rfl

/-- Two frames, of which the first five bytes come first. -/
def twoFrames : Bytes := prelude ⟨str "h", str "d"⟩ ++ str "hd" ++ prelude ⟨[], []⟩

theorem twoFrames_read :
    readFrames 256 3 [.interrupted, .piece (twoFrames.take 5) (by decide +kernel), .interrupted,
        .piece (twoFrames.drop 5) (by decide +kernel), .interrupted] =
      [.ok (some ⟨str "h", str "d"⟩), .ok (some ⟨[], []⟩), .ok none] := by
  have hfirst : WritesFrame ⟨str "h", str "d"⟩ (prelude ⟨str "h", str "d"⟩ ++ str "hd") :=
    ⟨[.accepted 26 (by decide)], by decide +kernel⟩
  have hsecond : WritesFrame ⟨[], []⟩ (prelude ⟨[], []⟩) :=
    ⟨[.accepted 20 (by decide), .interrupted, .accepted 4 (by decide)], by decide +kernel⟩
  exact (frames_survive_segmentation (.cons hfirst (.cons hsecond .nil)) (by decide +kernel)
    ⟨by decide +kernel, by simp⟩).1

/-! ## The size limit -/

/-- The limit is enforced for a prelude: if its lengths exceed the limit, `read_frame`
    throws whatever follows the prelude, and leaves that unread; and the frames it accepts
    are within the limit. -/
def LimitEnforced (maxFrameBytes : UInt64) (p : Bytes) : Prop :=
  (maxFrameBytes.toNat < (headerLen p).toNat + (bodyLen p).toNat →
      ∃ e, ∀ stream rest, readExact stream kPreludeSize.toNat [] = (some p, rest) →
        readFrame maxFrameBytes stream = (.error e, rest)) ∧
    ∀ stream rest, readExact stream kPreludeSize.toNat [] = (some p, rest) →
      ∀ m rest', readFrame maxFrameBytes stream = (.ok (some m), rest') →
        (headerLen p).toNat + (bodyLen p).toNat ≤ maxFrameBytes.toNat

section limit

variable {maxFrameBytes : UInt64} {p : Bytes} {stream rest rest' : List Recv}

/-- The check is made on the sum modulo 2^64. -/
theorem readFrame_too_large (hread : readExact stream kPreludeSize.toNat [] = (some p, rest))
    (h : maxFrameBytes.toNat < ((headerLen p).toNat + (bodyLen p).toNat) % 2 ^ 64) :
    readFrame maxFrameBytes stream = (.error (.runtimeError (str "frame too large")), rest) := by
  have hsum : headerLen p + bodyLen p > maxFrameBytes := by
    rwa [gt_iff_lt, UInt64.lt_iff_toNat_lt, UInt64.toNat_add]
  unfold readFrame
  rw [hread]
  simp only [if_pos hsum]

/-- Past the check, the sum modulo 2^64 is also the size of what is read. -/
theorem readFrame_body (hread : readExact stream kPreludeSize.toNat [] = (some p, rest))
    (h : ((headerLen p).toNat + (bodyLen p).toNat) % 2 ^ 64 ≤ maxFrameBytes.toNat)
    {body : Bytes} (hbody : readExact rest
      (((headerLen p).toNat + (bodyLen p).toNat) % 2 ^ 64) [] = (some body, rest')) :
    readFrame maxFrameBytes stream = ((decode (p ++ body)).map some, rest') := by
  have hsum : ¬ headerLen p + bodyLen p > maxFrameBytes := by
    exact Nat.not_lt.mpr h
  unfold readFrame
  rw [hread]
  simp only [if_neg hsum, readRest_eq, UInt64.toNat_add, hbody]

/-- What is asked for arrives in one piece. -/
theorem readExact_piece {bytes : Bytes} (hne : bytes ≠ []) {n : Nat} (hn : bytes.length = n)
    (rest : List Recv) : readExact (.piece bytes hne :: rest) n [] = (some bytes, rest) := by
  subst hn
  rw [readExact_whole (Nat.le_refl _), Nat.sub_self, readExact_zero, List.nil_append]

/-- Lengths that add up to 2^64: nothing is read, and `decode` is left with the prelude. -/
theorem decode_prelude (hp : p.length = 24)
    (hsum : (headerLen p).toNat + (bodyLen p).toNat = 2 ^ 64) :
    (∃ m, decode p = .ok m) ↔ 2 ^ 64 ≤ 24 + (headerLen p).toNat ∧
      checksum [] (p.drop (24 + (headerLen p).toNat - 2 ^ 64)) = expected p := by
  have hshort : p.length < 2 ^ 64 := by omega
  have hsize : size p = kPreludeSize + headerLen p + bodyLen p := by
    apply UInt64.toNat.inj
    rw [toNat_size hshort, UInt64.toNat_add, UInt64.toNat_add,
      show kPreludeSize.toNat = 24 from rfl]
    omega
  have hlen : p.length + 2 ^ 64 = 24 + (headerLen p).toNat + (bodyLen p).toNat := by omega
  have hheader : p.drop 24 = [] := by rw [← hp, List.drop_length]
  by_cases hstart : 2 ^ 64 ≤ 24 + (headerLen p).toNat
  · rw [decode_wrapped hshort (by omega) hsize hlen hstart, hheader]
    constructor
    · rintro ⟨m, hm⟩
      exact ⟨hstart, (verify_eq_ok.mp hm).1⟩
    · rintro ⟨-, hcheck⟩
      exact ⟨_, verify_eq_ok.mpr ⟨hcheck, rfl⟩⟩
  · rw [decode_outOfRange hshort (by omega) hsize hlen (Nat.lt_of_not_le hstart)]
    exact iff_of_false (by simp) (fun h => hstart h.1)

/-- Lengths that add up to 2^64: the frame is what `decode` makes of the prelude. -/
theorem readFrame_prelude (hsum : (headerLen p).toNat + (bodyLen p).toNat = 2 ^ 64)
    (hread : readExact stream kPreludeSize.toNat [] = (some p, rest)) :
    readFrame maxFrameBytes stream = ((decode p).map some, rest) := by
  have hzero : ((headerLen p).toNat + (bodyLen p).toNat) % 2 ^ 64 = 0 := by omega
  have hempty := readExact_zero rest []
  rw [← hzero] at hempty
  rw [readFrame_body hread (by omega) hempty, List.append_nil]

theorem LimitEnforced.of_error {e : Thrown}
    (h : ∀ stream rest, readExact stream kPreludeSize.toNat [] = (some p, rest) →
      readFrame maxFrameBytes stream = (.error e, rest)) : LimitEnforced maxFrameBytes p := by
  refine ⟨fun _ => ⟨e, h⟩, ?_⟩
  intro stream rest hread m rest' hframe
  rw [h stream rest hread] at hframe
  cases hframe

/-- Past the check, only lengths that add up to 2^64 leave what follows unread. -/
theorem sum_of_error {e : Thrown} (hp : p.length = 24)
    (hover : maxFrameBytes.toNat < (headerLen p).toNat + (bodyLen p).toNat)
    (hwithin : ((headerLen p).toNat + (bodyLen p).toNat) % 2 ^ 64 ≤ maxFrameBytes.toNat)
    (h : ∀ stream rest, readExact stream kPreludeSize.toNat [] = (some p, rest) →
      readFrame maxFrameBytes stream = (.error e, rest)) :
    (headerLen p).toNat + (bodyLen p).toNat = 2 ^ 64 := by
  have hheader := (headerLen p).toNat_lt
  have hbody := (bodyLen p).toNat_lt
  have hne : p ≠ [] := List.ne_nil_of_length_pos (by omega)
  by_cases hzero : ((headerLen p).toNat + (bodyLen p).toNat) % 2 ^ 64 = 0
  · omega
  · -- a body that arrives is read
    have hlength := List.length_replicate
      (n := ((headerLen p).toNat + (bodyLen p).toNat) % 2 ^ 64) (a := (0 : UInt8))
    have hpiece := List.ne_nil_of_length_pos (hlength ▸ Nat.pos_of_ne_zero hzero)
    have hread := readExact_piece hne hp [.piece _ hpiece]
    have hframe := readFrame_body hread hwithin (readExact_piece hpiece hlength [])
    rw [h _ _ hread] at hframe
    cases (Prod.mk.inj hframe).2

end limit

/-- **The frame size limit.**  It is enforced for the preludes whose lengths are within it,
    and for those whose sum exceeds it even modulo 2^64.  For lengths that exceed it and
    whose sum wraps around to something within it, a body is allocated and read, unless the
    sum is 2^64: then the prelude alone is decoded, and whether that throws is up to the
    checksum. -/
theorem limit_enforced_iff {maxFrameBytes : UInt64} {p : Bytes} (hp : p.length = 24) :
    LimitEnforced maxFrameBytes p ↔
      (headerLen p).toNat + (bodyLen p).toNat ≤ maxFrameBytes.toNat ∨
      maxFrameBytes.toNat < ((headerLen p).toNat + (bodyLen p).toNat) % 2 ^ 64 ∨
      ((headerLen p).toNat + (bodyLen p).toNat = 2 ^ 64 ∧
        ¬ (2 ^ 64 ≤ 24 + (headerLen p).toNat ∧
          checksum [] (p.drop (24 + (headerLen p).toNat - 2 ^ 64)) = expected p)) := by
  constructor
  · rintro ⟨hthrows, -⟩
    by_cases hover : maxFrameBytes.toNat < (headerLen p).toNat + (bodyLen p).toNat
    · obtain ⟨e, hthrows⟩ := hthrows hover
      by_cases hlarge : maxFrameBytes.toNat < ((headerLen p).toNat + (bodyLen p).toNat) % 2 ^ 64
      · exact .inr (.inl hlarge)
      · have hsum := sum_of_error hp hover (Nat.le_of_not_lt hlarge) hthrows
        refine .inr (.inr ⟨hsum, fun hfits => ?_⟩)
        -- the prelude is decoded, which does not throw
        obtain ⟨m, hm⟩ := (decode_prelude hp hsum).mpr hfits
        have hread := readExact_piece (List.ne_nil_of_length_pos (by omega)) hp []
        have hframe := hthrows _ _ hread
        rw [readFrame_prelude hsum hread, hm] at hframe
        cases hframe
    · exact .inl (Nat.le_of_not_lt hover)
  · rintro (hwithin | hlarge | ⟨hsum, hfails⟩)
    · exact ⟨fun hover => absurd hwithin (Nat.not_le.mpr hover), fun _ _ _ _ _ _ => hwithin⟩
    · exact .of_error fun stream rest hread => readFrame_too_large hread hlarge
    · rw [← decode_prelude hp hsum] at hfails
      cases hdecode : decode p with
      | ok m => exact absurd ⟨m, hdecode⟩ hfails
      | error e =>
        refine .of_error (e := e) fun stream rest hread => ?_
        rw [readFrame_prelude hsum hread, hdecode]
        rfl

/-- Lengths within the limit, beyond it, and beyond it by 2^64 with a checksum that does
    not fit. -/
theorem limit_enforced_three :
    LimitEnforced 256 (prelude ⟨str "h", str "d"⟩) ∧
      LimitEnforced 256 (toBytes 8 200 ++ toBytes 8 100 ++ toBytes 8 0) ∧
      LimitEnforced 256 (toBytes 8 (2 ^ 64 - 3) ++ toBytes 8 3 ++ toBytes 8 0) :=
  ⟨(limit_enforced_iff (by decide +kernel)).mpr (by decide +kernel),
    (limit_enforced_iff (by decide +kernel)).mpr (by decide +kernel),
    (limit_enforced_iff (by decide +kernel)).mpr (by decide +kernel)⟩

/-- With the default limit of 256 MiB, a frame with lengths of 2^64 - 3 and 3 is accepted,
    and lengths of 2^64 - 1 and 2 make `read_frame` read a byte before it throws. -/
theorem limit_evaded :
    let accepted := toBytes 8 (2 ^ 64 - 3) ++ toBytes 8 3 ++ toBytes 8 0x07a1841c7ddcab58
    let longer := toBytes 8 (2 ^ 64 - 1) ++ toBytes 8 2 ++ toBytes 8 0
    268435456 < (headerLen accepted).toNat + (bodyLen accepted).toNat ∧
      readFrame 268435456 [.piece accepted (by decide +kernel)] =
        (.ok (some ⟨[], [0xdc, 0xab, 0x58]⟩), []) ∧
      268435456 < (headerLen longer).toNat + (bodyLen longer).toNat ∧
      readFrame 268435456 [.piece longer (by decide +kernel), .piece [7] (by decide)] =
        (.error (.runtimeError (str "two-part message checksum mismatch")), []) := by
  refine ⟨by decide +kernel, Prod.ext (by decide +kernel) ?_, by decide +kernel,
    Prod.ext (by decide +kernel) ?_⟩
  · exact List.isEmpty_iff.mp (by decide +kernel)
  · exact List.isEmpty_iff.mp (by decide +kernel)

end DynamoCpp.Transports
