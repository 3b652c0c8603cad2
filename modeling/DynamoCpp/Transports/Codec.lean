import DynamoCpp.Basic
import DynamoCpp.Framework.BigEndian

/-! # The two-part codec

    `TwoPartCodec`: a frame is a prelude of three big-endian 64-bit numbers (the length
    of the header, the length of the body and an FNV-1a checksum of both), the header
    and the body.  Sizes and lengths are machine integers and are added modulo 2^64; the
    lengths in a prelude are whatever the peer has sent.
-/

namespace DynamoCpp.Transports

open Framework

/-! ## Strings -/

/-- The exceptions of the codec. -/
inductive Thrown where
  | runtimeError (what : Bytes)
  | lengthError (what : Bytes)
  /-- `std::out_of_range`, thrown by `substr`. -/
  | outOfRange
  deriving DecidableEq

/-- `size()`. -/
def size (s : Bytes) : UInt64 := UInt64.ofNat s.length

/-- `std::string_view::substr`: refuses a start behind the end, and clamps the count. -/
def substr (s : Bytes) (pos n : UInt64) : Except Thrown Bytes :=
  if pos > size s then .error .outOfRange
  else .ok ((s.drop pos.toNat).take n.toNat)

/-! ## Numbers -/

/-- Appends the bytes of `v`, from the most significant (`i = 7`) on. -/
def putU64 (out : Bytes) (v : UInt64) : Bytes :=
  [7, 6, 5, 4, 3, 2, 1, 0].foldl
    (fun out i => out ++ [((v >>> UInt64.ofNat (i * 8)) &&& 0xff).toUInt8]) out

/-- Reads the first eight bytes. -/
def getU64 (p : Bytes) : UInt64 :=
  (p.take 8).foldl (fun v b => (v <<< 8) ||| b.toUInt64) 0

/-! ## TwoPartCodec -/

structure TwoPartMessage where
  header : Bytes
  data   : Bytes
  deriving DecidableEq

namespace TwoPartCodec

def kPreludeSize : UInt64 := 24

/-- One string into the FNV-1a state. -/
def mix (h : UInt64) (s : Bytes) : UInt64 :=
  s.foldl (fun h c => (h ^^^ c.toUInt64) * 0x100000001b3) h

def checksum (header data : Bytes) : UInt64 :=
  mix (mix 0xcbf29ce484222325 header) data

def encode (maxMessageSize : Option UInt64) (msg : TwoPartMessage) : Except Thrown Bytes :=
  let total := kPreludeSize + size msg.header + size msg.data
  if maxMessageSize.any (fun limit => total > limit) then
    .error (.lengthError (str "two-part message exceeds max size"))
  else
    let out := putU64 [] (size msg.header)
    let out := putU64 out (size msg.data)
    let out := putU64 out (checksum msg.header msg.data)
    let out := out ++ msg.header ++ msg.data
    -- `append` refuses to make a string longer than its size can tell
    if out.length < 2 ^ 64 then .ok out else .error (.lengthError (str "basic_string::append"))

/-- The fields of a prelude. -/
def headerLen (p : Bytes) : UInt64 := getU64 p

def bodyLen (p : Bytes) : UInt64 := getU64 (p.drop 8)

def expected (p : Bytes) : UInt64 := getU64 (p.drop 16)

def decode (buffer : Bytes) : Except Thrown TwoPartMessage :=
  if size buffer < kPreludeSize then
    .error (.runtimeError (str "two-part message truncated prelude"))
  else if size buffer ≠ kPreludeSize + headerLen buffer + bodyLen buffer then
    .error (.runtimeError (str "two-part message length mismatch"))
  else do
    let header ← substr buffer kPreludeSize (headerLen buffer)
    let data ← substr buffer (kPreludeSize + headerLen buffer) (bodyLen buffer)
    if checksum header data ≠ expected buffer then
      .error (.runtimeError (str "two-part message checksum mismatch"))
    else .ok ⟨header, data⟩

end TwoPartCodec

/-! ## Numbers as digits -/

theorem toNat_size {s : Bytes} (h : s.length < 2 ^ 64) : (size s).toNat = s.length :=
  UInt64.toNat_ofNat_of_lt' h

/-- One turn of the loop of `put_u64` appends one digit. -/
theorem byte_eq (v : UInt64) (i : Nat) (hi : i < 8) :
    ((v >>> UInt64.ofNat (i * 8)) &&& 0xff).toUInt8 = UInt8.ofNat (v.toNat / 256 ^ i) := by
  have hshift : (UInt64.ofNat (i * 8)).toNat % 64 = i * 8 := by
    rw [UInt64.toNat_ofNat_of_lt' (show i * 8 < 2 ^ 64 by omega)]
    omega
  have hpow : 2 ^ (i * 8) = 256 ^ i := by rw [Nat.mul_comm, Nat.pow_mul]
  apply UInt8.toNat.inj
  rw [UInt64.toNat_toUInt8, UInt64.toNat_and, UInt64.toNat_shiftRight, hshift,
    Nat.shiftRight_eq_div_pow, hpow, UInt8.toNat_ofNat']
  show (_ &&& 2 ^ 8 - 1) % 256 = _
  rw [Nat.and_two_pow_sub_one_eq_mod, Nat.mod_mod]

theorem putU64_eq (out : Bytes) (v : UInt64) : putU64 out v = out ++ toBytes 8 v.toNat := by
  have hdigits : toBytes 8 v.toNat =
      [7, 6, 5, 4, 3, 2, 1, 0].map fun i => UInt8.ofNat (v.toNat / 256 ^ i) := by
    simp [toBytes, Nat.div_div_eq_div_mul]
  simp only [putU64, List.foldl_cons, List.foldl_nil, hdigits, List.map_cons, List.map_nil]
  simp only [byte_eq, Nat.reduceLT, List.append_assoc, List.cons_append, List.nil_append]

/-- The loop of `get_u64` on at most eight bytes. -/
theorem toNat_foldl {bs : Bytes} (h : bs.length ≤ 8) :
    (bs.foldl (fun (v : UInt64) b => (v <<< 8) ||| b.toUInt64) 0).toNat = ofBytes bs := by
  induction bs using List.reverseRecOn with
  | nil => rfl
  | append_singleton bs b ih =>
    rw [List.length_append, List.length_singleton] at h
    have ih := ih (by omega)
    -- there is room for another digit
    have hroom : ofBytes bs < 2 ^ 56 :=
      calc ofBytes bs < 256 ^ bs.length := ofBytes_lt bs
        _ ≤ 256 ^ 7 := Nat.pow_le_pow_right (by decide) (by omega)
        _ = 2 ^ 56 := by decide
    rw [List.foldl_append, ofBytes_concat, ← ih]
    rw [← ih] at hroom
    generalize bs.foldl (fun (v : UInt64) b => (v <<< 8) ||| b.toUInt64) 0 = v at hroom ⊢
    show ((v <<< 8) ||| b.toUInt64).toNat = _
    have hshift : (v <<< 8).toNat = v.toNat <<< 8 := by
      show v.toNat <<< 8 % 2 ^ 64 = _
      omega
    rw [UInt64.toNat_or, hshift, UInt8.toNat_toUInt64,
      ← Nat.shiftLeft_add_eq_or_of_lt b.toNat_lt, Nat.shiftLeft_eq]

theorem toNat_getU64 (p : Bytes) : (getU64 p).toNat = ofBytes (p.take 8) :=
  toNat_foldl (List.length_take_le 8 p)

/-- What was put is what is read. -/
theorem getU64_append (v : UInt64) (rest : Bytes) :
    getU64 (toBytes 8 v.toNat ++ rest) = v := by
  apply UInt64.toNat.inj
  rw [toNat_getU64, List.take_append_of_le_length (by simp), List.take_of_length_le (by simp)]
  exact ofBytes_toBytes v.toNat_lt

/-- What is read, put again. -/
theorem toBytes_getU64 {p : Bytes} (h : 8 ≤ p.length) :
    toBytes 8 (getU64 p).toNat = p.take 8 := by
  have hlen : (p.take 8).length = 8 := by
    rw [List.length_take]
    omega
  have hbytes := toBytes_ofBytes (p.take 8)
  rwa [hlen, ← toNat_getU64] at hbytes

namespace TwoPartCodec

/-! ## Encodings -/

/-- The prelude of a message. -/
def prelude (m : TwoPartMessage) : Bytes :=
  toBytes 8 (size m.header).toNat ++ toBytes 8 (size m.data).toNat ++
    toBytes 8 (checksum m.header m.data).toNat

theorem length_prelude (m : TwoPartMessage) : (prelude m).length = 24 := by
  simp [prelude]

variable {m : TwoPartMessage} {b : Bytes}

/-- A message has an encoding if it fits in a string. -/
theorem encode_eq_ok :
    encode none m = .ok b ↔
      24 + m.header.length + m.data.length < 2 ^ 64 ∧ b = prelude m ++ m.header ++ m.data := by
  have hout : putU64 (putU64 (putU64 [] (size m.header)) (size m.data))
      (checksum m.header m.data) = prelude m := by
    rw [putU64_eq, putU64_eq, putU64_eq, List.nil_append]
    rfl
  have hlen : (prelude m ++ m.header ++ m.data).length =
      24 + m.header.length + m.data.length := by
    rw [List.length_append, List.length_append, length_prelude]
  unfold encode
  simp only [Option.any_none, Bool.false_eq_true, if_false, hout, hlen]
  split
  · next h =>
    rw [Except.ok.injEq]
    exact ⟨fun heq => ⟨h, heq.symm⟩, fun heq => heq.2.symm⟩
  · next h => exact iff_of_false (by simp) (fun heq => h heq.1)

section fields

variable (m : TwoPartMessage) (rest : Bytes)

theorem headerLen_prelude : headerLen (prelude m ++ rest) = size m.header := by
  unfold headerLen prelude
  rw [List.append_assoc, List.append_assoc]
  exact getU64_append _ _

theorem bodyLen_prelude : bodyLen (prelude m ++ rest) = size m.data := by
  unfold bodyLen prelude
  rw [List.append_assoc, List.append_assoc, List.drop_left' (length_toBytes 8 _)]
  exact getU64_append _ _

theorem expected_prelude : expected (prelude m ++ rest) = checksum m.header m.data := by
  unfold expected prelude
  rw [List.append_assoc, List.drop_left' (by simp)]
  exact getU64_append _ _

end fields

/-- The prelude of a buffer, from its fields. -/
theorem take_prelude (h : 24 ≤ b.length) :
    b.take 24 = toBytes 8 (headerLen b).toNat ++ toBytes 8 (bodyLen b).toNat ++
      toBytes 8 (expected b).toNat := by
  unfold headerLen bodyLen expected
  rw [toBytes_getU64 (by omega), toBytes_getU64 (by rw [List.length_drop]; omega),
    toBytes_getU64 (by rw [List.length_drop]; omega), ← List.take_add, ← List.take_add]

/-! ## What decode does -/

theorem substr_ok {s : Bytes} (h : s.length < 2 ^ 64) {pos n : UInt64}
    (hpos : pos.toNat ≤ s.length) : substr s pos n = .ok ((s.drop pos.toNat).take n.toNat) := by
  rw [substr, if_neg]
  rw [gt_iff_lt, UInt64.lt_iff_toNat_lt, toNat_size h]
  omega

theorem substr_outOfRange {s : Bytes} (h : s.length < 2 ^ 64) {pos n : UInt64}
    (hpos : s.length < pos.toNat) : substr s pos n = .error .outOfRange := by
  rw [substr, if_pos]
  rwa [gt_iff_lt, UInt64.lt_iff_toNat_lt, toNat_size h]

/-- The end of `decode`: the parts are taken if their checksum is the one that is
    expected. -/
def verify (buffer header data : Bytes) : Except Thrown TwoPartMessage :=
  if checksum header data ≠ expected buffer then
    .error (.runtimeError (str "two-part message checksum mismatch"))
  else .ok ⟨header, data⟩

section cases

variable {b : Bytes} (hb : b.length < 2 ^ 64)
include hb

theorem decode_truncated (h : b.length < 24) :
    decode b = .error (.runtimeError (str "two-part message truncated prelude")) := by
  rw [decode, if_pos]
  rw [UInt64.lt_iff_toNat_lt, toNat_size hb]
  exact h

theorem decode_mismatch (h : 24 ≤ b.length)
    (hsize : size b ≠ kPreludeSize + headerLen b + bodyLen b) :
    decode b = .error (.runtimeError (str "two-part message length mismatch")) := by
  rw [decode, if_neg, if_pos hsize]
  rw [UInt64.lt_iff_toNat_lt, toNat_size hb]
  exact Nat.not_lt.mpr h

/-- The lengths of the prelude agree with the size of the buffer modulo 2^64. -/
theorem decode_agreeing (h : 24 ≤ b.length)
    (hsize : size b = kPreludeSize + headerLen b + bodyLen b) :
    decode b = (substr b (kPreludeSize + headerLen b) (bodyLen b)).bind fun data =>
      verify b ((b.drop 24).take (headerLen b).toNat) data := by
  have hnot : ¬ size b < kPreludeSize := by
    rw [UInt64.lt_iff_toNat_lt, toNat_size hb]
    exact Nat.not_lt.mpr h
  have hheader : substr b kPreludeSize (headerLen b) =
      .ok ((b.drop 24).take (headerLen b).toNat) := substr_ok hb h
  rw [decode, if_neg hnot, if_neg (not_not.mpr hsize), hheader]
  rfl

theorem decode_of_body (h : 24 ≤ b.length)
    (hsize : size b = kPreludeSize + headerLen b + bodyLen b) {data : Bytes}
    (hdata : substr b (kPreludeSize + headerLen b) (bodyLen b) = .ok data) :
    decode b = verify b ((b.drop 24).take (headerLen b).toNat) data := by
  rw [decode_agreeing hb h hsize, hdata]
  rfl

/-- Their sum is the size, or wraps around once. -/
theorem length_of_agreeing (h : 24 ≤ b.length)
    (hsize : size b = kPreludeSize + headerLen b + bodyLen b) :
    ((headerLen b).toNat + (bodyLen b).toNat < 2 ^ 64 ∧
        b.length = 24 + (headerLen b).toNat + (bodyLen b).toNat) ∨
      (2 ^ 64 ≤ (headerLen b).toNat + (bodyLen b).toNat ∧
        b.length + 2 ^ 64 = 24 + (headerLen b).toNat + (bodyLen b).toNat) := by
  have heq := congrArg UInt64.toNat hsize
  rw [toNat_size hb, UInt64.toNat_add, UInt64.toNat_add, show kPreludeSize.toNat = 24 from rfl]
    at heq
  have hheader := (headerLen b).toNat_lt
  have hbody := (bodyLen b).toNat_lt
  omega

omit hb in
theorem toNat_bodyStart : (kPreludeSize + headerLen b).toNat =
    (24 + (headerLen b).toNat) % 2 ^ 64 := UInt64.toNat_add ..

/-- The sum is the size: header and body are the two parts of the rest. -/
theorem decode_plain (hsize : size b = kPreludeSize + headerLen b + bodyLen b)
    (hlen : b.length = 24 + (headerLen b).toNat + (bodyLen b).toNat) :
    decode b = verify b ((b.drop 24).take (headerLen b).toNat)
      (b.drop (24 + (headerLen b).toNat)) := by
  have hpos : (kPreludeSize + headerLen b).toNat = 24 + (headerLen b).toNat := by
    rw [toNat_bodyStart, Nat.mod_eq_of_lt (by omega)]
  have hbody : (b.drop (24 + (headerLen b).toNat)).take (bodyLen b).toNat =
      b.drop (24 + (headerLen b).toNat) :=
    List.take_of_length_le (by rw [List.length_drop]; omega)
  rw [decode_of_body hb (by omega) hsize (substr_ok hb (by omega)), hpos, hbody]

/-- The sum wraps around and the start of the body does not: it is behind the end. -/
theorem decode_outOfRange (h : 24 ≤ b.length)
    (hsize : size b = kPreludeSize + headerLen b + bodyLen b)
    (hlen : b.length + 2 ^ 64 = 24 + (headerLen b).toNat + (bodyLen b).toNat)
    (hstart : 24 + (headerLen b).toNat < 2 ^ 64) : decode b = .error .outOfRange := by
  have hbody := (bodyLen b).toNat_lt
  have hpos : (kPreludeSize + headerLen b).toNat = 24 + (headerLen b).toNat := by
    rw [toNat_bodyStart, Nat.mod_eq_of_lt hstart]
  rw [decode_agreeing hb h hsize, substr_outOfRange hb (by omega)]
  rfl

/-- Both wrap around: the header is clamped to the rest of the buffer, and the body
    starts in the prelude. -/
theorem decode_wrapped (h : 24 ≤ b.length)
    (hsize : size b = kPreludeSize + headerLen b + bodyLen b)
    (hlen : b.length + 2 ^ 64 = 24 + (headerLen b).toNat + (bodyLen b).toNat)
    (hstart : 2 ^ 64 ≤ 24 + (headerLen b).toNat) :
    decode b = verify b (b.drop 24) (b.drop (24 + (headerLen b).toNat - 2 ^ 64)) := by
  have hpos : (kPreludeSize + headerLen b).toNat = 24 + (headerLen b).toNat - 2 ^ 64 := by
    rw [toNat_bodyStart]
    omega
  rw [decode_of_body hb h hsize (substr_ok hb (by omega)), hpos,
    List.take_of_length_le (by rw [List.length_drop]; omega),
    List.take_of_length_le (by rw [List.length_drop]; omega)]

end cases

theorem verify_eq_ok {header data : Bytes} :
    verify b header data = .ok m ↔ checksum header data = expected b ∧ m = ⟨header, data⟩ := by
  unfold verify
  split
  · next h => exact iff_of_false (by simp) (fun heq => h heq.1)
  · next h =>
    rw [Except.ok.injEq]
    exact ⟨fun heq => ⟨not_not.mp h, heq.symm⟩, fun heq => heq.2.symm⟩

/-- If the parts are refused, it is by a `runtime_error`. -/
theorem verify_error {header data : Bytes} (h : ∀ m, verify b header data ≠ .ok m) :
    ∃ what, verify b header data = .error (.runtimeError what) := by
  unfold verify at h ⊢
  split
  · exact ⟨_, rfl⟩
  · next hsum =>
    rw [if_neg hsum] at h
    exact absurd rfl (h _)

/-! ## Round trip -/

/-- The lengths in an encoding are those of the parts. -/
theorem lengths_of_encode (h : encode none m = .ok b) :
    (headerLen b).toNat = m.header.length ∧ (bodyLen b).toNat = m.data.length := by
  obtain ⟨hfits, rfl⟩ := encode_eq_ok.mp h
  rw [List.append_assoc, headerLen_prelude, bodyLen_prelude]
  exact ⟨toNat_size (by omega), toNat_size (by omega)⟩

theorem length_of_encode (h : encode none m = .ok b) :
    b.length = 24 + m.header.length + m.data.length := by
  obtain ⟨-, rfl⟩ := encode_eq_ok.mp h
  rw [List.length_append, List.length_append, length_prelude]

theorem decode_encode {m : TwoPartMessage} {b : Bytes} (h : encode none m = .ok b) :
    decode b = .ok m := by
  obtain ⟨hfits, rfl⟩ := encode_eq_ok.mp h
  obtain ⟨hheader, hbody⟩ := lengths_of_encode h
  have hlength := length_of_encode h
  have hsize : size (prelude m ++ m.header ++ m.data) =
      kPreludeSize + headerLen (prelude m ++ m.header ++ m.data) +
        bodyLen (prelude m ++ m.header ++ m.data) := by
    apply UInt64.toNat.inj
    rw [UInt64.toNat_add, UInt64.toNat_add, hheader, hbody, toNat_size (by omega), hlength,
      show kPreludeSize.toNat = 24 from rfl]
    omega
  rw [decode_plain (by omega) hsize (by omega), verify_eq_ok, hheader]
  -- what is cut out are the parts that were put in
  have hrest : (prelude m ++ m.header ++ m.data).drop 24 = m.header ++ m.data := by
    rw [List.append_assoc, List.drop_left' (length_prelude m)]
  have hdata : (prelude m ++ m.header ++ m.data).drop (24 + m.header.length) = m.data :=
    List.drop_left' (by rw [List.length_append, length_prelude])
  rw [hrest, hdata, List.take_left' rfl, List.append_assoc, expected_prelude]
  exact ⟨rfl, rfl⟩

/-! ## Strictness -/

/-- Only encodings are accepted, with the message that they encode, and everything else is
    refused by a `runtime_error`. -/
def Strict (b : Bytes) : Prop :=
  (∀ m, decode b = .ok m → encode none m = .ok b) ∧
    ((∀ m, encode none m ≠ .ok b) → ∃ what, decode b = .error (.runtimeError what))

theorem strict_of_error {what : Bytes} (h : decode b = .error (.runtimeError what)) :
    Strict b := by
  refine ⟨fun m hm => ?_, fun _ => ⟨what, h⟩⟩
  rw [h] at hm
  cases hm

section strict

variable {b : Bytes} (hb : b.length < 2 ^ 64)
include hb

omit hb in
/-- Lengths that wrap around are in no encoding. -/
theorem not_encoding_of_wrap (hwrap : 2 ^ 64 ≤ (headerLen b).toNat + (bodyLen b).toNat)
    (m : TwoPartMessage) : encode none m ≠ .ok b := by
  intro h
  obtain ⟨hheader, hbody⟩ := lengths_of_encode h
  have hfits := (encode_eq_ok.mp h).1
  omega

/-- A buffer whose lengths add up to its size, and whose parts have the checksum that is
    expected, is the encoding of its parts. -/
theorem encode_parts (hlen : b.length = 24 + (headerLen b).toNat + (bodyLen b).toNat)
    {header data : Bytes} (hheader : header = (b.drop 24).take (headerLen b).toNat)
    (hdata : data = b.drop (24 + (headerLen b).toNat)) (hsum : checksum header data = expected b) :
    encode none ⟨header, data⟩ = .ok b := by
  have hheaderLen : header.length = (headerLen b).toNat := by
    rw [hheader, List.length_take, List.length_drop]
    omega
  have hdataLen : data.length = (bodyLen b).toNat := by
    rw [hdata, List.length_drop]
    omega
  have hfits : 24 + header.length + data.length < 2 ^ 64 := by omega
  have hheaderSize : (size header).toNat = (headerLen b).toNat := by
    rw [toNat_size (by omega), hheaderLen]
  have hdataSize : (size data).toNat = (bodyLen b).toNat := by
    rw [toNat_size (by omega), hdataLen]
  have hprelude : prelude ⟨header, data⟩ = b.take 24 := by
    rw [take_prelude (by omega), prelude, hsum, hheaderSize, hdataSize]
  have hrest : b.drop 24 = header ++ data := by
    rw [hheader, hdata, ← List.drop_drop]
    exact (List.take_append_drop _ _).symm
  refine encode_eq_ok.mpr ⟨hfits, ?_⟩
  calc b = b.take 24 ++ b.drop 24 := (List.take_append_drop 24 b).symm
    _ = prelude ⟨header, data⟩ ++ header ++ data := by rw [hprelude, hrest, List.append_assoc]

theorem strict_of_plain (hsize : size b = kPreludeSize + headerLen b + bodyLen b)
    (hlen : b.length = 24 + (headerLen b).toNat + (bodyLen b).toNat) : Strict b := by
  have hdecode := decode_plain hb hsize hlen
  have haccept : ∀ m, decode b = .ok m → encode none m = .ok b := by
    intro m hm
    rw [hdecode, verify_eq_ok] at hm
    obtain ⟨hsum, rfl⟩ := hm
    exact encode_parts hb hlen rfl rfl hsum
  refine ⟨haccept, fun hnot => ?_⟩
  rw [hdecode]
  refine verify_error fun m hm => ?_
  rw [← hdecode] at hm
  exact hnot m (haccept m hm)

end strict

/-- **Strictness of decode.**  It can only fail for lengths that agree with the size of the
    buffer modulo 2^64 and whose sum wraps around: unless the start of the body wraps
    around as well, `substr` throws; if it does, the buffer is refused only if the bytes
    that are taken for header and body do not happen to have the checksum. -/
theorem decode_strict_iff {b : Bytes} (hb : b.length < 2 ^ 64) :
    Strict b ↔
      (24 ≤ b.length → size b = kPreludeSize + headerLen b + bodyLen b →
        2 ^ 64 ≤ (headerLen b).toNat + (bodyLen b).toNat →
        2 ^ 64 ≤ 24 + (headerLen b).toNat ∧
          checksum (b.drop 24) (b.drop (24 + (headerLen b).toNat - 2 ^ 64)) ≠ expected b) := by
  constructor
  · rintro ⟨haccept, hrefuse⟩ h hsize hwrap
    have hnot := not_encoding_of_wrap hwrap
    have hlen : b.length + 2 ^ 64 = 24 + (headerLen b).toNat + (bodyLen b).toNat :=
      ((length_of_agreeing hb h hsize).resolve_left fun hplain => by omega).2
    have hstart : 2 ^ 64 ≤ 24 + (headerLen b).toNat := by
      by_contra hlow
      obtain ⟨what, hwhat⟩ := hrefuse hnot
      rw [decode_outOfRange hb h hsize hlen (Nat.lt_of_not_le hlow)] at hwhat
      cases hwhat
    refine ⟨hstart, fun hsum => ?_⟩
    -- the buffer would be accepted and is no encoding
    have hok := verify_eq_ok.mpr ⟨hsum, rfl⟩
    rw [← decode_wrapped hb h hsize hlen hstart] at hok
    exact hnot _ (haccept _ hok)
  · intro hcond
    by_cases h : 24 ≤ b.length
    · by_cases hsize : size b = kPreludeSize + headerLen b + bodyLen b
      · rcases length_of_agreeing hb h hsize with ⟨-, hlen⟩ | ⟨hwrap, hlen⟩
        · exact strict_of_plain hb hsize hlen
        · obtain ⟨hstart, hsum⟩ := hcond h hsize hwrap
          have hdecode := decode_wrapped hb h hsize hlen hstart
          obtain ⟨what, hwhat⟩ := verify_error fun m hm => hsum (verify_eq_ok.mp hm).1
          exact strict_of_error (hdecode.trans hwhat)
      · exact strict_of_error (decode_mismatch hb h hsize)
    · exact strict_of_error (decode_truncated hb (Nat.lt_of_not_le h))

/-- Both lengths wrap around and the checksum does not fit. -/
theorem wrapped_refused : Strict (toBytes 8 (2 ^ 64 - 3) ++ toBytes 8 3 ++ toBytes 8 0) :=
  (decode_strict_iff (by decide +kernel)).mpr fun _ _ _ => by decide +kernel

/-- A header length of 2^63 and a body length of 2^63 add up to 0: the body would start
    behind the end.  A header length of 2^64 - 3 and a body length of 3 add up to 0 as
    well: the body is the end of the prelude, and the checksum is chosen for it. -/
theorem wrapped_lengths_accepted :
    let prelude (headerLen bodyLen sum : Nat) : Bytes :=
      toBytes 8 headerLen ++ toBytes 8 bodyLen ++ toBytes 8 sum
    decode (prelude (2 ^ 63) (2 ^ 63) 0) = .error .outOfRange ∧
      decode (prelude (2 ^ 64 - 3) 3 0x07a1841c7ddcab58) = .ok ⟨[], [0xdc, 0xab, 0x58]⟩ ∧
      encode none ⟨[], [0xdc, 0xab, 0x58]⟩ ≠
        .ok (prelude (2 ^ 64 - 3) 3 0x07a1841c7ddcab58) := by
  decide +kernel

end TwoPartCodec

end DynamoCpp.Transports
