import DynamoCpp.Transports.Codec

/-! # Corrupted frames

    A frame in which one byte has been changed is refused: the two lengths no longer add
    up to the size of the buffer, or the checksum is not the one in the prelude.  FNV-1a
    misses no change of a single byte, since one turn of its loop is injective in the byte
    and in the state: the multiplier is odd, so it has an inverse modulo 2^64.
-/

namespace DynamoCpp.Transports

open Framework

/-! ## The checksum -/

/-- A fold whose step is injective in the element and in the state tells apart two lists
    that differ in one place. -/
theorem foldl_set_ne {α β : Type} {f : β → α → β} (hstate : ∀ a, Function.Injective (f · a))
    (helement : ∀ b, Function.Injective (f b)) :
    ∀ {l : List α} {i : Nat} (hi : i < l.length) {v : α} (_ : v ≠ l[i]) (b : β),
      (l.set i v).foldl f b ≠ l.foldl f b := by
  -- equal states at the end were equal after the changed element
  have hend : ∀ (l : List α) (b b' : β), l.foldl f b = l.foldl f b' → b = b' := by
    intro l
    induction l with
    | nil => exact fun b b' h => h
    | cons a l ih => exact fun b b' h => hstate a (ih _ _ h)
  intro l
  induction l with
  | nil => exact fun hi => absurd hi (Nat.not_lt_zero _)
  | cons a l ih =>
    intro i hi v hv b h
    cases i with
    | zero => exact hv (helement b (hend l _ _ h))
    | succ i => exact ih (Nat.lt_of_succ_lt_succ hi) hv (f b a) h

namespace TwoPartCodec

/-- The inverse of the multiplier. -/
theorem prime_mul_inverse : (0x100000001b3 : UInt64) * 0xce965057aff6957b = 1 := by
  decide +kernel

theorem mul_prime_injective : Function.Injective fun h : UInt64 => h * 0x100000001b3 := by
  intro h h' heq
  have hinverse := congrArg (· * (0xce965057aff6957b : UInt64)) heq
  simpa only [UInt64.mul_assoc, prime_mul_inverse, UInt64.mul_one] using hinverse

/-- A changed byte changes the state at the end of the string. -/
theorem mix_set_ne {s : Bytes} {i : Nat} (hi : i < s.length) {v : UInt8} (hv : v ≠ s[i])
    (h : UInt64) : mix h (s.set i v) ≠ mix h s := by
  refine foldl_set_ne ?_ ?_ hi hv h
  · intro c h h' heq
    exact (UInt64.xor_left_inj c.toUInt64).mp (mul_prime_injective heq)
  · intro h c c' heq
    exact UInt8.toUInt64_inj.mp ((UInt64.xor_right_inj h).mp (mul_prime_injective heq))

/-- The checksum does not depend on where the header ends. -/
theorem checksum_split (s : Bytes) (n : Nat) :
    checksum (s.take n) (s.drop n) = mix 0xcbf29ce484222325 s := by
  unfold checksum mix
  rw [← List.foldl_append, List.take_append_drop]

/-! ## A changed field -/

section field

variable {b : Bytes} {k i : Nat} {v : UInt8}

/-- A number in which a byte has been changed. -/
theorem getU64_set_ne (hb : k + 8 ≤ b.length) (hk : k ≤ i) (hi : i < k + 8)
    (hv : v ≠ b.get ⟨i, by omega⟩) : getU64 ((b.set i v).drop k) ≠ getU64 (b.drop k) := by
  intro heq
  -- the same number has the same bytes
  have hbytes : ((b.set i v).drop k).take 8 = (b.drop k).take 8 := by
    rw [← toBytes_getU64 (by rw [List.length_drop, List.length_set]; omega), heq,
      toBytes_getU64 (by rw [List.length_drop]; omega)]
  have hbyte := congrArg (fun bytes => bytes[i - k]?) hbytes
  have hplace : k + (i - k) = i := Nat.add_sub_cancel' hk
  simp only [List.getElem?_take, if_pos (show i - k < 8 by omega), List.getElem?_drop, hplace,
    List.getElem?_set_self (show i < b.length by omega),
    List.getElem?_eq_getElem (show i < b.length by omega), Option.some.injEq] at hbyte
  exact hv hbyte

/-- A number that does not hold the changed byte. -/
theorem getU64_set_of_outside (b : Bytes) (v : UInt8) (h : i < k ∨ k + 8 ≤ i) :
    getU64 ((b.set i v).drop k) = getU64 (b.drop k) := by
  rcases h with hbefore | hafter
  · rw [List.drop_set_of_lt hbefore]
  · unfold getU64
    rw [List.drop_set, if_neg (by omega), List.take_set_of_le (by omega)]

end field

/-! ## A changed frame -/

section frame

variable {b : Bytes} (hb : b.length < 2 ^ 64)
include hb

/-- A buffer of at least a prelude is accepted only if its lengths agree with its size and
    the checksum is the one of all that follows the prelude. -/
theorem agreeing_of_decode (h : 24 ≤ b.length) {m : TwoPartMessage} (hm : decode b = .ok m) :
    size b = kPreludeSize + headerLen b + bodyLen b ∧
      (b.length = 24 + (headerLen b).toNat + (bodyLen b).toNat →
        mix 0xcbf29ce484222325 (b.drop 24) = expected b) := by
  have hsize : size b = kPreludeSize + headerLen b + bodyLen b := by
    by_contra hsize
    rw [decode_mismatch hb h hsize] at hm
    cases hm
  refine ⟨hsize, fun hlen => ?_⟩
  rw [decode_plain hb hsize hlen, verify_eq_ok, ← List.drop_drop, checksum_split] at hm
  exact hm.1

end frame

/-- An encoding agrees with itself. -/
theorem agreeing_of_encode {m : TwoPartMessage} {b : Bytes} (h : encode none m = .ok b) :
    size b = kPreludeSize + headerLen b + bodyLen b ∧
      b.length = 24 + (headerLen b).toNat + (bodyLen b).toNat ∧
      mix 0xcbf29ce484222325 (b.drop 24) = expected b := by
  have hfits := (encode_eq_ok.mp h).1
  have hlength := length_of_encode h
  obtain ⟨hheader, hbody⟩ := lengths_of_encode h
  have hlen : b.length = 24 + (headerLen b).toNat + (bodyLen b).toNat := by
    rw [hheader, hbody, hlength]
  obtain ⟨hsize, hsum⟩ := agreeing_of_decode (by omega) (by omega) (decode_encode h)
  exact ⟨hsize, hlen, hsum hlen⟩

section corrupted

variable {b : Bytes} (hb : 24 ≤ b.length) {i : Nat} {v : UInt8}
include hb

/-- If one of the lengths has changed, so has their sum. -/
theorem sum_ne_of_length_changed (hi : i < b.length) (hv : v ≠ b[i])
    (hsize : size b = kPreludeSize + headerLen b + bodyLen b) (hplace : i < 16) :
    size (b.set i v) ≠ kPreludeSize + headerLen (b.set i v) + bodyLen (b.set i v) := by
  have hsame : size (b.set i v) = size b := by
    unfold size
    rw [List.length_set]
  intro hsize'
  rw [hsame, hsize] at hsize'
  by_cases hheader : i < 8
  · have hheaderLen : headerLen (b.set i v) ≠ headerLen b :=
      getU64_set_ne (k := 0) (by omega) (Nat.zero_le i) (by omega) hv
    have hbodyLen : bodyLen (b.set i v) = bodyLen b :=
      getU64_set_of_outside b v (.inl hheader)
    rw [hbodyLen, UInt64.add_left_inj, UInt64.add_right_inj] at hsize'
    exact hheaderLen hsize'.symm
  · have hheaderLen : headerLen (b.set i v) = headerLen b :=
      getU64_set_of_outside (k := 0) b v (.inr (by omega))
    have hbodyLen : bodyLen (b.set i v) ≠ bodyLen b :=
      getU64_set_ne (by omega) (by omega) hplace hv
    rw [hheaderLen, UInt64.add_right_inj] at hsize'
    exact hbodyLen hsize'.symm

/-- If the checksum in the prelude or a byte behind it has changed, they no longer fit. -/
theorem checksum_ne_of_changed (hi : i < b.length) (hv : v ≠ b[i])
    (hsum : mix 0xcbf29ce484222325 (b.drop 24) = expected b) (hplace : 16 ≤ i) :
    mix 0xcbf29ce484222325 ((b.set i v).drop 24) ≠ expected (b.set i v) := by
  intro hsum'
  by_cases hprelude : i < 24
  · have hexpected : expected (b.set i v) ≠ expected b :=
      getU64_set_ne (by omega) hplace hprelude hv
    rw [List.drop_set_of_lt hprelude, hsum] at hsum'
    exact hexpected hsum'.symm
  · have hexpected : expected (b.set i v) = expected b :=
      getU64_set_of_outside b v (.inr (by omega))
    rw [List.drop_set, if_neg hprelude, hexpected, ← hsum] at hsum'
    have hrest : i - 24 < (b.drop 24).length := by
      rw [List.length_drop]
      omega
    have hbyte : (b.drop 24)[i - 24] = b[i] := by
      simp [Nat.add_sub_cancel' (Nat.le_of_not_lt hprelude)]
    exact mix_set_ne hrest (by rwa [hbyte]) _ hsum'

end corrupted

/-- **Corruption is detected.**  An encoding in which one byte has been changed is
    refused. -/
theorem corruption_detected {m : TwoPartMessage} {b : Bytes} (h : encode none m = .ok b)
    {i : Nat} (hi : i < b.length) {v : UInt8} (hv : v ≠ b[i]) :
    ∃ e, decode (b.set i v) = .error e := by
  have hfits := (encode_eq_ok.mp h).1
  have hlength := length_of_encode h
  obtain ⟨hsize, hlen, hsum⟩ := agreeing_of_encode h
  have hset : (b.set i v).length = b.length := List.length_set
  cases hdecode : decode (b.set i v) with
  | error e => exact ⟨e, rfl⟩
  | ok m' =>
    obtain ⟨hsize', hsum'⟩ := agreeing_of_decode (by omega) (by omega) hdecode
    by_cases hplace : i < 16
    · exact absurd hsize' (sum_ne_of_length_changed (by omega) hi hv hsize hplace)
    · have hheaderLen : headerLen (b.set i v) = headerLen b :=
        getU64_set_of_outside (k := 0) b v (.inr (by omega))
      have hbodyLen : bodyLen (b.set i v) = bodyLen b :=
        getU64_set_of_outside b v (.inr (by omega))
      have hsum' := hsum' (by rw [hset, hheaderLen, hbodyLen, hlen])
      exact absurd hsum' (checksum_ne_of_changed (by omega) hi hv hsum (Nat.le_of_not_lt hplace))

/-- A length, the checksum and the last byte of a body are changed. -/
theorem corruption_detected_three :
    let b := prelude ⟨str "h", str "d"⟩ ++ str "hd"
    (∃ e, decode (b.set 7 2) = .error e) ∧ (∃ e, decode (b.set 16 0) = .error e) ∧
      ∃ e, decode (b.set 25 0) = .error e := by
  have h : encode none ⟨str "h", str "d"⟩ = .ok (prelude ⟨str "h", str "d"⟩ ++ str "hd") := by
    decide +kernel
  exact ⟨corruption_detected h (by decide +kernel) (by decide +kernel),
    corruption_detected h (by decide +kernel) (by decide +kernel),
    corruption_detected h (by decide +kernel) (by decide +kernel)⟩

end TwoPartCodec

end DynamoCpp.Transports
