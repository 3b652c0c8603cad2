import DynamoCpp.Basic
import DynamoCpp.Framework.Withhold

/-! # Tokenizers and incremental detokenization

    `llm/tokenizers.h`: the interface of tokenizer backends, the byte-level
    reference backend, and `Sequence`, which decodes an append-only sequence of
    tokens and returns only text that ends on a complete character.

    A method of a tokenizer returns or throws; the error is the text of the
    `std::runtime_error`.  `Sequence::append_token_id` pushes the token before it
    decodes, so it returns the new sequence in both cases.
-/

open Framework

namespace DynamoCpp.Llm

abbrev TokenIdType : Type := UInt32

/-- The result of encoding a string. -/
structure Encoding where
  tokenIds : List TokenIdType
  tokens   : List Bytes
  spans    : List (Nat × Nat)
deriving DecidableEq

/-- A tokenizer backend.  Its methods are `const`: the same arguments give the
    same outcome. -/
structure Tokenizer where
  encode : Bytes → Except Bytes Encoding
  decode : List TokenIdType → Bool → Except Bytes Bytes

/-! ## UTF-8 -/

/-- U+FFFD. -/
def replacementChar : Bytes := [0xEF, 0xBF, 0xBD]

def isCharBoundary (s : Bytes) (index : Nat) : Bool :=
  match s[index]? with
  | none => true
  | some byte => index == 0 || byte &&& 0xC0 != 0x80

def endsWithReplacement (s : Bytes) : Bool :=
  s.length ≥ 3 && s.drop (s.length - 3) == replacementChar

def removeLoop : Nat → Bytes → Bytes
  | 0, s => s
  | fuel + 1, s =>
    match find replacementChar s with
    | none => s
    | some pos => removeLoop fuel (s.take pos ++ s.drop (pos + replacementChar.length))

/-- Every turn of the loop erases three bytes, so the length is fuel enough. -/
def removeReplacementChars (s : Bytes) : Bytes := removeLoop s.length s

/-- Length of a UTF-8 sequence by its lead byte, 0 for an invalid one. -/
def utf8SeqLen (lead : UInt8) : Nat :=
  if lead < 0x80 then 1
  else if lead &&& 0xE0 = 0xC0 then 2
  else if lead &&& 0xF0 = 0xE0 then 3
  else if lead &&& 0xF8 = 0xF0 then 4
  else 0

def utf8LossyLoop : Nat → Bytes → Bytes
  | 0, _ => []
  | _ + 1, [] => []
  | fuel + 1, lead :: bytes =>
    let len := utf8SeqLen lead
    if len = 0 then
      replacementChar ++ utf8LossyLoop fuel bytes
    else if bytes.length + 1 < len then
      -- incomplete trailing sequence
      replacementChar
    else if (bytes.take (len - 1)).all fun byte => byte &&& 0xC0 == 0x80 then
      lead :: bytes.take (len - 1) ++ utf8LossyLoop fuel (bytes.drop (len - 1))
    else
      replacementChar ++ utf8LossyLoop fuel bytes

/-- Every turn of the loop reads a byte, so the length is fuel enough. -/
def utf8Lossy (bytes : Bytes) : Bytes := utf8LossyLoop bytes.length bytes

theorem utf8LossyLoop_fuel : ∀ {fuel fuel' : Nat} {bytes : Bytes}, bytes.length ≤ fuel →
    bytes.length ≤ fuel' → utf8LossyLoop fuel bytes = utf8LossyLoop fuel' bytes
  | fuel, fuel', [], _, _ => by cases fuel <;> cases fuel' <;> rfl
  | fuel + 1, fuel' + 1, lead :: bytes, h, h' => by
    rw [List.length_cons, Nat.add_le_add_iff_right] at h h'
    have hskip : (bytes.drop (utf8SeqLen lead - 1)).length ≤ bytes.length := by
      rw [List.length_drop]
      exact Nat.sub_le _ _
    unfold utf8LossyLoop
    dsimp only
    rw [utf8LossyLoop_fuel h h', utf8LossyLoop_fuel (hskip.trans h) (hskip.trans h')]

/-! ## The reference backend -/

namespace ByteLevelTokenizer

def bosId : TokenIdType := 256

def eosId : TokenIdType := 257

def encode (input : Bytes) : Encoding where
  tokenIds := input.map fun byte => UInt32.ofNat byte.toNat
  tokens := input.map fun byte => [byte]
  spans := (List.range input.length).map fun i => (i, i + 1)

/-- The loop of `decode`; `bytes` are the bytes since the last special token. -/
def decodeLoop (skipSpecialTokens : Bool) (bytes out : Bytes) :
    List TokenIdType → Except Bytes Bytes
  | [] => .ok (out ++ utf8Lossy bytes)
  | id :: ids =>
    if id < 256 then
      decodeLoop skipSpecialTokens (bytes ++ [UInt8.ofNat id.toNat]) out ids
    else if skipSpecialTokens then
      decodeLoop skipSpecialTokens [] (out ++ utf8Lossy bytes) ids
    else if id = bosId then
      decodeLoop skipSpecialTokens [] (out ++ utf8Lossy bytes ++ str "<s>") ids
    else if id = eosId then
      decodeLoop skipSpecialTokens [] (out ++ utf8Lossy bytes ++ str "</s>") ids
    else
      .error (str "ByteLevelTokenizer: unknown token id " ++ str (toString id.toNat))

def decode (tokenIds : List TokenIdType) (skipSpecialTokens : Bool) : Except Bytes Bytes :=
  decodeLoop skipSpecialTokens [] [] tokenIds

end ByteLevelTokenizer

/-- Token id = byte; 256 and 257 are the special tokens. -/
def byteLevelTokenizer : Tokenizer where
  encode input := .ok (ByteLevelTokenizer.encode input)
  decode := ByteLevelTokenizer.decode

/-! ## Sequence -/

/-- The text up to `readOffset` has been returned; decoding starts at
    `prefixOffset` to give the tokens after it their context. -/
structure Sequence where
  tokenIds     : List TokenIdType := []
  prefixOffset : Nat := 0
  readOffset   : Nat := 0
deriving DecidableEq

/-- The last character boundary of the text at or before an index. -/
def boundaryBefore (text : Bytes) : Nat → Nat
  | 0 => 0
  | n + 1 => if isCharBoundary text (n + 1) then n + 1 else boundaryBefore text n

namespace Sequence

variable (tokenizer : Tokenizer)

def appendTokenId (s : Sequence) (tokenId : TokenIdType) : Except Bytes Bytes × Sequence :=
  let s := { s with tokenIds := s.tokenIds ++ [tokenId] }
  let prefixIds := (s.tokenIds.take s.readOffset).drop s.prefixOffset
  let allIds := s.tokenIds.drop s.prefixOffset
  match tokenizer.decode prefixIds false with
  | .error e => (.error e, s)
  | .ok prefixText =>
    match tokenizer.decode allIds false with
    | .error e => (.error e, s)
    | .ok newText =>
      if prefixText.length < newText.length then
        if endsWithReplacement newText then
          -- incomplete character at the tail
          (.ok [], s)
        else
          let prefixLen := boundaryBefore newText prefixText.length
          (.ok (removeReplacementChars (newText.drop prefixLen)),
            { s with prefixOffset := s.readOffset, readOffset := s.tokenIds.length })
      else
        (.ok [], s)

/-- The outcome of each call, when the tokens are appended one by one. -/
def appendAll (s : Sequence) : List TokenIdType → List (Except Bytes Bytes)
  | [] => []
  | tokenId :: tokenIds =>
    let (outcome, s') := s.appendTokenId tokenizer tokenId
    outcome :: s'.appendAll tokenIds

end Sequence

end DynamoCpp.Llm
