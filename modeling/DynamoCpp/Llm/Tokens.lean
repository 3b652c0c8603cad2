import DynamoCpp.Basic
import Mathlib.Algebra.Ring.Nat

/-! # Token blocks

    `llm/tokens.h`: a sequence of tokens is split into completed blocks of a
    fixed size and a partial tail.  Every block has a hash of its tokens and a
    sequence hash that chains it to the block in front of it.  The hash function
    (XXH3-64 with seed 1337) is a parameter.
-/

namespace DynamoCpp.Llm

abbrev Token : Type := UInt32

abbrev BlockHash : Type := UInt64

abbrev SequenceHash : Type := UInt64

/-- A completed fixed-size block of tokens with its hashes. -/
structure TokenBlock where
  tokens             : List Token := []
  blockHash          : BlockHash := 0
  sequenceHash       : SequenceHash := 0
  parentSequenceHash : Option SequenceHash := none
deriving DecidableEq

/-- The trailing block of a sequence. -/
structure PartialTokenBlock where
  tokens             : List Token
  blockSize          : Nat
  parentSequenceHash : Option SequenceHash
deriving DecidableEq

/-- The lowest `width` bytes of a number, in memory order. -/
def littleEndian (width n : Nat) : Bytes :=
  (List.range width).map fun i => UInt8.ofNat (n / 256 ^ i)

section hashing

variable (computeHash : Bytes → UInt64)

def computeBlockHash (tokens : List Token) : BlockHash :=
  computeHash (tokens.flatMap fun token => littleEndian 4 token.toNat)

def chainHash (parent : SequenceHash) (blockHash : BlockHash) : SequenceHash :=
  computeHash (littleEndian 8 parent.toNat ++ littleEndian 8 blockHash.toNat)

/-- One turn of the loop of `split_tokens`: the block of `tokens` after `blocks`. -/
def splitBlock (blocks : List TokenBlock) (tokens : List Token) : TokenBlock :=
  let blockHash := computeBlockHash computeHash tokens
  match blocks.getLast? with
  | none =>
    -- the sequence hash of the first split block is its block hash
    { tokens := tokens, blockHash := blockHash, sequenceHash := blockHash }
  | some back =>
    { tokens := tokens
      blockHash := blockHash
      sequenceHash := chainHash computeHash back.sequenceHash blockHash
      parentSequenceHash := some back.sequenceHash }

/-- The completed blocks of the tokens and the partial tail. -/
def splitTokens (tokens : List Token) (blockSize : Nat) : List TokenBlock × PartialTokenBlock :=
  let full := if blockSize = 0 then 0 else tokens.length / blockSize
  let blocks := (List.range full).foldl (fun blocks i =>
    blocks ++ [splitBlock computeHash blocks ((tokens.drop (i * blockSize)).take blockSize)]) []
  (blocks,
    { tokens := tokens.drop (full * blockSize)
      blockSize := blockSize
      parentSequenceHash := blocks.getLast?.map (·.sequenceHash) })

end hashing

end DynamoCpp.Llm
