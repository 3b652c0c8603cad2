import DynamoCpp.Llm.KvRouter.Protocols
import Mathlib.Data.List.Chain
import Mathlib.Data.List.Flatten

/-! # Token sequences that grow

    `TokenSequence`: tokens are split into blocks at once, or pushed one by one.
    The blocks and the tail are determined by the tokens, whichever way they came
    in, and so are the block hashes.  The sequence hashes chain the blocks; they
    depend on how the first block was made, because a first block that is split
    off takes its block hash as its sequence hash and one that is pushed full
    does not.
-/

namespace DynamoCpp.Llm

section

variable (computeHash : Bytes → UInt64)

/-! ## Pushing -/

/-- Appends a token; a block that is full is returned, and the next one starts behind it. -/
def PartialTokenBlock.pushToken (b : PartialTokenBlock) (token : Token) :
    Option TokenBlock × PartialTokenBlock :=
  let tokens := b.tokens ++ [token]
  if tokens.length ≠ b.blockSize then (none, { b with tokens := tokens })
  else
    let blockHash := computeBlockHash computeHash tokens
    let sequenceHash := chainHash computeHash (b.parentSequenceHash.getD 0) blockHash
    (some
      { tokens := tokens
        blockHash := blockHash
        sequenceHash := sequenceHash
        parentSequenceHash := b.parentSequenceHash },
      { b with tokens := [], parentSequenceHash := some sequenceHash })

/-- Completed blocks and a partial tail. -/
structure TokenSequence where
  blocks       : List TokenBlock
  currentBlock : PartialTokenBlock
deriving DecidableEq

namespace TokenSequence

/-- The constructor. -/
def ofTokens (tokens : List Token) (blockSize : Nat) : TokenSequence :=
  let split := splitTokens computeHash tokens blockSize
  ⟨split.1, split.2⟩

/-- The block that the token completes, if it does, and the sequence with the token. -/
def pushToken (s : TokenSequence) (token : Token) : Option TokenBlock × TokenSequence :=
  match s.currentBlock.pushToken computeHash token with
  | (some block, current) => (some block, ⟨s.blocks ++ [block], current⟩)
  | (none, current) => (none, { s with currentBlock := current })

def pushTokens (s : TokenSequence) (tokens : List Token) : TokenSequence :=
  tokens.foldl (fun s token => (s.pushToken computeHash token).2) s

end TokenSequence

/-! ## Blocks of a history -/

/-- `b` is chained to the block in front of it. -/
def Chained (a b : TokenBlock) : Prop :=
  b.parentSequenceHash = some a.sequenceHash ∧
    b.sequenceHash = chainHash computeHash a.sequenceHash b.blockHash

namespace TokenSequence

/-- The blocks and the tail are the history, cut into blocks and chained. -/
structure Represents (blockSize : Nat) (history : List Token) (s : TokenSequence) : Prop where
  history : (s.blocks.map (·.tokens)).flatten ++ s.currentBlock.tokens = history
  tail    : s.currentBlock.tokens.length < blockSize
  size    : s.currentBlock.blockSize = blockSize
  full    : ∀ b ∈ s.blocks, b.tokens.length = blockSize
  hashed  : ∀ b ∈ s.blocks, b.blockHash = computeBlockHash computeHash b.tokens
  chained : s.blocks.IsChain (Chained computeHash)
  parent  : s.currentBlock.parentSequenceHash = s.blocks.getLast?.map (·.sequenceHash)

/-- The first block, if there is one, was split off. -/
def SplitFirst (s : TokenSequence) : Prop :=
  ∀ b, s.blocks.head? = some b → b.sequenceHash = b.blockHash ∧ b.parentSequenceHash = none

variable {computeHash} {blockSize : Nat} {history : List Token} {s s' : TokenSequence}

theorem Represents.pushToken (h : s.Represents computeHash blockSize history) (token : Token) :
    (s.pushToken computeHash token).2.Represents computeHash blockSize (history ++ [token]) ∧
      s.blocks <+: (s.pushToken computeHash token).2.blocks := by
  have htokens : ∀ blocks : List TokenBlock, blocks = s.blocks →
      (blocks.map (·.tokens)).flatten ++ (s.currentBlock.tokens ++ [token]) =
        history ++ [token] := by
    rintro blocks rfl
    rw [← List.append_assoc, h.history]
  unfold TokenSequence.pushToken PartialTokenBlock.pushToken
  by_cases hfull : (s.currentBlock.tokens ++ [token]).length = s.currentBlock.blockSize
  · -- the block is full: it is chained to the last one, and the tail is empty
    simp only [hfull, ne_eq, not_true_eq_false, if_false]
    refine ⟨⟨?_, ?_, h.size, ?_, ?_, ?_, ?_⟩, List.prefix_append _ _⟩
    · rw [List.map_append, List.flatten_append, List.append_nil]
      simpa using htokens s.blocks rfl
    · exact Nat.lt_of_le_of_lt (Nat.zero_le _) h.tail
    · intro b hb
      rcases List.mem_append.mp hb with hold | hnew
      · exact h.full b hold
      · rw [List.mem_singleton.mp hnew]
        exact hfull.trans h.size
    · intro b hb
      rcases List.mem_append.mp hb with hold | hnew
      · exact h.hashed b hold
      · rw [List.mem_singleton.mp hnew]
    · refine List.isChain_append.mpr ⟨h.chained, .singleton _, ?_⟩
      rintro a ha b ⟨⟩
      rw [Option.mem_def] at ha
      have hparent : s.currentBlock.parentSequenceHash = some a.sequenceHash := by
        rw [h.parent, ha]
        rfl
      exact ⟨hparent, by rw [hparent, Option.getD_some]⟩
    · rw [List.getLast?_concat]
      rfl
  · -- the token stays in the tail
    simp only [hfull, ne_eq, not_false_eq_true, if_true]
    refine ⟨⟨htokens s.blocks rfl, ?_, h.size, h.full, h.hashed, h.chained, h.parent⟩,
      List.prefix_refl _⟩
    have htail := h.tail
    rw [h.size] at hfull
    simp only [List.length_append, List.length_singleton] at hfull ⊢
    omega

theorem Represents.pushTokens (tokens : List Token) : ∀ {history : List Token} {s : TokenSequence},
    s.Represents computeHash blockSize history →
      (s.pushTokens computeHash tokens).Represents computeHash blockSize (history ++ tokens) ∧
        s.blocks <+: (s.pushTokens computeHash tokens).blocks := by
  induction tokens with
  | nil =>
    intro history s h
    rw [List.append_nil]
    exact ⟨h, List.prefix_refl _⟩
  | cons token tokens ih =>
    intro history s h
    obtain ⟨hone, hfront⟩ := h.pushToken token
    obtain ⟨hall, hrest⟩ := ih hone
    rw [List.append_cons]
    exact ⟨hall, hfront.trans hrest⟩

/-! ## What a history determines -/

/-- A list is cut into pieces of one length in one way. -/
theorem pieces_unique {α : Type} {n : Nat} {pieces pieces' : List (List α)} {tail tail' : List α}
    (hp : ∀ p ∈ pieces, p.length = n) (hp' : ∀ p ∈ pieces', p.length = n)
    (ht : tail.length < n) (ht' : tail'.length < n)
    (heq : pieces.flatten ++ tail = pieces'.flatten ++ tail') :
    pieces = pieces' ∧ tail = tail' := by
  have hlen : ∀ {l : List (List α)}, (∀ p ∈ l, p.length = n) →
      l.map List.length = List.replicate l.length n :=
    fun hl => List.eq_replicate_iff.mpr ⟨List.length_map _, fun k hk => by
      obtain ⟨p, hmem, rfl⟩ := List.mem_map.mp hk
      exact hl p hmem⟩
  -- the number of pieces is the quotient of the length
  have hcount : pieces.length = pieces'.length := by
    have htotal := congrArg List.length heq
    rw [List.length_append, List.length_append, List.length_flatten, List.length_flatten, hlen hp,
      hlen hp', List.sum_replicate_nat, List.sum_replicate_nat] at htotal
    have hdiv := congrArg (· / n) htotal
    simp only [Nat.mul_comm _ n, Nat.mul_add_div (Nat.zero_lt_of_lt ht), Nat.div_eq_of_lt ht,
      Nat.div_eq_of_lt ht', Nat.add_zero] at hdiv
    exact hdiv
  have hmap : pieces.map List.length = pieces'.map List.length := by
    rw [hlen hp, hlen hp', hcount]
  have hflat : pieces.flatten.length = pieces'.flatten.length := by
    rw [List.length_flatten, List.length_flatten, hmap]
  obtain ⟨hfront, hback⟩ := List.append_inj heq hflat
  exact ⟨List.eq_iff_flatten_eq.mpr ⟨hfront, hmap⟩, hback⟩

theorem Represents.tokens_eq (h : s.Represents computeHash blockSize history)
    (h' : s'.Represents computeHash blockSize history) :
    s.blocks.map (·.tokens) = s'.blocks.map (·.tokens) ∧
      s.currentBlock.tokens = s'.currentBlock.tokens := by
  refine pieces_unique ?_ ?_ h.tail h'.tail (h.history.trans h'.history.symm)
  · exact List.forall_mem_map.mpr h.full
  · exact List.forall_mem_map.mpr h'.full

theorem Represents.blockHashes (h : s.Represents computeHash blockSize history) :
    s.blocks.map (·.blockHash) =
      (s.blocks.map (·.tokens)).map (computeBlockHash computeHash) := by
  rw [List.map_map]
  exact List.map_congr_left h.hashed

/-- Chained blocks are determined by the first of them and what they hold. -/
theorem chained_unique : ∀ {blocks blocks' : List TokenBlock},
    blocks.IsChain (Chained computeHash) → blocks'.IsChain (Chained computeHash) →
    blocks.map (·.tokens) = blocks'.map (·.tokens) →
    blocks.map (·.blockHash) = blocks'.map (·.blockHash) →
    blocks.head?.map (fun b => (b.sequenceHash, b.parentSequenceHash)) =
      blocks'.head?.map (fun b => (b.sequenceHash, b.parentSequenceHash)) → blocks = blocks'
  | [], [], _, _, _, _, _ => rfl
  | [], _ :: _, _, _, ht, _, _ => by cases ht
  | _ :: _, [], _, _, ht, _, _ => by cases ht
  | b :: blocks, b' :: blocks', hc, hc', ht, hb, hfirst => by
    rw [List.map_cons, List.map_cons, List.cons.injEq] at ht hb
    simp only [List.head?_cons, Option.map_some, Option.some.injEq, Prod.mk.injEq] at hfirst
    have hself : b = b' := by
      obtain ⟨tokens, blockHash, sequenceHash, parentSequenceHash⟩ := b
      simp only at ht hb hfirst
      rw [ht.1, hb.1, hfirst.1, hfirst.2]
    subst hself
    refine congrArg (b :: ·) (chained_unique hc.tail hc'.tail ht.2 hb.2 ?_)
    -- the second blocks are chained to the same first one
    cases blocks with
    | nil =>
      cases blocks' with
      | nil => rfl
      | cons _ _ => cases ht.2
    | cons c blocks =>
      cases blocks' with
      | nil => cases ht.2
      | cons c' blocks' =>
        obtain ⟨hparent, hseq⟩ := (List.isChain_cons_cons.mp hc).1
        obtain ⟨hparent', hseq'⟩ := (List.isChain_cons_cons.mp hc').1
        rw [List.map_cons, List.map_cons, List.cons.injEq] at hb
        simp only [List.head?_cons, Option.map_some, hparent, hparent', hseq, hseq', hb.2.1]

/-- Two sequences of one history whose first blocks were split off are equal. -/
theorem Represents.eq (h : s.Represents computeHash blockSize history)
    (h' : s'.Represents computeHash blockSize history) (hfirst : s.SplitFirst)
    (hfirst' : s'.SplitFirst) : s = s' := by
  obtain ⟨htokens, htail⟩ := h.tokens_eq h'
  have hhashes : s.blocks.map (·.blockHash) = s'.blocks.map (·.blockHash) := by
    rw [h.blockHashes, h'.blockHashes, htokens]
  have hhead : s.blocks.head?.map (fun b => (b.sequenceHash, b.parentSequenceHash)) =
      s'.blocks.head?.map (fun b => (b.sequenceHash, b.parentSequenceHash)) := by
    -- a first block that was split off has its block hash as sequence hash
    have hsame : s.blocks.head?.map (·.blockHash) = s'.blocks.head?.map (·.blockHash) := by
      rw [← List.head?_map, ← List.head?_map, hhashes]
    cases hb : s.blocks.head? with
    | none =>
      cases hb' : s'.blocks.head? with
      | none => rfl
      | some b' =>
        rw [hb, hb'] at hsame
        cases hsame
    | some b =>
      cases hb' : s'.blocks.head? with
      | none =>
        rw [hb, hb'] at hsame
        cases hsame
      | some b' =>
        rw [hb, hb'] at hsame
        simp only [Option.map_some, Option.some.injEq] at hsame ⊢
        rw [(hfirst b hb).1, (hfirst b hb).2, (hfirst' b' hb').1, (hfirst' b' hb').2, hsame]
  have hblocks := chained_unique h.chained h'.chained htokens hhashes hhead
  have hparent := h.parent.trans ((congrArg (·.getLast?.map (·.sequenceHash)) hblocks).trans
    h'.parent.symm)
  have hsize := h.size.trans h'.size.symm
  obtain ⟨blocks, tokens, size, parent⟩ := s
  simp only at hblocks htail hsize hparent
  rw [hblocks, htail, hsize, hparent]

/-! ## Splitting -/

/-- The first `n` turns of the loop of `split_tokens`. -/
theorem splitLoop_spec (computeHash) (hsize : 0 < blockSize) {tokens : List Token} : ∀ {n : Nat},
    n * blockSize ≤ tokens.length →
      let blocks := (List.range n).foldl (fun blocks i =>
        blocks ++ [splitBlock computeHash blocks
          ((tokens.drop (i * blockSize)).take blockSize)]) []
      (blocks.map (·.tokens)).flatten = tokens.take (n * blockSize) ∧
        (∀ b ∈ blocks, b.tokens.length = blockSize ∧
          b.blockHash = computeBlockHash computeHash b.tokens) ∧
        blocks.IsChain (Chained computeHash) ∧
        (∀ b, blocks.head? = some b → b.sequenceHash = b.blockHash ∧
          b.parentSequenceHash = none) ∧
        blocks.map (·.blockHash) = (List.range n).map fun i =>
          computeBlockHash computeHash ((tokens.drop (i * blockSize)).take blockSize)
  | 0, _ => by simp
  | n + 1, hn => by
    rw [Nat.add_mul, Nat.one_mul] at hn
    have ih := splitLoop_spec computeHash hsize (by omega : n * blockSize ≤ tokens.length)
    rw [List.range_succ, List.foldl_append, List.foldl_cons, List.foldl_nil]
    generalize (List.range n).foldl _ [] = blocks at ih ⊢
    obtain ⟨htokens, hblocks, hchain, hfirst, hhashes⟩ := ih
    -- the tokens and the block hash of a new block, wherever it stands
    have hnew : (splitBlock computeHash blocks
          ((tokens.drop (n * blockSize)).take blockSize)).tokens =
            (tokens.drop (n * blockSize)).take blockSize ∧
        (splitBlock computeHash blocks
          ((tokens.drop (n * blockSize)).take blockSize)).blockHash =
            computeBlockHash computeHash ((tokens.drop (n * blockSize)).take blockSize) := by
      unfold splitBlock
      cases blocks.getLast? <;> exact ⟨rfl, rfl⟩
    have hlen : ((tokens.drop (n * blockSize)).take blockSize).length = blockSize := by
      rw [List.length_take, List.length_drop]
      omega
    refine ⟨?_, ?_, ?_, ?_, ?_⟩
    · rw [List.map_append, List.flatten_append, htokens, List.map_singleton, List.flatten_singleton,
        hnew.1, Nat.add_mul, Nat.one_mul, List.take_add]
    · intro b hb
      rcases List.mem_append.mp hb with hold | hb
      · exact hblocks b hold
      · rw [List.mem_singleton.mp hb, hnew.1, hnew.2]
        exact ⟨hlen, rfl⟩
    · -- the new block is chained to the last one, if there is one
      refine List.isChain_append.mpr ⟨hchain, .singleton _, ?_⟩
      rintro a ha b ⟨⟩
      rw [Option.mem_def] at ha
      unfold splitBlock
      rw [ha]
      exact ⟨rfl, rfl⟩
    · intro b hb
      cases hhead : blocks.head? with
      | some first =>
        rw [List.head?_append, hhead] at hb
        cases hb
        exact hfirst b hhead
      | none =>
        obtain rfl := List.head?_eq_none_iff.mp hhead
        cases hb
        exact ⟨rfl, rfl⟩
    · rw [List.map_append, hhashes, List.map_append, List.map_singleton, List.map_singleton, hnew.2]

theorem ofTokens_represents (computeHash) (hsize : 0 < blockSize) (tokens : List Token) :
    (ofTokens computeHash tokens blockSize).Represents computeHash blockSize tokens ∧
      (ofTokens computeHash tokens blockSize).SplitFirst := by
  have hfits : tokens.length / blockSize * blockSize ≤ tokens.length := Nat.div_mul_le_self _ _
  obtain ⟨htokens, hblocks, hchain, hfirst, -⟩ :=
    splitLoop_spec computeHash hsize hfits
  unfold ofTokens splitTokens
  rw [if_neg (Nat.ne_of_gt hsize)]
  refine ⟨⟨?_, ?_, rfl, fun b hb => (hblocks b hb).1, fun b hb => (hblocks b hb).2, hchain, rfl⟩,
    hfirst⟩
  · show _ ++ tokens.drop (tokens.length / blockSize * blockSize) = tokens
    rw [htokens, List.take_append_drop]
  · show (tokens.drop (tokens.length / blockSize * blockSize)).length < blockSize
    rw [List.length_drop, Nat.mul_comm]
    have hmod := Nat.mod_lt tokens.length hsize
    have hsplit := Nat.div_add_mod tokens.length blockSize
    omega

theorem blockHashes_splitTokens (hsize : 0 < blockSize) (tokens : List Token) :
    KvRouter.computeBlockHashesForSeq computeHash tokens blockSize =
      (splitTokens computeHash tokens blockSize).1.map (·.blockHash) := by
  have hfits : tokens.length / blockSize * blockSize ≤ tokens.length := Nat.div_mul_le_self _ _
  obtain ⟨-, -, -, -, hhashes⟩ := splitLoop_spec computeHash hsize hfits
  unfold KvRouter.computeBlockHashesForSeq splitTokens
  rw [if_neg (Nat.ne_of_gt hsize), if_neg (Nat.ne_of_gt hsize)]
  exact hhashes.symm

end TokenSequence

/-! ## Main result -/

/-- **Growing agrees with splitting.**  A sequence to which tokens are pushed has the
    blocks, block hashes and tail of the sequence that is split at once, and is equal to it
    if it started with a full block.  In every sequence the blocks and the tail are the
    tokens, and the blocks are chained.  The hashes of a request are the block hashes. -/
theorem growing_agrees_with_splitting {blockSize : Nat} (hsize : 0 < blockSize) :
    (∀ xs ys : List Token,
      let pushed := (TokenSequence.ofTokens computeHash xs blockSize).pushTokens computeHash ys
      let split := TokenSequence.ofTokens computeHash (xs ++ ys) blockSize
      pushed.blocks.map (·.tokens) = split.blocks.map (·.tokens) ∧
        pushed.blocks.map (·.blockHash) = split.blocks.map (·.blockHash) ∧
        pushed.currentBlock.tokens = split.currentBlock.tokens ∧
        (blockSize ≤ xs.length → pushed = split) ∧
        (pushed.blocks.map (·.tokens)).flatten ++ pushed.currentBlock.tokens = xs ++ ys ∧
        pushed.currentBlock.tokens.length < blockSize ∧
        pushed.blocks.IsChain (Chained computeHash)) ∧
    ∀ tokens : List Token, KvRouter.computeBlockHashesForSeq computeHash tokens blockSize =
      (splitTokens computeHash tokens blockSize).1.map (·.blockHash) := by
  refine ⟨fun xs ys => ?_, TokenSequence.blockHashes_splitTokens hsize⟩
  obtain ⟨hstart, hfirst⟩ :=
    TokenSequence.ofTokens_represents computeHash hsize xs
  obtain ⟨hpushed, hfront⟩ := hstart.pushTokens ys
  obtain ⟨hsplit, hfirst'⟩ :=
    TokenSequence.ofTokens_represents computeHash hsize (xs ++ ys)
  obtain ⟨htokens, htail⟩ := hpushed.tokens_eq hsplit
  refine ⟨htokens, ?_, htail, fun hlong => ?_, hpushed.history, hpushed.tail, hpushed.chained⟩
  · rw [hpushed.blockHashes, hsplit.blockHashes, htokens]
  · refine hpushed.eq hsplit ?_ hfirst'
    -- the first block is the one that was split off before anything was pushed
    intro b hb
    refine hfirst b ?_
    obtain ⟨rest, hrest⟩ := hfront
    cases hblocks : (TokenSequence.ofTokens computeHash xs blockSize).blocks with
    | nil =>
      have hhistory := hstart.history
      have hshort := hstart.tail
      rw [hblocks, List.map_nil, List.flatten_nil, List.nil_append] at hhistory
      rw [hhistory] at hshort
      omega
    | cons first blocks =>
      rw [← hrest, hblocks] at hb
      exact hb

end

/-- A hash that tells short inputs apart. -/
def toyHash (bytes : Bytes) : UInt64 :=
  bytes.foldl (fun hash byte => 31 * hash + UInt64.ofNat byte.toNat + 1) 7

/-- Three tokens in blocks of two, and three more.  Without a full block at the start the
    sequence hashes differ. -/
theorem growing_agrees_two :
    (TokenSequence.ofTokens toyHash [1, 2, 3] 2).pushTokens toyHash [4, 5, 6] =
        TokenSequence.ofTokens toyHash [1, 2, 3, 4, 5, 6] 2 ∧
      ((TokenSequence.ofTokens toyHash [1] 2).pushTokens toyHash [2]).blocks ≠
        (TokenSequence.ofTokens toyHash [1, 2] 2).blocks :=
  ⟨(((growing_agrees_with_splitting toyHash (by decide)).1 [1, 2, 3] [4, 5, 6]).2.2.2.1)
    (by decide), by decide +kernel⟩

end DynamoCpp.Llm
