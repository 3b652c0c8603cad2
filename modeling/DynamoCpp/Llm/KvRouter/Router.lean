import DynamoCpp.Llm.KvRouter.Held
import DynamoCpp.Llm.KvRouter.Scheduler

/-! # The KV router

    `llm/kv_router/router.cpp`: the indexer scores the blocks of a request, and the
    scheduler picks a worker by the scores.  Whatever events have built the tree, a query
    of `n` blocks scores at most `n`: each step of the walk visits one block and counts a
    worker once, even if the same block is visited again.
-/

open Framework

namespace DynamoCpp.Llm.KvRouter

section

variable (computeHash : Bytes → UInt64) {K : Type} [Field K] [LinearOrder K]

structure KvIndexer where
  tree        : RadixTree := {}
  kvBlockSize : Nat

namespace KvIndexer

def findMatches (ix : KvIndexer) (now : Int) (sequence : List LocalBlockHash) :
    OverlapScores × KvIndexer :=
  let result := ix.tree.findMatches now sequence false
  (result.1, { ix with tree := result.2 })

def findMatchesForRequest (ix : KvIndexer) (now : Int) (tokens : List Token) :
    OverlapScores × KvIndexer :=
  ix.findMatches now (computeBlockHashesForSeq computeHash tokens ix.kvBlockSize)

end KvIndexer

/-- `KvRouter`: both parts are constructed with the same block size. -/
structure Router (K : Type) [Field K] where
  indexer   : KvIndexer
  scheduler : KvScheduler K
  sameSize  : scheduler.kvBlockSize = indexer.kvBlockSize

/-- `schedule_impl` up to the publication of the event: the worker and the event. -/
def Router.schedule (router : Router K) (now : Int) (tokens : List Token) :
    Except SchedulerError (WorkerId × KVHitRateEvent) × Router K :=
  let found := router.indexer.findMatchesForRequest computeHash now tokens
  let decision := router.scheduler.schedule ⟨found.1, tokens.length⟩
  (decision.1, ⟨found.2, decision.2, router.sameSize⟩)

/-! ## Scores -/

/-- A counter of 32 bits does not show more than was counted. -/
theorem score_le_length (t : RadixTree) (now : Int) (p : List LocalBlockHash) (earlyExit : Bool)
    (w : WorkerId) : ((t.findMatches now p earlyExit).1.score w).toNat ≤ p.length := by
  -- with early exit the query is one for a prefix
  obtain ⟨k, hk⟩ := RadixTree.findMatchesFrom_earlyExit now earlyExit p t root {}
  have hscore := RadixTree.score_findMatches t now (p.take k) w
  unfold RadixTree.findMatches at hscore ⊢
  rw [hk, hscore, UInt32.toNat_ofNat']
  calc t.edges.visits (t.carries w) root (p.take k) % 2 ^ 32
      ≤ t.edges.visits (t.carries w) root (p.take k) := Nat.mod_le _ _
    _ ≤ (p.take k).length := EdgeGraph.visits_le_length
    _ ≤ p.length := List.length_take_le' _ _

theorem length_computeBlockHashesForSeq (tokens : List Token) (kvBlockSize : Nat) :
    (computeBlockHashesForSeq computeHash tokens kvBlockSize).length =
      tokens.length / kvBlockSize := by
  unfold computeBlockHashesForSeq
  by_cases hzero : kvBlockSize = 0
  · rw [if_pos hzero, hzero, Nat.div_zero, List.length_nil]
  · rw [if_neg hzero, List.length_map, List.length_range]

theorem islBlocks_eq (islTokens kvBlockSize : Nat) :
    islBlocks islTokens kvBlockSize = islTokens / kvBlockSize := by
  unfold islBlocks
  by_cases hzero : kvBlockSize = 0
  · rw [if_pos hzero, hzero, Nat.div_zero]
  · rw [if_neg hzero]

/-- **The overlap never exceeds the request.**  For any tree, a worker scores at most the
    number of full blocks of the tokens.  So the overlap in the cost of an endpoint is at
    most the number of tokens, and the event of a decision reports no more blocks of
    overlap than the request has. -/
theorem overlap_le_request (router : Router K) (now : Int) (tokens : List Token) :
    let found := router.indexer.findMatchesForRequest computeHash now tokens
    (∀ (earlyExit : Bool) (w : WorkerId),
      ((router.indexer.tree.findMatches now
        (computeBlockHashesForSeq computeHash tokens router.indexer.kvBlockSize)
          earlyExit).1.score w).toNat ≤ tokens.length / router.indexer.kvBlockSize) ∧
    (∀ w : WorkerId, (found.1.score w).toNat ≤ tokens.length / router.indexer.kvBlockSize) ∧
    (∀ e : Endpoint,
      overlapTokens found.1 router.scheduler.kvBlockSize e ≤ tokens.length) ∧
    ∀ worker event, (router.schedule computeHash now tokens).1 = .ok (worker, event) →
      event.overlapBlocks ≤ event.islBlocks := by
  intro found
  have hscore : ∀ (earlyExit : Bool) (w : WorkerId),
      ((router.indexer.tree.findMatches now
        (computeBlockHashesForSeq computeHash tokens router.indexer.kvBlockSize)
          earlyExit).1.score w).toNat ≤ tokens.length / router.indexer.kvBlockSize := by
    intro earlyExit w
    rw [← length_computeBlockHashesForSeq computeHash]
    exact score_le_length _ _ _ _ _
  have hfound : ∀ w, (found.1.score w).toNat ≤ tokens.length / router.indexer.kvBlockSize :=
    hscore false
  refine ⟨hscore, hfound, fun e => ?_, fun worker event hok => ?_⟩
  · -- the product does not wrap around: it is at most the number of tokens
    rw [router.sameSize]
    calc (found.1.score e.workerId).toNat * router.indexer.kvBlockSize % UInt64.size
        ≤ (found.1.score e.workerId).toNat * router.indexer.kvBlockSize := Nat.mod_le _ _
      _ ≤ tokens.length / router.indexer.kvBlockSize * router.indexer.kvBlockSize :=
        Nat.mul_le_mul_right _ (hfound e.workerId)
      _ ≤ tokens.length := Nat.div_mul_le_self _ _
  · have hok' : (router.scheduler.schedule ⟨found.1, tokens.length⟩).1 = .ok (worker, event) := hok
    rcases router.scheduler.schedule_cases ⟨found.1, tokens.length⟩ with
      ⟨-, -, heq⟩ | ⟨-, -, -, heq⟩ | ⟨i, w, -, -, heq⟩
    · rw [heq] at hok'
      cases hok'
    · rw [heq] at hok'
      cases hok'
    · rw [heq] at hok'
      cases hok'
      simp only [islBlocks_eq, router.sameSize]
      exact hfound w.workerId

end

end DynamoCpp.Llm.KvRouter
