import DynamoCpp.Framework.EdgeGraph
import DynamoCpp.Framework.OrderedMap
import DynamoCpp.Framework.System

/-! # The KV radix indexer

    `RadixTree`: a prefix tree over block hashes with per-worker attribution.
    Nodes are shared by several parents and by the jump tables of the workers,
    so the tree is a heap of blocks.  A block that nothing refers to any more
    stays in the heap, where nothing can see it.

    `KvIndexer` runs every operation under one mutex, so an indexer is a
    sequence of operations on the tree.
-/

namespace DynamoCpp.Llm.KvRouter

open Framework

/-! ## Events -/

/-- Identifier of the worker that emits the events. -/
abbrev WorkerId : Type := Int64

/-- Hash of the tokens within one block. -/
abbrev LocalBlockHash : Type := UInt64

/-- The engine's hash of a block, opaque to the router. -/
abbrev ExternalSequenceBlockHash : Type := UInt64

structure KvCacheStoredBlockData where
  blockHash  : ExternalSequenceBlockHash := 0
  tokensHash : LocalBlockHash := 0

structure KvCacheStoreData where
  parentHash : Option ExternalSequenceBlockHash := none
  blocks     : List KvCacheStoredBlockData := []

structure KvCacheRemoveData where
  blockHashes : List ExternalSequenceBlockHash := []

inductive KvCacheEventData where
  | stored (op : KvCacheStoreData)
  | removed (op : KvCacheRemoveData)

structure RouterEvent where
  workerId : WorkerId
  data     : KvCacheEventData

/-! ## The tree -/

/-- The address of a block. -/
abbrev BlockId : Type := Nat

structure Block where
  children   : OrdMap LocalBlockHash BlockId := ∅
  workers    : OrdSet WorkerId := ∅
  /-- Times of the latest uses, oldest first. -/
  recentUses : List Int := []

structure RadixTree where
  heap               : BlockId → Block := fun _ => {}
  /-- Where `std::make_shared<Block>()` puts the next block. -/
  next               : BlockId := 1
  /-- Per-worker jump table from engine block hash into the tree. -/
  lookup             : OrdMap WorkerId (OrdMap ExternalSequenceBlockHash BlockId) := ∅
  expirationDuration : Option Int := none

/-- The address of `root_`. -/
def root : BlockId := 0

namespace RadixTree

/-- Changes one block in place. -/
def modify (t : RadixTree) (b : BlockId) (f : Block → Block) : RadixTree :=
  { t with heap := Function.update t.heap b (f (t.heap b)) }

/-- The jump table of a worker, empty if it has none. -/
def table (t : RadixTree) (w : WorkerId) : OrdMap ExternalSequenceBlockHash BlockId :=
  (t.lookup[w]?).getD ∅

def setTable (t : RadixTree) (w : WorkerId) (m : OrdMap ExternalSequenceBlockHash BlockId) :
    RadixTree :=
  { t with lookup := t.lookup.insert w m }

end RadixTree

/-! ## Queries -/

structure OverlapScores where
  scores      : OrdMap WorkerId UInt32 := ∅
  /-- Non-zero recent-use counts of the traversed blocks. -/
  frequencies : List Nat := []

def OverlapScores.score (s : OverlapScores) (w : WorkerId) : UInt32 := (s.scores[w]?).getD 0

/-- `++scores.scores[worker]`. -/
def OverlapScores.increment (s : OverlapScores) (w : WorkerId) : OverlapScores :=
  { s with scores := s.scores.insert w (s.score w + 1) }

namespace RadixTree

/-- The frequency tracking of `find_matches` on a matched block. -/
def trackUse (t : RadixTree) (now : Int) (b : BlockId) (s : OverlapScores) :
    OverlapScores × RadixTree :=
  match t.expirationDuration with
  | none => (s, t)
  | some expiration =>
    let uses := (t.heap b).recentUses.dropWhile fun use => now - use > expiration
    ({ s with
        frequencies := if uses.isEmpty then s.frequencies else s.frequencies ++ [uses.length] },
      t.modify b fun block => { block with recentUses := uses ++ [now] })

/-- The loop of `find_matches` from `current`. -/
def findMatchesFrom (now : Int) (earlyExit : Bool) :
    RadixTree → BlockId → List LocalBlockHash → OverlapScores → OverlapScores × RadixTree
  | t, _, [], s => (s, t)
  | t, current, blockHash :: rest, s =>
    match (t.heap current).children[blockHash]? with
    | none => (s, t)
    | some block =>
      let workers := (t.heap block).workers
      let r := t.trackUse now block (workers.toList.foldl OverlapScores.increment s)
      if earlyExit && workers.size == 1 then r
      else findMatchesFrom now earlyExit r.2 block rest r.1

def findMatches (t : RadixTree) (now : Int) (sequence : List LocalBlockHash) (earlyExit : Bool) :
    OverlapScores × RadixTree :=
  findMatchesFrom now earlyExit t root sequence {}

/-! ## Events -/

/-- The block at `current` along `tokensHash`: an existing edge, or a new edge
    to the worker's block for this engine hash (re-parent case) or to a fresh
    block. -/
def attach (w : WorkerId) (t : RadixTree) (current : BlockId) (d : KvCacheStoredBlockData) :
    RadixTree × BlockId :=
  let link (t : RadixTree) (block : BlockId) : RadixTree × BlockId :=
    (t.modify current fun b => { b with children := b.children.insert d.tokensHash block }, block)
  match (t.heap current).children[d.tokensHash]? with
  | some block => (t, block)
  | none =>
    match (t.table w)[d.blockHash]? with
    | some block => link t block
    | none => link { t with next := t.next + 1 } t.next

/-- One turn of the stored loop: the new tree and the new `current`. -/
def storeBlock (w : WorkerId) (r : RadixTree × BlockId) (d : KvCacheStoredBlockData) :
    RadixTree × BlockId :=
  let a := attach w r.1 r.2 d
  let t := a.1.modify a.2 fun b => { b with workers := b.workers.insert w }
  (t.setTable w ((t.table w).insert d.blockHash a.2), a.2)

/-- Where a stored event starts; `none` if its parent is unknown. -/
def parentBlock (t : RadixTree) (w : WorkerId) (op : KvCacheStoreData) : Option BlockId :=
  match op.parentHash with
  | none => some root
  | some hash => (t.table w)[hash]?

/-- The stored branch of `apply_event`. -/
def applyStored (w : WorkerId) (t : RadixTree) (op : KvCacheStoreData) : RadixTree :=
  match t.parentBlock w op with
  | none => t
  | some current => (op.blocks.foldl (storeBlock w) (t, current)).1

/-- One turn of the removed loop; an unknown hash is skipped. -/
def removeHash (w : WorkerId) (t : RadixTree) (hash : ExternalSequenceBlockHash) : RadixTree :=
  match (t.table w)[hash]? with
  | none => t
  | some block =>
    let t := t.modify block fun b =>
      let workers := b.workers.erase w
      { b with workers := workers, children := if workers.isEmpty then ∅ else b.children }
    t.setTable w ((t.table w).erase hash)

/-- `lookup_[worker_id]`, which creates the table. -/
def touch (t : RadixTree) (w : WorkerId) : RadixTree := t.setTable w (t.table w)

def applyEvent (t : RadixTree) (e : RouterEvent) : RadixTree :=
  match e.data with
  | .stored op => applyStored e.workerId (t.touch e.workerId) op
  | .removed op => op.blockHashes.foldl (removeHash e.workerId) (t.touch e.workerId)

/-- Drops the worker from the blocks of its table, and the table. -/
def removeWorker (t : RadixTree) (w : WorkerId) : RadixTree :=
  match t.lookup[w]? with
  | none => t
  | some blocks =>
    let t := blocks.toList.foldl
      (fun t entry => t.modify entry.2 fun b => { b with workers := b.workers.erase w }) t
    { t with lookup := t.lookup.erase w }

end RadixTree

/-! ## Runs -/

/-- One call of the indexer. -/
inductive Op where
  | applyEvent (e : RouterEvent)
  | removeWorker (w : WorkerId)
  | findMatches (now : Int) (sequence : List LocalBlockHash) (earlyExit : Bool)

def RadixTree.apply (t : RadixTree) : Op → RadixTree
  | .applyEvent e => t.applyEvent e
  | .removeWorker w => t.removeWorker w
  | .findMatches now sequence earlyExit => (t.findMatches now sequence earlyExit).2

/-- An indexer from its construction on. -/
def indexer (expirationDuration : Option Int) : System RadixTree Op where
  init := { expirationDuration := expirationDuration }
  exec := fun t op => some (t.apply op)

end DynamoCpp.Llm.KvRouter
