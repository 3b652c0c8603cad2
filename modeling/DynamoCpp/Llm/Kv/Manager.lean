import DynamoCpp.Framework.System
import DynamoCpp.Llm.Kv.Reserved

/-! # The KV storage manager and its clients

    `llm/kv/manager.h`: a prefill is prepared in two phases, first the match of
    the request's blocks against inflight and parked ones, then the allocation
    of pool blocks for what remains.

    A client of the manager holds handles: it moves, assigns, overwrites and
    destroys them and passes them to the manager's operations.
-/

namespace DynamoCpp.Llm.Kv

open Framework

/-! ## Preparing a prefill -/

structure Setup where
  /-- XXH3-64 with the seed of the program. -/
  computeHash : Bytes → UInt64
  blockSize   : Nat

/-- Result of the match phase. -/
structure PrefillMatched where
  inflightBlocks  : List InnerId
  remainingBlocks : List TokenBlock
  tailBlock       : PartialTokenBlock

/-- Result of the allocation phase.  Every block of it is in a handle that owns it. -/
structure PrefillOffload where
  inflightBlocks        : List InnerId
  completePrefillBlocks : List InsertedBlock
  tailPrefillBlock      : PartialTokenBlock × InsertedBlock

def PrefillOffload.blocks (o : PrefillOffload) : List InsertedBlock :=
  o.completePrefillBlocks ++ [o.tailPrefillBlock.2]

namespace KvStorageManager

/-- Destroys a vector of `ReservedBlock`s. -/
def dropAll (m : KvStorageManager) (inners : List InnerId) : KvStorageManager :=
  inners.foldl drop m

/-- Destroys a vector of `UniqueBlock`s. -/
def releaseAll (m : KvStorageManager) (blocks : List InsertedBlock) : KvStorageManager :=
  blocks.foldl (fun m block => m.release (.owning block)) m

/-- The promotion of the reusable blocks.  If one of them cannot be registered,
    the rest of them and then the inflight blocks are destroyed. -/
def promote (blockSize : Nat) :
    List InsertedBlock → List InnerId → KvStorageManager →
      Except Exception (List InnerId) × KvStorageManager
  | [], inflight, m => (.ok inflight, m)
  | block :: reusable, inflight, m =>
    match m.registerBlock blockSize (.owning block) with
    | (.error e, m) => (.error e, (m.releaseAll reusable).dropAll inflight)
    | (.ok i, m) => promote blockSize reusable (inflight ++ [i]) m

/-- Matches the blocks against inflight ones, then the unmatched rest against
    parked ones, which become inflight. -/
def matchPrefill (blockSize : Nat) (m : KvStorageManager) (blocks : List TokenBlock) :
    Except Exception (List InnerId) × KvStorageManager :=
  let inflight := m.inflightBlocks.matchTokenBlocks blocks
  let unmatched := blocks.drop inflight.1.length
  let reusable := m.availableBlocks.matchTokenBlocks unmatched
  promote blockSize reusable.1 inflight.1 ⟨reusable.2, inflight.2⟩

def preparePrefillSequence (setup : Setup) (m : KvStorageManager) (tokens : List Token) :
    Except Exception PrefillMatched × KvStorageManager :=
  let split := splitTokens setup.computeHash tokens setup.blockSize
  match m.matchPrefill setup.blockSize split.1 with
  | (.error e, m) => (.error e, m)
  | (.ok inflight, m) =>
    (.ok
      { inflightBlocks := inflight
        remainingBlocks := split.1.drop inflight.length
        tailBlock := split.2 }, m)

/-- Assigns every remaining token block to the last of the blocks left. -/
def assign : List TokenBlock → List InsertedBlock → List InsertedBlock →
    List InsertedBlock × List InsertedBlock
  | [], complete, blocksToReuse => (complete, blocksToReuse)
  | tokenBlock :: remaining, complete, blocksToReuse =>
    match blocksToReuse.getLast? with
    | none => (complete, blocksToReuse)
    | some block =>
      assign remaining (complete ++ [{ block with tokenBlock := tokenBlock }])
        blocksToReuse.dropLast

/-- What `prepare_prefill_offload` throws. -/
def shortage (expected got : Nat) : Exception :=
  .runtimeError (str "kv manager: expected " ++ str (toString expected) ++ str " blocks, got " ++
    str (toString got))

def preparePrefillOffload (m : KvStorageManager) (matched : PrefillMatched) :
    Except Exception PrefillOffload × KvStorageManager :=
  let needed := matched.remainingBlocks.length + 1
  -- the number of remaining blocks is cast to 32 bits before the addition
  match m.availableBlocks.takeBlocks (UInt32.ofNat matched.remainingBlocks.length + 1) with
  | (.error e, pool) =>
    (.error e, { m with availableBlocks := pool }.dropAll matched.inflightBlocks)
  | (.ok blocksToReuse, pool) =>
    let m := { m with availableBlocks := pool }
    if blocksToReuse.length ≠ needed then
      (.error (shortage needed blocksToReuse.length),
        (m.releaseAll blocksToReuse).dropAll matched.inflightBlocks)
    else
      let r := assign matched.remainingBlocks [] blocksToReuse
      match r.2.getLast? with
      | some tail =>
        (.ok
          { inflightBlocks := matched.inflightBlocks
            completePrefillBlocks := r.1
            tailPrefillBlock := (matched.tailBlock, tail) }, m.releaseAll r.2.dropLast)
      | none =>
        -- not reached: the size was checked, and one block is left for the tail
        (.error (shortage needed blocksToReuse.length), m.releaseAll r.1)

end KvStorageManager

/-! ## Clients -/

/-- A manager and what its clients hold. -/
structure World where
  manager  : KvStorageManager := {}
  /-- The live `UniqueBlock`s outside of the registry. -/
  handles  : List UniqueBlock := []
  /-- The blocks that `take()` detached. -/
  detached : List Nat := []
  /-- How many blocks were inserted. -/
  inserts  : Nat := 0

/-- One call of a client.  Handles are named by their position and reserved
    blocks by their inner. -/
inductive Op where
  | insert (block : KvBlock)
  | matchBlocks (hashes : List SequenceHash)
  | matchTokenBlocks (tokenBlocks : List TokenBlock)
  | takeBlocks (count : UInt32)
  | updatePriorities (updates : List (SequenceHash × UInt32))
  | reset (hashes : List SequenceHash)
  | resetAll
  | construct
  | moveConstruct (src : Nat)
  | moveAssign (dst src : Nat)
  | write (handle : Nat) (block : KvBlock)
  | take (handle : Nat)
  | destroy (handle : Nat)
  | registerBlock (handle : Nat)
  | matchSequenceHashes (hashes : List SequenceHash)
  | matchInflightTokenBlocks (tokenBlocks : List TokenBlock)
  | copyReserved (inner : InnerId)
  | dropReserved (inner : InnerId)
  | preparePrefillSequence (tokens : List Token)
  | preparePrefillOffload (matched : PrefillMatched)

namespace World

def setPool (w : World) (pool : AvailableBlocksState) : World :=
  { w with manager := { w.manager with availableBlocks := pool } }

def setInflight (w : World) (inflight : ReservedBlocks) : World :=
  { w with manager := { w.manager with inflightBlocks := inflight } }

/-- The client receives handles that own the blocks. -/
def receive (w : World) (blocks : List InsertedBlock) : World :=
  { w with handles := w.handles ++ blocks.map .owning }

/-- The clients hold as many reserved blocks of every inner as the list has. -/
def holds (w : World) (inners : List InnerId) : Bool :=
  inners.all fun i =>
    match w.manager.inflightBlocks.inners[i]? with
    | none => false
    | some inner => inners.count i ≤ inner.useCount

def takeBlocks (w : World) (count : UInt32) : World :=
  match w.manager.availableBlocks.takeBlocks count with
  | (.error _, pool) => w.setPool pool
  | (.ok taken, pool) => (w.setPool pool).receive taken

/-- The destination releases its block and gets what the source has. -/
def moveAssign (w : World) (dst src : Nat) : Option World := do
  let old ← w.handles[dst]?
  let new ← w.handles[src]?
  if dst = src then return w
  return { w with
    manager := w.manager.release old
    handles := (w.handles.set dst new).set src .empty }

def take (w : World) (handle : Nat) : Option World := do
  match ← w.handles[handle]? with
  | .empty => none
  | .moved _ => return { w with handles := w.handles.set handle .empty }
  | .owning block =>
    return { w with
      handles := w.handles.set handle .empty
      detached := block.id :: w.detached }

def preparePrefillOffload (w : World) (matched : PrefillMatched) : World :=
  match w.manager.preparePrefillOffload matched with
  | (.error _, m) => { w with manager := m }
  | (.ok offload, m) => { w with manager := m }.receive offload.blocks

/-- One step; `none` where the client has no such handle or the call is undefined. -/
def exec (setup : Setup) (w : World) : Op → Option World
  | .insert block =>
    some { w.setPool (w.manager.availableBlocks.insert { block with id := w.inserts }) with
      inserts := w.inserts + 1 }
  | .matchBlocks hashes =>
    let r := w.manager.availableBlocks.matchBlocks hashes
    some ((w.setPool r.2).receive r.1)
  | .matchTokenBlocks tokenBlocks =>
    let r := w.manager.availableBlocks.matchTokenBlocks tokenBlocks
    some ((w.setPool r.2).receive r.1)
  | .takeBlocks count => some (w.takeBlocks count)
  | .updatePriorities updates =>
    some (w.setPool (w.manager.availableBlocks.updatePriorities updates))
  | .reset hashes => some (w.setPool (w.manager.availableBlocks.reset hashes))
  | .resetAll => some (w.setPool w.manager.availableBlocks.resetAll.2)
  | .construct => some { w with handles := w.handles ++ [.empty] }
  | .moveConstruct src => do
    let h ← w.handles[src]?
    return { w with handles := w.handles.set src h.moveFrom ++ [h] }
  | .moveAssign dst src => w.moveAssign dst src
  | .write handle block => do
    let h ← w.handles[handle]?
    let h ← h.write block
    return { w with handles := w.handles.set handle h }
  | .take handle => w.take handle
  | .destroy handle => do
    let h ← w.handles[handle]?
    return { w with manager := w.manager.release h, handles := w.handles.eraseIdx handle }
  | .registerBlock handle => do
    let h ← w.handles[handle]?
    return { w with
      manager := (w.manager.registerBlock setup.blockSize h).2
      handles := w.handles.set handle h.moveFrom }
  | .matchSequenceHashes hashes =>
    some (w.setInflight (w.manager.inflightBlocks.matchSequenceHashes hashes).2)
  | .matchInflightTokenBlocks tokenBlocks =>
    some (w.setInflight (w.manager.inflightBlocks.matchTokenBlocks tokenBlocks).2)
  | .copyReserved inner =>
    if w.holds [inner] then some (w.setInflight (w.manager.inflightBlocks.acquire inner)) else none
  | .dropReserved inner =>
    if w.holds [inner] then some { w with manager := w.manager.drop inner } else none
  | .preparePrefillSequence tokens =>
    some { w with manager := (w.manager.preparePrefillSequence setup tokens).2 }
  | .preparePrefillOffload matched =>
    if w.holds matched.inflightBlocks then some (w.preparePrefillOffload matched) else none

end World

/-- A manager and its clients from its construction on. -/
def storage (setup : Setup) : System World Op where
  init := {}
  exec := World.exec setup

end DynamoCpp.Llm.Kv
