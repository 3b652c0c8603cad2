import DynamoCpp.Framework.OrderedMap
import DynamoCpp.Llm.Tokens

/-! # The pool of available KV blocks

    `llm/kv/reuse.h`: blocks that no request uses are parked with the state they
    last had, so that a request with the same prefix finds them again.  A block
    is taken out by its sequence hash, or for new tokens in the order of its
    priority and the time of its return.

    A `UniqueBlock` is the exclusive handle of a block outside of the pool.  Its
    destructor returns the block.  The pool's mutex makes every operation here
    one step.

    Every block that is inserted gets a number.  The number is no data of the
    program: it stays with the block wherever the block is moved, and tells the
    blocks apart when everything else about them has been overwritten.
-/

namespace DynamoCpp.Llm.Kv

open Framework

/-! ## Blocks and handles -/

/-- A KV cache block: the token state it holds plus reuse metadata. -/
structure KvBlock where
  tokenBlock : TokenBlock := {}
  priority   : UInt32 := 0
  returnTick : UInt64 := 0
deriving DecidableEq

def KvBlock.reset (_ : KvBlock) : KvBlock := {}

/-- What `std::move` leaves: the vector of tokens is empty, the other fields are copied. -/
def KvBlock.moved (b : KvBlock) : KvBlock :=
  { b with tokenBlock := { b.tokenBlock with tokens := [] } }

/-- A block that was inserted into the pool. -/
structure InsertedBlock extends KvBlock where
  /-- How many blocks were inserted before it. -/
  id : Nat
deriving DecidableEq

/-- Exclusive handle to a block taken from the pool. -/
inductive UniqueBlock where
  /-- `block_` is empty: constructed by default, assigned from or taken. -/
  | empty
  /-- `block_` is engaged and `pool_` is empty: what the defaulted move
      constructor leaves behind.  The handle still says that it is valid. -/
  | moved (shell : KvBlock)
  /-- `block_` is engaged and `pool_` refers to the pool. -/
  | owning (block : InsertedBlock)
deriving DecidableEq

namespace UniqueBlock

/-- `block_`. -/
def block? : UniqueBlock → Option KvBlock
  | .empty => none
  | .moved shell => some shell
  | .owning block => some block.toKvBlock

/-- What the move constructor makes of its argument. -/
def moveFrom : UniqueBlock → UniqueBlock
  | .empty => .empty
  | .moved shell => .moved shell.moved
  | .owning block => .moved block.toKvBlock.moved

/-- A write through `operator*` or `update_token_block`; `none` on an empty handle. -/
def write (b : KvBlock) : UniqueBlock → Option UniqueBlock
  | .empty => none
  | .moved _ => some (.moved b)
  | .owning block => some (.owning { block with toKvBlock := b })

end UniqueBlock

/-- The exceptions of the component, with their texts. -/
inductive Exception where
  | invalidArgument (what : Bytes)
  | runtimeError (what : Bytes)
  | logicError (what : Bytes)
deriving DecidableEq

/-! ## The eviction order -/

/-- Lowest priority first, then oldest return first; the hash breaks ties. -/
structure PriorityKey where
  priority     : UInt32 := 0
  returnTick   : UInt64 := 0
  sequenceHash : SequenceHash := 0
deriving DecidableEq

instance : Ord PriorityKey where
  compare := compareLex (compareOn (·.priority))
    (compareLex (compareOn (·.returnTick)) (compareOn (·.sequenceHash)))

instance : Std.TransOrd PriorityKey :=
  inferInstanceAs (Std.TransCmp (compareLex (compareOn PriorityKey.priority)
    (compareLex (compareOn (·.returnTick)) (compareOn (·.sequenceHash)))))

instance : Std.LawfulEqOrd PriorityKey where
  eq_of_compare := by
    intro a b h
    obtain ⟨hp, hrest⟩ := compareLex_eq_eq.mp h
    obtain ⟨ht, hh⟩ := compareLex_eq_eq.mp hrest
    have hpriority : compare a.priority b.priority = .eq := hp
    have htick : compare a.returnTick b.returnTick = .eq := ht
    have hhash : compare a.sequenceHash b.sequenceHash = .eq := hh
    rw [Std.LawfulEqCmp.compare_eq_iff_eq] at hpriority htick hhash
    cases a
    cases b
    simp_all

def keyOf (block : KvBlock) : PriorityKey :=
  ⟨block.priority, block.returnTick, block.tokenBlock.sequenceHash⟩

/-! ## The state under the mutex -/

structure AvailableBlocksState where
  /-- One parked block per sequence hash. -/
  lookupMap        : OrdMap SequenceHash InsertedBlock := ∅
  prioritySet      : OrdMap PriorityKey SequenceHash := ∅
  /-- Duplicates and blocks with hash 0, oldest first. -/
  uninitializedSet : List InsertedBlock := []
  returnTick       : UInt64 := 0
  totalBlocks      : UInt64 := 0
  availableBlocks  : UInt64 := 0

namespace AvailableBlocksState

def insertLocked (s : AvailableBlocksState) (block : InsertedBlock) : AvailableBlocksState :=
  let hash := block.tokenBlock.sequenceHash
  if hash = 0 ∨ s.lookupMap.contains hash = true then
    { s with uninitializedSet := s.uninitializedSet ++ [block] }
  else
    { s with
      prioritySet := s.prioritySet.insertIfNew (keyOf block.toKvBlock) hash
      lookupMap := s.lookupMap.insert hash block }

def takeWithHashLocked (s : AvailableBlocksState) (hash : SequenceHash) :
    Option (InsertedBlock × AvailableBlocksState) :=
  match s.lookupMap[hash]? with
  | none => none
  | some block =>
    some (block,
      { s with
        lookupMap := s.lookupMap.erase hash
        prioritySet := s.prioritySet.erase (keyOf block.toKvBlock) })

/-- What `take_any_locked` and `reset_all` throw. -/
def missingEntry : Exception :=
  .logicError (str "kv reuse pool: priority entry missing from lookup map")

/-- Removes the first entry of the priority set with its block. -/
def popPriority (s : AvailableBlocksState) :
    Except Exception (Option InsertedBlock) × AvailableBlocksState :=
  match s.prioritySet.first? with
  | none => (.ok none, s)
  | some (key, hash) =>
    let s := { s with prioritySet := s.prioritySet.erase key }
    match s.lookupMap[hash]? with
    | none => (.error missingEntry, s)
    | some block => (.ok (some block), { s with lookupMap := s.lookupMap.erase hash })

def takeAnyLocked (s : AvailableBlocksState) :
    Except Exception (Option InsertedBlock) × AvailableBlocksState :=
  match s.uninitializedSet with
  | block :: rest => (.ok (some block), { s with uninitializedSet := rest })
  | [] => s.popPriority

def returnBlock (s : AvailableBlocksState) (block : InsertedBlock) : AvailableBlocksState :=
  let tick := s.returnTick + 1
  { s with availableBlocks := s.availableBlocks + 1, returnTick := tick }.insertLocked
    { block with returnTick := tick }

/-! ## The pool's operations -/

/-- The loop of `match_blocks`. -/
def matchLoop : List SequenceHash → AvailableBlocksState →
    List InsertedBlock × AvailableBlocksState
  | [], s => ([], s)
  | hash :: hashes, s =>
    match s.takeWithHashLocked hash with
    | none => ([], s)
    | some (block, s) =>
      let r := matchLoop hashes s
      (block :: r.1, r.2)

/-- `available_blocks.fetch_sub`. -/
def handOut (s : AvailableBlocksState) (blocks : List InsertedBlock) : AvailableBlocksState :=
  { s with availableBlocks := s.availableBlocks - UInt64.ofNat blocks.length }

/-- The matched blocks, each in a handle that owns it, and the pool afterwards. -/
def matchBlocks (s : AvailableBlocksState) (hashes : List SequenceHash) :
    List InsertedBlock × AvailableBlocksState :=
  let r := matchLoop hashes s
  (r.1, r.2.handOut r.1)

def matchTokenBlocks (s : AvailableBlocksState) (tokenBlocks : List TokenBlock) :
    List InsertedBlock × AvailableBlocksState :=
  s.matchBlocks (tokenBlocks.map (·.sequenceHash))

/-- The loop of `take_blocks`: what was taken, and the exception that ended it. -/
def takeLoop : Nat → AvailableBlocksState →
    List InsertedBlock × Option Exception × AvailableBlocksState
  | 0, s => ([], none, s)
  | n + 1, s =>
    match s.takeAnyLocked with
    | (.error e, s) => ([], some e, s)
    | (.ok none, s) => ([], none, s)
    | (.ok (some block), s) =>
      let r := takeLoop n s
      (block :: r.1, r.2)

def takeBlocks (s : AvailableBlocksState) (count : UInt32) :
    Except Exception (List InsertedBlock) × AvailableBlocksState :=
  match takeLoop count.toNat s with
  | (taken, some e, s) =>
    -- the handles taken so far are destroyed
    (.error e, taken.foldl returnBlock s)
  | (taken, none, s) => (.ok taken, s.handOut taken)

/-- A brand-new block comes in like one that returns, and counts. -/
def insert (s : AvailableBlocksState) (block : InsertedBlock) : AvailableBlocksState :=
  { s with totalBlocks := s.totalBlocks + 1 }.returnBlock block

/-- Takes the block of a hash out, changes it and puts it back; unknown hashes are ignored. -/
def rework (s : AvailableBlocksState) (hash : SequenceHash) (f : KvBlock → KvBlock) :
    AvailableBlocksState :=
  match s.takeWithHashLocked hash with
  | none => s
  | some (block, s) => s.insertLocked { block with toKvBlock := f block.toKvBlock }

def updatePriorities (s : AvailableBlocksState) (updates : List (SequenceHash × UInt32)) :
    AvailableBlocksState :=
  updates.foldl (fun s u => s.rework u.1 fun block => { block with priority := u.2 }) s

def reset (s : AvailableBlocksState) (hashes : List SequenceHash) : AvailableBlocksState :=
  hashes.foldl (fun s hash => s.rework hash KvBlock.reset) s

/-- A block that was reset goes to the uninitialized set. -/
theorem insertLocked_reset (s : AvailableBlocksState) (block : InsertedBlock) :
    s.insertLocked { block with toKvBlock := block.toKvBlock.reset } =
      { s with uninitializedSet :=
          s.uninitializedSet ++ [{ block with toKvBlock := block.toKvBlock.reset }] } := by
  simp [insertLocked, KvBlock.reset]

/-- A block that is taken by its hash leaves both indexes. -/
theorem takeWithHashLocked_eq_some {s s' : AvailableBlocksState} {hash : SequenceHash}
    {block : InsertedBlock} :
    s.takeWithHashLocked hash = some (block, s') ↔ s.lookupMap[hash]? = some block ∧ s' =
      { s with
        lookupMap := s.lookupMap.erase hash
        prioritySet := s.prioritySet.erase (keyOf block.toKvBlock) } := by
  unfold takeWithHashLocked
  cases s.lookupMap[hash]? with
  | none => simp
  | some b =>
    simp only [Option.some.injEq, Prod.mk.injEq]
    constructor
    · rintro ⟨rfl, rfl⟩
      exact ⟨rfl, rfl⟩
    · rintro ⟨rfl, rfl⟩
      exact ⟨rfl, rfl⟩

theorem takeWithHashLocked_eq_none {s : AvailableBlocksState} {hash : SequenceHash} :
    s.takeWithHashLocked hash = none ↔ s.lookupMap[hash]? = none := by
  unfold takeWithHashLocked
  cases s.lookupMap[hash]? <;> simp

/-- What `popPriority` removes from the priority set. -/
theorem popPriority_size {s s' : AvailableBlocksState} {block : InsertedBlock}
    (h : s.popPriority = (.ok (some block), s')) : s'.prioritySet.size < s.prioritySet.size := by
  unfold popPriority at h
  split at h
  · simp at h
  · next key hash hfirst =>
    dsimp only at h
    split at h
    · simp at h
    · simp only [Prod.mk.injEq] at h
      rw [← h.2]
      exact OrdMap.size_erase_first? hfirst

def resetAll (s : AvailableBlocksState) : Except Exception Unit × AvailableBlocksState :=
  match _h : s.popPriority with
  | (.error e, s) => (.error e, s)
  | (.ok none, s) => (.ok (), s)
  | (.ok (some block), s) =>
    resetAll (s.insertLocked { block with toKvBlock := block.toKvBlock.reset })
termination_by s.prioritySet.size
decreasing_by
  have hsize := popPriority_size _h
  rw [insertLocked_reset]
  exact hsize

end AvailableBlocksState

/-- Returns the block of the handle, if it has one. -/
def UniqueBlock.release (s : AvailableBlocksState) : UniqueBlock → AvailableBlocksState
  | .empty => s
  | .moved _ => s
  | .owning block => s.returnBlock block

end DynamoCpp.Llm.Kv
