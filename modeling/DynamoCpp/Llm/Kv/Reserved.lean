import DynamoCpp.Llm.Kv.Reuse

/-! # Inflight blocks

    `llm/kv/reserved.h`: blocks in use by running requests are shared by their
    sequence hash.  The registry has weak references; when the last holder of a
    block drops it, the block leaves the registry and returns to the pool.
-/

namespace DynamoCpp.Llm.Kv

open Framework

/-- The address of a `ReservedBlockInner`. -/
abbrev InnerId : Type := Nat

structure ReservedBlockInner where
  block        : UniqueBlock
  sequenceHash : SequenceHash
  /-- How many `ReservedBlock`s share it; none when it is destroyed. -/
  useCount     : Nat

/-- The registry, with the inners that its weak references point to. -/
structure ReservedBlocks where
  /-- Every inner ever made; the members of a destroyed one are gone. -/
  inners : List ReservedBlockInner := []
  map    : OrdMap SequenceHash InnerId := ∅

namespace ReservedBlocks

/-- `weak_ptr::expired`. -/
def expired (r : ReservedBlocks) (i : InnerId) : Bool :=
  match r.inners[i]? with
  | none => true
  | some inner => inner.useCount == 0

/-- `weak_ptr::lock` on what the registry has for the hash. -/
def find (r : ReservedBlocks) (hash : SequenceHash) : Option InnerId :=
  match r.map[hash]? with
  | none => none
  | some i => if r.expired i then none else some i

/-- One more, or one less, `ReservedBlock` of the inner. -/
def setUseCount (r : ReservedBlocks) (i : InnerId) (f : Nat → Nat) : ReservedBlocks :=
  { r with inners := r.inners.modify i fun inner => { inner with useCount := f inner.useCount } }

def acquire (r : ReservedBlocks) (i : InnerId) : ReservedBlocks := r.setUseCount i (· + 1)

def matchSequenceHashes : ReservedBlocks → List SequenceHash → List InnerId × ReservedBlocks
  | r, [] => ([], r)
  | r, hash :: hashes =>
    match r.find hash with
    | none => ([], r)
    | some i =>
      let m := matchSequenceHashes (r.acquire i) hashes
      (i :: m.1, m.2)

def matchTokenBlocks (r : ReservedBlocks) (tokenBlocks : List TokenBlock) :
    List InnerId × ReservedBlocks :=
  r.matchSequenceHashes (tokenBlocks.map (·.sequenceHash))

/-- The body of the destructor: the entry goes if it is the expired one. -/
def eraseExpired (r : ReservedBlocks) (hash : SequenceHash) : ReservedBlocks :=
  match r.map[hash]? with
  | none => r
  | some i => if r.expired i then { r with map := r.map.erase hash } else r

end ReservedBlocks

/-- A pool and a registry.  The destructors of the handles act on both. -/
structure KvStorageManager where
  availableBlocks : AvailableBlocksState := {}
  inflightBlocks  : ReservedBlocks := {}

namespace KvStorageManager

/-- The destructor of a `UniqueBlock`. -/
def release (m : KvStorageManager) (block : UniqueBlock) : KvStorageManager :=
  { m with availableBlocks := block.release m.availableBlocks }

/-- The members of the inner go: its block returns to the pool. -/
def destroyMembers (m : KvStorageManager) (i : InnerId) : KvStorageManager :=
  match m.inflightBlocks.inners[i]? with
  | none => m
  | some inner =>
    { availableBlocks := inner.block.release m.availableBlocks
      inflightBlocks :=
        { m.inflightBlocks with
          inners := m.inflightBlocks.inners.set i { inner with block := .empty } } }

/-- A `ReservedBlock` of the inner is destroyed. -/
def drop (m : KvStorageManager) (i : InnerId) : KvStorageManager :=
  match m.inflightBlocks.inners[i]? with
  | none => m
  | some inner =>
    let m := { m with inflightBlocks := m.inflightBlocks.setUseCount i (· - 1) }
    if inner.useCount = 1 then
      destroyMembers { m with inflightBlocks := m.inflightBlocks.eraseExpired inner.sequenceHash } i
    else m

/-- Registers a full block as inflight.  The handle is passed by value, so that
    its block is back in the pool when the call throws or finds a duplicate. -/
def registerBlock (blockSize : Nat) (m : KvStorageManager) (block : UniqueBlock) :
    Except Exception InnerId × KvStorageManager :=
  match block.block? with
  | none => (.error (.invalidArgument (str "cannot register an empty block")), m.release block)
  | some b =>
    if b.tokenBlock.tokens.length ≠ blockSize then
      (.error (.runtimeError (str "block size mismatch")), m.release block)
    else
      let hash := b.tokenBlock.sequenceHash
      match m.inflightBlocks.find hash with
      | some i => (.ok i, { m with inflightBlocks := m.inflightBlocks.acquire i }.release block)
      | none =>
        let i := m.inflightBlocks.inners.length
        (.ok i,
          { m with
            inflightBlocks :=
              { inners := m.inflightBlocks.inners ++ [⟨block, hash, 1⟩]
                map := m.inflightBlocks.map.insert hash i } })

end KvStorageManager

end DynamoCpp.Llm.Kv
