import DynamoCpp.Llm.Kv.Storage

/-! # Layers

    `llm/kv/layer.h`: a layer is the KV cache of one attention layer, a tensor with five
    dimensions in one slab.  `KvBlockStorage` has the layers of a model on one tier, and
    `CopyStreamBlockMap` the geometry of copies between two of them.
-/

namespace DynamoCpp.Llm.Kv

/-! ## Details -/

inductive KvLayout where
  /-- kv, block, position, head, element -/
  | kvFirst
  /-- block, kv, position, head, element -/
  | blockFirst
deriving DecidableEq

structure KvModelDetails where
  numberOfLayers : UInt64 := 0
  numberOfHeads  : UInt64 := 0
  headSize       : UInt64 := 0
  dtype          : DType := .f32
deriving DecidableEq

namespace KvModelDetails

def elementsPerTokenPerLayer (d : KvModelDetails) : UInt64 := 2 * d.numberOfHeads * d.headSize

def bytesPerTokenPerLayer (d : KvModelDetails) : UInt64 :=
  d.elementsPerTokenPerLayer * dtypeSize d.dtype

end KvModelDetails

structure KvBlockDetails where
  layout       : KvLayout := .kvFirst
  blockSize    : UInt64 := 0
  tpRank       : UInt64 := 0
  tpSize       : UInt64 := 1
  modelDetails : KvModelDetails := {}
deriving DecidableEq

namespace KvBlockDetails

def validate (d : KvBlockDetails) : Except Bytes Unit :=
  if d.tpSize = 0 ∨ d.modelDetails.numberOfHeads % d.tpSize ≠ 0 then
    .error (str "tp_size must evenly divide number_of_heads")
  else if d.tpRank ≥ d.tpSize then .error (str "tp_rank must be less than tp_size")
  else if d.tpSize > d.modelDetails.numberOfHeads then
    .error (str "tp_size must be at most number_of_heads")
  else .ok ()

def isCompatible (d other : KvBlockDetails) : Bool :=
  d.layout = other.layout && d.blockSize = other.blockSize && d.tpSize = other.tpSize &&
    d.modelDetails = other.modelDetails

def bytesPerTokenBlockPerLayer (d : KvBlockDetails) : UInt64 :=
  d.modelDetails.bytesPerTokenPerLayer * d.blockSize / d.tpSize

/-- The dimension above the blocks. -/
def prefixDim (d : KvBlockDetails) : UInt64 := if d.layout = .kvFirst then 2 else 1

/-- The elements of a block that are together. -/
def suffixDim (d : KvBlockDetails) : UInt64 :=
  let suffix := d.blockSize * (d.modelDetails.numberOfHeads / d.tpSize) * d.modelDetails.headSize
  if d.layout = .kvFirst then suffix else 2 * suffix

def elemSize (d : KvBlockDetails) : UInt64 := dtypeSize d.modelDetails.dtype

end KvBlockDetails

/-! ## Layers -/

def shapeOf (layout : KvLayout) (numberOfBlocks blockSize heads headSize : UInt64) : Dims 5 :=
  match layout with
  | .kvFirst => ⟨[2, numberOfBlocks, blockSize, heads, headSize], rfl⟩
  | .blockFirst => ⟨[numberOfBlocks, 2, blockSize, heads, headSize], rfl⟩

/-- The KV cache of one attention layer, with what its constructor has checked. -/
structure KvLayer where
  layout         : KvLayout
  storage        : Storage
  numberOfBlocks : UInt64
  blockSize      : UInt64
  numberOfHeads  : UInt64
  headSize       : UInt64
  dtype          : DType
  tpSize         : UInt64
  tpRank         : UInt64
  nonzero        : ¬ (numberOfBlocks = 0 ∨ blockSize = 0 ∨ numberOfHeads = 0 ∨ headSize = 0)
  tp_divides     : ¬ (tpSize = 0 ∨ numberOfHeads % tpSize ≠ 0)
  rank_lt        : ¬ tpRank ≥ tpSize
  large          : ¬ storage.size <
    accumulate (shapeOf layout numberOfBlocks blockSize (numberOfHeads / tpSize) headSize).val *
      dtypeSize dtype

namespace KvLayer

def create (layout : KvLayout) (storage : Storage)
    (numberOfBlocks blockSize numberOfHeads headSize : UInt64) (dtype : DType)
    (tpSize tpRank : UInt64) : Except Bytes KvLayer :=
  if nonzero : numberOfBlocks = 0 ∨ blockSize = 0 ∨ numberOfHeads = 0 ∨ headSize = 0 then
    .error (str "kv layer dimensions must be non-zero")
  else if tp_divides : tpSize = 0 ∨ numberOfHeads % tpSize ≠ 0 then
    .error (str "number_of_heads must be divisible by tp_size")
  else if rank_lt : tpRank ≥ tpSize then .error (str "tp_rank must be less than tp_size")
  else if large : storage.size <
      accumulate (shapeOf layout numberOfBlocks blockSize (numberOfHeads / tpSize) headSize).val *
        dtypeSize dtype then
    .error (str "storage is smaller than the layer tensor")
  else
    .ok
      { layout, storage, numberOfBlocks, blockSize, numberOfHeads, headSize, dtype, tpSize, tpRank,
        nonzero, tp_divides, rank_lt, large }

def fromStorage (details : KvBlockDetails) (numberOfBlocks : UInt64) (storage : Storage) :
    Except Bytes KvLayer :=
  create details.layout storage numberOfBlocks details.blockSize
    details.modelDetails.numberOfHeads details.modelDetails.headSize details.modelDetails.dtype
    details.tpSize details.tpRank

def layerShape (l : KvLayer) : Dims 5 :=
  shapeOf l.layout l.numberOfBlocks l.blockSize (l.numberOfHeads / l.tpSize) l.headSize

def view (l : KvLayer) : Except Bytes (TensorView 5) :=
  TensorView.create l.storage l.layerShape (dtypeSize l.dtype)

end KvLayer

/-! ## The layers of a model -/

structure KvBlockStorage where
  blockDetails   : KvBlockDetails
  storageKind    : StorageKind
  numberOfBlocks : UInt64
  layers         : List KvLayer

namespace KvBlockStorage

/-- The details of a list of layers are those of the first one. -/
def detailsOf (first : KvLayer) (layers : List KvLayer) : KvBlockDetails where
  layout       := first.layout
  blockSize    := first.blockSize
  tpSize       := first.tpSize
  tpRank       := first.tpRank
  modelDetails :=
    { numberOfLayers := UInt64.ofNat layers.length
      numberOfHeads  := first.numberOfHeads
      headSize       := first.headSize
      dtype          := first.dtype }

/-- The first loop over the layers. -/
def disagreement (first : KvLayer) (layers : List KvLayer) : Option Bytes :=
  layers.findSome? fun layer =>
    if layer.storage.kind ≠ first.storage.kind then
      some (str "all layers must have the same storage kind")
    else if layer.numberOfBlocks ≠ first.numberOfBlocks then
      some (str "all layers must have the same number of blocks")
    else none

def fromLayers (layers : List KvLayer) : Except Bytes KvBlockStorage :=
  match layers with
  | [] => .error (str "layers must not be empty")
  | first :: _ =>
    match disagreement first layers with
    | some what => .error what
    | none =>
      let details := detailsOf first layers
      match details.validate with
      | .error what => .error what
      | .ok _ =>
        if ∃ layer ∈ layers, layer.storage.size < details.bytesPerTokenBlockPerLayer then
          .error (str "layer storage too small for one block")
        else
          .ok
            { blockDetails   := details
              storageKind    := first.storage.kind
              numberOfBlocks := first.numberOfBlocks
              layers         := layers }

/-- `create` is `OwnedStorage::create`, which is called once for each layer. -/
def allocate (create : Nat → UInt64 → StorageKind → Except Bytes Storage)
    (numberOfBlocks : UInt64) (details : KvBlockDetails) (kind : StorageKind) :
    Except Bytes KvBlockStorage := do
  details.validate
  let bytes := details.bytesPerTokenBlockPerLayer * numberOfBlocks
  let layers ← (List.range details.modelDetails.numberOfLayers.toNat).mapM fun i => do
    KvLayer.fromStorage details numberOfBlocks (← create i bytes kind)
  fromLayers layers

end KvBlockStorage

/-! ## The geometry of copies -/

/-- `static_cast<int>` of a `size_t`. -/
def toInt (n : UInt64) : Int32 := n.toUInt32.toInt32

structure CopyStreamBlockMap where
  srcLayerPtrs : List UInt64
  dstLayerPtrs : List UInt64
  prefixDim    : Int32 := 0
  srcBlockDim  : Int32 := 0
  dstBlockDim  : Int32 := 0
  suffixDim    : Int32 := 0
  elemSize     : Int32 := 0
deriving DecidableEq

def CopyStreamBlockMap.of (src dst : KvBlockStorage) : CopyStreamBlockMap where
  srcLayerPtrs := src.layers.map fun layer => layer.storage.pointer
  dstLayerPtrs := dst.layers.map fun layer => layer.storage.pointer
  prefixDim    := toInt src.blockDetails.prefixDim
  srcBlockDim  := toInt src.numberOfBlocks
  dstBlockDim  := toInt dst.numberOfBlocks
  suffixDim    := toInt src.blockDetails.suffixDim
  elemSize     := toInt src.blockDetails.elemSize

def CopyStreamBlockMap.create (src dst : KvBlockStorage) : Except Bytes CopyStreamBlockMap :=
  if ¬ src.blockDetails.isCompatible dst.blockDetails then
    .error (str "src and dst must have compatible block details")
  else if src.layers.length ≠ dst.layers.length then
    .error (str "src and dst must have the same number of layers")
  else
    let map := CopyStreamBlockMap.of src dst
    if map.elemSize < 1 ∨ map.elemSize > 8 then .error (str "element size must be 1..8 bytes")
    else .ok map

end DynamoCpp.Llm.Kv
