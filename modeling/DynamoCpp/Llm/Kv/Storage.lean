import DynamoCpp.Basic

/-! # Storage slabs and tensor views

    `llm/kv/storage.h`: a storage is one slab of bytes on some tier, and a tensor view is a
    row-major view of it with any number of dimensions.  A slice of a view restricts one
    dimension; it keeps the strides and moves the offset.

    Shapes, strides and offsets are `size_t`, and all of their arithmetic wraps around.
    Exceptions are their texts.
-/

namespace DynamoCpp.Llm.Kv

/-! ## Storages -/

inductive StorageKind where
  | device | pinned | system
deriving DecidableEq

inductive DType where
  | f32 | f16 | bf16 | fp8 | u8 | u16 | u32 | u64 | i8 | i16 | i32 | i64
deriving DecidableEq

def dtypeSize : DType → UInt64
  | .f32 => 4
  | .f16 => 2
  | .bf16 => 2
  | .fp8 => 1
  | .u8 => 1
  | .u16 => 2
  | .u32 => 4
  | .u64 => 8
  | .i8 => 1
  | .i16 => 2
  | .i32 => 4
  | .i64 => 8

/-- One slab of bytes on some tier. -/
structure Storage where
  pointer : UInt64
  size    : UInt64
  kind    : StorageKind
deriving DecidableEq

/-! ## Views -/

/-- `std::array<size_t, D>` -/
abbrev Dims (D : Nat) : Type := { l : List UInt64 // l.length = D }

/-- `std::accumulate` with `std::multiplies`. -/
def accumulate (shape : List UInt64) : UInt64 := shape.foldl (· * ·) 1

/-- The loop over the dimensions from the last to the first. -/
def stridesOf : List UInt64 → List UInt64
  | [] => []
  | [_] => [1]
  | _ :: n :: shape => (stridesOf (n :: shape)).headD 1 * n :: stridesOf (n :: shape)

theorem length_stridesOf (shape : List UInt64) : (stridesOf shape).length = shape.length := by
  induction shape with
  | nil => rfl
  | cons m shape ih =>
    cases shape with
    | nil => rfl
    | cons n shape => exact congrArg Nat.succ ih

structure TensorView (D : Nat) where
  storage       : Storage
  shape         : Dims D
  /-- In elements. -/
  strides       : Dims D
  elementSize   : UInt64
  /-- Bytes from the start of the storage. -/
  offset        : UInt64 := 0
  totalElements : UInt64 := 0

namespace TensorView

variable {D : Nat}

/-- The view that the constructor makes if it does not throw. -/
def whole (storage : Storage) (shape : Dims D) (elementSize : UInt64) : TensorView D where
  storage       := storage
  shape         := shape
  strides       := ⟨stridesOf shape.val, (length_stridesOf shape.val).trans shape.property⟩
  elementSize   := elementSize
  totalElements := accumulate shape.val

def create (storage : Storage) (shape : Dims D) (elementSize : UInt64) :
    Except Bytes (TensorView D) :=
  let view := whole storage shape elementSize
  if view.totalElements * elementSize > storage.size then
    .error (str "tensor view of " ++
      str (toString (view.totalElements * elementSize).toNat) ++
      str " bytes exceeds storage of " ++ str (toString storage.size.toNat))
  else .ok view

def inBounds (v : TensorView D) (indices : Dims D) : Bool :=
  (indices.val.zip v.shape.val).all fun p => p.1 < p.2

/-- The loop that adds the positions times the strides. -/
def weigh (index strides : List UInt64) : UInt64 :=
  (index.zip strides).foldl (fun flat p => flat + p.1 * p.2) 0

def flatIndex (v : TensorView D) (indices : Dims D) : Except Bytes UInt64 :=
  if v.inBounds indices then .ok (weigh indices.val v.strides.val)
  else .error (str "tensor index out of bounds")

/-- Byte offset from the start of the storage. -/
def byteOffset (v : TensorView D) (indices : Dims D) : Except Bytes UInt64 :=
  (v.flatIndex indices).map fun flat => v.offset + flat * v.elementSize

/-- Restricts a dimension to `[start, stop)`. -/
def slice (v : TensorView D) (dim : Nat) (start : UInt64) (stop : Option UInt64) :
    Except Bytes (TensorView D) :=
  match v.shape.val[dim]?, v.strides.val[dim]? with
  | some extent, some stride =>
    let stop := stop.getD extent
    if stop > extent ∨ start ≥ stop then .error (str "invalid slice range")
    else
      let shape : Dims D := ⟨v.shape.val.set dim (stop - start),
        List.length_set.trans v.shape.property⟩
      .ok
        { v with
          shape         := shape
          offset        := v.offset + start * stride * v.elementSize
          totalElements := accumulate shape.val }
  | _, _ => .error (str "slice dimension out of range")

end TensorView

end DynamoCpp.Llm.Kv
