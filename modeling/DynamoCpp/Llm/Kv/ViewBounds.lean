import DynamoCpp.Framework.RowMajor
import DynamoCpp.Llm.Kv.Storage

/-! # Views and their storage

    Taking the number of a 64-bit word respects sums and products modulo `2^64`, so what a
    view computes is the row-major order of its shape, modulo `2^64`.  The elements of a view
    that was sliced, however often, are elements of the view it comes from.

    The constructor compares the wrapped number of bytes with the size of the storage.  A
    view keeps to its storage exactly if that number did not wrap (`addresses_inside_iff`).
-/

namespace DynamoCpp.Llm.Kv

open Framework.RowMajor

/-! ## Words and numbers -/

/-- The sizes as natural numbers. -/
def nats (l : List UInt64) : List Nat := l.map UInt64.toNat

@[simp] theorem nats_nil : nats [] = [] := rfl

@[simp] theorem nats_cons (n : UInt64) (l : List UInt64) : nats (n :: l) = n.toNat :: nats l := rfl

/-- The strides of a shape as numbers. -/
def rowStrides (shape : List UInt64) : List Nat := Framework.RowMajor.strides (nats shape)

theorem accumulate_eq (shape : List UInt64) :
    accumulate shape = UInt64.ofNat (volume (nats shape)) := by
  have hfrom : ∀ n : UInt64,
      shape.foldl (· * ·) n = n * UInt64.ofNat (volume (nats shape)) := by
    induction shape with
    | nil => exact fun n => (UInt64.mul_one n).symm
    | cons m shape ih =>
      intro n
      rw [List.foldl_cons, ih, nats_cons, volume_cons, UInt64.ofNat_mul,
        UInt64.ofNat_toNat, UInt64.mul_assoc]
  rw [accumulate, hfrom, UInt64.one_mul]

theorem stridesOf_eq (shape : List UInt64) :
    stridesOf shape = (rowStrides shape).map UInt64.ofNat := by
  induction shape with
  | nil => rfl
  | cons m shape ih =>
    cases shape with
    | nil => rfl
    | cons n shape =>
      rw [stridesOf, ih]
      simp only [rowStrides, nats_cons, strides, List.map_cons,
        List.headD_cons, volume_cons, UInt64.ofNat_mul, UInt64.ofNat_toNat]
      rw [UInt64.mul_comm n]

namespace TensorView

theorem weigh_eq (index : List UInt64) (ts : List Nat) :
    weigh index (ts.map UInt64.ofNat) = UInt64.ofNat (dot (nats index) ts) := by
  have hfrom : ∀ n : UInt64,
      (index.zip (ts.map UInt64.ofNat)).foldl (fun flat p => flat + p.1 * p.2) n =
        n + UInt64.ofNat (dot (nats index) ts) := by
    induction index generalizing ts with
    | nil => simp [dot]
    | cons i index ih =>
      intro n
      cases ts with
      | nil => simp [dot]
      | cons t ts =>
        rw [List.map_cons, List.zip_cons_cons, List.foldl_cons, ih, nats_cons, dot,
          UInt64.ofNat_add, UInt64.ofNat_mul, UInt64.ofNat_toNat, UInt64.add_assoc]
  rw [weigh, hfrom, UInt64.zero_add]

variable {D : Nat} {v w : TensorView D} {indices : Dims D}

theorem inBounds_iff :
    v.inBounds indices = true ↔ InBounds (nats indices.val) (nats v.shape.val) := by
  have hlength : indices.val.length = v.shape.val.length :=
    indices.property.trans v.shape.property.symm
  unfold inBounds InBounds nats
  rw [List.forall₂_map_left_iff, List.forall₂_map_right_iff, List.forall₂_iff_zip, List.all_eq_true]
  simp only [decide_eq_true_eq, Prod.forall, UInt64.lt_iff_toNat_lt, hlength, true_and]

/-! ## Slices -/

/-- Made of the view by any number of slices. -/
inductive SlicedFrom (v : TensorView D) : TensorView D → Prop where
  | refl : SlicedFrom v v
  | slice {w w' : TensorView D} {dim : Nat} {start : UInt64} {stop : Option UInt64} :
      SlicedFrom v w → w.slice dim start stop = .ok w' → SlicedFrom v w'

/-- The part of the whole view that starts at the element `first`. -/
structure IsPart (storage : Storage) (shape : Dims D) (elementSize : UInt64) (first : Nat)
    (w : TensorView D) : Prop where
  elementSize_eq : w.elementSize = elementSize
  strides_eq     : w.strides.val = stridesOf shape.val
  length_eq      : w.shape.val.length = shape.val.length
  offset_eq      : w.offset = UInt64.ofNat first * elementSize
  inside         : ∀ index, InBounds index (nats w.shape.val) →
    first + dot index (rowStrides shape.val) < volume (nats shape.val)

variable {storage : Storage} {shape : Dims D} {elementSize : UInt64} {first : Nat}

theorem isPart_whole (storage : Storage) (shape : Dims D) (elementSize : UInt64) :
    IsPart storage shape elementSize 0 (whole storage shape elementSize) where
  elementSize_eq := rfl
  strides_eq     := rfl
  length_eq      := rfl
  offset_eq      := UInt64.zero_mul.symm
  inside         := by
    intro index hindex
    rw [Nat.zero_add]
    exact hindex.dot_lt

/-- Everything a slice can be. -/
theorem slice_eq_ok {w' : TensorView D} {dim : Nat} {start : UInt64} {stop : Option UInt64}
    (h : w.slice dim start stop = .ok w') :
    ∃ extent stride stop', w.shape.val[dim]? = some extent ∧ w.strides.val[dim]? = some stride ∧
      start < stop' ∧ stop' ≤ extent ∧ w'.elementSize = w.elementSize ∧ w'.strides = w.strides ∧
      w'.shape.val = w.shape.val.set dim (stop' - start) ∧
      w'.offset = w.offset + start * stride * w.elementSize := by
  unfold slice at h
  split at h
  · next extent stride hextent hstride =>
    dsimp only at h
    split at h
    · cases h
    · next hrange =>
      cases h
      rw [not_or, UInt64.not_lt, UInt64.not_le] at hrange
      exact ⟨extent, stride, _, hextent, hstride, hrange.2, hrange.1, rfl, rfl, rfl, rfl⟩
  · cases h

theorem IsPart.slice {w' : TensorView D} {dim : Nat} {start : UInt64} {stop : Option UInt64}
    (h : IsPart storage shape elementSize first w) (hslice : w.slice dim start stop = .ok w') :
    ∃ first', IsPart storage shape elementSize first' w' := by
  obtain ⟨extent, stride, stop, hextent, hstride, hstart, hstop, helement, hstrides, hshape,
    hoffset⟩ := slice_eq_ok hslice
  rw [h.strides_eq, stridesOf_eq, List.getElem?_map] at hstride
  obtain ⟨t, ht, rfl⟩ := Option.map_eq_some_iff.mp hstride
  refine ⟨first + start.toNat * t, helement.trans h.elementSize_eq,
    (congrArg _ hstrides).trans h.strides_eq, ?_, ?_, fun index hindex => ?_⟩
  · rw [hshape, List.length_set, h.length_eq]
  · rw [hoffset, h.offset_eq, h.elementSize_eq, UInt64.ofNat_add, UInt64.ofNat_mul,
      UInt64.ofNat_toNat, UInt64.add_mul]
  · -- moved by the start, the index is one of the view that was sliced
    rw [hshape, nats, List.map_set, UInt64.toNat_sub_of_le _ _ (UInt64.le_of_lt hstart)] at hindex
    have hextent' : (nats w.shape.val)[dim]? = some extent.toNat := by
      rw [nats, List.getElem?_map, hextent]
      rfl
    rw [UInt64.lt_iff_toNat_lt] at hstart
    rw [UInt64.le_iff_toNat_le] at hstop
    have hle : start.toNat + (stop.toNat - start.toNat) ≤ extent.toNat := by omega
    obtain ⟨i, hi, hmoved⟩ := hindex.moved hextent' hle
    have hlt := h.inside _ hmoved
    rw [dot_set hi ht] at hlt
    omega

/-- However a view is sliced, it is a part. -/
theorem SlicedFrom.isPart (h : SlicedFrom (whole storage shape elementSize) w) :
    ∃ first, IsPart storage shape elementSize first w := by
  induction h with
  | refl => exact ⟨0, isPart_whole storage shape elementSize⟩
  | slice _ hslice ih =>
    obtain ⟨first, hpart⟩ := ih
    exact hpart.slice hslice

/-- The number of the element in the whole view, in bytes. -/
theorem IsPart.byteOffset_eq (h : IsPart storage shape elementSize first w)
    (hbounds : w.inBounds indices = true) :
    w.byteOffset indices = .ok (UInt64.ofNat
      ((first + dot (nats indices.val) (rowStrides shape.val)) * elementSize.toNat)) := by
  unfold byteOffset flatIndex
  rw [if_pos hbounds, h.strides_eq, stridesOf_eq, weigh_eq, h.elementSize_eq, h.offset_eq,
    UInt64.ofNat_mul, UInt64.ofNat_add, UInt64.ofNat_toNat, UInt64.add_mul]
  rfl

/-- If the number of bytes did not wrap, the elements of all parts are in the storage. -/
theorem IsPart.offset_le (h : IsPart storage shape elementSize first w)
    (hfits : volume (nats shape.val) * elementSize.toNat ≤ storage.size.toNat)
    (hbounds : w.inBounds indices = true) :
    ∃ offset, w.byteOffset indices = .ok offset ∧
      offset.toNat + elementSize.toNat ≤ storage.size.toNat := by
  have hrow := Nat.mul_le_mul_right elementSize.toNat (h.inside _ (inBounds_iff.mp hbounds))
  have hsize := storage.size.toNat_lt_size
  rw [Nat.succ_mul] at hrow
  refine ⟨_, h.byteOffset_eq hbounds, ?_⟩
  rw [UInt64.toNat_ofNat_of_lt' (by omega)]
  omega

/-! ## Main result -/

/-- Every number below the volume is that of an index in words. -/
theorem exists_index (shape : List UInt64) : ∀ {n : Nat}, n < volume (nats shape) →
    ∃ index : List UInt64, InBounds (nats index) (nats shape) ∧
      dot (nats index) (rowStrides shape) = n := by
  induction shape with
  | nil =>
    intro n h
    exact ⟨[], List.Forall₂.nil, (Nat.lt_one_iff.mp h).symm⟩
  | cons extent shape ih =>
    intro n h
    have hpos : 0 < volume (nats shape) := Nat.pos_of_mul_pos_left (Nat.zero_lt_of_lt h)
    have hfirst := (Nat.div_lt_iff_lt_mul hpos).mpr h
    obtain ⟨index, hbounds, hdot⟩ := ih (Nat.mod_lt n hpos)
    -- the position in the first dimension is a word, as the extent is one
    have hword : (UInt64.ofNat (n / volume (nats shape))).toNat = n / volume (nats shape) :=
      UInt64.toNat_ofNat_of_lt' (Nat.lt_trans hfirst extent.toNat_lt_size)
    refine ⟨UInt64.ofNat (n / volume (nats shape)) :: index, ?_, ?_⟩
    · rw [nats_cons, hword]
      exact List.Forall₂.cons hfirst hbounds
    · rw [nats_cons, hword, rowStrides, nats_cons, Framework.RowMajor.strides, dot]
      unfold rowStrides at hdot
      rw [hdot]
      exact Nat.div_add_mod' n _

/-- The constructor compares the wrapped number of bytes. -/
theorem create_eq_ok_iff :
    create storage shape elementSize = .ok v ↔
      whole storage shape elementSize = v ∧
        volume (nats shape.val) * elementSize.toNat % UInt64.size ≤ storage.size.toNat := by
  have hbytes : ((whole storage shape elementSize).totalElements * elementSize).toNat =
      volume (nats shape.val) * elementSize.toNat % UInt64.size := by
    rw [whole, accumulate_eq, UInt64.toNat_mul, UInt64.toNat_ofNat', Nat.mod_mul_mod]
  unfold create
  dsimp only
  rw [← hbytes, ← UInt64.le_iff_toNat_le]
  split
  · next hlarge => simp [UInt64.not_le.mpr hlarge]
  · next hsmall => simp [UInt64.not_lt.mp hsmall]

/-- Every number below the volume is that of an element. -/
theorem exists_element (storage : Storage) (elementSize : UInt64) {n : Nat}
    (h : n < volume (nats shape.val)) :
    ∃ indices, (whole storage shape elementSize).inBounds indices = true ∧
      (whole storage shape elementSize).byteOffset indices =
        .ok (UInt64.ofNat (n * elementSize.toNat)) := by
  obtain ⟨index, hbounds, hdot⟩ := exists_index shape.val h
  have hlength : index.length = D := by
    have hforall := List.Forall₂.length_eq hbounds
    rw [nats, nats, List.length_map, List.length_map, shape.property] at hforall
    exact hforall
  have hin : (whole storage shape elementSize).inBounds ⟨index, hlength⟩ = true :=
    inBounds_iff.mpr hbounds
  refine ⟨_, hin, ?_⟩
  rw [(isPart_whole storage shape elementSize).byteOffset_eq hin, Nat.zero_add, hdot]

/-- **Views and their storage.**  The elements of a view and of all slices of it are in the
    storage exactly if the number of bytes of the view is below `2^64`. -/
theorem addresses_inside_iff (hcreate : create storage shape elementSize = .ok v) :
    (∀ w, SlicedFrom v w → ∀ indices, w.inBounds indices = true →
        ∃ offset, w.byteOffset indices = .ok offset ∧
          offset.toNat + elementSize.toNat ≤ storage.size.toNat) ↔
      volume (nats shape.val) * elementSize.toNat < UInt64.size := by
  obtain ⟨rfl, hcheck⟩ := create_eq_ok_iff.mp hcreate
  have hsize := storage.size.toNat_lt_size
  constructor
  · intro hinside
    by_contra hwrapped
    have hpos : 0 < elementSize.toNat := by
      apply Nat.pos_of_ne_zero
      intro hzero
      rw [hzero, Nat.mul_zero] at hwrapped
      exact hwrapped (by decide)
    -- the element that contains the first byte behind the storage
    have hbehind : storage.size.toNat / elementSize.toNat < volume (nats shape.val) := by
      rw [Nat.div_lt_iff_lt_mul hpos]
      omega
    obtain ⟨indices, hbounds, hoffset⟩ := exists_element storage elementSize hbehind
    obtain ⟨offset, hoffset', hle⟩ := hinside _ .refl indices hbounds
    rw [hoffset'] at hoffset
    have hdiv := Nat.div_mul_le_self storage.size.toNat elementSize.toNat
    have hmod := Nat.lt_div_mul_add hpos (a := storage.size.toNat)
    rw [Except.ok.inj hoffset, UInt64.toNat_ofNat_of_lt' (by omega)] at hle
    omega
  · intro hbelow w hw indices hbounds
    obtain ⟨first, hpart⟩ := hw.isPart
    rw [Nat.mod_eq_of_lt hbelow] at hcheck
    exact hpart.offset_le hcheck hbounds

/-- A view of 24 floats and its slices. -/
theorem floats_inside :
    ∃ (storage : Storage) (view : TensorView 3), storage.size = 96 ∧
      create storage ⟨[2, 3, 4], rfl⟩ 4 = .ok view ∧
      ∀ w, SlicedFrom view w → ∀ indices, w.inBounds indices = true →
        ∃ offset, w.byteOffset indices = .ok offset ∧ offset.toNat + 4 ≤ 96 := by
  have hcreate : create ⟨4096, 96, .system⟩ ⟨[2, 3, 4], rfl⟩ 4 =
      .ok (whole ⟨4096, 96, .system⟩ ⟨[2, 3, 4], rfl⟩ 4) := create_eq_ok_iff.mpr ⟨rfl, by decide⟩
  exact ⟨_, _, rfl, hcreate, (addresses_inside_iff hcreate).mpr (by decide)⟩

/-- With `2^32` rows of `2^32` floats the number of bytes wraps to zero, and the second row
    is far behind the four bytes of the storage. -/
theorem wrapped_view_outside :
    ∃ (storage : Storage) (view : TensorView 2), storage.size = 4 ∧
      create storage ⟨[4294967296, 4294967296], rfl⟩ 4 = .ok view ∧
      view.inBounds ⟨[1, 0], rfl⟩ = true ∧
      view.byteOffset ⟨[1, 0], rfl⟩ = .ok 17179869184 :=
  ⟨⟨4096, 4, .system⟩, _, rfl, create_eq_ok_iff.mpr ⟨rfl, by decide⟩, by decide, by decide⟩

end TensorView

end DynamoCpp.Llm.Kv
