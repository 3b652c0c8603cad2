import DynamoCpp.Llm.Kv.Layer

/-! # Geometry of adopted layers

    `from_layers` takes the details of the first layer for all of them, and compares only the
    kind of storage and the number of blocks.  What copies need of every slab is computed
    from these details.  It is there exactly if the caller's layers agree with each other
    and the number of bytes is below `2^64` (`geometry_shared_iff`).
-/

namespace DynamoCpp.Llm.Kv

open KvBlockStorage

/-- What the details record of the layers. -/
structure Geometry where
  layout        : KvLayout
  blockSize     : UInt64
  numberOfHeads : UInt64
  headSize      : UInt64
  dtype         : DType
  tpSize        : UInt64
deriving DecidableEq

def KvLayer.geometry (l : KvLayer) : Geometry :=
  ⟨l.layout, l.blockSize, l.numberOfHeads, l.headSize, l.dtype, l.tpSize⟩

def KvBlockDetails.geometry (d : KvBlockDetails) : Geometry :=
  ⟨d.layout, d.blockSize, d.modelDetails.numberOfHeads, d.modelDetails.headSize,
    d.modelDetails.dtype, d.tpSize⟩

/-- The bytes of a tensor with this shape are those that copies count.  The factor two is above
    the blocks or below them. -/
theorem KvBlockDetails.shape_bytes (d : KvBlockDetails) (n : UInt64) :
    accumulate (shapeOf d.layout n d.blockSize (d.modelDetails.numberOfHeads / d.tpSize)
        d.modelDetails.headSize).val * dtypeSize d.modelDetails.dtype =
      d.prefixDim * n * d.suffixDim * d.elemSize := by
  unfold prefixDim suffixDim elemSize
  cases d.layout with
  | kvFirst =>
    simp only [shapeOf, accumulate, List.foldl_cons, List.foldl_nil, if_true]
    grind
  | blockFirst =>
    simp only [shapeOf, accumulate, List.foldl_cons, List.foldl_nil, reduceCtorEq, if_false]
    grind

/-- What the constructor of a layer has checked. -/
theorem KvLayer.bytes_le {l : KvLayer} {d : KvBlockDetails} (h : l.geometry = d.geometry) :
    d.prefixDim * l.numberOfBlocks * d.suffixDim * d.elemSize ≤ l.storage.size := by
  have hlarge := UInt64.not_lt.mp l.large
  simp only [geometry, KvBlockDetails.geometry, Geometry.mk.injEq] at h
  obtain ⟨hlayout, hblock, hheads, hhead, hdtype, htp⟩ := h
  rw [hlayout, hblock, hheads, hhead, hdtype, htp, d.shape_bytes] at hlarge
  exact hlarge

/-- The bytes that copies can touch in every slab, as a number. -/
def KvBlockStorage.copySpan (s : KvBlockStorage) : Nat :=
  s.blockDetails.prefixDim.toNat * s.numberOfBlocks.toNat * s.blockDetails.suffixDim.toNat *
    s.blockDetails.elemSize.toNat

/-! ## Adopting layers -/

namespace KvBlockStorage

variable {first : KvLayer} {layers : List KvLayer} {s : KvBlockStorage}

theorem disagreement_eq_none_iff :
    disagreement first layers = none ↔
      ∀ layer ∈ layers, layer.storage.kind = first.storage.kind ∧
        layer.numberOfBlocks = first.numberOfBlocks := by
  unfold disagreement
  rw [List.findSome?_eq_none_iff]
  apply forall₂_congr
  intro layer _
  by_cases hkind : layer.storage.kind = first.storage.kind <;>
    by_cases hblocks : layer.numberOfBlocks = first.numberOfBlocks <;> simp [hkind]

/-- Everything `from_layers` checks. -/
theorem fromLayers_eq_ok_iff :
    fromLayers (first :: layers) = .ok s ↔
      (∀ layer ∈ first :: layers, layer.storage.kind = first.storage.kind ∧
        layer.numberOfBlocks = first.numberOfBlocks) ∧
      (detailsOf first (first :: layers)).validate = .ok () ∧
      (∀ layer ∈ first :: layers,
        (detailsOf first (first :: layers)).bytesPerTokenBlockPerLayer ≤ layer.storage.size) ∧
      s = ⟨detailsOf first (first :: layers), first.storage.kind, first.numberOfBlocks,
        first :: layers⟩ := by
  rw [← disagreement_eq_none_iff]
  unfold fromLayers
  dsimp only
  cases disagreement first (first :: layers) with
  | some what => simp
  | none =>
    cases (detailsOf first (first :: layers)).validate with
    | error what => simp
    | ok _ =>
      dsimp only
      split
      · next hsmall =>
        obtain ⟨layer, hlayer, hlt⟩ := hsmall
        refine ⟨fun h => (by cases h), fun h => ?_⟩
        exact absurd (h.2.2.1 layer hlayer) (UInt64.not_le.mpr hlt)
      · next hlarge =>
        rw [Except.ok.injEq]
        refine ⟨fun h => ⟨rfl, rfl, fun layer hlayer => ?_, h.symm⟩, fun h => h.2.2.2.symm⟩
        exact UInt64.not_lt.mp fun hlt => hlarge ⟨layer, hlayer, hlt⟩

theorem fromLayers_eq_ok (h : fromLayers layers = .ok s) :
    s.layers = layers ∧ (∀ l ∈ layers, l.numberOfBlocks = s.numberOfBlocks) ∧
      ∃ first ∈ layers, first.geometry = s.blockDetails.geometry := by
  cases layers with
  | nil => cases h
  | cons first rest =>
    obtain ⟨hagree, _, _, rfl⟩ := fromLayers_eq_ok_iff.mp h
    exact ⟨rfl, fun l hl => (hagree l hl).2, first, List.mem_cons_self, rfl⟩

/-- The details are those of all layers exactly if the layers agree.  Then the slabs are as
    large as copies need exactly if nothing wraps. -/
theorem copies_fit_iff (h : fromLayers layers = .ok s) :
    ((∀ l ∈ s.layers, l.geometry = s.blockDetails.geometry) ∧
        ∀ l ∈ s.layers, s.copySpan ≤ l.storage.size.toNat) ↔
      (∀ l ∈ layers, ∀ l' ∈ layers, l.geometry = l'.geometry) ∧ s.copySpan < UInt64.size := by
  obtain ⟨hlayers, hblocks, first, hfirst, hdetails⟩ := fromLayers_eq_ok h
  rw [hlayers]
  constructor
  · rintro ⟨hgeometry, hfits⟩
    refine ⟨fun l hl l' hl' => (hgeometry l hl).trans (hgeometry l' hl').symm, ?_⟩
    exact Nat.lt_of_le_of_lt (hfits first hfirst) first.storage.size.toNat_lt_size
  · rintro ⟨hsame, hbelow⟩
    have hgeometry : ∀ l ∈ layers, l.geometry = s.blockDetails.geometry :=
      fun l hl => (hsame l hl first hfirst).trans hdetails
    refine ⟨hgeometry, fun l hl => ?_⟩
    have hbytes := UInt64.le_iff_toNat_le.mp (KvLayer.bytes_le (hgeometry l hl))
    simp only [hblocks l hl, UInt64.toNat_mul, Nat.mod_mul_mod] at hbytes
    rw [← Nat.mod_eq_of_lt hbelow]
    exact hbytes

end KvBlockStorage

/-! ## Main result -/

/-- No data type is refused for its size. -/
theorem CopyStreamBlockMap.create_eq_ok_iff {src dst : KvBlockStorage} {map : CopyStreamBlockMap} :
    create src dst = .ok map ↔
      src.blockDetails.isCompatible dst.blockDetails = true ∧
        src.layers.length = dst.layers.length ∧ of src dst = map := by
  have hsizes : ∀ dtype : DType, ¬ (toInt (dtypeSize dtype) < 1 ∨ toInt (dtypeSize dtype) > 8) := by
    intro dtype
    cases dtype <;> decide
  have helem : ¬ ((of src dst).elemSize < 1 ∨ (of src dst).elemSize > 8) := hsizes _
  unfold create
  rw [if_neg helem]
  by_cases hcompatible : src.blockDetails.isCompatible dst.blockDetails = true
  · by_cases hlength : src.layers.length = dst.layers.length <;> simp [hcompatible, hlength]
  · simp [hcompatible]

/-- Storages with compatible details have the same dimensions but for the number of blocks. -/
theorem KvBlockDetails.copySpan_of_isCompatible {src dst : KvBlockStorage}
    (h : src.blockDetails.isCompatible dst.blockDetails = true) :
    src.blockDetails.prefixDim.toNat * dst.numberOfBlocks.toNat *
      src.blockDetails.suffixDim.toNat * src.blockDetails.elemSize.toNat = dst.copySpan := by
  simp only [isCompatible, Bool.and_eq_true, decide_eq_true_eq] at h
  obtain ⟨⟨⟨hlayout, hblock⟩, htp⟩, hmodel⟩ := h
  unfold copySpan prefixDim suffixDim elemSize
  rw [hlayout, hblock, htp, hmodel]

/-- **Geometry of adopted layers.**  All layers of two storages have the recorded geometry, and
    their slabs what copies between them need, exactly if the layers on each side agree and
    the number of bytes is below `2^64` on both. -/
theorem geometry_shared_iff {srcLayers dstLayers : List KvLayer} {src dst : KvBlockStorage}
    {map : CopyStreamBlockMap} (hsrc : KvBlockStorage.fromLayers srcLayers = .ok src)
    (hdst : KvBlockStorage.fromLayers dstLayers = .ok dst)
    (hmap : CopyStreamBlockMap.create src dst = .ok map) :
    (((∀ l ∈ src.layers, l.geometry = src.blockDetails.geometry) ∧
        ∀ l ∈ src.layers,
          src.blockDetails.prefixDim.toNat * src.numberOfBlocks.toNat *
            src.blockDetails.suffixDim.toNat * src.blockDetails.elemSize.toNat ≤
              l.storage.size.toNat) ∧
      (∀ l ∈ dst.layers, l.geometry = dst.blockDetails.geometry) ∧
        ∀ l ∈ dst.layers,
          src.blockDetails.prefixDim.toNat * dst.numberOfBlocks.toNat *
            src.blockDetails.suffixDim.toNat * src.blockDetails.elemSize.toNat ≤
              l.storage.size.toNat) ↔
      ((∀ l ∈ srcLayers, ∀ l' ∈ srcLayers, l.geometry = l'.geometry) ∧
          src.copySpan < UInt64.size) ∧
        (∀ l ∈ dstLayers, ∀ l' ∈ dstLayers, l.geometry = l'.geometry) ∧
          dst.copySpan < UInt64.size := by
  have hcompatible := (CopyStreamBlockMap.create_eq_ok_iff.mp hmap).1
  rw [KvBlockDetails.copySpan_of_isCompatible hcompatible]
  exact and_congr (copies_fit_iff hsrc) (copies_fit_iff hdst)

/-- Two layers of the same geometry, copied to themselves. -/
theorem twin_layers_shared :
    ∃ (first second : KvLayer) (s : KvBlockStorage) (map : CopyStreamBlockMap),
      KvBlockStorage.fromLayers [first, second] = .ok s ∧
      CopyStreamBlockMap.create s s = .ok map ∧
      first.storage.pointer ≠ second.storage.pointer ∧
      (∀ l ∈ s.layers, l.geometry = s.blockDetails.geometry) ∧
      s.copySpan = 64 ∧ ∀ l ∈ s.layers, s.copySpan ≤ l.storage.size.toNat := by
  let first : KvLayer := ⟨.kvFirst, ⟨4096, 64, .system⟩, 2, 4, 1, 1, .f32, 1, 0, by decide,
    by decide, by decide, by decide⟩
  let second : KvLayer := ⟨.kvFirst, ⟨8192, 64, .system⟩, 2, 4, 1, 1, .f32, 1, 0, by decide,
    by decide, by decide, by decide⟩
  let s : KvBlockStorage :=
    ⟨detailsOf first [first, second], .system, 2, [first, second]⟩
  have hstorage : fromLayers [first, second] = .ok s :=
    fromLayers_eq_ok_iff.mpr ⟨by decide, by decide, by decide, rfl⟩
  have hmap : CopyStreamBlockMap.create s s = .ok (CopyStreamBlockMap.of s s) :=
    CopyStreamBlockMap.create_eq_ok_iff.mpr ⟨by decide, rfl, rfl⟩
  have hsame : (∀ l ∈ [first, second], ∀ l' ∈ [first, second], l.geometry = l'.geometry) ∧
      s.copySpan < UInt64.size := ⟨by decide, by decide⟩
  have hshared := (geometry_shared_iff hstorage hstorage hmap).mpr ⟨hsame, hsame⟩
  exact ⟨first, second, s, _, hstorage, hmap, by decide, hshared.1.1, by decide, hshared.1.2⟩

/-- The second layer has smaller blocks than the first one.  They are adopted together, and
    copies would need 64 bytes of a slab of 32. -/
theorem smaller_blocks_adopted :
    ∃ (first second : KvLayer) (s : KvBlockStorage) (map : CopyStreamBlockMap),
      KvBlockStorage.fromLayers [first, second] = .ok s ∧
      CopyStreamBlockMap.create s s = .ok map ∧
      second ∈ s.layers ∧ second.blockSize ≠ s.blockDetails.blockSize ∧
      second.storage.size = 32 ∧
      s.blockDetails.prefixDim.toNat * s.numberOfBlocks.toNat * s.blockDetails.suffixDim.toNat *
        s.blockDetails.elemSize.toNat = 64 := by
  let first : KvLayer := ⟨.kvFirst, ⟨4096, 64, .system⟩, 2, 4, 1, 1, .f32, 1, 0, by decide,
    by decide, by decide, by decide⟩
  let second : KvLayer := ⟨.kvFirst, ⟨8192, 32, .system⟩, 2, 1, 1, 1, .f32, 1, 0, by decide,
    by decide, by decide, by decide⟩
  let s : KvBlockStorage :=
    ⟨detailsOf first [first, second], .system, 2, [first, second]⟩
  have hstorage : fromLayers [first, second] = .ok s :=
    fromLayers_eq_ok_iff.mpr ⟨by decide, by decide, by decide, rfl⟩
  have hmap : CopyStreamBlockMap.create s s = .ok (CopyStreamBlockMap.of s s) :=
    CopyStreamBlockMap.create_eq_ok_iff.mpr ⟨by decide, rfl, rfl⟩
  exact ⟨first, second, s, _, hstorage, hmap, by simp [s], by decide, rfl, by decide⟩

end DynamoCpp.Llm.Kv
