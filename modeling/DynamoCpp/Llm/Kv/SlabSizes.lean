import DynamoCpp.Llm.Kv.Geometry
import DynamoCpp.Llm.Kv.ViewBounds
import Mathlib.Tactic.Ring

/-! # Sizes of slabs

    The bytes of a layer are computed in three ways: from the bytes of a token, from the
    shape of the tensor, and from the geometry of copies.  If nothing overflows they agree, so
    what `allocate` asks for is what the layers need (`slab_sizes_agree`).
-/

namespace DynamoCpp.Llm.Kv

open Framework.RowMajor (volume volume_cons volume_nil)

/-! ## The bytes of a slab -/

namespace KvBlockDetails

variable {d : KvBlockDetails} {n : UInt64}

/-- The bytes of the tokens of one block for all ranks, as a number. -/
def tokenBytes (d : KvBlockDetails) : Nat :=
  2 * d.modelDetails.numberOfHeads.toNat * d.modelDetails.headSize.toNat *
    d.elemSize.toNat * d.blockSize.toNat

/-- Usable details and number of blocks, for which no formula overflows. -/
structure Usable (d : KvBlockDetails) (n : UInt64) : Prop where
  valid     : d.validate = .ok ()
  blockSize : d.blockSize ≠ 0
  headSize  : d.modelDetails.headSize ≠ 0
  blocks    : n ≠ 0
  token_lt  : d.tokenBytes < UInt64.size
  slab_lt   : d.tokenBytes / d.tpSize.toNat * n.toNat < UInt64.size

/-- What `allocate` asks for each layer. -/
def slab (d : KvBlockDetails) (n : UInt64) : UInt64 := d.bytesPerTokenBlockPerLayer * n

def shape (d : KvBlockDetails) (n : UInt64) : Dims 5 :=
  shapeOf d.layout n d.blockSize (d.modelDetails.numberOfHeads / d.tpSize) d.modelDetails.headSize

namespace Usable

variable (h : d.Usable n)
include h

theorem of_valid :
    d.tpSize ≠ 0 ∧ d.modelDetails.numberOfHeads % d.tpSize = 0 ∧ d.tpRank < d.tpSize ∧
      d.modelDetails.numberOfHeads ≠ 0 := by
  have hvalid := h.valid
  unfold validate at hvalid
  split at hvalid
  · cases hvalid
  · next htp =>
    split at hvalid
    · cases hvalid
    · next hrank =>
      split at hvalid
      · cases hvalid
      · next hheads =>
        rw [not_or, not_not] at htp
        refine ⟨htp.1, htp.2, UInt64.not_le.mp hrank, fun hzero => htp.1 ?_⟩
        rw [hzero] at hheads
        exact UInt64.le_zero_iff.mp (UInt64.not_lt.mp hheads)

theorem bytes_toNat : d.bytesPerTokenBlockPerLayer.toNat = d.tokenBytes / d.tpSize.toNat := by
  have hwords : d.modelDetails.bytesPerTokenPerLayer * d.blockSize = .ofNat d.tokenBytes := by
    simp only [tokenBytes, UInt64.ofNat_mul, UInt64.ofNat_toNat]
    rfl
  rw [bytesPerTokenBlockPerLayer, hwords, UInt64.toNat_div, UInt64.toNat_ofNat_of_lt' h.token_lt]

theorem slab_toNat : (d.slab n).toNat = d.tokenBytes / d.tpSize.toNat * n.toNat := by
  rw [slab, UInt64.toNat_mul, h.bytes_toNat]
  exact Nat.mod_eq_of_lt h.slab_lt

/-- Dividing the bytes or dividing the heads is the same for a number of ranks that divides
    the heads. -/
theorem volume_eq : volume (nats (d.shape n).val) * d.elemSize.toNat = (d.slab n).toNat := by
  obtain ⟨htp, hdivides, _⟩ := h.of_valid
  have hpos : 0 < d.tpSize.toNat := UInt64.lt_iff_toNat_lt.mp (UInt64.pos_iff_ne_zero.mpr htp)
  have hmod : d.modelDetails.numberOfHeads.toNat % d.tpSize.toNat = 0 := by
    rw [← UInt64.toNat_mod, hdivides]
    rfl
  obtain ⟨heads, hheads⟩ := Nat.dvd_of_mod_eq_zero hmod
  have htoken : d.tokenBytes / d.tpSize.toNat =
      2 * heads * d.modelDetails.headSize.toNat * d.elemSize.toNat * d.blockSize.toNat := by
    apply Nat.div_eq_of_eq_mul_left hpos
    rw [tokenBytes, hheads]
    ring
  have hrank : (d.modelDetails.numberOfHeads / d.tpSize).toNat = heads := by
    rw [UInt64.toNat_div, hheads, Nat.mul_div_cancel_left _ hpos]
  have htwo : (2 : UInt64).toNat = 2 := rfl
  rw [h.slab_toNat, htoken, shape]
  cases d.layout <;>
    simp only [shapeOf, nats_cons, nats_nil, volume_cons, volume_nil, hrank, htwo] <;> ring

theorem slab_eq : d.slab n = accumulate (d.shape n).val * d.elemSize := by
  rw [accumulate_eq, ← d.elemSize.ofNat_toNat, ← UInt64.ofNat_mul, h.volume_eq, UInt64.ofNat_toNat]

end Usable

end KvBlockDetails

/-! ## Allocating layers -/

open KvBlockDetails

variable {d : KvBlockDetails} {n : UInt64} {kind : StorageKind}

/-- The layer in a slab of the size that `allocate` asks for. -/
def KvBlockDetails.Usable.layer (h : d.Usable n) (storage : Storage)
    (hsize : storage.size = d.slab n) : KvLayer where
  layout         := d.layout
  storage        := storage
  numberOfBlocks := n
  blockSize      := d.blockSize
  numberOfHeads  := d.modelDetails.numberOfHeads
  headSize       := d.modelDetails.headSize
  dtype          := d.modelDetails.dtype
  tpSize         := d.tpSize
  tpRank         := d.tpRank
  nonzero        := by simp [h.blocks, h.blockSize, h.headSize, h.of_valid.2.2.2]
  tp_divides     := by simp [h.of_valid.1, h.of_valid.2.1]
  rank_lt        := UInt64.not_le.mpr h.of_valid.2.2.1
  large          := by
    rw [hsize, h.slab_eq]
    exact UInt64.lt_irrefl _

/-- One of the layers that `allocate` makes. -/
def KvLayer.MadeOf (l : KvLayer) (h : d.Usable n) (kind : StorageKind) : Prop :=
  ∃ storage hsize, storage.kind = kind ∧ l = h.layer storage hsize

namespace KvBlockStorage

/-- A loop over calls that all succeed. -/
theorem mapM_eq_ok {α β : Type} {f : α → Except Bytes β} {p : β → Prop} {l : List α}
    (hall : ∀ x ∈ l, ∃ y, f x = .ok y ∧ p y) :
    ∃ ys, l.mapM f = .ok ys ∧ ys.length = l.length ∧ ∀ y ∈ ys, p y := by
  induction l with
  | nil => exact ⟨[], rfl, rfl, by simp⟩
  | cons x l ih =>
    obtain ⟨⟨y, hy, hp⟩, hrest⟩ := List.forall_mem_cons.mp hall
    obtain ⟨ys, hys, hlength, hps⟩ := ih hrest
    refine ⟨y :: ys, ?_, congrArg Nat.succ hlength, List.forall_mem_cons.mpr ⟨hp, hps⟩⟩
    rw [List.mapM_cons, hy, hys]
    rfl

/-- The layers were made of one and the same details. -/
theorem fromLayers_of_madeOf {layers : List KvLayer} (h : d.Usable n) (hlayers : layers ≠ [])
    (hcount : layers.length = d.modelDetails.numberOfLayers.toNat)
    (hmade : ∀ l ∈ layers, l.MadeOf h kind) : fromLayers layers = .ok ⟨d, kind, n, layers⟩ := by
  obtain ⟨first, rest, rfl⟩ := List.exists_cons_of_ne_nil hlayers
  obtain ⟨storage, hsize, rfl, rfl⟩ := hmade first List.mem_cons_self
  have hdetails : detailsOf (h.layer storage hsize) (h.layer storage hsize :: rest) = d := by
    rw [detailsOf, hcount, UInt64.ofNat_toNat]
    rfl
  rw [fromLayers_eq_ok_iff, hdetails]
  refine ⟨fun l hl => ?_, h.valid, fun l hl => ?_, rfl⟩
  · obtain ⟨storage', hsize', hkind, rfl⟩ := hmade l hl
    exact ⟨hkind, rfl⟩
  · obtain ⟨storage', hsize', -, rfl⟩ := hmade l hl
    show _ ≤ storage'.size
    rw [hsize', UInt64.le_iff_toNat_le, h.slab_toNat, h.bytes_toNat]
    exact Nat.le_mul_of_pos_right _
      (UInt64.lt_iff_toNat_lt.mp (UInt64.pos_iff_ne_zero.mpr h.blocks))

theorem allocate_eq_ok (h : d.Usable n) (hlayers : d.modelDetails.numberOfLayers ≠ 0)
    {create : Nat → UInt64 → StorageKind → Except Bytes Storage}
    (hcreate : ∀ i < d.modelDetails.numberOfLayers.toNat, ∃ storage,
      create i (d.slab n) kind = .ok storage ∧ storage.size = d.slab n ∧ storage.kind = kind) :
    ∃ layers, allocate create n d kind = .ok ⟨d, kind, n, layers⟩ ∧
      layers.length = d.modelDetails.numberOfLayers.toNat ∧ ∀ l ∈ layers, l.MadeOf h kind := by
  have hlayer : ∀ i ∈ List.range d.modelDetails.numberOfLayers.toNat, ∃ l,
      (create i (d.slab n) kind >>= KvLayer.fromStorage d n) = .ok l ∧ l.MadeOf h kind := by
    intro i hi
    obtain ⟨storage, hstorage, hsize, hkind⟩ := hcreate i (List.mem_range.mp hi)
    refine ⟨h.layer storage hsize, ?_, storage, hsize, hkind, rfl⟩
    rw [hstorage]
    exact (dif_neg _).trans ((dif_neg _).trans ((dif_neg _).trans (dif_neg _)))
  obtain ⟨layers, hmapM, hlength, hmade⟩ := mapM_eq_ok hlayer
  rw [List.length_range] at hlength
  have hne : layers ≠ [] := by
    rintro rfl
    exact hlayers (UInt64.toNat_inj.mp hlength.symm)
  refine ⟨layers, ?_, hlength, hmade⟩
  rw [← fromLayers_of_madeOf h hne hlength hmade, allocate, h.valid]
  exact congrArg (· >>= fromLayers) hmapM

end KvBlockStorage

/-! ## Main result -/

theorem dtypeSize_pos (dtype : DType) : 0 < (dtypeSize dtype).toNat := by
  cases dtype <;> decide

/-- The bytes of the elements of its view are the bytes of the slab. -/
def KvLayer.Covered (l : KvLayer) : Prop :=
  ∃ view, l.view = .ok view ∧
    ∀ b, (∃ i o, view.inBounds i = true ∧ view.byteOffset i = .ok o ∧ o.toNat ≤ b ∧
      b < o.toNat + (dtypeSize l.dtype).toNat) ↔ b < l.storage.size.toNat

theorem KvLayer.MadeOf.covered {l : KvLayer} {h : d.Usable n} (hl : l.MadeOf h kind) :
    l.Covered := by
  obtain ⟨storage, hsize, -, rfl⟩ := hl
  have hvolume : _ = (d.slab n).toNat := h.volume_eq
  have hbelow := storage.size.toNat_lt_size
  rw [← hsize] at hvolume
  refine ⟨_, TensorView.create_eq_ok_iff.mpr ⟨rfl, ?_⟩, fun b => ⟨?_, fun hb => ?_⟩⟩
  · exact (Nat.mod_le _ _).trans hvolume.le
  · rintro ⟨i, o, hi, ho, hlow, hhigh⟩
    obtain ⟨o', ho', hle⟩ := (TensorView.isPart_whole _ _ _).offset_le hvolume.le hi
    cases ho.symm.trans ho'
    exact hhigh.trans_le hle
  · -- the element that contains the byte
    have hpos := dtypeSize_pos d.modelDetails.dtype
    have hnumber : b / d.elemSize.toNat < volume (nats (d.shape n).val) :=
      (Nat.div_lt_iff_lt_mul hpos).mpr (hvolume ▸ hb)
    obtain ⟨i, hi, ho⟩ := TensorView.exists_element storage d.elemSize hnumber
    have hdiv := Nat.div_mul_le_self b d.elemSize.toNat
    refine ⟨i, _, hi, ho, ?_⟩
    rw [UInt64.toNat_ofNat_of_lt' (hdiv.trans_lt (hb.trans hbelow))]
    exact ⟨hdiv, Nat.lt_div_mul_add hpos⟩

/-- **Sizes of slabs.**  If nothing overflows, the three formulas agree, and if every slab is
    obtained, `allocate` does not fail and every slab is covered by the view of its layer. -/
theorem slab_sizes_agree (h : d.Usable n) :
    d.bytesPerTokenBlockPerLayer * n =
        accumulate (shapeOf d.layout n d.blockSize (d.modelDetails.numberOfHeads / d.tpSize)
          d.modelDetails.headSize).val * dtypeSize d.modelDetails.dtype ∧
      d.bytesPerTokenBlockPerLayer * n = d.prefixDim * n * d.suffixDim * d.elemSize ∧
      ∀ create kind, d.modelDetails.numberOfLayers ≠ 0 →
        (∀ i < d.modelDetails.numberOfLayers.toNat, ∃ storage,
          create i (d.bytesPerTokenBlockPerLayer * n) kind = .ok storage ∧
            storage.size = d.bytesPerTokenBlockPerLayer * n ∧ storage.kind = kind) →
        ∃ s, KvBlockStorage.allocate create n d kind = .ok s ∧
          s.layers.length = d.modelDetails.numberOfLayers.toNat ∧
          ∀ l ∈ s.layers, l.numberOfBlocks = n ∧ l.geometry = d.geometry ∧ l.Covered := by
  refine ⟨h.slab_eq, h.slab_eq.trans (d.shape_bytes n), fun create kind hlayers hcreate => ?_⟩
  obtain ⟨layers, hallocate, hlength, hmade⟩ :=
    KvBlockStorage.allocate_eq_ok h hlayers hcreate
  refine ⟨_, hallocate, hlength, fun l hl => ?_⟩
  have hcovered := (hmade l hl).covered
  obtain ⟨storage, hsize, -, rfl⟩ := hmade l hl
  exact ⟨rfl, rfl, hcovered⟩

/-- Two layers of eight heads on two ranks. -/
theorem eight_heads_allocated :
    let d : KvBlockDetails := ⟨.blockFirst, 4, 1, 2, ⟨2, 8, 16, .f16⟩⟩
    d.bytesPerTokenBlockPerLayer * 10 = 10240 ∧
      ∃ s, KvBlockStorage.allocate (fun _ bytes kind => .ok ⟨4096, bytes, kind⟩) 10 d .system =
          .ok s ∧
        s.layers.length = 2 ∧ ∀ l ∈ s.layers, l.Covered := by
  intro d
  have husable : d.Usable 10 :=
    ⟨by decide, by decide, by decide, by decide, by decide, by decide⟩
  obtain ⟨s, hallocate, hlength, hlayers⟩ := (slab_sizes_agree husable).2.2
    (fun _ bytes kind => .ok ⟨4096, bytes, kind⟩) .system (by decide)
    fun _ _ => ⟨_, rfl, rfl, rfl⟩
  exact ⟨by decide, s, hallocate, hlength, fun l hl => (hlayers l hl).2.2⟩

end DynamoCpp.Llm.Kv
