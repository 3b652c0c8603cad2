import DynamoCpp.Framework.OrderedMap
import Mathlib.Data.List.Sort

/-! # Folding a stream by key

    Items of several keys arrive in one stream.  A map keeps a state for every key: the
    first item of a key makes the state, and every item of the key is absorbed by it
    (`gather`).  What the map holds at a key is the fold of the items of that key, in their
    order, and nothing else (`getElem?_gather`).

    The entries of the map are visited in some order (`OrdMap.Order`), finished and sorted
    by key.  The result has one element for every key that occurred (`PerKey`), and it does
    not depend on the order, nor on how the items of different keys were interleaved
    (`PerKey.eq_of_congr`).
-/

namespace Framework

universe u v w x

/-! ## One state for each key -/

section gather

variable {κ : Type u} {δ : Type v} {σ : Type w}

/-- An item arrives at the state of its key. -/
def keyStep (fresh : δ → σ) (absorb : σ → δ → σ) (state : Option σ) (d : δ) : Option σ :=
  some (absorb (state.getD (fresh d)) d)

/-- The state of a key after its items. -/
def keyFold (fresh : δ → σ) (absorb : σ → δ → σ) (ds : List δ) : Option σ :=
  ds.foldl (keyStep fresh absorb) none

variable {fresh : δ → σ} {absorb : σ → δ → σ}

theorem foldl_keyStep_some (ds : List δ) :
    ∀ state, ds.foldl (keyStep fresh absorb) (some state) = some (ds.foldl absorb state) := by
  induction ds with
  | nil => exact fun state => rfl
  | cons d ds ih => exact fun state => ih (absorb state d)

/-- The first item makes the state. -/
theorem keyFold_cons (d : δ) (ds : List δ) :
    keyFold fresh absorb (d :: ds) = some ((d :: ds).foldl absorb (fresh d)) :=
  foldl_keyStep_some ds _

theorem isSome_keyFold_iff {ds : List δ} : (keyFold fresh absorb ds).isSome ↔ ds ≠ [] := by
  cases ds with
  | nil => simp [keyFold]
  | cons d ds => simp [keyFold_cons]

/-- What was last given for something that need not be given. -/
theorem foldl_elim_eq_getLast? {α : Type x} {β : Type w} (given : δ → Option α) (take : α → β)
    (ds : List δ) : ∀ start : β,
    ds.foldl (fun old d => (given d).elim old take) start =
      ((ds.filterMap given).getLast?).elim start take := by
  induction ds with
  | nil => exact fun start => rfl
  | cons d ds ih =>
    intro start
    rw [List.foldl_cons, ih, List.filterMap_cons]
    cases given d with
    | none => rfl
    | some a =>
      dsimp only
      rw [List.getLast?_cons]
      cases (ds.filterMap given).getLast? with
      | none => rfl
      | some last => rfl

theorem foldl_elim_none {α : Type x} {β : Type w} (given : δ → Option α) (take : α → Option β)
    (ds : List δ) :
    ds.foldl (fun old d => (given d).elim old take) none =
      (ds.filterMap given).getLast?.bind take := by
  rw [foldl_elim_eq_getLast?]
  cases (ds.filterMap given).getLast? with
  | none => rfl
  | some last => rfl

/-- If an item replaces the state, the last one counts. -/
theorem keyFold_replace (value : δ → σ) (ds : List δ) :
    keyFold value (fun _ d => value d) ds = ds.getLast?.map value := by
  cases ds with
  | nil => rfl
  | cons d ds =>
    have hlast := foldl_elim_eq_getLast? some value (d :: ds) (value d)
    rw [List.filterMap_some, List.getLast?_cons] at hlast
    rw [keyFold_cons, List.getLast?_cons]
    exact congrArg some hlast

variable [Ord κ] [Std.TransOrd κ] [Std.LawfulEqOrd κ] [DecidableEq κ]

/-- `try_emplace`, and the update of the entry. -/
def gatherStep (key : δ → κ) (fresh : δ → σ) (absorb : σ → δ → σ) (m : OrdMap κ σ) (d : δ) :
    OrdMap κ σ :=
  m.insert (key d) (absorb (m[key d]?.getD (fresh d)) d)

def gather (key : δ → κ) (fresh : δ → σ) (absorb : σ → δ → σ) (m : OrdMap κ σ) (ds : List δ) :
    OrdMap κ σ :=
  ds.foldl (gatherStep key fresh absorb) m

variable {key : δ → κ}

theorem getElem?_gatherStep (m : OrdMap κ σ) (d : δ) (k : κ) :
    (gatherStep key fresh absorb m d)[k]? =
      if key d = k then keyStep fresh absorb m[k]? d else m[k]? := by
  unfold gatherStep
  rw [Std.ExtTreeMap.getElem?_insert]
  by_cases hk : key d = k
  · subst hk
    simp [keyStep]
  · simp [hk]

/-- **Keys are folded apart.**  An entry of the map is the fold of the items of its key. -/
theorem getElem?_gather (ds : List δ) : ∀ (m : OrdMap κ σ) (k : κ),
    (gather key fresh absorb m ds)[k]? =
      (ds.filter fun d => key d = k).foldl (keyStep fresh absorb) m[k]? := by
  induction ds with
  | nil => exact fun m k => rfl
  | cons d ds ih =>
    intro m k
    refine (ih _ k).trans ?_
    -- an item of another key leaves the entry as it is, and is not among the filtered ones
    rw [getElem?_gatherStep, List.filter_cons]
    by_cases hk : key d = k <;> simp [hk]

theorem getElem?_gather_empty (ds : List δ) (k : κ) :
    (gather key fresh absorb ∅ ds)[k]? = keyFold fresh absorb (ds.filter fun d => key d = k) := by
  rw [getElem?_gather, Std.ExtTreeMap.getElem?_empty]
  rfl

omit [Std.LawfulEqOrd κ] [DecidableEq κ] in
theorem gather_append (m : OrdMap κ σ) (ds ds' : List δ) :
    gather key fresh absorb m (ds ++ ds') =
      gather key fresh absorb (gather key fresh absorb m ds) ds' :=
  List.foldl_append

end gather

/-! ## The entries in some order -/

section order

variable {κ : Type u} {σ : Type w} [Ord κ] [Std.TransOrd κ] [Std.LawfulEqOrd κ]

/-- An order in which the entries of a map are visited, when the map promises none. -/
structure OrdMap.Order (m : OrdMap κ σ) where
  entries : List (κ × σ)
  perm    : entries.Perm m.toList

theorem OrdMap.Order.mem_iff {m : OrdMap κ σ} (order : m.Order) {k : κ} {s : σ} :
    (k, s) ∈ order.entries ↔ m[k]? = some s := by
  rw [order.perm.mem_iff, Std.ExtTreeMap.mem_toList_iff_getElem?_eq_some]

/-- No key is visited twice. -/
theorem OrdMap.Order.distinct {m : OrdMap κ σ} (order : m.Order) :
    order.entries.Pairwise fun a b => a.1 ≠ b.1 := by
  have hkeys := @Std.ExtTreeMap.distinct_keys_toList κ σ compare m _
  refine (order.perm.pairwise_iff fun hab heq => hab heq.symm).mpr (hkeys.imp ?_)
  intro a b hab heq
  exact hab (by rw [heq]; exact Std.ReflCmp.compare_self)

variable {γ : Type x}

/-- `std::sort` by increasing index. -/
def sortOn (index : γ → κ) (results : List γ) : List γ :=
  results.mergeSort fun a b => (compare (index a) (index b)).isLE

omit [Std.TransOrd κ] [Std.LawfulEqOrd κ] in
theorem sortOn_perm (index : γ → κ) (results : List γ) : (sortOn index results).Perm results :=
  List.mergeSort_perm _ _

/-- Distinct indices are increasing when they are sorted. -/
theorem sortOn_increasing {index : γ → κ} {results : List γ}
    (hdistinct : results.Pairwise fun a b => index a ≠ index b) :
    (sortOn index results).Pairwise fun a b => compare (index a) (index b) = .lt := by
  have hsorted := @List.pairwise_mergeSort γ (fun a b => (compare (index a) (index b)).isLE)
    (fun a b c hab hbc => Std.TransCmp.isLE_trans hab hbc)
    (fun a b => by
      rw [@Std.OrientedCmp.eq_swap κ compare _ (index b)]
      cases compare (index a) (index b) <;> rfl) results
  -- sorted lists may repeat an index; that this one does not is kept from the input
  have hne : (sortOn index results).Pairwise fun a b => index a ≠ index b :=
    ((sortOn_perm index results).pairwise_iff fun hab heq => hab heq.symm).mpr hdistinct
  refine hsorted.imp₂ ?_ hne
  intro a b hle hab
  cases hcmp : compare (index a) (index b) with
  | lt => rfl
  | eq => exact absurd (Std.LawfulEqCmp.eq_of_compare hcmp) hab
  | gt =>
    rw [hcmp] at hle
    cases hle

end order

/-! ## One result for each key -/

section perKey

variable {κ : Type u} {δ : Type v} {σ : Type w} {γ : Type x} [Ord κ] [DecidableEq κ]

/-- There is one result for every key that occurred, in increasing order, and each is what
    the items of its key fold to. -/
structure PerKey (key : δ → κ) (index : γ → κ) (FoldsTo : List δ → γ → Prop) (ds : List δ)
    (results : List γ) : Prop where
  increasing : results.Pairwise fun a b => compare (index a) (index b) = .lt
  occurs     : ∀ k, (∃ r ∈ results, index r = k) ↔ ∃ d ∈ ds, key d = k
  folds      : ∀ r ∈ results, FoldsTo (ds.filter fun d => key d = index r) r

variable {key : δ → κ} {index : γ → κ} {FoldsTo : List δ → γ → Prop} {ds ds' : List δ}
  {results results' : List γ}

omit [Ord κ] in
theorem exists_key_iff {k : κ} :
    (∃ d ∈ ds, key d = k) ↔ (ds.filter fun d => key d = k) ≠ [] := by
  simp

variable [Std.TransOrd κ]

/-- **The order of the stream does not matter**, as long as every key keeps its own. -/
theorem PerKey.eq_of_congr (h : PerKey key index FoldsTo ds results)
    (h' : PerKey key index FoldsTo ds' results')
    (hkeys : ∀ k, (ds'.filter fun d => key d = k) = ds.filter fun d => key d = k)
    (hunique : ∀ ds r r', index r = index r' → FoldsTo ds r → FoldsTo ds r' → r = r') :
    results' = results := by
  -- both lists are increasing, so it is enough that they have the same elements
  have hsubset : ∀ {ds₁ ds₂ : List δ} {rs₁ rs₂ : List γ}, PerKey key index FoldsTo ds₁ rs₁ →
      PerKey key index FoldsTo ds₂ rs₂ →
      (∀ k, (ds₁.filter fun d => key d = k) = ds₂.filter fun d => key d = k) →
      ∀ r ∈ rs₁, r ∈ rs₂ := by
    intro ds₁ ds₂ rs₁ rs₂ h₁ h₂ hsame r hr
    obtain ⟨r', hr', hindex⟩ := (h₂.occurs (index r)).mpr (by
      rw [exists_key_iff, ← hsame, ← exists_key_iff]
      exact (h₁.occurs _).mp ⟨r, hr, rfl⟩)
    have hfold := h₂.folds r' hr'
    rw [hindex, ← hsame] at hfold
    rwa [hunique _ r r' hindex.symm (h₁.folds r hr) hfold]
  have hirrefl : Std.Irrefl fun a b : γ => compare (index a) (index b) = .lt :=
    ⟨fun a h => by
      rw [@Std.ReflCmp.compare_self κ compare] at h
      cases h⟩
  have hantisymm : Std.Antisymm fun a b : γ => compare (index a) (index b) = .lt := by
    refine ⟨fun a b hab hba => ?_⟩
    rw [@Std.OrientedCmp.eq_swap κ compare, hba] at hab
    cases hab
  exact h'.increasing.eq_of_mem_iff h.increasing
    fun r => ⟨hsubset h' h hkeys r, hsubset h h' (fun k => (hkeys k).symm) r⟩

variable [Std.LawfulEqOrd κ] {fresh : δ → σ} {absorb : σ → δ → σ} {m : OrdMap κ σ}

/-- The entries of the map, finished and sorted. -/
theorem perKey_sortOn (hm : ∀ k, m[k]? = keyFold fresh absorb (ds.filter fun d => key d = k))
    (order : m.Order) {finish : κ × σ → γ}
    (hindex : ∀ k s, m[k]? = some s → index (finish (k, s)) = k)
    (hfolds : ∀ k s, m[k]? = some s → FoldsTo (ds.filter fun d => key d = k) (finish (k, s))) :
    PerKey key index FoldsTo ds (sortOn index (order.entries.map finish)) := by
  have hmem : ∀ {r}, r ∈ sortOn index (order.entries.map finish) ↔
      ∃ k s, m[k]? = some s ∧ finish (k, s) = r := by
    intro r
    simp only [(sortOn_perm index _).mem_iff, List.mem_map, Prod.exists, order.mem_iff]
  refine ⟨sortOn_increasing ?_, fun k => ?_, fun r hr => ?_⟩
  · rw [List.pairwise_map]
    refine order.distinct.imp_of_mem ?_
    rintro ⟨a, s⟩ ⟨b, t⟩ ha hb hne
    rwa [hindex a s (order.mem_iff.mp ha), hindex b t (order.mem_iff.mp hb)]
  · have hoccurs : (∃ d ∈ ds, key d = k) ↔ ∃ s, m[k]? = some s := by
      rw [exists_key_iff, ← @isSome_keyFold_iff δ σ fresh absorb, ← hm, Option.isSome_iff_exists]
    rw [hoccurs]
    constructor
    · rintro ⟨r, hr, rfl⟩
      obtain ⟨k, s, hs, rfl⟩ := hmem.mp hr
      rw [hindex k s hs]
      exact ⟨s, hs⟩
    · rintro ⟨s, hs⟩
      exact ⟨finish (k, s), hmem.mpr ⟨k, s, hs, rfl⟩, hindex k s hs⟩
  · obtain ⟨k, s, hs, rfl⟩ := hmem.mp hr
    rw [hindex k s hs]
    exact hfolds k s hs

end perKey

end Framework
