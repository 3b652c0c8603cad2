import Mathlib.Data.List.Perm.Basic
import Mathlib.Logic.Function.Basic
import Std.Data.ExtTreeMap.Lemmas
import Std.Data.ExtTreeSet.Lemmas

/-! # Ordered maps and prefix scans

    Finite maps and sets ordered by key, equal when they hold the same
    entries.  The facts here are the ones the library of the maps does not
    have: what inserting and erasing do to the list of entries up to
    permutation, and that a scan from a lower bound that stops at the first
    key rejected by a predicate finds every accepted key, provided the
    accepted keys are a contiguous range starting at the bound.  Byte strings
    with a fixed prefix are such a range.
-/

namespace Framework

universe u v

/-- A finite map ordered by key. -/
abbrev OrdMap (α : Type u) (β : Type v) [Ord α] : Type (max u v) :=
  Std.ExtTreeMap α β compare

/-- A finite ordered set. -/
abbrev OrdSet (α : Type u) [Ord α] : Type u :=
  Std.ExtTreeSet α compare

namespace OrdMap

variable {α : Type u} {β : Type v} [Ord α] [Std.TransOrd α] [Std.LawfulEqOrd α]

/-! ## Lookups -/

section lookup

variable {γ : Type*} [DecidableEq α] (g : Option β → γ) (m : OrdMap α β) (k : α)

theorem get_insert (v : β) (a : α) : (m.insert k v)[a]? = if a = k then some v else m[a]? := by
  simp only [Std.ExtTreeMap.getElem?_insert, Std.compare_eq_iff_eq, eq_comm (a := k)]

theorem get_erase (a : α) : (m.erase k)[a]? = if a = k then none else m[a]? := by
  simp only [Std.ExtTreeMap.getElem?_erase, Std.compare_eq_iff_eq, eq_comm (a := k)]

theorem get_of_insert {m : OrdMap α β} {k a : α} {v b : β} (h : (m.insert k v)[a]? = some b) :
    a = k ∧ v = b ∨ m[a]? = some b := by
  rw [get_insert] at h
  split at h
  · next ha => exact .inl ⟨ha, Option.some.inj h⟩
  · exact .inr h

theorem get_of_erase {m : OrdMap α β} {k a : α} {b : β} (h : (m.erase k)[a]? = some b) :
    a ≠ k ∧ m[a]? = some b := by
  rw [get_erase] at h
  split at h
  · cases h
  · next ha => exact ⟨ha, h⟩

/-- Inserting updates whatever is looked up in the map at one key. -/
theorem lookup_insert (v : β) :
    (fun a => g (m.insert k v)[a]?) = Function.update (fun a => g m[a]?) k (g (some v)) := by
  funext a
  rw [Function.update_apply, get_insert, apply_ite g]

theorem lookup_erase :
    (fun a => g (m.erase k)[a]?) = Function.update (fun a => g m[a]?) k (g none) := by
  funext a
  rw [Function.update_apply, get_erase, apply_ite g]

end lookup

/-! ## Entries up to permutation -/

theorem nodup_toList (m : OrdMap α β) : m.toList.Nodup := by
  have h := Std.ExtTreeMap.distinct_keys_toList (t := m)
  refine h.imp ?_
  intro a b hab heq
  exact hab (by rw [heq]; exact Std.ReflCmp.compare_self)

/-- A new key adds its entry and changes no other. -/
theorem toList_insert_perm (m : OrdMap α β) (k : α) (v : β) (hk : m[k]? = none) :
    (m.insert k v).toList.Perm ((k, v) :: m.toList) := by
  have hnot : (k, v) ∉ m.toList := by
    rw [Std.ExtTreeMap.mem_toList_iff_getElem?_eq_some, hk]
    simp
  refine (List.perm_ext_iff_of_nodup (nodup_toList _)
    (List.nodup_cons.mpr ⟨hnot, nodup_toList m⟩)).mpr ?_
  rintro ⟨a, b⟩
  rw [Std.ExtTreeMap.mem_toList_iff_getElem?_eq_some, List.mem_cons,
    Std.ExtTreeMap.mem_toList_iff_getElem?_eq_some, Std.ExtTreeMap.getElem?_insert]
  by_cases hka : k = a
  · subst hka
    simp [hk, eq_comm]
  · have hne : a ≠ k := fun h => hka h.symm
    simp [hka, hne]

/-- Erasing a present key removes its entry and changes no other. -/
theorem toList_erase_perm (m : OrdMap α β) (k : α) (v : β) (hk : m[k]? = some v) :
    m.toList.Perm ((k, v) :: (m.erase k).toList) := by
  have hnot : (k, v) ∉ (m.erase k).toList := by
    simp
  refine (List.perm_ext_iff_of_nodup (nodup_toList m)
    (List.nodup_cons.mpr ⟨hnot, nodup_toList _⟩)).mpr ?_
  rintro ⟨a, b⟩
  rw [Std.ExtTreeMap.mem_toList_iff_getElem?_eq_some, List.mem_cons,
    Std.ExtTreeMap.mem_toList_iff_getElem?_eq_some, Std.ExtTreeMap.getElem?_erase]
  by_cases hka : k = a
  · subst hka
    simp [hk, eq_comm]
  · have hne : a ≠ k := fun h => hka h.symm
    simp [hka, hne]

/-! ## The first entry -/

/-- The entry of the least key, `*begin()`. -/
def first? (m : OrdMap α β) : Option (α × β) := m.toList.head?

theorem getElem?_of_first? {m : OrdMap α β} {k : α} {v : β} (h : m.first? = some (k, v)) :
    m[k]? = some v :=
  Std.ExtTreeMap.mem_toList_iff_getElem?_eq_some.mp (List.mem_of_mem_head? h)

/-- Without its first entry the map has the others, in the same order. -/
theorem toList_eq_cons_of_first? {m : OrdMap α β} {k : α} {v : β} (h : m.first? = some (k, v)) :
    m.toList = (k, v) :: (m.erase k).toList := by
  obtain ⟨rest, hrest⟩ := List.head?_eq_some_iff.mp h
  have hperm := toList_erase_perm m k v (getElem?_of_first? h)
  rw [hrest] at hperm ⊢
  have hsorted : m.toList.Pairwise fun a b => compare a.1 b.1 = .lt :=
    Std.ExtTreeMap.ordered_keys_toList
  rw [hrest] at hsorted
  refine congrArg _ (hperm.cons_inv.eq_of_pairwise ?_ (List.pairwise_cons.mp hsorted).2
    Std.ExtTreeMap.ordered_keys_toList)
  intro a b _ _ hlt hgt
  have hswap : compare b.1 a.1 = (compare a.1 b.1).swap := Std.OrientedCmp.eq_swap
  rw [hswap, hlt] at hgt
  cases hgt

/-- Erasing the first entry shrinks the map. -/
theorem size_erase_first? {m : OrdMap α β} {k : α} {v : β} (h : m.first? = some (k, v)) :
    (m.erase k).size < m.size := by
  have hmem : k ∈ m := Std.ExtTreeMap.mem_iff_isSome_getElem?.mpr (by simp [getElem?_of_first? h])
  have hsize : m.size ≠ 0 := by
    intro hzero
    rw [← Std.ExtTreeMap.eq_empty_iff_size_eq_zero] at hzero
    simp [hzero] at hmem
  rw [Std.ExtTreeMap.size_erase, if_pos (Std.ExtTreeMap.mem_iff_contains.mp hmem)]
  omega

/-! ## Scans from a lower bound -/

/-- Iteration from the first key not below `lo` for as long as `p` accepts the key. -/
def scanFrom (m : OrdMap α β) (lo : α) (p : α → Bool) : List (α × β) :=
  (m.toList.dropWhile fun kv => (compare kv.1 lo).isLT).takeWhile fun kv => p kv.1

/-- `p` accepts a contiguous range of keys, none of them below `lo`. -/
structure RangeFrom (lo : α) (p : α → Bool) : Prop where
  not_below : ∀ k, p k = true → compare k lo ≠ .lt
  contiguous : ∀ k k', compare k lo ≠ .lt → compare k k' = .lt → p k' = true → p k = true

omit [Std.TransOrd α] [Std.LawfulEqOrd α] in
/-- Once the bound is passed, the scan stops only where no accepted key follows. -/
theorem takeWhile_eq_filter {lo : α} {p : α → Bool} (hp : RangeFrom lo p) :
    ∀ l : List (α × β), (∀ kv ∈ l, compare kv.1 lo ≠ .lt) →
      l.Pairwise (fun a b => compare a.1 b.1 = .lt) →
      l.takeWhile (fun kv => p kv.1) = l.filter (fun kv => p kv.1)
  | [], _, _ => rfl
  | kv :: l, hge, hsorted => by
    obtain ⟨hlt, hrest⟩ := List.pairwise_cons.mp hsorted
    by_cases hk : p kv.1 = true
    · have ih := takeWhile_eq_filter hp l (fun x hx => hge x (List.mem_cons_of_mem _ hx)) hrest
      simp [hk, ih]
    · -- a later accepted key would, by contiguity, make this one accepted
      have hnone : ∀ x ∈ l, ¬ p x.1 = true := by
        intro x hx hpx
        exact hk (hp.contiguous kv.1 x.1 (hge kv List.mem_cons_self) (hlt x hx) hpx)
      have hfilter : l.filter (fun kv => p kv.1) = [] := List.filter_eq_nil_iff.mpr hnone
      simp [hk, hfilter]

omit [Std.LawfulEqOrd α] in
/-- A scan over a range finds exactly the accepted entries, in key order. -/
theorem scanFrom_eq_filter (m : OrdMap α β) {lo : α} {p : α → Bool} (hp : RangeFrom lo p) :
    m.scanFrom lo p = m.toList.filter fun kv => p kv.1 := by
  have hsorted : m.toList.Pairwise (fun a b => compare a.1 b.1 = .lt) :=
    Std.ExtTreeMap.ordered_keys_toList
  unfold scanFrom
  generalize m.toList = l at hsorted
  induction l with
  | nil => rfl
  | cons kv l ih =>
    obtain ⟨hlt, hrest⟩ := List.pairwise_cons.mp hsorted
    by_cases hk : compare kv.1 lo = .lt
    · have hpk : ¬ p kv.1 = true := fun h => hp.not_below kv.1 h hk
      simpa [hk, hpk] using ih hrest
    · -- everything after the first key at or above the bound is above it too
      have hge : ∀ x ∈ kv :: l, compare x.1 lo ≠ .lt := by
        intro x hx hxlo
        rcases List.mem_cons.mp hx with rfl | hx
        · exact hk hxlo
        · exact hk (Std.TransCmp.lt_trans (hlt x hx) hxlo)
      have hdrop : (kv :: l).dropWhile (fun kv => (compare kv.1 lo).isLT) = kv :: l := by
        have : ¬ (compare kv.1 lo).isLT = true := by
          simpa [Ordering.isLT_iff_eq_lt] using hk
        simp [this]
      rw [hdrop]
      exact takeWhile_eq_filter hp (kv :: l) hge hsorted

theorem mem_scanFrom (m : OrdMap α β) {lo : α} {p : α → Bool} (hp : RangeFrom lo p)
    (k : α) (v : β) : (k, v) ∈ m.scanFrom lo p ↔ m[k]? = some v ∧ p k = true := by
  rw [scanFrom_eq_filter m hp, List.mem_filter,
    Std.ExtTreeMap.mem_toList_iff_getElem?_eq_some]

end OrdMap

/-! ## Sets -/

namespace OrdSet

variable {α : Type u} [Ord α] [Std.TransOrd α] [Std.LawfulEqOrd α] {s : OrdSet α} {k a : α}

theorem mem_insert : a ∈ s.insert k ↔ a = k ∨ a ∈ s := by
  rw [Std.ExtTreeSet.mem_insert, Std.compare_eq_iff_eq, eq_comm]

theorem mem_erase : a ∈ s.erase k ↔ a ≠ k ∧ a ∈ s := by
  rw [Std.ExtTreeSet.mem_erase, ne_eq, Std.compare_eq_iff_eq, eq_comm]

end OrdSet

/-! ## Prefix ranges -/

section prefixRange

variable {α : Type u} [Ord α] [Std.LawfulEqOrd α]

theorem prefix_not_lt : ∀ {pre k : List α}, pre <+: k → compare k pre ≠ .lt
  | [], k, _ => by cases k <;> simp
  | a :: pre, [], h => by simp at h
  | a :: pre, b :: k, h => by
    obtain ⟨rfl, hrest⟩ := List.cons_prefix_cons.mp h
    have haa : compare a a = .eq := Std.ReflCmp.compare_self
    rw [List.compare_cons_cons, haa]
    exact prefix_not_lt hrest

theorem prefix_of_between : ∀ {pre k k' : List α},
    compare k pre ≠ .lt → compare k k' = .lt → pre <+: k' → pre <+: k
  | [], k, _, _, _, _ => List.nil_prefix
  | a :: pre, [], k', h, _, _ => by simp at h
  | a :: pre, b :: k, [], _, _, h => by simp at h
  | a :: pre, b :: k, c :: k', h, hlt, hpre => by
    obtain ⟨rfl, hrest⟩ := List.cons_prefix_cons.mp hpre
    rw [List.compare_cons_cons] at h hlt
    -- the first letters agree: `k` is squeezed between `pre` and `k'`
    cases hba : compare b a with
    | lt => simp [hba] at h
    | gt => simp [hba] at hlt
    | eq =>
      simp only [hba, Ordering.eq_then] at h hlt
      obtain rfl := Std.LawfulEqCmp.eq_of_compare hba
      exact List.cons_prefix_cons.mpr ⟨rfl, prefix_of_between h hlt hrest⟩

/-- The lists that start with `pre` are a range starting at `pre`. -/
theorem prefix_rangeFrom [DecidableEq α] (pre : List α) :
    OrdMap.RangeFrom pre (fun k => decide (pre <+: k)) where
  not_below := fun _ hk => prefix_not_lt (of_decide_eq_true hk)
  contiguous := fun _ _ hge hlt hk =>
    decide_eq_true (prefix_of_between hge hlt (of_decide_eq_true hk))

end prefixRange

end Framework
