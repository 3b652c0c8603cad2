import Mathlib.Data.List.Induction
import Mathlib.Data.Nat.Find
import Mathlib.Data.Set.Basic

/-! # Graphs with labelled, deterministic edges

    A heap of nodes whose outgoing edges carry distinct labels is a partial
    function from a node and a label to a node.  A word is followed from a
    node edge by edge, and a query counts the marked nodes it comes by.

    * **Walks** and reachability.
    * **Changing edges**: what one new edge and what clearing a node's edges
      do to the walks from a fixed start.
    * **Marked walks**: the count of marked nodes along a word is determined
      by which words end at a marked node, and determines them, even if only
      known modulo the word size of a machine integer.
-/

namespace Framework

universe u v

/-- The successor of a node along a label, if there is one. -/
abbrev EdgeGraph (ν : Type u) (α : Type v) : Type (max u v) := ν → α → Option ν

namespace EdgeGraph

variable {ν : Type u} {α : Type v} {E E' : EdgeGraph ν α} {s n m : ν}

/-! ## Walks -/

/-- The node reached from `s` along a word. -/
def walk (E : EdgeGraph ν α) : ν → List α → Option ν
  | s, [] => some s
  | s, x :: p => (E s x).bind fun n => walk E n p

@[simp] theorem walk_nil : E.walk s [] = some s := rfl

@[simp] theorem walk_cons {x : α} {p : List α} :
    E.walk s (x :: p) = (E s x).bind fun n => E.walk n p := rfl

theorem walk_append {p q : List α} :
    E.walk s (p ++ q) = (E.walk s p).bind fun n => E.walk n q := by
  induction p generalizing s with
  | nil => rfl
  | cons x p ih =>
    cases h : E s x with
    | none => simp [h]
    | some n => simp [h, ih]

theorem walk_concat {p : List α} {x : α} :
    E.walk s (p ++ [x]) = (E.walk s p).bind fun n => E n x := by
  rw [walk_append]
  congr 1
  funext n
  simp

/-- Some word leads from `s` to `n`. -/
def Reaches (E : EdgeGraph ν α) (s n : ν) : Prop := ∃ p, E.walk s p = some n

theorem Reaches.refl (E : EdgeGraph ν α) (s : ν) : E.Reaches s s := ⟨[], rfl⟩

theorem Reaches.cons {x : α} (h : E s x = some n) (hr : E.Reaches n m) : E.Reaches s m := by
  obtain ⟨p, hp⟩ := hr
  exact ⟨x :: p, by simp [h, hp]⟩

theorem Reaches.concat {x : α} (hr : E.Reaches s n) (h : E n x = some m) : E.Reaches s m := by
  obtain ⟨p, hp⟩ := hr
  exact ⟨p ++ [x], by simp [walk_concat, hp, h]⟩

/-- A set closed under edges is not left. -/
theorem Reaches.mem_of_closed {C : Set ν} (hC : ∀ n ∈ C, ∀ x m, E n x = some m → m ∈ C)
    (hs : s ∈ C) (h : E.Reaches s n) : n ∈ C := by
  obtain ⟨p, hp⟩ := h
  induction p generalizing s with
  | nil =>
    cases hp
    exact hs
  | cons x p ih =>
    obtain ⟨m, hm, hrest⟩ := Option.bind_eq_some_iff.mp hp
    exact ih (hC s hs x m hm) hrest

/-! ## Changing edges -/

/-- One more edge. -/
def addEdge [DecidableEq ν] [DecidableEq α] (E : EdgeGraph ν α) (a : ν) (x : α) (b : ν) :
    EdgeGraph ν α :=
  fun n y => if n = a ∧ y = x then some b else E n y

/-- The edges out of `a` are gone. -/
def clear [DecidableEq ν] (E : EdgeGraph ν α) (a : ν) : EdgeGraph ν α :=
  fun n y => if n = a then none else E n y

variable {a b : ν} {x : α} {p : List α}

/-- More edges keep every walk. -/
theorem walk_mono (h : ∀ n y m, E n y = some m → E' n y = some m)
    (hp : E.walk s p = some n) : E'.walk s p = some n := by
  induction p generalizing s with
  | nil => exact hp
  | cons y p ih =>
    obtain ⟨m, hm, hrest⟩ := Option.bind_eq_some_iff.mp hp
    simp [h s y m hm, ih hrest]

section addEdge

variable [DecidableEq ν] [DecidableEq α]

theorem le_addEdge (hx : E a x = none) (n : ν) (y : α) (m : ν) (h : E n y = some m) :
    E.addEdge a x b n y = some m := by
  unfold addEdge
  split
  · next heq =>
    rw [heq.1, heq.2, hx] at h
    cases h
  · exact h

/-- A walk over the new edge comes by its source, and ends where its target leads. -/
theorem walk_addEdge (h : (E.addEdge a x b).walk s p = some n) :
    E.walk s p = some n ∨ (E.Reaches s a ∧ E.Reaches b n) := by
  induction p generalizing s with
  | nil => exact .inl h
  | cons y p ih =>
    obtain ⟨m, hm, hrest⟩ := Option.bind_eq_some_iff.mp h
    unfold addEdge at hm
    split at hm
    · next heq =>
      -- the new edge itself: its source is `s`
      cases hm
      obtain ⟨rfl, rfl⟩ := heq
      rcases ih hrest with hwalk | ⟨-, hb⟩
      · exact .inr ⟨.refl _ _, p, hwalk⟩
      · exact .inr ⟨.refl _ _, hb⟩
    · rcases ih hrest with hwalk | ⟨ha, hb⟩
      · exact .inl (by simp [hm, hwalk])
      · exact .inr ⟨.cons hm ha, hb⟩

/-- The new edge opens a word from its source to everything its target reaches. -/
theorem exists_walk_addEdge (hx : E a x = none) (ha : E.Reaches s a) (hb : E.Reaches b n) :
    ∃ p, p ≠ [] ∧ E.walk s p = none ∧ (E.addEdge a x b).walk s p = some n := by
  obtain ⟨q, hq⟩ := ha
  obtain ⟨r, hr⟩ := hb
  have hmono := le_addEdge (b := b) hx
  refine ⟨q ++ x :: r, by simp, ?_, ?_⟩
  · simp [walk_append, hq, hx]
  · have hedge : E.addEdge a x b a x = some b := by simp [addEdge]
    rw [walk_append, walk_mono hmono hq, Option.bind_some, walk_cons, hedge, Option.bind_some]
    exact walk_mono hmono hr

/-- A new edge to a node without edges adds only the words that end with it. -/
theorem walk_addEdge_fresh (hx : E a x = none) (hb : ∀ y, E b y = none) (hab : b ≠ a) :
    (E.addEdge a x b).walk s p = some n ↔
      E.walk s p = some n ∨ ∃ q, p = q ++ [x] ∧ E.walk s q = some a ∧ n = b := by
  constructor
  · intro h
    induction p using List.reverseRecOn generalizing n with
    | nil => exact .inl h
    | append_singleton q y ih =>
      rw [walk_concat] at h
      obtain ⟨m, hm, hedge⟩ := Option.bind_eq_some_iff.mp h
      rcases ih hm with hwalk | ⟨-, -, -, rfl⟩
      · unfold addEdge at hedge
        split at hedge
        · next heq =>
          obtain ⟨rfl, rfl⟩ := heq
          cases hedge
          exact .inr ⟨q, rfl, hwalk, rfl⟩
        · exact .inl (by simp [walk_concat, hwalk, hedge])
      · -- the target has no edges to go on with
        simp [addEdge, hab, hb] at hedge
  · intro h
    rcases h with hwalk | ⟨q, rfl, hq, rfl⟩
    · exact walk_mono (le_addEdge hx) hwalk
    · rw [walk_concat, walk_mono (le_addEdge hx) hq]
      simp [addEdge]

end addEdge

section clear

variable [DecidableEq ν]

theorem clear_le (n : ν) (y : α) (m : ν) (h : E.clear a n y = some m) : E n y = some m := by
  unfold clear at h
  split at h
  · cases h
  · exact h

/-- A walk is kept unless it leaves the cleared node. -/
theorem walk_clear (h : E.walk s p = some n) :
    (E.clear a).walk s p = some n ∨
      (E.Reaches s a ∧ ∃ y m, E a y = some m ∧ E.Reaches m n) := by
  induction p generalizing s with
  | nil => exact .inl h
  | cons y p ih =>
    obtain ⟨m, hm, hrest⟩ := Option.bind_eq_some_iff.mp h
    by_cases hs : s = a
    · subst hs
      exact .inr ⟨.refl _ _, y, m, hm, p, hrest⟩
    · rcases ih hrest with hwalk | ⟨ha, hleave⟩
      · exact .inl (by simp [clear, hs, hm, hwalk])
      · exact .inr ⟨.cons hm ha, hleave⟩

/-- The first visit of `a` does not use its edges. -/
theorem Reaches.first_visit (h : E.Reaches s a) :
    ∃ q, E.walk s q = some a ∧ (E.clear a).walk s q = some a := by
  obtain ⟨p, hp⟩ := h
  induction p generalizing s with
  | nil => exact ⟨[], hp, hp⟩
  | cons y p ih =>
    obtain ⟨m, hm, hrest⟩ := Option.bind_eq_some_iff.mp hp
    by_cases hs : s = a
    · subst hs
      exact ⟨[], rfl, rfl⟩
    · obtain ⟨q, hq, hq'⟩ := ih hrest
      exact ⟨y :: q, by simp [hm, hq], by simp [clear, hs, hm, hq']⟩

/-- Clearing closes a word to everything the edges of the node reach. -/
theorem exists_walk_clear {y : α} (ha : E.Reaches s a) (hy : E a y = some m)
    (hn : E.Reaches m n) :
    ∃ p, p ≠ [] ∧ E.walk s p = some n ∧ (E.clear a).walk s p = none := by
  obtain ⟨q, hq, hq'⟩ := ha.first_visit
  obtain ⟨r, hr⟩ := hn
  refine ⟨q ++ y :: r, by simp, ?_, ?_⟩
  · simp [walk_append, hq, hy, hr]
  · simp [walk_append, hq', clear]

end clear

/-! ## Marked walks -/

/-- The word leads to a marked node. -/
def marked (E : EdgeGraph ν α) (mark : ν → Bool) (s : ν) (p : List α) : Bool :=
  (E.walk s p).any mark

theorem marked_iff {mark : ν → Bool} {p : List α} :
    E.marked mark s p = true ↔ ∃ n, E.walk s p = some n ∧ mark n = true := by
  unfold marked
  cases E.walk s p <;> simp

/-- The number of marked nodes along a word, the start not counted. -/
def visits (E : EdgeGraph ν α) (mark : ν → Bool) : ν → List α → Nat
  | _, [] => 0
  | s, x :: p =>
    match E s x with
    | none => 0
    | some n => (mark n).toNat + visits E mark n p

theorem visits_le_length {mark : ν → Bool} {p : List α} : E.visits mark s p ≤ p.length := by
  induction p generalizing s with
  | nil => exact Nat.le_refl 0
  | cons x p ih =>
    unfold visits
    cases E s x with
    | none => exact Nat.zero_le _
    | some n =>
      have hone := Bool.toNat_le (mark n)
      have hrest := @ih n
      rw [List.length_cons]
      simp only
      omega

theorem visits_concat {mark : ν → Bool} {p : List α} {x : α} :
    E.visits mark s (p ++ [x]) = E.visits mark s p + (E.marked mark s (p ++ [x])).toNat := by
  induction p generalizing s with
  | nil =>
    cases h : E s x with
    | none | some => simp [visits, marked, h]
  | cons y p ih =>
    cases h : E s y with
    | none => simp [visits, marked, h]
    | some n =>
      have hrest : E.marked mark s (y :: p ++ [x]) = E.marked mark n (p ++ [x]) := by
        simp [marked, h]
      simp only [List.cons_append, visits, h, ih] at hrest ⊢
      rw [hrest]
      omega

/-- The counts modulo `2 ^ 32` agree on all words iff the marked words agree. -/
theorem visits_eq_iff {mark mark' : ν → Bool} {s' : ν} :
    (∀ p, UInt32.ofNat (E.visits mark s p) = UInt32.ofNat (E'.visits mark' s' p)) ↔
      ∀ p, p ≠ [] → E.marked mark s p = E'.marked mark' s' p := by
  constructor
  · intro h p hp
    -- the last label of `p` adds the same to both counts
    obtain ⟨q, x, rfl⟩ := List.eq_nil_or_concat p |>.resolve_left hp
    have hlast := h (q ++ [x])
    rw [visits_concat, visits_concat, UInt32.ofNat_add, UInt32.ofNat_add, h q] at hlast
    cases hm : E.marked mark s (q ++ [x]) <;> cases hm' : E'.marked mark' s' (q ++ [x]) <;>
      simp_all
  · intro h p
    congr 1
    induction p using List.reverseRecOn with
    | nil => rfl
    | append_singleton q x ih => rw [visits_concat, visits_concat, ih, h _ (by simp)]

/-- The counts modulo `2 ^ 32` are all zero iff no word leads to a marked node. -/
theorem visits_eq_zero_iff {mark : ν → Bool} :
    (∀ p, UInt32.ofNat (E.visits mark s p) = 0) ↔ ∀ p, p ≠ [] → E.marked mark s p = false := by
  -- compare with the graph that has no edges
  have h : (∀ p, UInt32.ofNat (E.visits mark s p) =
        UInt32.ofNat (visits (fun _ _ => none : EdgeGraph ν α) mark s p)) ↔
      ∀ p, p ≠ [] → E.marked mark s p = marked (fun _ _ => none : EdgeGraph ν α) mark s p :=
    visits_eq_iff
  have hvisits : ∀ p, visits (fun _ _ => none : EdgeGraph ν α) mark s p = 0 := by
    intro p
    cases p <;> rfl
  have hmarked : ∀ p, p ≠ [] → marked (fun _ _ => none : EdgeGraph ν α) mark s p = false := by
    intro p hp
    cases p with
    | nil => exact absurd rfl hp
    | cons x p => rfl
  simp only [hvisits] at h
  refine h.trans ?_
  constructor
  · intro hp p hne
    rw [hp p hne, hmarked p hne]
  · intro hp p hne
    rw [hp p hne, hmarked p hne]

/-! ## Longest prefixes -/

/-- The length of the longest prefix of `p` whose non-empty prefixes are all in `S`. -/
noncomputable def longestPrefix (S : Set (List α)) (p : List α) : Nat :=
  open Classical in
  Nat.findGreatest (fun k => ∀ j, 0 < j → j ≤ k → p.take j ∈ S) p.length

theorem longestPrefix_eq_iff {S : Set (List α)} {p : List α} {k : Nat} :
    longestPrefix S p = k ↔
      k ≤ p.length ∧ (∀ j, 0 < j → j ≤ k → p.take j ∈ S) ∧
        (k < p.length → p.take (k + 1) ∉ S) := by
  classical
  rw [longestPrefix, Nat.findGreatest_eq_iff]
  constructor
  · rintro ⟨hk, hall, hmax⟩
    have hall' : ∀ j, 0 < j → j ≤ k → p.take j ∈ S := by
      intro j hj hjk
      exact hall (by omega) j hj hjk
    refine ⟨hk, hall', ?_⟩
    intro hlt hnext
    refine hmax (Nat.lt_succ_self k) hlt ?_
    intro j hj hjk
    rcases Nat.lt_succ_iff_lt_or_eq.mp (Nat.lt_succ_of_le hjk) with h | rfl
    · exact hall' j hj (by omega)
    · exact hnext
  · rintro ⟨hk, hall, hnext⟩
    refine ⟨hk, fun _ => hall, ?_⟩
    intro n hkn hn hmore
    exact hnext (by omega) (hmore (k + 1) (by omega) (by omega))

theorem longestPrefix_spec (S : Set (List α)) (p : List α) :
    longestPrefix S p ≤ p.length ∧ (∀ j, 0 < j → j ≤ longestPrefix S p → p.take j ∈ S) ∧
      (longestPrefix S p < p.length → p.take (longestPrefix S p + 1) ∉ S) :=
  longestPrefix_eq_iff.mp rfl

/-- A set closed under dropping the last label holds every prefix of its members. -/
theorem take_mem_of_closed {S : Set (List α)}
    (hclosed : ∀ p x, p ≠ [] → p ++ [x] ∈ S → p ∈ S) {p : List α} (hp : p ∈ S) {j : Nat}
    (hj : 0 < j) : p.take j ∈ S := by
  induction p using List.reverseRecOn with
  | nil => simpa using hp
  | append_singleton q x ih =>
    by_cases hlen : j ≤ q.length
    · have hq : q ≠ [] := by
        rintro rfl
        simp at hlen
        omega
      rw [List.take_append_of_le_length hlen]
      exact ih (hclosed q x hq hp)
    · rwa [List.take_of_length_le (by simp; omega)]

/-- The longest prefix ends before the first one that is missing. -/
theorem longestPrefix_of_not_mem {S : Set (List α)} {p q : List α} (hq : q ≠ []) (hpre : q <+: p)
    (hmem : q ∉ S) : longestPrefix S q = longestPrefix S p ∧ longestPrefix S p < q.length := by
  obtain ⟨-, hall, hnext⟩ := longestPrefix_spec S p
  have hlen := hpre.length_le
  have htake : ∀ j ≤ q.length, q.take j = p.take j := by
    obtain ⟨r, rfl⟩ := hpre
    exact fun j hj => (List.take_append_of_le_length hj).symm
  have hlt : longestPrefix S p < q.length := by
    by_contra hge
    refine hmem ?_
    rw [← List.take_length (l := q), htake _ (Nat.le_refl _)]
    exact hall _ (List.length_pos_iff.mpr hq) (Nat.not_lt.mp hge)
  refine ⟨longestPrefix_eq_iff.mpr ⟨Nat.le_of_lt hlt, ?_, fun _ => ?_⟩, hlt⟩
  · intro j hj hle
    rw [htake j (by omega)]
    exact hall j hj hle
  · rw [htake _ hlt]
    exact hnext (by omega)

/-- A member of a closed set is its own longest prefix. -/
theorem longestPrefix_of_mem {S : Set (List α)}
    (hclosed : ∀ p x, p ≠ [] → p ++ [x] ∈ S → p ∈ S) {p q : List α} (hpre : q <+: p)
    (hmem : q ∈ S) : longestPrefix S q = q.length ∧ q.length ≤ longestPrefix S p := by
  have hall : ∀ j, 0 < j → q.take j ∈ S := fun j hj => take_mem_of_closed hclosed hmem hj
  refine ⟨longestPrefix_eq_iff.mpr ⟨Nat.le_refl _, fun j hj _ => hall j hj,
    fun h => absurd h (Nat.lt_irrefl _)⟩, ?_⟩
  obtain ⟨-, -, hnext⟩ := longestPrefix_spec S p
  by_contra hlt
  rw [Nat.not_le] at hlt
  have hlen := hpre.length_le
  refine hnext (by omega) ?_
  obtain ⟨r, rfl⟩ := hpre
  rw [List.take_append_of_le_length hlt]
  exact hall _ (Nat.succ_pos _)

/-- Along a word the marks of a prefix-closed set come first. -/
theorem visits_eq_longestPrefix {mark : ν → Bool} {S : Set (List α)}
    (hmark : ∀ p, p ≠ [] → (E.marked mark s p = true ↔ p ∈ S))
    (hclosed : ∀ p x, p ≠ [] → p ++ [x] ∈ S → p ∈ S) (p : List α) :
    E.visits mark s p = longestPrefix S p := by
  symm
  rw [longestPrefix_eq_iff]
  induction p using List.reverseRecOn with
  | nil =>
    simp only [visits, List.length_nil]
    exact ⟨by omega, fun j hj hj0 => by omega, fun h => by omega⟩
  | append_singleton q x ih =>
    obtain ⟨hle, hall, hnext⟩ := ih
    rw [visits_concat]
    have htake : ∀ j, j ≤ q.length → (q ++ [x]).take j = q.take j := fun j hj =>
      List.take_append_of_le_length hj
    have hfull : (q ++ [x]).take (q.length + 1) = q ++ [x] :=
      List.take_of_length_le (by simp)
    by_cases hin : q ++ [x] ∈ S
    · -- all of `q` is counted, and so is the last label
      have hvisits : E.visits mark s q = q.length := by
        by_contra hne
        refine hnext (by omega) ?_
        rw [← htake _ (by omega)]
        exact take_mem_of_closed hclosed hin (by omega)
      have hlast : E.marked mark s (q ++ [x]) = true := (hmark _ (by simp)).mpr hin
      rw [hlast, hvisits]
      refine ⟨by simp, ?_, by simp⟩
      intro j hj _
      exact take_mem_of_closed hclosed hin hj
    · have hlast : E.marked mark s (q ++ [x]) = false := by
        rw [← Bool.not_eq_true]
        exact fun h => hin ((hmark _ (by simp)).mp h)
      rw [hlast]
      refine ⟨by simp; omega, ?_, ?_⟩
      · intro j hj hjk
        simp only [Bool.toNat_false] at hjk
        rw [htake j (by omega)]
        exact hall j hj hjk
      · intro _
        simp only [Bool.toNat_false]
        by_cases hlt : E.visits mark s q < q.length
        · rw [htake _ hlt]
          exact hnext hlt
        · have heq : E.visits mark s q = q.length := by omega
          rwa [heq, hfull]

end EdgeGraph

end Framework
