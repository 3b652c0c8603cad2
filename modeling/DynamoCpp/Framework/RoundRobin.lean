import DynamoCpp.Framework.System
import Mathlib.Data.List.Rotate
import Mathlib.Algebra.Ring.Nat

/-! # Round robin

    A dispatcher tries the members of a group one after another, starting at a cursor
    that runs modulo the size of the group, until one of them takes the work.

    * `roundRobin` is the loop, `sweep` what it does to the members in the order in which
      it meets them; that order is a rotation of the group (`roundRobin_eq`).
    * `Dispatched` says what one dispatch over a list of subscribers does, when the group
      is the part of the list that a predicate selects.
    * `turns` are the members that come next while nobody fails: whole rounds serve
      everybody equally often.
-/

namespace Framework

universe u

variable {α : Type u}

/-! ## The loop -/

/-- Up to `n` attempts from `cursor` on; `answer j` is the outcome of the `j`-th attempt.
    Returns the cursor, which moves on with every attempt, and the members tried, each
    with its answer. -/
def roundRobin (answer : Nat → Bool) (members : List α) :
    Nat → Nat → List (α × Bool) → Nat × List (α × Bool)
  | 0, cursor, tried => (cursor, tried)
  | n + 1, cursor, tried =>
    match members[cursor % members.length]? with
    | none => (cursor, tried)
    | some a =>
      if answer tried.length then (cursor + 1, tried ++ [(a, true)])
      else roundRobin answer members n (cursor + 1) (tried ++ [(a, false)])

/-- The attempts on the members in a given order, up to the first that succeeds. -/
def sweep (live : α → Bool) : List α → List (α × Bool)
  | [] => []
  | a :: as => if live a then [(a, true)] else (a, false) :: sweep live as

/-- The member at the cursor, and then those from the next cursor on. -/
theorem take_rotate_succ (members : List α) (cursor : Nat) {n : Nat} (hn : n < members.length) :
    ∃ a, members[cursor % members.length]? = some a ∧
      (members.rotate cursor).take (n + 1) = a :: (members.rotate (cursor + 1)).take n := by
  have hlength := List.length_rotate members cursor
  have hhead : (members.rotate cursor)[0]? = members[(0 + cursor) % members.length]? :=
    List.getElem?_rotate (by omega)
  rw [Nat.zero_add] at hhead
  rw [← hhead, ← List.rotate_rotate]
  cases hrotate : members.rotate cursor with
  | nil =>
    rw [hrotate, List.length_nil] at hlength
    omega
  | cons a as =>
    rw [hrotate, List.length_cons] at hlength
    refine ⟨a, rfl, ?_⟩
    rw [List.rotate_cons_succ, List.rotate_zero, List.take_succ_cons,
      List.take_append_of_le_length (by omega)]

/-- The answers of the attempts are those of the members that they meet. -/
def Answers (answer : Nat → Bool) (live : α → Bool) (members : List α) (cursor : Nat) : Prop :=
  ∀ j a, (members.rotate cursor)[j]? = some a → answer j = live a

/-- The first member of the rotation is the one at the cursor. -/
theorem head?_rotate_cursor (members : List α) (cursor : Nat) :
    (members.rotate cursor).head? = members[cursor % members.length]? := by
  cases members with
  | nil => simp
  | cons a as =>
    rw [List.head?_eq_getElem?, List.getElem?_rotate (Nat.succ_pos _), Nat.zero_add]

/-- The loop sweeps the group in the order of its rotation to the cursor. -/
theorem roundRobin_eq {answer : Nat → Bool} {live : α → Bool} {members : List α} :
    ∀ {n : Nat}, n ≤ members.length → ∀ {cursor : Nat} {tried : List (α × Bool)},
      (∀ j a, ((members.rotate cursor).take n)[j]? = some a → answer (tried.length + j) = live a) →
      roundRobin answer members n cursor tried =
        (cursor + (sweep live ((members.rotate cursor).take n)).length,
          tried ++ sweep live ((members.rotate cursor).take n)) := by
  intro n
  induction n with
  | zero =>
    intro _ cursor tried _
    simp [roundRobin, sweep]
  | succ n ih =>
    intro hn cursor tried hanswers
    obtain ⟨a, hget, htake⟩ := take_rotate_succ members cursor hn
    rw [htake] at hanswers ⊢
    have hfirst : answer tried.length = live a := hanswers 0 a rfl
    simp only [roundRobin, hget, hfirst, sweep]
    cases hlive : live a with
    | true => rfl
    | false =>
      have hrest : ∀ j b, ((members.rotate (cursor + 1)).take n)[j]? = some b →
          answer ((tried ++ [(a, false)]).length + j) = live b := by
        intro j b hb
        rw [List.length_append, List.length_singleton, Nat.add_assoc, Nat.add_comm 1 j]
        exact hanswers (j + 1) b hb
      simp only [Bool.false_eq_true, if_false]
      rw [ih (Nat.le_of_succ_le hn) hrest, List.append_assoc, List.length_cons]
      refine Prod.ext ?_ rfl
      show cursor + 1 + _ = cursor + (_ + 1)
      omega

/-- A whole round of attempts. -/
theorem roundRobin_round {answer : Nat → Bool} {live : α → Bool} {members : List α} {cursor : Nat}
    (h : Answers answer live members cursor) :
    roundRobin answer members members.length cursor [] =
      (cursor + (sweep live (members.rotate cursor)).length,
        sweep live (members.rotate cursor)) := by
  have htake : (members.rotate cursor).take members.length = members.rotate cursor :=
    List.take_of_length_le (by rw [List.length_rotate])
  have hround := @roundRobin_eq _ answer live members _ (Nat.le_refl _) cursor [] (by
    intro j a ha
    rw [htake] at ha
    rw [List.length_nil, Nat.zero_add]
    exact h j a ha)
  rwa [htake, List.nil_append] at hround

section sweep

variable {live : α → Bool}

/-- Nobody is tried out of order. -/
theorem map_fst_sweep (as : List α) : (sweep live as).map Prod.fst <+: as := by
  induction as with
  | nil => exact List.prefix_rfl
  | cons a as ih =>
    unfold sweep
    split
    · exact List.cons_prefix_cons.mpr ⟨rfl, List.nil_prefix⟩
    · exact List.cons_prefix_cons.mpr ⟨rfl, ih⟩

theorem sweep_answer {as : List α} {p : α × Bool} (h : p ∈ sweep live as) : p.2 = live p.1 := by
  induction as with
  | nil => cases h
  | cons a as ih =>
    unfold sweep at h
    split at h
    · next hlive =>
      rw [List.mem_singleton.mp h, hlive]
    · next hlive =>
      rcases List.mem_cons.mp h with rfl | h
      · exact (eq_false_of_ne_true hlive).symm
      · exact ih h

/-- If there is a live member, one attempt succeeds. -/
theorem sweep_served {as : List α} (h : ∃ a ∈ as, live a = true) :
    ∃ a, (sweep live as).filter (·.2) = [(a, true)] := by
  induction as with
  | nil =>
    obtain ⟨a, ha, -⟩ := h
    cases ha
  | cons a as ih =>
    unfold sweep
    split
    · exact ⟨a, rfl⟩
    · next hdead =>
      obtain ⟨b, hb, hlive⟩ := h
      rcases List.mem_cons.mp hb with rfl | hb
      · exact absurd hlive hdead
      · exact ih ⟨b, hb, hlive⟩

/-- Otherwise none does. -/
theorem sweep_unserved {as : List α} (h : ∀ a ∈ as, live a = false) :
    (sweep live as).filter (·.2) = [] := by
  refine List.filter_eq_nil_iff.mpr fun p hp => ?_
  have hmem : p.1 ∈ as := (map_fst_sweep as).subset (List.mem_map_of_mem hp)
  rw [sweep_answer hp, h p.1 hmem]
  exact Bool.false_ne_true

end sweep

/-! ## Dispatching to subscribers -/

/-- The subscribers that are members of the group, with their positions. -/
def group (member : α → Bool) (subs : List α) : List (α × Nat) :=
  subs.zipIdx.filter fun e => member e.1

/-- The positions that were tried in vain. -/
def failures (tried : List ((α × Nat) × Bool)) : List Nat :=
  (tried.filter fun p => !p.2).map (·.1.2)

/-- What is left when some positions are erased. -/
def eraseAt (subs : List α) (positions : List Nat) : List α :=
  (subs.zipIdx.filter fun e => e.2 ∉ positions).map (·.1)

/-- One dispatch over a group of subscribers, some of them live: `tried` are its attempts,
    `subs'` the subscribers afterwards and `ok` tells whether it succeeded. -/
structure Dispatched (member : α → Bool) (live : Nat → Bool) (subs subs' : List α)
    (tried : List ((α × Nat) × Bool)) (ok : Bool) : Prop where
  /-- Only members of the group are tried. -/
  members  : ∀ p ∈ tried, subs[p.1.2]? = some p.1.1 ∧ member p.1.1 = true
  answers  : ∀ p ∈ tried, p.2 = live p.1.2
  /-- Nobody is tried twice. -/
  once     : (tried.map (·.1.2)).Nodup
  served   : (∃ (i : Nat) (a : α), subs[i]? = some a ∧ member a = true ∧ live i = true) →
    ok = true ∧ ∃ p, tried.filter (·.2) = [p]
  unserved : (¬ ∃ (i : Nat) (a : α), subs[i]? = some a ∧ member a = true ∧ live i = true) →
    ok = false ∧ tried.filter (·.2) = []
  /-- Those who failed are removed. -/
  removed  : subs' = eraseAt subs (failures tried)
  /-- The others keep their places. -/
  others   : subs'.filter (fun a => !member a) = subs.filter (fun a => !member a)

section group

variable {member : α → Bool} {subs : List α}

theorem mem_group {e : α × Nat} :
    e ∈ group member subs ↔ subs[e.2]? = some e.1 ∧ member e.1 = true := by
  rw [group, List.mem_filter, List.mem_zipIdx_iff_getElem?]

theorem map_fst_zipIdx_filter (f : α → Bool) :
    (subs.zipIdx.filter fun e => f e.1).map (·.1) = subs.filter f := by
  rw [show (fun e : α × Nat => f e.1) = f ∘ (·.1) from rfl, ← List.filter_map,
    List.zipIdx_map_fst]

/-- The members are in different places. -/
theorem rotate_group_nodup {cursor : Nat} :
    (((group member subs).rotate cursor).map (·.2)).Nodup := by
  have hpositions : (subs.zipIdx.map (·.2)).Nodup := by
    rw [List.zipIdx_map_snd]
    exact List.nodup_range'
  rw [List.map_rotate]
  exact List.nodup_rotate.mpr (hpositions.sublist (List.filter_sublist.map _))

/-- Whatever the answers are, they are those of the members: nobody is asked twice. -/
theorem exists_answers (answer : Nat → Bool) (cursor : Nat) :
    ∃ live : Nat → Bool, Answers answer (fun e => live e.2) (group member subs) cursor := by
  have hnodup := @rotate_group_nodup _ member subs cursor
  refine ⟨fun i => answer ((((group member subs).rotate cursor).map (·.2)).idxOf i), ?_⟩
  intro j e he
  have hposition : (((group member subs).rotate cursor).map (·.2))[j]? = some e.2 := by
    rw [List.getElem?_map, he]
    rfl
  obtain ⟨hj, hget⟩ := List.getElem?_eq_some_iff.mp hposition
  show answer j = answer _
  rw [← hget, hnodup.idxOf_getElem]

/-- Erasing members leaves the others alone. -/
theorem eraseAt_others {positions : List Nat}
    (h : ∀ i ∈ positions, ∃ a, subs[i]? = some a ∧ member a = true) :
    (eraseAt subs positions).filter (fun a => !member a) = subs.filter (fun a => !member a) := by
  rw [eraseAt, List.filter_map, List.filter_filter, ← @map_fst_zipIdx_filter _ subs]
  congr 1
  refine List.filter_congr fun e he => ?_
  rw [List.mem_zipIdx_iff_getElem?] at he
  cases hmember : member e.1 with
  | true => simp [hmember]
  | false =>
    have hkept : e.2 ∉ positions := by
      intro hmem
      obtain ⟨a, ha, hmember'⟩ := h e.2 hmem
      rw [he, Option.some.injEq] at ha
      rw [ha, hmember'] at hmember
      cases hmember
    simp [hmember, hkept]

/-- A sweep of the group from any cursor is a dispatch. -/
theorem dispatched_sweep (live : Nat → Bool) (cursor : Nat) {tried : List ((α × Nat) × Bool)}
    (htried : tried = sweep (fun e => live e.2) ((group member subs).rotate cursor)) :
    Dispatched member live subs (eraseAt subs (failures tried)) tried (tried.any (·.2)) := by
  have hmembers : ∀ p ∈ tried, subs[p.1.2]? = some p.1.1 ∧ member p.1.1 = true := by
    intro p hp
    rw [htried] at hp
    exact mem_group.mp (List.mem_rotate.mp
      ((map_fst_sweep _).subset (List.mem_map_of_mem hp)))
  -- a live subscriber of the group is one of those that the sweep may meet
  have hmeets : ∀ i a, subs[i]? = some a → member a = true →
      (a, i) ∈ (group member subs).rotate cursor := fun i a ha hmember =>
    List.mem_rotate.mpr (mem_group.mpr ⟨ha, hmember⟩)
  refine ⟨hmembers, fun p hp => ?_, ?_, ?_, ?_, rfl, eraseAt_others ?_⟩
  · rw [htried] at hp
    exact sweep_answer hp
  · have hrotated := @rotate_group_nodup _ member subs cursor
    have hprefix := (@map_fst_sweep _ (fun e : α × Nat => live e.2)
      ((group member subs).rotate cursor)).map (·.2)
    rw [← htried, List.map_map] at hprefix
    exact hrotated.sublist hprefix.sublist
  · rintro ⟨i, a, ha, hmember, hlive⟩
    obtain ⟨e, he⟩ := @sweep_served _ (fun e : α × Nat => live e.2) _
      ⟨(a, i), hmeets i a ha hmember, hlive⟩
    rw [← htried] at he
    have hmem : (e, true) ∈ tried := (List.mem_filter.mp (he ▸ List.mem_singleton_self _)).1
    exact ⟨List.any_eq_true.mpr ⟨(e, true), hmem, rfl⟩, (e, true), he⟩
  · intro hnone
    have hdead : ∀ e ∈ (group member subs).rotate cursor, live e.2 = false := by
      intro e he
      obtain ⟨hget, hmember⟩ := mem_group.mp (List.mem_rotate.mp he)
      exact eq_false_of_ne_true fun hlive => hnone ⟨e.2, e.1, hget, hmember, hlive⟩
    have hfilter := @sweep_unserved _ (fun e : α × Nat => live e.2) _ hdead
    rw [← htried] at hfilter
    exact ⟨List.any_eq_false.mpr (List.filter_eq_nil_iff.mp hfilter), hfilter⟩
  · intro i hi
    obtain ⟨p, hp, rfl⟩ := List.mem_map.mp hi
    obtain ⟨hget, hmember⟩ := hmembers p (List.mem_filter.mp hp).1
    exact ⟨p.1.1, hget, hmember⟩

/-- A sweep in which every attempt succeeded served the first member. -/
theorem sweep_all {live : α → Bool} {as : List α} (h : ∀ p ∈ sweep live as, p.2 = true) :
    sweep live as = as.head?.toList.map fun a => (a, true) := by
  cases as with
  | nil => rfl
  | cons a as =>
    unfold sweep at h ⊢
    split
    · rfl
    · next hdead =>
      rw [if_neg hdead] at h
      cases h _ List.mem_cons_self

/-- If the group is the same after a dispatch, every attempt succeeded. -/
theorem all_of_same {tried : List ((α × Nat) × Bool)}
    (hmembers : ∀ p ∈ tried, subs[p.1.2]? = some p.1.1 ∧ member p.1.1 = true)
    (hsame : (eraseAt subs (failures tried)).filter member = subs.filter member) :
    ∀ p ∈ tried, p.2 = true := by
  intro p hp
  by_contra hfail
  obtain ⟨hget, hmember⟩ := hmembers p hp
  have hfailed : p.1.2 ∈ failures tried :=
    List.mem_map_of_mem (List.mem_filter.mpr ⟨hp, by simpa using hfail⟩)
  have hsub : ((subs.zipIdx.filter fun e => e.2 ∉ failures tried).filter
      fun e => member e.1).Sublist (group member subs) := List.filter_sublist.filter _
  -- as many members are left as there were, so none has been erased
  have hlength : ((subs.zipIdx.filter fun e => e.2 ∉ failures tried).filter
      fun e => member e.1).length = (group member subs).length := by
    have hleft : (eraseAt subs (failures tried)).filter member =
        ((subs.zipIdx.filter fun e => e.2 ∉ failures tried).filter
          fun e => member e.1).map (·.1) := by
      rw [eraseAt, List.filter_map]
      rfl
    have hbefore : subs.filter member = (group member subs).map (·.1) :=
      (map_fst_zipIdx_filter member).symm
    have hlengths := congrArg List.length hsame
    rwa [hleft, hbefore, List.length_map, List.length_map] at hlengths
  have hleft : p.1 ∈ group member subs := mem_group.mpr ⟨hget, hmember⟩
  rw [← hsub.eq_of_length hlength] at hleft
  have hkept := (List.mem_filter.mp (List.mem_filter.mp hleft).1).2
  exact of_decide_eq_true hkept hfailed

/-- If the group is the same after a dispatch, it served the member at the cursor. -/
theorem dispatch_steady {live : Nat → Bool} {cursor : Nat} {tried : List ((α × Nat) × Bool)}
    (htried : tried = sweep (fun e => live e.2) ((group member subs).rotate cursor))
    (hsame : (eraseAt subs (failures tried)).filter member = subs.filter member) :
    tried.map (fun p => (p.1.1, p.2)) =
      (subs.filter member)[cursor % (subs.filter member).length]?.toList.map
        fun a => (a, true) := by
  have hall : ∀ p ∈ tried, p.2 = true :=
    all_of_same (dispatched_sweep live cursor htried).members hsame
  have hmembers : subs.filter member = (group member subs).map (·.1) :=
    (map_fst_zipIdx_filter member).symm
  rw [htried] at hall
  rw [htried, sweep_all hall, head?_rotate_cursor, hmembers, List.getElem?_map, List.length_map]
  cases (group member subs)[cursor % (group member subs).length]? <;> rfl

/-- The same for what is recorded of those who are served, and how far the cursor moves. -/
theorem served_steady {live : Nat → Bool} {cursor : Nat} {tried : List ((α × Nat) × Bool)}
    (f : α → β) (htried : tried = sweep (fun e => live e.2) ((group member subs).rotate cursor))
    (hsame : (eraseAt subs (failures tried)).filter member = subs.filter member) :
    (tried.filter (·.2)).map (fun p => f p.1.1) =
        ((subs.filter member).map f)[cursor % ((subs.filter member).map f).length]?.toList ∧
      (subs.filter member ≠ [] → tried.length = 1) := by
  have hsteady := dispatch_steady htried hsame
  have hserved : (tried.filter (·.2)).map (fun p => f p.1.1) =
      ((tried.map fun p => (p.1.1, p.2)).filter (·.2)).map fun e => f e.1 := by
    rw [List.filter_map, List.map_map]
    rfl
  have hlength : tried.length = (tried.map fun p => (p.1.1, p.2)).length :=
    (List.length_map _).symm
  rw [hserved, hlength, hsteady, @List.length_map _ _ (subs.filter member), List.getElem?_map]
  cases hfirst : (subs.filter member)[cursor % (subs.filter member).length]? with
  | none =>
    refine ⟨rfl, fun hne => ?_⟩
    have hpos := List.length_pos_of_ne_nil hne
    rw [List.getElem?_eq_none_iff] at hfirst
    exact absurd hfirst (Nat.not_le.mpr (Nat.mod_lt _ hpos))
  | some a => exact ⟨rfl, fun _ => rfl⟩

end group

/-! ## Whole rounds -/

/-- The members that the next `m` dispatches serve if nobody fails. -/
def turns (members : List α) : Nat → Nat → List α
  | _, 0 => []
  | cursor, m + 1 => members[cursor % members.length]?.toList ++ turns members (cursor + 1) m

theorem turns_nil (m : Nat) : ∀ cursor, turns ([] : List α) cursor m = [] := by
  induction m with
  | zero => exact fun _ => rfl
  | succ m ih => exact fun cursor => ih (cursor + 1)

theorem turns_add (members : List α) (m m' : Nat) : ∀ cursor,
    turns members cursor (m + m') = turns members cursor m ++ turns members (cursor + m) m' := by
  induction m with
  | zero =>
    intro cursor
    rw [Nat.zero_add]
    rfl
  | succ m ih =>
    intro cursor
    rw [Nat.succ_add, turns, turns, ih (cursor + 1), List.append_assoc, Nat.add_assoc,
      Nat.add_comm 1 m]

/-- Less than a round serves the members in the order of their rotation. -/
theorem turns_take (members : List α) : ∀ {m cursor : Nat}, m ≤ members.length →
    turns members cursor m = (members.rotate cursor).take m := by
  intro m
  induction m with
  | zero =>
    intro cursor _
    rfl
  | succ m ih =>
    intro cursor hm
    obtain ⟨a, hget, htake⟩ := take_rotate_succ members cursor hm
    rw [turns, hget, ih (Nat.le_of_succ_le hm), htake]
    rfl

/-- Whole rounds serve every member once in each round. -/
theorem turns_rounds (members : List α) (k : Nat) : ∀ cursor,
    turns members cursor (k * members.length) =
      (List.replicate k (members.rotate cursor)).flatten := by
  induction k with
  | zero =>
    intro cursor
    rw [Nat.zero_mul]
    rfl
  | succ k ih =>
    intro cursor
    have hround : turns members cursor members.length = members.rotate cursor := by
      rw [turns_take members (Nat.le_refl _), List.take_of_length_le (by simp)]
    have hsame : members.rotate (cursor + members.length) = members.rotate cursor := by
      rw [← List.rotate_mod, Nat.add_mod_right, List.rotate_mod]
    rw [Nat.succ_mul, Nat.add_comm, turns_add, hround, ih, hsame, List.replicate_succ,
      List.flatten_cons]

theorem count_turns_rounds [BEq α] (members : List α) (k cursor : Nat) (a : α) :
    (turns members cursor (k * members.length)).count a = k * members.count a := by
  rw [turns_rounds, List.count_flatten, List.map_replicate, List.sum_replicate_nat,
    (List.rotate_perm members cursor).count_eq]

/-- Along a run in which every dispatch serves the member at the cursor and moves the
    cursor on, and no other step does either, the members are served in turn. -/
theorem collect_turns {State Label : Type*} {sys : System State Label} {P : State → Prop}
    {dispatch : Label → Bool} {served : State → Label → List α} {cursor : State → Nat}
    {members : List α}
    (hdispatch : ∀ {s l s'}, sys.exec s l = some s' → P s → P s' → dispatch l = true →
      served s l = members[cursor s % members.length]?.toList ∧
        (members ≠ [] → cursor s' = cursor s + 1))
    (hother : ∀ {s l s'}, sys.exec s l = some s' → dispatch l = false →
      served s l = [] ∧ cursor s' = cursor s) :
    ∀ {ls : List Label} {s : State}, sys.Along P s ls →
      sys.collect served s ls = turns members (cursor s) (ls.countP dispatch) := by
  intro ls
  induction ls with
  | nil =>
    intro s _
    rfl
  | cons l ls ih =>
    rintro s ⟨hs, s', hexec, hrest⟩
    rw [System.collect_cons hexec, ih hrest]
    cases hl : dispatch l with
    | true =>
      obtain ⟨hserved, hcursor⟩ := hdispatch hexec hs hrest.head hl
      rw [List.countP_cons_of_pos hl, turns, hserved]
      by_cases hnone : members = []
      · rw [hnone, turns_nil, turns_nil]
      · rw [hcursor hnone]
    | false =>
      obtain ⟨hserved, hcursor⟩ := hother hexec hl
      rw [List.countP_cons_of_neg (by rw [hl]; exact Bool.false_ne_true), hserved, hcursor]
      rfl

end Framework
