import DynamoCpp.Llm.KvRouter.PrefixSets

/-! # Early exit

    With `early_exit` the walk of `find_matches` ends at the first block that one worker
    holds alone.  The workers that hold a block also hold the blocks before it, so from
    there on only that worker would have scored: its score stops at the depth of the block,
    and the scores of all others are complete and lower.
-/

open Framework

namespace DynamoCpp.Llm.KvRouter

open EdgeGraph

namespace RadixTree

/-- A set of one worker. -/
theorem workers_size_eq_one_iff {t : RadixTree} {b : BlockId} :
    (t.heap b).workers.size = 1 ↔ ∃ w, t.carries w b = true ∧ t.onlyCarries w b := by
  have hmem : ∀ v, t.carries v b = true ↔ v ∈ (t.heap b).workers := fun v => decide_eq_true_iff
  constructor
  · intro h
    rw [← Std.ExtTreeSet.length_toList] at h
    obtain ⟨w, hw⟩ := List.length_eq_one_iff.mp h
    have honly : ∀ v, t.carries v b = true ↔ v = w := by
      intro v
      rw [hmem, ← Std.ExtTreeSet.mem_toList, hw, List.mem_singleton]
    exact ⟨w, (honly w).mpr rfl, fun v hv => (honly v).mp hv⟩
  · rintro ⟨w, hw, honly⟩
    have hset : (t.heap b).workers = (∅ : OrdSet WorkerId).insert w := by
      refine Std.ExtTreeSet.ext_mem fun v => ?_
      simp only [OrdSet.mem_insert, Std.ExtTreeSet.not_mem_empty, or_false]
      exact ⟨fun hv => honly v ((hmem v).mpr hv), fun hv => (hmem v).mp (hv ▸ hw)⟩
    rw [hset, Std.ExtTreeSet.size_insert, Std.ExtTreeSet.contains_empty, Std.ExtTreeSet.size_empty]
    rfl

/-- A query that may stop early runs to the end, or is the one of the way to a block that a
    single worker holds. -/
theorem findMatchesFrom_stops (now : Int) (p : List LocalBlockHash) :
    ∀ (t : RadixTree) (current : BlockId) (s : OverlapScores),
      findMatchesFrom now true t current p s = findMatchesFrom now false t current p s ∨
      ∃ q b w, q ≠ [] ∧ q <+: p ∧ t.edges.walk current q = some b ∧ t.carries w b = true ∧
        t.onlyCarries w b ∧
        findMatchesFrom now true t current p s = findMatchesFrom now false t current q s := by
  induction p with
  | nil => exact fun _ _ _ => .inl rfl
  | cons h p ih =>
    intro t current s
    cases hedge : t.edges current h with
    | none =>
      have hchild : (t.heap current).children[h]? = none := hedge
      exact .inl (by simp only [findMatchesFrom, hchild])
    | some block =>
      have hchild : (t.heap current).children[h]? = some block := hedge
      by_cases hone : (t.heap block).workers.size = 1
      · -- the walk stops here, after it has scored this block
        obtain ⟨w, hw, honly⟩ := workers_size_eq_one_iff.mp hone
        refine .inr ⟨[h], block, w, List.cons_ne_nil _ _, List.prefix_append [h] p, ?_, hw, honly,
          ?_⟩
        · simp only [walk_cons, hedge, Option.bind_some, walk_nil]
        · simp [findMatchesFrom, hchild, hone]
      · -- the walk goes on in a tree with the same index
        have hgo : ∀ earlyExit q, findMatchesFrom now earlyExit t current (h :: q) s =
            findMatchesFrom now earlyExit (t.trackUse now block
              ((t.heap block).workers.toList.foldl OverlapScores.increment s)).2 block q
              (t.trackUse now block
                ((t.heap block).workers.toList.foldl OverlapScores.increment s)).1 := by
          intro earlyExit q
          simp [findMatchesFrom, hchild, hone]
        obtain ⟨hsame, -⟩ := t.trackUse_sameIndex now block
          ((t.heap block).workers.toList.foldl OverlapScores.increment s)
        simp only [hgo]
        rcases ih _ block _ with hall | ⟨q, b, w, -, hpre, hwalk, hw, honly, hstop⟩
        · exact .inl hall
        · rw [hsame.edges] at hwalk
          unfold onlyCarries at honly
          rw [hsame.carries] at hw honly
          refine .inr ⟨h :: q, b, w, List.cons_ne_nil _ _, (List.prefix_cons_inj h).mpr hpre, ?_,
            hw, honly, ?_⟩
          · rw [walk_cons, hedge]
            exact hwalk
          · rw [hgo]
            exact hstop

end RadixTree

/-- The scores of a query that stops early are those of the whole one, or of the way to a
    block that only `w` has stored. -/
theorem Represents.score_earlyExit {path : Denotation} {t : RadixTree} {S : PrefixSets}
    (h : Represents path t S) (now : Int) (p : List LocalBlockHash) :
    (∀ v, (t.findMatches now p true).1.score v = (t.findMatches now p false).1.score v) ∨
    ∃ q w, q ≠ [] ∧ q <+: p ∧ (∀ v, q ∈ S v ↔ v = w) ∧
      ∀ v, (t.findMatches now p true).1.score v =
        UInt32.ofNat (longestPrefix (S v) q) := by
  rcases RadixTree.findMatchesFrom_stops now p t root {} with
    hall | ⟨q, b, w, hq, hpre, hwalk, hw, honly, hstop⟩
  · exact .inl fun v => congrArg (fun r => r.1.score v) hall
  · refine .inr ⟨q, w, hq, hpre, fun v => ?_, fun v => ?_⟩
    · rw [← h.carries v q b hq hwalk]
      exact ⟨honly v, fun hv => hv ▸ hw⟩
    · rw [← h.score now q v]
      exact congrArg (fun r => r.1.score v) hstop

/-- **Early exit keeps the ranking.**  At most one worker gets another score than without
    early exit.  As long as its score does not wrap around, it is lower, but still the
    strictly highest one in both results. -/
theorem early_exit_keeps_ranking {path : Denotation} (hpath : ∀ w, Function.Injective (path w))
    {expirationDuration : Option Int} {t : RadixTree} {S : PrefixSets}
    (hrun : Tracks path expirationDuration t S) (now : Int) (p : List LocalBlockHash) :
    let early := (t.findMatches now p true).1
    let full := (t.findMatches now p false).1
    ∃ w, (∀ v, v ≠ w → early.score v = full.score v) ∧
      (early.score w ≠ full.score w → EdgeGraph.longestPrefix (S w) p < 2 ^ 32 →
        early.score w < full.score w ∧
          ∀ v, v ≠ w → early.score v < early.score w ∧ full.score v < early.score w) := by
  intro early full
  have hrep := hrun.represents hpath
  rcases hrep.score_earlyExit now p with hall | ⟨q, w, hq, hpre, honly, hearly⟩
  · exact ⟨0, fun v _ => hall v, fun hne => absurd (hall 0) hne⟩
  have hfull : ∀ v, full.score v = UInt32.ofNat (longestPrefix (S v) p) :=
    fun v => hrep.score now p v
  -- another worker has not stored the last block, so its prefix ended before it
  have hother : ∀ v, v ≠ w → early.score v = full.score v ∧
      longestPrefix (S v) p < q.length := by
    intro v hv
    obtain ⟨hsame, hlt⟩ := longestPrefix_of_not_mem hq hpre fun hmem =>
      hv ((honly v).mp hmem)
    exact ⟨by rw [hearly, hfull, hsame], hlt⟩
  -- the worker itself scores the depth of the block where the walk stopped
  obtain ⟨hdepth, hle⟩ := longestPrefix_of_mem (hrep.closed w) hpre ((honly w).mpr rfl)
  refine ⟨w, fun v hv => (hother v hv).1, fun hne hshort => ?_⟩
  have hlow : early.score w = UInt32.ofNat q.length := by rw [hearly, hdepth]
  have hlt : q.length < longestPrefix (S w) p := by
    refine Nat.lt_of_le_of_ne hle fun heq => hne ?_
    rw [hlow, hfull, heq]
  -- this is where the bound is needed: scores are compared in 32 bits
  have hofNat : ∀ {m n : Nat}, m < n → n < 2 ^ 32 → UInt32.ofNat m < UInt32.ofNat n := by
    intro m n hmn hn
    rw [UInt32.lt_iff_toNat_lt, UInt32.toNat_ofNat', UInt32.toNat_ofNat',
      Nat.mod_eq_of_lt (hmn.trans hn), Nat.mod_eq_of_lt hn]
    exact hmn
  refine ⟨?_, fun v hv => ?_⟩
  · rw [hlow, hfull]
    exact hofNat hlt hshort
  · obtain ⟨hsame, hbelow⟩ := hother v hv
    rw [hsame, hlow, hfull]
    exact ⟨hofNat hbelow (hlt.trans hshort), hofNat hbelow (hlt.trans hshort)⟩

/-! ## Runs -/

/-- Two workers share the first of three blocks. -/
def firstSharedTree : RadixTree :=
  (countTree 3).apply (.applyEvent ⟨2, .stored ⟨none, countBlocks 0 1⟩⟩)

/-- With early exit the worker with all three blocks scores 2, the other 1. -/
theorem early_exit_shared :
    ((firstSharedTree.findMatches 0 [0, 0, 0] true).1.score 1 = 2 ∧
      (firstSharedTree.findMatches 0 [0, 0, 0] false).1.score 1 = 3 ∧
      (firstSharedTree.findMatches 0 [0, 0, 0] false).1.score 2 = 1) ∧
    ∃ w, ∀ v, v ≠ w → (firstSharedTree.findMatches 0 [0, 0, 0] true).1.score v =
      (firstSharedTree.findMatches 0 [0, 0, 0] false).1.score v := by
  refine ⟨by decide +kernel, ?_⟩
  have htracks := Tracks.step (.applyEvent ⟨2, .stored ⟨none, countBlocks 0 1⟩⟩)
    (countTracks (by decide : 3 ≤ 2 ^ 64)) (by
      intro base hbase
      have hnil : base = [] := hbase
      rw [hnil]
      exact countBlocks_consistent 2 1 0 (by decide))
  obtain ⟨w, hsame, -⟩ := early_exit_keeps_ranking countPath_injective htracks 0 [0, 0, 0]
  exact ⟨w, hsame⟩

/-- A query for a chain that one worker has stored stops at the first block. -/
theorem early_exit_count {n : Nat} (hn : n + 1 ≤ 2 ^ 64) :
    ((countTree (n + 1)).findMatches 0 (List.replicate (n + 1) 0) true).1.score 1 = 1 := by
  have hrep := (countTracks hn).represents countPath_injective
  have hmem : [0] ∈ countSets (n + 1) 1 :=
    (mem_countSets (n + 1) [0]).mpr ⟨1, Nat.one_pos, Nat.succ_pos n, rfl⟩
  obtain ⟨b, hb⟩ := hrep.stored 1 [0] hmem
  have hone : ((countTree (n + 1)).heap b).workers.size = 1 := by
    refine RadixTree.workers_size_eq_one_iff.mpr ⟨1, ?_, fun v hv => ?_⟩
    · exact (hrep.carries 1 [0] b (List.cons_ne_nil _ _) hb).mpr hmem
    · by_contra hne
      have hv' := (hrep.carries v [0] b (List.cons_ne_nil _ _) hb).mp hv
      simp [countSets, countStore, PrefixSets.apply, PrefixSets.stored, hne] at hv'
  have hchild : ((countTree (n + 1)).heap root).children[(0 : LocalBlockHash)]? = some b := by
    obtain ⟨c, hc, hcb⟩ := Option.bind_eq_some_iff.mp hb
    rw [← Option.some.inj hcb]
    exact hc
  have hstop : (countTree (n + 1)).findMatches 0 (List.replicate (n + 1) 0) true =
      (countTree (n + 1)).findMatches 0 [0] false := by
    rw [List.replicate_succ]
    simp [RadixTree.findMatches, RadixTree.findMatchesFrom, hchild, hone]
  rw [hstop, hrep.score, (longestPrefix_of_mem (hrep.closed 1) List.prefix_rfl hmem).1]
  rfl

/-- After a chain of `2 ^ 32` blocks of one worker its score is 1 with early exit, and 0
    without. -/
theorem early_exit_wraps :
    (∀ w, Function.Injective (countPath w)) ∧
      Tracks countPath none (countTree (2 ^ 32)) (countSets (2 ^ 32)) ∧
      ((countTree (2 ^ 32)).findMatches 0 (List.replicate (2 ^ 32) 0) true).1.score 1 = 1 ∧
      ((countTree (2 ^ 32)).findMatches 0 (List.replicate (2 ^ 32) 0) false).1.score 1 = 0 := by
  have htracks : Tracks countPath none (countTree (2 ^ 32)) (countSets (2 ^ 32)) :=
    countTracks (by decide)
  refine ⟨countPath_injective, htracks, ?_, ?_⟩
  · exact early_exit_count (by omega)
  · rw [(htracks.represents countPath_injective).score, longestPrefix_countSets]
    decide

end DynamoCpp.Llm.KvRouter
