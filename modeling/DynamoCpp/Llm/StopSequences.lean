import DynamoCpp.Llm.Backend

/-! # Hidden stop sequences

    What a caller who feeds tokens to a fresh `Decoder` receives.  The decoder
    refines a simple function of the decoded texts: they are concatenated until a
    stop sequence occurs, and the text is then cut at the first occurrence of the
    first stop sequence, in the order of the list, that occurs (`cutText`).

    The order of the list decides, not the order of the text.  When one step
    completes two stop sequences and the one that comes first in the text is the
    later one of the list, the text is cut behind it and it is released.
-/

open Framework

namespace DynamoCpp.Llm

/-! ## The search of the source and the search of the library -/

theorem matchStop_offset (candidate : Bytes) : ∀ seqs : List Bytes,
    (matchStop candidate seqs).map Prod.snd = cutAt seqs candidate
  | [] => rfl
  | seq :: seqs => by
    have ih := matchStop_offset candidate seqs
    unfold matchStop cutAt
    rw [List.findSome?_cons]
    cases find seq candidate with
    | some offset => rfl
    | none => exact ih

theorem any_begins_iff {seqs : List Bytes} {suffix : Bytes} {len : Nat}
    (hlen : suffix.length = len) :
    (seqs.any fun seq => len < seq.length && seq.take len == suffix) = true ↔
      Begins seqs suffix := by
  subst hlen
  simp only [List.any_eq_true, Bool.and_eq_true, decide_eq_true_eq, beq_iff_eq]
  refine exists_congr fun seq => and_congr_right fun _ => ?_
  rw [List.prefix_iff_eq_take, and_comm, eq_comm]

theorem holdLoop_eq (seqs : List Bytes) (candidate : Bytes) : ∀ n, n ≤ candidate.length →
    holdLoop seqs candidate n = holdLength seqs candidate n
  | 0, _ => rfl
  | n + 1, hn => by
    have hiff : _ ↔ Begins seqs (ending (n + 1) candidate) := any_begins_iff (length_ending hn)
    unfold holdLoop holdLength
    rw [← holdLoop_eq seqs candidate n (Nat.le_of_succ_le hn)]
    exact if_congr hiff rfl rfl

theorem le_foldl_max {seqs : List Bytes} : ∀ {longest : Nat},
    longest ≤ seqs.foldl (fun longest seq => max longest (seq.length - 1)) longest ∧
      ∀ seq ∈ seqs, seq.length - 1 ≤
        seqs.foldl (fun longest seq => max longest (seq.length - 1)) longest := by
  induction seqs with
  | nil => simp
  | cons seq seqs ih =>
    intro longest
    obtain ⟨hacc, hrest⟩ := @ih (max longest (seq.length - 1))
    refine ⟨(Nat.le_max_left _ _).trans hacc, ?_⟩
    intro other hother
    obtain rfl | hmem := List.mem_cons.mp hother
    · exact (Nat.le_max_right _ _).trans hacc
    · exact hrest other hmem

/-- The scan starts far enough out. -/
theorem begins_le_scan {seqs : List Bytes} {candidate q : Bytes} (hq : q <:+ candidate)
    (hbegins : Begins seqs q) : q.length ≤ min candidate.length (maxHold seqs) := by
  obtain ⟨seq, hseq, _, hlen⟩ := hbegins
  have hmax : seq.length - 1 ≤ maxHold seqs := le_foldl_max.2 seq hseq
  have hle := hq.length_le
  omega

namespace Decoder

section leak

variable {d : Decoder} {tokenId : TokenIdType} {decoded front : Bytes}

theorem not_lt_minTokens (hmin : d.minTokens = 0) : ¬ d.generatedTokens < d.minTokens := by
  rw [hmin]
  exact UInt32.not_lt_zero

/-- The step of a hidden stop token. -/
theorem release_stopToken (hmin : d.minTokens = 0) (hid : tokenId ∈ d.hiddenStopIds) :
    (d.release tokenId decoded).1.stopTrigger.isSome ∧
      (d.release tokenId decoded).1.token.getD [] = d.pending := by
  unfold release flush
  rw [if_neg (not_lt_minTokens hmin), if_pos hid]
  exact ⟨rfl, getD_nonEmpty d.pending⟩

/-- The step in which a stop sequence occurs. -/
theorem release_cut {i : Nat} (hmin : d.minTokens = 0) (hid : tokenId ∉ d.hiddenStopIds)
    (h : Withheld d.hiddenStopSequences (front ++ d.pending) d.pending)
    (hcut : cutAt d.hiddenStopSequences (front ++ d.pending ++ decoded) = some i) :
    (d.release tokenId decoded).1.stopTrigger.isSome ∧
      front ++ (d.release tokenId decoded).1.token.getD [] =
        (front ++ d.pending ++ decoded).take i := by
  have hne : d.hiddenStopSequences ≠ [] := by
    intro hnil
    rw [hnil] at hcut
    exact absurd hcut (by simp [cutAt])
  have hfront : (front ++ d.pending).length - d.pending.length = front.length := by simp
  rw [h.cutAt_eq, hfront, Option.map_eq_some_iff] at hcut
  obtain ⟨offset, hoffset, rfl⟩ := hcut
  rw [← matchStop_offset, Option.map_eq_some_iff] at hoffset
  obtain ⟨found, hfound, rfl⟩ := hoffset
  unfold release
  rw [if_neg (not_lt_minTokens hmin), if_neg hid, if_neg hne]
  dsimp only
  rw [hfound]
  simp [List.take_append]

/-- A step in which none does. -/
theorem release_withholds (hmin : d.minTokens = 0) (hid : tokenId ∉ d.hiddenStopIds)
    (h : Withheld d.hiddenStopSequences (front ++ d.pending) d.pending)
    (hcut : cutAt d.hiddenStopSequences (front ++ d.pending ++ decoded) = none) :
    (d.release tokenId decoded).1.stopTrigger = none ∧
      Withheld d.hiddenStopSequences (front ++ d.pending ++ decoded)
        (d.release tokenId decoded).2.pending := by
  rw [h.cutAt_eq, Option.map_eq_none_iff] at hcut
  have hnone : matchStop (d.pending ++ decoded) d.hiddenStopSequences = none := by
    rw [← matchStop_offset, Option.map_eq_none_iff] at hcut
    exact hcut
  have hscan : min (d.pending ++ decoded).length (maxHold d.hiddenStopSequences) ≤
      (d.pending ++ decoded).length := Nat.min_le_left _ _
  have hnext := h.next (fun p hp => find_eq_none.mpr (cutAt_eq_none.mp hcut p hp)) hscan
    (fun q hq hbegins => begins_le_scan hq hbegins)
  unfold release
  rw [if_neg (not_lt_minTokens hmin), if_neg hid]
  split_ifs with hnil
  · -- there are no stop sequences, and nothing is ever jailed
    rw [hnil] at h hnext ⊢
    rw [hnext.pending_nil] at hnext
    refine ⟨rfl, ?_⟩
    rw [h.pending_nil] at hnext ⊢
    exact hnext
  · dsimp only
    rw [hnone]
    refine ⟨rfl, ?_⟩
    rw [← holdLoop_eq _ _ _ hscan] at hnext
    exact hnext

/-- One step of the decoder is one step of the cut: if the rest of the tokens is
    cut as it should be, so are all of them. -/
theorem release_cutText {rest : Bytes} {texts : List Bytes} (hmin : d.minTokens = 0)
    (h : Withheld d.hiddenStopSequences (front ++ d.pending) d.pending)
    (hrest : ∀ front, Withheld d.hiddenStopSequences
        (front ++ (d.release tokenId decoded).2.pending) (d.release tokenId decoded).2.pending →
      front ++ rest = cutText d.hiddenStopSequences
        (front ++ (d.release tokenId decoded).2.pending) texts) :
    front ++ (match (d.release tokenId decoded).1.stopTrigger with
      | some _ => (d.release tokenId decoded).1.token.getD []
      | none => (d.release tokenId decoded).1.token.getD [] ++ rest) =
    cutText d.hiddenStopSequences (front ++ d.pending)
      (if tokenId ∈ d.hiddenStopIds then [] else decoded :: texts) := by
  by_cases hid : tokenId ∈ d.hiddenStopIds
  · obtain ⟨htrigger, htoken⟩ := @release_stopToken d tokenId decoded hmin hid
    obtain ⟨trigger, htrigger⟩ := Option.isSome_iff_exists.mp htrigger
    rw [if_pos hid, htrigger, htoken]
    rfl
  rw [if_neg hid]
  cases hcut : cutAt d.hiddenStopSequences (front ++ d.pending ++ decoded) with
  | some i =>
    obtain ⟨htrigger, htoken⟩ := release_cut hmin hid h hcut
    obtain ⟨trigger, htrigger⟩ := Option.isSome_iff_exists.mp htrigger
    rw [htrigger, cutText, hcut]
    exact htoken
  | none =>
    obtain ⟨htrigger, hnext⟩ := release_withholds hmin hid h hcut
    have hjail : d.hiddenStopSequences = [] → d.pending = [] := by
      intro hnil
      rw [hnil] at h
      exact h.pending_nil
    have hkept := release_conserves hjail htrigger
    have htext : front ++ (d.release tokenId decoded).1.token.getD [] ++
        (d.release tokenId decoded).2.pending = front ++ d.pending ++ decoded := by
      rw [List.append_assoc, hkept, List.append_assoc]
    rw [← htext] at hnext
    rw [htrigger, cutText, hcut, ← htext]
    rw [← List.append_assoc, hrest _ hnext]

end leak

/-! ## What a caller receives -/

section released

variable (tokenizer : Tokenizer)

/-- The text released while the tokens are fed to `step`, up to the step that
    triggers, and by `flush` if none does.  A step that throws releases nothing. -/
def released (d : Decoder) : List TokenIdType → Bytes
  | [] => d.flush.1
  | tokenId :: tokenIds =>
    match d.step tokenizer tokenId with
    | (.error _, d) => d.released tokenIds
    | (.ok result, d) =>
      match result.stopTrigger with
      | some _ => result.token.getD []
      | none => result.token.getD [] ++ d.released tokenIds

/-- The decoded texts of the tokens in front of the first hidden stop token. -/
def decodedTexts (stopIds : List TokenIdType) (s : Sequence) : List TokenIdType → List Bytes
  | [] => []
  | tokenId :: tokenIds =>
    match s.appendTokenId tokenizer tokenId with
    | (.error _, s) => decodedTexts stopIds s tokenIds
    | (.ok decoded, s) =>
      if tokenId ∈ stopIds then [] else decoded :: decodedTexts stopIds s tokenIds

variable {tokenizer}

/-- The decoder cuts the decoded text; `front` has been released before. -/
theorem released_eq_cutText (tokenIds : List TokenIdType) : ∀ {d : Decoder} {front : Bytes},
    d.minTokens = 0 → Withheld d.hiddenStopSequences (front ++ d.pending) d.pending →
      front ++ d.released tokenizer tokenIds =
        cutText d.hiddenStopSequences (front ++ d.pending)
          (decodedTexts tokenizer d.hiddenStopIds d.sequence tokenIds) := by
  induction tokenIds with
  | nil =>
    intro d front _ _
    rfl
  | cons tokenId tokenIds ih =>
    intro d front hmin h
    unfold released decodedTexts
    rcases happend : d.sequence.appendTokenId tokenizer tokenId with ⟨_ | decoded, sequence⟩
    · -- the step throws and releases nothing
      rw [step_error happend]
      exact @ih (d.count sequence) _ hmin h
    · rw [step_ok happend]
      refine @release_cutText (d.count sequence) _ _ _ _ _ hmin h ?_
      intro front hfront
      have hnext := @ih ((d.count sequence).release tokenId decoded).2 front
        (by rw [release_minTokens]; exact hmin)
        (by rw [release_hiddenStopSequences]; exact hfront)
      rw [release_hiddenStopSequences, release_hiddenStopIds, release_sequence] at hnext
      exact hnext

/-- A fresh decoder releases no stop sequence exactly if, in the step that first
    completes one, none lies in front of the first occurrence of the first one
    listed. -/
theorem stops_never_released_iff {stopConditions : StopConditions}
    (hne : ∀ stop ∈ stopConditions.stop.getD [], stop ≠ [])
    (hmin : stopConditions.minTokens.getD 0 = 0) (tokenIds : List TokenIdType) :
    (∀ stop ∈ stopConditions.stop.getD [],
        ¬ stop <:+: (create stopConditions).released tokenizer tokenIds) ↔
      CutsFirst (stopConditions.stop.getD []) []
        (decodedTexts tokenizer (stopConditions.stopTokenIdsHidden.getD []) {} tokenIds) := by
  have hfresh := withheld_nil hne
  have hcut : (create stopConditions).released tokenizer tokenIds = _ :=
    @released_eq_cutText tokenizer tokenIds (create stopConditions) [] hmin hfresh
  rw [hcut]
  exact cutText_free_iff hfresh.free

end released

/-- The stop sequences `ab` and `cd`. -/
def twoStops : StopConditions :=
  { stop := some [str "ab", str "cd"], minTokens := some 0 }

/-- The tokens `x`, `a`, `b`, `c`, `d`. -/
theorem twoStops_not_released :
    ¬ str "ab" <:+: (create twoStops).released byteLevelTokenizer [0x78, 0x61, 0x62, 0x63, 0x64] ∧
      ¬ str "cd" <:+:
        (create twoStops).released byteLevelTokenizer [0x78, 0x61, 0x62, 0x63, 0x64] := by
  have hnone := (@stops_never_released_iff byteLevelTokenizer twoStops (by decide) rfl
    [0x78, 0x61, 0x62, 0x63, 0x64]).mpr (by decide)
  exact ⟨hnone (str "ab") (by decide), hnone (str "cd") (by decide)⟩

/-- The end token decodes to `</s>` and completes both stop sequences.  The text is
    cut in front of `s>`, the first of the list, and `</` is released. -/
theorem earlier_stop_released :
    ¬ ∀ stop ∈ [str "s>", str "</"],
      ¬ stop <:+: (create { stop := some [str "s>", str "</"], minTokens := some 0 }).released
        byteLevelTokenizer [ByteLevelTokenizer.eosId] := by
  decide

end Decoder

end DynamoCpp.Llm
