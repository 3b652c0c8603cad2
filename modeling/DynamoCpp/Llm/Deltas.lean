import DynamoCpp.Llm.Backend

/-! # Independence of the grouping into deltas

    An engine may send its tokens in deltas of any size.  `feed` is what the
    decoder does with the tokens one by one, without deltas: it throws, stops, or
    is still running and holds jailed text.  Every cut of the tokens into deltas
    reports exactly that (`decodeStream_report`): the same exception or the same
    text and finish reason, with the jailed text released once at the end.

    When the tokenizer throws, what has been emitted before is the text of the
    whole deltas in front of the exception, which does depend on the cut.
-/

namespace DynamoCpp.Llm

/-! ## Feeding tokens one by one -/

/-- How feeding tokens ends. -/
inductive Ending where
  | thrown (e : Bytes)
  | stopped (trigger : StopTrigger)
  | running (d : Decoder)
deriving DecidableEq

def Ending.isStopped : Ending → Bool
  | .stopped _ => true
  | _ => false

namespace Decoder

variable {tokenizer : Tokenizer}

/-- The text that the steps release, and the ending. -/
def feed (tokenizer : Tokenizer) (d : Decoder) : List TokenIdType → Bytes × Ending
  | [] => ([], .running d)
  | tokenId :: tokenIds =>
    match d.step tokenizer tokenId with
    | (.error e, _) => ([], .thrown e)
    | (.ok result, d) =>
      match result.stopTrigger with
      | some trigger => (result.token.getD [], .stopped trigger)
      | none =>
        let (text, ending) := d.feed tokenizer tokenIds
        (result.token.getD [] ++ text, ending)

/-- Feeding in two parts. -/
theorem feed_append (front back : List TokenIdType) : ∀ d : Decoder,
    d.feed tokenizer (front ++ back) =
      match d.feed tokenizer front with
      | (text, .thrown e) => (text, .thrown e)
      | (text, .stopped trigger) => (text, .stopped trigger)
      | (text, .running d') =>
        (text ++ (d'.feed tokenizer back).1, (d'.feed tokenizer back).2) := by
  induction front with
  | nil =>
    intro d
    rfl
  | cons tokenId front ih =>
    intro d
    rw [List.cons_append, feed, feed]
    rcases d.step tokenizer tokenId with ⟨e | result, d'⟩
    · rfl
    · dsimp only
      cases result.stopTrigger with
      | some trigger => rfl
      | none =>
        dsimp only
        rw [ih d']
        rcases d'.feed tokenizer front with ⟨text, e | trigger | d''⟩
        · rfl
        · rfl
        · dsimp only
          rw [List.append_assoc]

/-- What `process_token_ids` returns when feeding ends so; `front` is the text
    that has been accumulated before. -/
def Returns (front : Bytes) : Bytes × Ending → Except Bytes SeqResult × Decoder → Prop
  | (_, .thrown e), (outcome, _) => outcome = .error e
  | (text, .stopped trigger), (outcome, _) => ∃ result, outcome = .ok result ∧
      result.stopTrigger = some trigger ∧ result.text.getD [] = front ++ text
  | (text, .running d), (outcome, d') => ∃ result, outcome = .ok result ∧ d' = d ∧
      result.stopTrigger = none ∧ result.text.getD [] = front ++ text

theorem Returns.assoc {front text text' : Bytes} {ending : Ending}
    {outcome : Except Bytes SeqResult × Decoder}
    (h : Returns (front ++ text) (text', ending) outcome) :
    Returns front (text ++ text', ending) outcome := by
  cases ending with
  | thrown e => exact h
  | stopped trigger =>
    obtain ⟨result, hok, htrigger, htext⟩ := h
    exact ⟨result, hok, htrigger, by rw [htext, List.append_assoc]⟩
  | running d =>
    obtain ⟨result, hok, hd, htrigger, htext⟩ := h
    exact ⟨result, hok, hd, htrigger, by rw [htext, List.append_assoc]⟩

/-- The loop of `process_token_ids` feeds the tokens and accumulates the text. -/
theorem processLoop_feed (tokenIds : List TokenIdType) : ∀ (d : Decoder) (result : SeqResult),
    result.stopTrigger = none →
      Returns (result.text.getD []) (d.feed tokenizer tokenIds)
        (d.processLoop tokenizer result tokenIds) := by
  induction tokenIds with
  | nil =>
    intro d result hnone
    exact ⟨result, rfl, rfl, hnone, (List.append_nil _).symm⟩
  | cons tokenId tokenIds ih =>
    intro d result hnone
    rw [feed, processLoop]
    rcases d.step tokenizer tokenId with ⟨e | ⟨token, stopTrigger⟩, d'⟩
    · rfl
    · dsimp only
      -- a token without text leaves what has been accumulated as it is
      cases token with
      | none =>
        cases stopTrigger with
        | some trigger => exact ⟨_, rfl, rfl, (List.append_nil _).symm⟩
        | none =>
          refine Returns.assoc ?_
          rw [Option.getD_none, List.append_nil]
          exact ih d' _ rfl
      | some token =>
        cases stopTrigger with
        | some trigger => exact ⟨_, rfl, rfl, rfl⟩
        | none =>
          refine Returns.assoc ?_
          exact ih d' _ rfl

theorem processTokenIds_feed (d : Decoder) (tokenIds : List TokenIdType) :
    Returns [] (d.feed tokenizer tokenIds) (d.processTokenIds tokenizer tokenIds) :=
  processLoop_feed tokenIds d {} rfl

theorem processTokenIds_running {d d' : Decoder} {tokenIds : List TokenIdType} {text : Bytes}
    (hfeed : d.feed tokenizer tokenIds = (text, .running d')) :
    ∃ result, d.processTokenIds tokenizer tokenIds = (.ok result, d') ∧
      result.stopTrigger = none ∧ result.text.getD [] = text := by
  have hreturns := @processTokenIds_feed tokenizer d tokenIds
  rw [hfeed] at hreturns
  rcases hprocess : d.processTokenIds tokenizer tokenIds with ⟨outcome, d''⟩
  rw [hprocess] at hreturns
  obtain ⟨result, rfl, rfl, htrigger, htext⟩ := hreturns
  exact ⟨result, rfl, htrigger, htext⟩

/-! ### The text of a run without a trigger -/

/-- Everything that is decoded is released, or still jailed in the end. -/
theorem feed_running (tokenIds : List TokenIdType) : ∀ {d d' : Decoder} {text : Bytes},
    (d.hiddenStopSequences = [] → d.pending = []) →
    d.feed tokenizer tokenIds = (text, .running d') →
      ∃ texts : List Bytes, d.sequence.appendAll tokenizer tokenIds = texts.map Except.ok ∧
        d.pending ++ texts.flatten = text ++ d'.pending := by
  induction tokenIds with
  | nil =>
    intro d d' text _ h
    obtain ⟨rfl, hd⟩ := Prod.mk.inj h
    obtain rfl := Ending.running.inj hd
    exact ⟨[], rfl, List.append_nil _⟩
  | cons tokenId tokenIds ih =>
    intro d d' text hjail h
    unfold feed at h
    rcases happend : d.sequence.appendTokenId tokenizer tokenId with ⟨e | decoded, sequence⟩
    · rw [step_error happend] at h
      cases h
    rw [step_ok happend] at h
    dsimp only at h
    cases htrigger : ((d.count sequence).release tokenId decoded).1.stopTrigger with
    | some trigger =>
      rw [htrigger] at h
      cases h
    | none =>
      rw [htrigger] at h
      obtain ⟨htext, hrest⟩ := Prod.mk.inj h
      have hcount : (d.count sequence).hiddenStopSequences = [] → (d.count sequence).pending = [] :=
        hjail
      obtain ⟨texts, hall, hkept⟩ := ih
        (fun hnone => release_jail hcount tokenId decoded (by simpa using hnone))
        (Prod.ext rfl hrest)
      have hconserve := release_conserves hcount htrigger
      rw [release_sequence] at hall
      refine ⟨decoded :: texts, ?_, ?_⟩
      · rw [Sequence.appendAll, happend, List.map_cons, ← hall]
        rfl
      · calc d.pending ++ (decoded :: texts).flatten
            = d.pending ++ decoded ++ texts.flatten := by
              rw [List.flatten_cons, List.append_assoc]
          _ = _ := by rw [← show _ = d.pending ++ decoded from hconserve, List.append_assoc, hkept,
                ← List.append_assoc, htext]

end Decoder

/-! ## The report of a stream -/

def Annotated.text (out : Annotated BackendOutput) : Bytes := (out.data.bind (·.text)).getD []

def Annotated.finishReason (out : Annotated BackendOutput) : Option FinishReason :=
  out.data.bind (·.finishReason)

namespace Emission

/-- The concatenation of the emitted texts. -/
def text (em : Emission) : Bytes := em.outputs.flatMap Annotated.text

/-- The last finish reason that was emitted. -/
def finishReason (em : Emission) : Option FinishReason :=
  (em.outputs.filterMap Annotated.finishReason).getLast?

/-- The exception that ended the stream or the text that was emitted, and the finish
    reason. -/
def report (em : Emission) : Except Bytes Bytes × Option FinishReason :=
  (match em.error with
    | some e => .error e
    | none => .ok em.text,
    em.finishReason)

/-- An output in front of the rest of the stream. -/
theorem report_cons (out : Annotated BackendOutput) (rest : Emission) (stopGenerating : Bool) :
    report { outputs := out :: rest.outputs, stopGenerating := stopGenerating,
             error := rest.error } =
      (rest.report.1.map (out.text ++ ·), rest.report.2.or out.finishReason) := by
  have hlast : ((out :: rest.outputs).filterMap Annotated.finishReason).getLast? =
      ((rest.outputs.filterMap Annotated.finishReason).getLast?).or out.finishReason := by
    rw [List.filterMap_cons]
    cases out.finishReason with
    | none => exact (Option.or_none).symm
    | some reason =>
      rw [List.getLast?_cons]
      cases (rest.outputs.filterMap Annotated.finishReason).getLast? <;> rfl
  unfold report
  cases rest.error with
  | some e => simp only [finishReason, hlast, Except.map]
  | none => simp only [finishReason, hlast, text, List.flatMap_cons, Except.map]

theorem report_of_ok {em : Emission} (h : em.error = none) : em.report.1 = .ok em.text := by
  rw [report, h]

theorem error_of_report {em em' : Emission} (h : em.report.1 = em'.report.1) :
    em.error = em'.error := by
  unfold report at h
  cases herror : em.error with
  | some e =>
    cases herror' : em'.error with
    | some e' =>
      rw [herror, herror'] at h
      rw [Except.error.inj h]
    | none =>
      rw [herror, herror'] at h
      cases h
  | none =>
    cases herror' : em'.error with
    | some e' =>
      rw [herror, herror'] at h
      cases h
    | none => rfl

end Emission

/-- What a stream has to report, whatever the deltas are. -/
def Ending.report (reason : Option FinishReason) :
    Bytes × Ending → Except Bytes Bytes × Option FinishReason
  | (_, .thrown e) => (.error e, none)
  | (text, .stopped trigger) => (.ok text, some trigger.finishReason)
  | (text, .running d) => (.ok (text ++ d.pending), reason)

/-- The items are token-only deltas that carry the tokens; the last one carries the
    engine's finish reason, if there is one. -/
inductive Cut (reason : Option FinishReason) :
    List TokenIdType → List (Annotated LLMEngineOutput) → Prop
  | last {item : Annotated LLMEngineOutput} {data : LLMEngineOutput} :
      item.data = some data → item.event = none → data.text = none →
      data.finishReason = reason → Cut reason data.tokenIds [item]
  | cons {item : Annotated LLMEngineOutput} {data : LLMEngineOutput}
      {tokenIds : List TokenIdType} {items : List (Annotated LLMEngineOutput)} :
      item.data = some data → item.event = none → data.text = none →
      data.finishReason = none → Cut reason tokenIds items →
      Cut reason (data.tokenIds ++ tokenIds) (item :: items)

namespace Backend

variable {b : Backend} {d : Decoder} {item : Annotated LLMEngineOutput} {data : LLMEngineOutput}

/-- A token-only delta goes through the decoder. -/
theorem turn_tokens (hdata : item.data = some data) (hevent : item.event = none)
    (htext : data.text = none) :
    b.turn d item =
      match d.processTokenIds b.tokenizer data.tokenIds with
      | (.error e, d) => (.error e, d)
      | (.ok result, d) =>
        (.ok (b.finishTurn { id := item.id, event := item.event, comment := item.comment }
            data result d).1,
          (b.finishTurn { id := item.id, event := item.event, comment := item.comment }
            data result d).2) := by
  unfold turn
  rw [hdata, hevent]
  dsimp only
  rw [htext]
  rfl

section finishTurn

variable {envelope : Annotated BackendOutput} {result : SeqResult}

theorem finishTurn_stopped {trigger : StopTrigger} (h : result.stopTrigger = some trigger) :
    (b.finishTurn envelope data result d).1.out.text = result.text.getD [] ∧
      (b.finishTurn envelope data result d).1.out.finishReason = some trigger.finishReason ∧
      (b.finishTurn envelope data result d).1.finished = true ∧
      (b.finishTurn envelope data result d).1.stopNow = true := by
  unfold finishTurn
  rw [h]
  exact ⟨rfl, rfl, rfl, rfl⟩

theorem finishTurn_finished {reason : FinishReason} (h : result.stopTrigger = none)
    (hreason : data.finishReason = some reason) :
    (b.finishTurn envelope data result d).1.out.text = result.text.getD [] ++ d.pending ∧
      (b.finishTurn envelope data result d).1.out.finishReason = some reason ∧
      (b.finishTurn envelope data result d).1.finished = true ∧
      (b.finishTurn envelope data result d).1.stopNow = false := by
  unfold finishTurn Decoder.flush
  rw [h, hreason]
  refine ⟨?_, rfl, rfl, rfl⟩
  by_cases hnil : d.pending = [] <;> simp [Annotated.text, toBackendOutput, hnil]

theorem finishTurn_running (h : result.stopTrigger = none) (hreason : data.finishReason = none) :
    (b.finishTurn envelope data result d).1.out.text = result.text.getD [] ∧
      (b.finishTurn envelope data result d).1.out.finishReason = none ∧
      (b.finishTurn envelope data result d).1.finished = false ∧
      (b.finishTurn envelope data result d).1.stopNow = false ∧
      (b.finishTurn envelope data result d).2 = d := by
  unfold finishTurn
  rw [h, hreason]
  exact ⟨rfl, rfl, rfl, rfl, rfl⟩

end finishTurn

/-! ### One turn with a token-only delta -/

section turns

variable {text : Bytes} (hdata : item.data = some data) (hevent : item.event = none)
  (hnotext : data.text = none)

include hdata hevent hnotext

theorem turn_thrown {e : Bytes}
    (hfeed : d.feed b.tokenizer data.tokenIds = (text, .thrown e)) :
    ∃ d', b.turn d item = (.error e, d') := by
  have hreturns := @Decoder.processTokenIds_feed b.tokenizer d data.tokenIds
  rw [hfeed] at hreturns
  rcases hprocess : d.processTokenIds b.tokenizer data.tokenIds with ⟨outcome, d'⟩
  rw [hprocess] at hreturns
  obtain rfl : outcome = .error e := hreturns
  exact ⟨d', by rw [turn_tokens hdata hevent hnotext, hprocess]⟩

theorem turn_stopped {trigger : StopTrigger}
    (hfeed : d.feed b.tokenizer data.tokenIds = (text, .stopped trigger)) :
    ∃ turn d', b.turn d item = (.ok turn, d') ∧ turn.out.text = text ∧
      turn.out.finishReason = some trigger.finishReason ∧ turn.finished = true ∧
      turn.stopNow = true := by
  have hreturns := @Decoder.processTokenIds_feed b.tokenizer d data.tokenIds
  rw [hfeed] at hreturns
  rcases hprocess : d.processTokenIds b.tokenizer data.tokenIds with ⟨outcome, d'⟩
  rw [hprocess] at hreturns
  obtain ⟨result, rfl, htrigger, htext⟩ := hreturns
  rw [turn_tokens hdata hevent hnotext, hprocess]
  have hfinish := @finishTurn_stopped b d' data
    { id := item.id, event := item.event, comment := item.comment } result trigger htrigger
  rw [htext] at hfinish
  exact ⟨_, _, rfl, hfinish⟩

theorem turn_finished {reason : FinishReason} {d' : Decoder}
    (hfeed : d.feed b.tokenizer data.tokenIds = (text, .running d'))
    (hreason : data.finishReason = some reason) :
    ∃ turn d'', b.turn d item = (.ok turn, d'') ∧ turn.out.text = text ++ d'.pending ∧
      turn.out.finishReason = some reason ∧ turn.finished = true ∧ turn.stopNow = false := by
  obtain ⟨result, hprocess, htrigger, htext⟩ := Decoder.processTokenIds_running hfeed
  rw [turn_tokens hdata hevent hnotext, hprocess]
  have hfinish := @finishTurn_finished b d' data
    { id := item.id, event := item.event, comment := item.comment } result reason htrigger hreason
  rw [htext] at hfinish
  exact ⟨_, _, rfl, hfinish⟩

theorem turn_running {d' : Decoder}
    (hfeed : d.feed b.tokenizer data.tokenIds = (text, .running d'))
    (hreason : data.finishReason = none) :
    ∃ turn, b.turn d item = (.ok turn, d') ∧ turn.out.text = text ∧
      turn.out.finishReason = none ∧ turn.finished = false ∧ turn.stopNow = false := by
  obtain ⟨result, hprocess, htrigger, htext⟩ := Decoder.processTokenIds_running hfeed
  rw [turn_tokens hdata hevent hnotext, hprocess]
  obtain ⟨htext', hreason', hfinished, hstop, hd⟩ := @finishTurn_running b d' data
    { id := item.id, event := item.event, comment := item.comment } result htrigger hreason
  rw [htext] at htext'
  exact ⟨_, Prod.ext rfl hd, htext', hreason', hfinished, hstop⟩

end turns

theorem tail_finished : (b.tail d true).report = (.ok [], none) := rfl

/-- The end of a stream without a finishing delta. -/
theorem tail_running : (b.tail d false).report = (.ok d.pending, none) := by
  unfold tail Decoder.flush
  by_cases hnil : d.pending = []
  · rw [hnil]
    rfl
  · simp [hnil, Emission.report, Emission.text, Emission.finishReason, Annotated.text,
      Annotated.finishReason, Annotated.fromData]

variable {items : List (Annotated LLMEngineOutput)}

/-- A turn that ends the stream, or goes on with the rest. -/
theorem decodeStream_ok {turn : Turn} {d' : Decoder}
    (h : b.turn d item = (.ok turn, d')) :
    let rest := if turn.stopNow then b.tail d' turn.finished
      else b.decodeStream d' turn.finished items
    (b.decodeStream d false (item :: items)).report =
      (rest.report.1.map (turn.out.text ++ ·), rest.report.2.or turn.out.finishReason) := by
  rw [decodeStream, h]
  exact Emission.report_cons _ _ _

theorem decodeStream_error {e : Bytes} {d' : Decoder}
    (h : b.turn d item = (.error e, d')) :
    (b.decodeStream d false (item :: items)).report = (.error e, none) := by
  rw [decodeStream, h]
  rfl

/-- The turn in which the decoder stops ends the stream. -/
theorem decodeStream_stopped {text : Bytes} {trigger : StopTrigger} (hdata : item.data = some data)
    (hevent : item.event = none) (hnotext : data.text = none)
    (hfeed : d.feed b.tokenizer data.tokenIds = (text, .stopped trigger)) :
    (b.decodeStream d false (item :: items)).report =
      (.ok text, some trigger.finishReason) := by
  obtain ⟨turn, d', hturn, htext, hfinish, hfinished, hstop⟩ :=
    turn_stopped hdata hevent hnotext hfeed
  rw [decodeStream_ok hturn, htext, hfinish, hfinished, hstop, if_pos rfl, tail_finished]
  simp [Except.map]

/-- However the tokens are cut into deltas, the stream reports how feeding them ends. -/
theorem decodeStream_report {reason : Option FinishReason} {tokenIds : List TokenIdType}
    (hcut : Cut reason tokenIds items) :
    ∀ d : Decoder, (b.decodeStream d false items).report =
      Ending.report reason (d.feed b.tokenizer tokenIds) := by
  induction hcut with
  | @last item data hdata hevent hnotext hreason =>
    intro d
    rcases hfeed : d.feed b.tokenizer data.tokenIds with ⟨text, e | trigger | d'⟩
    · obtain ⟨d', hturn⟩ := turn_thrown hdata hevent hnotext hfeed
      exact decodeStream_error hturn
    · exact decodeStream_stopped hdata hevent hnotext hfeed
    · subst hreason
      cases hreason : data.finishReason with
      | some reason =>
        -- the finishing delta releases the jailed text
        obtain ⟨turn, d'', hturn, htext, hfinish, hfinished, hstop⟩ :=
          turn_finished hdata hevent hnotext hfeed hreason
        rw [decodeStream_ok hturn, htext, hfinish, hfinished, hstop, if_neg Bool.false_ne_true,
          decodeStream, tail_finished]
        simp [Ending.report, Except.map]
      | none =>
        -- the end of the stream releases it
        obtain ⟨turn, hturn, htext, hfinish, hfinished, hstop⟩ :=
          turn_running hdata hevent hnotext hfeed hreason
        rw [decodeStream_ok hturn, htext, hfinish, hfinished, hstop, if_neg Bool.false_ne_true,
          decodeStream, tail_running]
        rfl
  | @cons item data tokenIds items hdata hevent hnotext hreason hcut ih =>
    intro d
    rw [Decoder.feed_append]
    rcases hfeed : d.feed b.tokenizer data.tokenIds with ⟨text, e | trigger | d'⟩
    · obtain ⟨d', hturn⟩ := turn_thrown hdata hevent hnotext hfeed
      exact decodeStream_error hturn
    · exact decodeStream_stopped hdata hevent hnotext hfeed
    · obtain ⟨turn, hturn, htext, hfinish, hfinished, hstop⟩ :=
        turn_running hdata hevent hnotext hfeed hreason
      rw [decodeStream_ok hturn, htext, hfinish, hfinished, hstop, if_neg Bool.false_ne_true, ih]
      dsimp only
      rcases d'.feed b.tokenizer tokenIds with ⟨text', e | trigger | d''⟩
      · rfl
      · rfl
      · simp [Ending.report, Except.map]

/-- **Deltas do not matter.**  All cuts of the same tokens end with the same finish reason,
    and throw the same exception, or none does and they emit the same text.  In that case,
    if the decoder does not stop, the text is what `append_token_id` returns for the
    tokens. -/
theorem generate_cut {stopConditions : StopConditions} {reason : Option FinishReason}
    {tokenIds : List TokenIdType} {items items' : List (Annotated LLMEngineOutput)}
    (hcut : Cut reason tokenIds items) (hcut' : Cut reason tokenIds items') :
    (b.generate stopConditions items).finishReason =
        (b.generate stopConditions items').finishReason ∧
      (b.generate stopConditions items).error = (b.generate stopConditions items').error ∧
      ((b.generate stopConditions items).error = none →
        (b.generate stopConditions items).text = (b.generate stopConditions items').text ∧
        (((Decoder.create stopConditions).feed b.tokenizer tokenIds).2.isStopped = false →
          ∃ texts : List Bytes,
            Sequence.appendAll b.tokenizer {} tokenIds = texts.map Except.ok ∧
              (b.generate stopConditions items).text = texts.flatten)) := by
  have hreport : (b.generate stopConditions items).report = _ :=
    decodeStream_report hcut (Decoder.create stopConditions)
  have hsame : (b.generate stopConditions items).report =
      (b.generate stopConditions items').report := by
    rw [hreport]
    exact (decodeStream_report hcut' (Decoder.create stopConditions)).symm
  obtain ⟨hsame, hfinish⟩ := Prod.ext_iff.mp hsame
  have herror := Emission.error_of_report hsame
  refine ⟨hfinish, herror, fun hok => ?_⟩
  have hreport := congrArg Prod.fst hreport
  rw [Emission.report_of_ok hok] at hreport hsame
  rw [Emission.report_of_ok (herror ▸ hok)] at hsame
  refine ⟨Except.ok.inj hsame, fun hrunning => ?_⟩
  rcases hfeed : (Decoder.create stopConditions).feed b.tokenizer tokenIds with
    ⟨text, e | trigger | d'⟩
  · rw [hfeed] at hreport
    cases hreport
  · rw [hfeed] at hrunning
    cases hrunning
  · rw [hfeed] at hreport
    obtain ⟨texts, hall, hkept⟩ := Decoder.feed_running tokenIds (fun _ => rfl) hfeed
    exact ⟨texts, hall, by rw [Except.ok.inj hreport, ← hkept]; rfl⟩

/-- A token-only delta. -/
def delta (tokenIds : List TokenIdType) (reason : Option FinishReason) :
    Annotated LLMEngineOutput :=
  .fromData { tokenIds := tokenIds, finishReason := reason }

theorem cut_delta (tokenIds : List TokenIdType) (reason : Option FinishReason) :
    Cut reason tokenIds [delta tokenIds reason] :=
  @Cut.last reason (delta tokenIds reason) { tokenIds := tokenIds, finishReason := reason }
    rfl rfl rfl rfl

theorem cut_delta_cons {reason : Option FinishReason} {tokenIds : List TokenIdType}
    (h : Cut reason tokenIds items) (first : List TokenIdType) :
    Cut reason (first ++ tokenIds) (delta first none :: items) :=
  @Cut.cons reason (delta first none) { tokenIds := first } _ _ rfl rfl rfl rfl h

def byteLevel : Backend := { tokenizer := byteLevelTokenizer, mdcsum := [] }

/-- `xab` with the stop sequence `bc`: the `b` is jailed in one cut by the second
    delta, in the other by the only one. -/
theorem generate_jailed_cut :
    (byteLevel.generate { stop := some [str "bc"] }
        [delta [0x78, 0x61] none, delta [0x62] none]).text =
      (byteLevel.generate { stop := some [str "bc"] } [delta [0x78, 0x61, 0x62] none]).text ∧
    ∃ texts : List Bytes,
      Sequence.appendAll byteLevelTokenizer {} [0x78, 0x61, 0x62] = texts.map Except.ok ∧
        (byteLevel.generate { stop := some [str "bc"] }
          [delta [0x78, 0x61] none, delta [0x62] none]).text = texts.flatten := by
  have hcut : Cut none [0x78, 0x61, 0x62] [delta [0x78, 0x61] none, delta [0x62] none] :=
    cut_delta_cons (cut_delta [0x62] none) [0x78, 0x61]
  have hwhole : Cut none [0x78, 0x61, 0x62] [delta [0x78, 0x61, 0x62] none] :=
    cut_delta _ none
  obtain ⟨_, _, hok⟩ := @generate_cut byteLevel { stop := some [str "bc"] } _ _ _ _ hcut hwhole
  obtain ⟨htext, hrunning⟩ := hok (by decide)
  exact ⟨htext, hrunning (by decide)⟩

/-- The tokenizer throws at the second token; the text of the first is emitted only
    if it came in a delta of its own. -/
theorem thrown_delta_text :
    Cut none [0x61, 300] [delta [0x61, 300] none] ∧
      Cut none [0x61, 300] [delta [0x61] none, delta [300] none] ∧
      (byteLevel.generate {} [delta [0x61, 300] none]).text = [] ∧
      (byteLevel.generate {} [delta [0x61] none, delta [300] none]).text = [0x61] := by
  refine ⟨cut_delta _ none, cut_delta_cons (cut_delta [300] none) [0x61], ?_, ?_⟩
  · decide
  · decide

end Backend

end DynamoCpp.Llm
