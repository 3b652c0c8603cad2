import DynamoCpp.Llm.Protocols.Aggregators

/-! # Aggregation by choice

    The response that an aggregator makes of a stream has one choice for every index, and
    each choice is the fold of the deltas of its index.  So the choices do not depend on how
    the deltas of different indices are interleaved, nor on how they are put into chunks.

    A chat choice must have a role.  The aggregator looks for it in the first delta only, so
    `finalize` throws although a later delta may carry one.
-/

open Framework

namespace DynamoCpp.Llm.OpenAi

/-! ## Chat -/

namespace ChatDeltaAggregator

variable {items : List (Annotated NvCreateChatCompletionStreamResponse)}

def collected (a : ChatDeltaAggregator) : Collected UInt32 DeltaChoice := ⟨a.choices, a.error⟩

theorem collected_push (a : ChatDeltaAggregator)
    (item : Annotated NvCreateChatCompletionStreamResponse) :
    (a.push item).collected =
      a.collected.push (fun choice => choice.index) DeltaChoice.fresh DeltaChoice.absorb item := by
  unfold push Collected.push collected deltasOf
  split
  · rfl
  · dsimp only
    split
    · rfl
    · cases item.data with
      | none => rfl
      | some chunk => rfl

theorem collected_collect (items : List (Annotated NvCreateChatCompletionStreamResponse)) :
    (collect items).collected =
      items.foldl (Collected.push (fun choice => choice.index) DeltaChoice.fresh
        DeltaChoice.absorb) ⟨∅, none⟩ :=
  (List.foldl_hom collected fun a item => (collected_push a item).symm).symm

/-- Without errors every delta is gathered. -/
theorem collected_of_no_error (h : ∀ item ∈ items, item.isError = false) :
    (collect items).collected =
      ⟨gather (fun choice => choice.index) DeltaChoice.fresh DeltaChoice.absorb ∅ (deltas items),
        none⟩ :=
  (collected_collect items).trans (Collected.foldl_push_of_no_error items ∅ h)

theorem isSome_error_iff :
    (collect items).error.isSome ↔ ∃ item ∈ items, item.isError = true := by
  have herror := @Collected.isSome_error_foldl_push _ _ _ _ _ _ _
    (fun choice : ChatChoiceStream => choice.index) DeltaChoice.fresh DeltaChoice.absorb items
    ⟨∅, none⟩
  rw [← collected_collect] at herror
  exact herror.trans (or_iff_right Bool.false_ne_true)

theorem getElem?_choices (h : ∀ item ∈ items, item.isError = false) (k : UInt32) :
    (collect items).choices[k]? = keyFold DeltaChoice.fresh DeltaChoice.absorb
      (deltasAt (fun d => d.index) items k) := by
  have hchoices := congrArg Collected.choices (collected_of_no_error h)
  rw [← getElem?_gather_empty]
  exact congrArg (·[k]?) hchoices

/-- Only the text and the finish reason change. -/
theorem foldl_absorb (ds : List ChatChoiceStream) : ∀ state : DeltaChoice,
    ds.foldl DeltaChoice.absorb state =
      { state with
        text         := ds.foldl (fun text d => text ++ d.delta.content.getD []) state.text
        finishReason := ds.foldl (fun old d => d.finishReason.elim old some)
          state.finishReason } := by
  induction ds with
  | nil => exact fun state => rfl
  | cons d ds ih => exact fun state => ih (state.absorb d)

/-- What the deltas of one index leave behind. -/
def DeltaChoice.ofDeltas (ds : List ChatChoiceStream) (first : ChatChoiceStream) : DeltaChoice where
  index        := first.index
  text         := ds.flatMap fun d => d.delta.content.getD []
  role         := first.delta.role
  finishReason := (ds.filterMap fun d => d.finishReason).getLast?
  logprobs     := first.logprobs

theorem keyFold_eq (ds : List ChatChoiceStream) :
    keyFold DeltaChoice.fresh DeltaChoice.absorb ds = ds.head?.map (DeltaChoice.ofDeltas ds) := by
  cases ds with
  | nil => rfl
  | cons first ds =>
    rw [keyFold_cons, foldl_absorb, List.foldl_append_eq_append]
    simp only [DeltaChoice.fresh, DeltaChoice.ofDeltas, foldl_elim_none, Option.bind_fun_some,
      List.flatMap_def, List.nil_append, List.head?_cons, Option.map_some]

/-- Every index that occurs has an entry, and there are no others. -/
theorem getElem?_choices_eq_some_iff (h : ∀ item ∈ items, item.isError = false) {k : UInt32}
    {state : DeltaChoice} :
    (collect items).choices[k]? = some state ↔
      ∃ first ∈ (deltasAt (fun d => d.index) items k).head?,
        .ofDeltas (deltasAt (fun d => d.index) items k) first = state := by
  rw [getElem?_choices h, keyFold_eq, Option.map_eq_some_iff]
  rfl

theorem index_of_mem_head? {k : UInt32} {first : ChatChoiceStream}
    (hfirst : first ∈ (deltasAt (fun d : ChatChoiceStream => d.index) items k).head?) :
    first.index = k :=
  of_decide_eq_true (List.mem_filter.mp (List.mem_of_mem_head? hfirst)).2

/-! ### What `finalize` returns -/

/-- The choice of an entry that has a role. -/
def finish (entry : UInt32 × DeltaChoice) : ChatChoice := entry.2.toChoice (entry.2.role.getD [])

theorem finishAll_eq_ok (entries : List (UInt32 × DeltaChoice)) :
    (∀ entry ∈ entries, entry.2.role.isSome) → finishAll entries = .ok (entries.map finish) := by
  induction entries with
  | nil => exact fun _ => rfl
  | cons entry entries ih =>
    intro h
    obtain ⟨hentry, hrest⟩ := List.forall_mem_cons.mp h
    obtain ⟨role, hrole⟩ := Option.isSome_iff_exists.mp hentry
    simp [finishAll, hrole, ih hrest, finish, Except.map]

theorem finishAll_eq_error (entries : List (UInt32 × DeltaChoice)) :
    (∃ entry ∈ entries, entry.2.role = none) → ∃ e, finishAll entries = .error e := by
  induction entries with
  | nil => simp
  | cons entry entries ih =>
    intro h
    unfold finishAll
    cases hrole : entry.2.role with
    | none => exact ⟨_, rfl⟩
    | some role =>
      rcases (List.exists_mem_cons_iff _ _ _).mp h with hnone | hrest
      · rw [hrole] at hnone
        cases hnone
      · obtain ⟨e, he⟩ := ih hrest
        exact ⟨e, by rw [he]; rfl⟩

/-- The first delta of every index carries a role. -/
def RolesFirst (items : List (Annotated NvCreateChatCompletionStreamResponse)) : Prop :=
  ∀ k, ∀ first ∈ (deltasAt (fun d => d.index) items k).head?, first.delta.role.isSome

theorem finalize_eq_ok (h : ∀ item ∈ items, item.isError = false) (hroles : RolesFirst items)
    (order : (collect items).choices.Order) :
    ∃ response, (collect items).finalize order = .ok response ∧
      response.choices = sortOn (fun choice => choice.index) (order.entries.map finish) := by
  have hnone : (collect items).error = none :=
    congrArg Collected.error (collected_of_no_error h)
  have hfinish : finishAll order.entries = .ok (order.entries.map finish) := by
    refine finishAll_eq_ok order.entries ?_
    rintro ⟨k, state⟩ hentry
    obtain ⟨first, hfirst, rfl⟩ := (getElem?_choices_eq_some_iff h).mp (order.mem_iff.mp hentry)
    exact hroles k first hfirst
  unfold finalize
  rw [hfinish]
  split
  · next herror =>
    rw [hnone] at herror
    cases herror
  · exact ⟨_, rfl, rfl⟩

end ChatDeltaAggregator

/-- The choice is the fold of the deltas. -/
structure ChatChoice.Folds (ds : List ChatChoiceStream) (choice : ChatChoice) : Prop where
  content      : choice.message.content = some (ds.flatMap fun d => d.delta.content.getD [])
  finishReason : choice.finishReason = (ds.filterMap fun d => d.finishReason).getLast?
  role         : (ds.head?.bind fun d => d.delta.role) = some choice.message.role
  logprobs     : (ds.head?.map fun d => d.logprobs) = some choice.logprobs

theorem ChatChoice.Folds.unique {ds : List ChatChoiceStream} {c c' : ChatChoice}
    (hindex : c.index = c'.index) (h : c.Folds ds) (h' : c'.Folds ds) : c = c' := by
  obtain ⟨index, ⟨role, content⟩, finishReason, logprobs⟩ := c
  obtain ⟨index', ⟨role', content'⟩, finishReason', logprobs'⟩ := c'
  have hrole : role = role' := Option.some.inj (h.role.symm.trans h'.role)
  have hcontent : content = content' := h.content.trans h'.content.symm
  have hreason : finishReason = finishReason' := h.finishReason.trans h'.finishReason.symm
  have hlogprobs : logprobs = logprobs' := Option.some.inj (h.logprobs.symm.trans h'.logprobs)
  have hsame : index = index' := hindex
  rw [hrole, hcontent, hreason, hlogprobs, hsame]

namespace ChatDeltaAggregator

variable {items : List (Annotated NvCreateChatCompletionStreamResponse)}

theorem finish_folds {ds : List ChatChoiceStream} {first : ChatChoiceStream} {k : UInt32}
    (hfirst : first ∈ ds.head?) (hrole : first.delta.role.isSome) :
    (finish (k, .ofDeltas ds first)).Folds ds := by
  obtain ⟨role, hrole⟩ := Option.isSome_iff_exists.mp hrole
  have hhead : ds.head? = some first := hfirst
  refine ⟨rfl, rfl, ?_, ?_⟩
  · rw [hhead]
    simp [finish, DeltaChoice.toChoice, DeltaChoice.ofDeltas, hrole]
  · rw [hhead]
    rfl

theorem perKey_finish (h : ∀ item ∈ items, item.isError = false) (hroles : RolesFirst items)
    (order : (collect items).choices.Order) :
    PerKey (fun d : ChatChoiceStream => d.index) (fun choice => choice.index) ChatChoice.Folds
      (deltas items) (sortOn (fun choice => choice.index) (order.entries.map finish)) := by
  refine perKey_sortOn (getElem?_choices h) order ?_ ?_
  · intro k state hstate
    obtain ⟨first, hfirst, rfl⟩ := (getElem?_choices_eq_some_iff h).mp hstate
    exact index_of_mem_head? hfirst
  · intro k state hstate
    obtain ⟨first, hfirst, rfl⟩ := (getElem?_choices_eq_some_iff h).mp hstate
    exact finish_folds hfirst (hroles k first hfirst)

/-- Whatever the order in which the entries are visited, `finalize` returns the choices. -/
def Yields (items : List (Annotated NvCreateChatCompletionStreamResponse))
    (choices : List ChatChoice) : Prop :=
  ∀ order, ∃ response, (collect items).finalize order = .ok response ∧ response.choices = choices

/-- Some order. -/
def anyOrder (a : ChatDeltaAggregator) : a.choices.Order := ⟨a.choices.toList, .rfl⟩

/-- Streams that agree on every index. -/
theorem yields_of_deltasAt (h : ∀ item ∈ items, item.isError = false) (hroles : RolesFirst items)
    {items' : List (Annotated NvCreateChatCompletionStreamResponse)}
    (h' : ∀ item ∈ items', item.isError = false)
    (hsame : ∀ k : UInt32, deltasAt (fun d => d.index) items' k =
      deltasAt (fun d => d.index) items k) (order : (collect items).choices.Order) :
    Yields items' (sortOn (fun choice => choice.index) (order.entries.map finish)) := by
  intro order'
  have hroles' : RolesFirst items' := by
    intro k first hfirst
    rw [hsame] at hfirst
    exact hroles k first hfirst
  -- both results are the folds of the same deltas, index by index
  obtain ⟨response, hresponse, hchoices⟩ := finalize_eq_ok h' hroles' order'
  refine ⟨response, hresponse, hchoices.trans ?_⟩
  exact (perKey_finish h hroles order).eq_of_congr (perKey_finish h' hroles' order') hsame
    fun _ _ _ hindex hfolds hfolds' => hfolds.unique hindex hfolds'

end ChatDeltaAggregator

/-! ## Completions -/

/-- The choice is the fold of the deltas.  A reason that is not recognised counts as none. -/
structure CompletionChoice.Folds (ds : List CompletionChoice) (choice : CompletionChoice) :
    Prop where
  text         : choice.text = ds.flatMap fun d => d.text
  finishReason : choice.finishReason =
    (ds.filterMap fun d => d.finishReason).getLast?.bind fun reason =>
      (FinishReason.fromString reason).toOption.map FinishReason.toString
  logprobs     : (ds.head?.map fun d => d.logprobs) = some choice.logprobs

theorem CompletionChoice.Folds.unique {ds : List CompletionChoice} {c c' : CompletionChoice}
    (hindex : c.index = c'.index) (h : c.Folds ds) (h' : c'.Folds ds) : c = c' := by
  obtain ⟨text, index, finishReason, logprobs⟩ := c
  obtain ⟨text', index', finishReason', logprobs'⟩ := c'
  have htext : text = text' := h.text.trans h'.text.symm
  have hreason : finishReason = finishReason' := h.finishReason.trans h'.finishReason.symm
  have hlogprobs : logprobs = logprobs' := Option.some.inj (h.logprobs.symm.trans h'.logprobs)
  have hsame : index = index' := hindex
  rw [htext, hreason, hlogprobs, hsame]

namespace CompletionDeltaAggregator

variable {items : List (Annotated NvCreateCompletionResponse)}

def collected (a : CompletionDeltaAggregator) : Collected UInt64 DeltaChoice :=
  ⟨a.choices, a.error⟩

theorem collected_push (a : CompletionDeltaAggregator)
    (item : Annotated NvCreateCompletionResponse) :
    (a.push item).collected =
      a.collected.push (fun choice => choice.index) DeltaChoice.fresh DeltaChoice.absorb item := by
  unfold push Collected.push collected deltasOf
  split
  · rfl
  · dsimp only
    split
    · rfl
    · cases item.data with
      | none => rfl
      | some chunk => rfl

/-- Without errors every delta is gathered. -/
theorem collected_of_no_error (h : ∀ item ∈ items, item.isError = false) :
    (collect items).collected =
      ⟨gather (fun choice => choice.index) DeltaChoice.fresh DeltaChoice.absorb ∅ (deltas items),
        none⟩ := by
  have hcollect : (collect items).collected =
      items.foldl (Collected.push (fun choice => choice.index) DeltaChoice.fresh
        DeltaChoice.absorb) ⟨∅, none⟩ :=
    (List.foldl_hom collected fun a item => (collected_push a item).symm).symm
  exact hcollect.trans (Collected.foldl_push_of_no_error items ∅ h)

theorem getElem?_choices (h : ∀ item ∈ items, item.isError = false) (k : UInt64) :
    (collect items).choices[k]? = keyFold DeltaChoice.fresh DeltaChoice.absorb
      (deltasAt (fun d => d.index) items k) := by
  have hchoices := congrArg Collected.choices (collected_of_no_error h)
  rw [← getElem?_gather_empty]
  exact congrArg (·[k]?) hchoices

/-- Only the text and the finish reason change. -/
theorem foldl_absorb (ds : List CompletionChoice) : ∀ state : DeltaChoice,
    ds.foldl DeltaChoice.absorb state =
      { state with
        text         := ds.foldl (fun text d => text ++ d.text) state.text
        finishReason := ds.foldl (fun old d => d.finishReason.elim old fun reason =>
          (FinishReason.fromString reason).toOption) state.finishReason } := by
  induction ds with
  | nil => exact fun state => rfl
  | cons d ds ih => exact fun state => ih (state.absorb d)

/-- What the deltas of one index leave behind. -/
def DeltaChoice.ofDeltas (ds : List CompletionChoice) (first : CompletionChoice) : DeltaChoice where
  index        := first.index
  text         := ds.flatMap fun d => d.text
  finishReason := (ds.filterMap fun d => d.finishReason).getLast?.bind fun reason =>
    (FinishReason.fromString reason).toOption
  logprobs     := first.logprobs

theorem keyFold_eq (ds : List CompletionChoice) :
    keyFold DeltaChoice.fresh DeltaChoice.absorb ds = ds.head?.map (DeltaChoice.ofDeltas ds) := by
  cases ds with
  | nil => rfl
  | cons first ds =>
    rw [keyFold_cons, foldl_absorb, List.foldl_append_eq_append]
    simp only [DeltaChoice.fresh, DeltaChoice.ofDeltas, foldl_elim_none, List.flatMap_def,
      List.nil_append, List.head?_cons, Option.map_some]

/-- The choice of an entry. -/
def finish (entry : UInt64 × DeltaChoice) : CompletionChoice := entry.2.toChoice

theorem finish_folds {ds : List CompletionChoice} {first : CompletionChoice} {k : UInt64}
    (hfirst : first ∈ ds.head?) : (finish (k, .ofDeltas ds first)).Folds ds := by
  have hhead : ds.head? = some first := hfirst
  refine ⟨rfl, ?_, ?_⟩
  · exact Option.map_bind
  · rw [hhead]
    rfl

theorem finalize_eq_ok (h : ∀ item ∈ items, item.isError = false)
    (order : (collect items).choices.Order) :
    ∃ response, (collect items).finalize order = .ok response ∧
      response.choices = sortOn (fun choice => choice.index) (order.entries.map finish) := by
  have hnone : (collect items).error = none :=
    congrArg Collected.error (collected_of_no_error h)
  unfold finalize
  split
  · next herror =>
    rw [hnone] at herror
    cases herror
  · exact ⟨_, rfl, rfl⟩

theorem perKey_finish (h : ∀ item ∈ items, item.isError = false)
    (order : (collect items).choices.Order) :
    PerKey (fun d : CompletionChoice => d.index) (fun choice => choice.index)
      CompletionChoice.Folds (deltas items)
      (sortOn (fun choice => choice.index) (order.entries.map finish)) := by
  have hstate : ∀ k state, (collect items).choices[k]? = some state →
      ∃ first ∈ (deltasAt (fun d => d.index) items k).head?,
        .ofDeltas (deltasAt (fun d => d.index) items k) first = state := by
    intro k state hget
    rwa [getElem?_choices h, keyFold_eq, Option.map_eq_some_iff] at hget
  refine perKey_sortOn (getElem?_choices h) order ?_ ?_
  · intro k state hget
    obtain ⟨first, hfirst, rfl⟩ := hstate k state hget
    exact of_decide_eq_true (List.mem_filter.mp (List.mem_of_mem_head? hfirst)).2
  · intro k state hget
    obtain ⟨first, hfirst, rfl⟩ := hstate k state hget
    exact finish_folds hfirst

/-- Whatever the order in which the entries are visited, `finalize` returns the choices. -/
def Yields (items : List (Annotated NvCreateCompletionResponse))
    (choices : List CompletionChoice) : Prop :=
  ∀ order, ∃ response, (collect items).finalize order = .ok response ∧ response.choices = choices

/-- Some order. -/
def anyOrder (a : CompletionDeltaAggregator) : a.choices.Order := ⟨a.choices.toList, .rfl⟩

/-- Streams that agree on every index. -/
theorem yields_of_deltasAt (h : ∀ item ∈ items, item.isError = false)
    {items' : List (Annotated NvCreateCompletionResponse)}
    (h' : ∀ item ∈ items', item.isError = false)
    (hsame : ∀ k : UInt64, deltasAt (fun d => d.index) items' k =
      deltasAt (fun d => d.index) items k) (order : (collect items).choices.Order) :
    Yields items' (sortOn (fun choice => choice.index) (order.entries.map finish)) := by
  intro order'
  obtain ⟨response, hresponse, hchoices⟩ := finalize_eq_ok h' order'
  refine ⟨response, hresponse, hchoices.trans ?_⟩
  exact (perKey_finish h order).eq_of_congr (perKey_finish h' order') hsame
    fun _ _ _ hindex hfolds hfolds' => hfolds.unique hindex hfolds'

end CompletionDeltaAggregator

/-! ## Main result: a fold by index -/

/-- Two streams without errors that agree on every index: one is a reordering of the other that
    keeps the order of every index, or has the same deltas in other chunks. -/
structure Rearranges {α δ κ : Type} [Chunk α δ] [DecidableEq κ] (key : δ → κ)
    (items items' : List (Annotated α)) : Prop where
  noError : ∀ item ∈ items', item.isError = false
  same    : ∀ k, deltasAt key items' k = deltasAt key items k

theorem Splits.rearranges {α δ κ : Type} [Chunk α δ] [DecidableEq κ] {key : δ → κ}
    {items items' : List (Annotated α)} (h : Splits items items')
    (hitems : ∀ item ∈ items, item.isError = false) : Rearranges key items items' where
  noError := h.isError_eq_false hitems
  same    := fun k => by rw [deltasAt, h.deltas_eq]

/-- **Aggregation is a fold by index.**  Of a stream of chat chunks without errors in which the
    first delta of every index has a role, `finalize` returns one choice for every index, in
    increasing order, each the fold of the deltas of its index; and it returns the same
    choices for every rearrangement and every splitting.  So it does for completions. -/
theorem aggregation_folds_by_index
    {chat : List (Annotated NvCreateChatCompletionStreamResponse)}
    {completion : List (Annotated NvCreateCompletionResponse)}
    (hchat : ∀ item ∈ chat, item.isError = false)
    (hroles : ChatDeltaAggregator.RolesFirst chat)
    (hcompletion : ∀ item ∈ completion, item.isError = false) :
    (∃ choices, ChatDeltaAggregator.Yields chat choices ∧
        PerKey (fun d : ChatChoiceStream => d.index) (fun choice => choice.index)
          ChatChoice.Folds (deltas chat) choices ∧
        (∀ chat', Rearranges (fun d : ChatChoiceStream => d.index) chat chat' →
          ChatDeltaAggregator.Yields chat' choices) ∧
        ∀ chat', Splits chat chat' → ChatDeltaAggregator.Yields chat' choices) ∧
      ∃ choices, CompletionDeltaAggregator.Yields completion choices ∧
        PerKey (fun d : CompletionChoice => d.index) (fun choice => choice.index)
          CompletionChoice.Folds (deltas completion) choices ∧
        (∀ completion', Rearranges (fun d : CompletionChoice => d.index) completion completion' →
          CompletionDeltaAggregator.Yields completion' choices) ∧
        ∀ completion', Splits completion completion' →
          CompletionDeltaAggregator.Yields completion' choices := by
  constructor
  · have hyields : ∀ chat', Rearranges (fun d : ChatChoiceStream => d.index) chat chat' →
        ChatDeltaAggregator.Yields chat' _ := fun chat' hchat' =>
      ChatDeltaAggregator.yields_of_deltasAt hchat hroles hchat'.noError hchat'.same
        (ChatDeltaAggregator.collect chat).anyOrder
    exact ⟨_, hyields chat ⟨hchat, fun _ => rfl⟩,
      ChatDeltaAggregator.perKey_finish hchat hroles _, hyields,
      fun chat' hsplits => hyields chat' (hsplits.rearranges hchat)⟩
  · have hyields : ∀ completion',
        Rearranges (fun d : CompletionChoice => d.index) completion completion' →
        CompletionDeltaAggregator.Yields completion' _ := fun completion' hcompletion' =>
      CompletionDeltaAggregator.yields_of_deltasAt hcompletion hcompletion'.noError
        hcompletion'.same (CompletionDeltaAggregator.collect completion).anyOrder
    exact ⟨_, hyields completion ⟨hcompletion, fun _ => rfl⟩,
      CompletionDeltaAggregator.perKey_finish hcompletion _, hyields,
      fun completion' hsplits => hyields completion' (hsplits.rearranges hcompletion)⟩

/-- Chunks of two choices in turn. -/
def twoChats : List (Annotated NvCreateChatCompletionStreamResponse) :=
  [{ index := 1, delta := { role := some (str "assistant"), content := some (str "b") } },
    { index := 0, delta := { role := some (str "assistant"), content := some (str "a") } },
    { index := 1, delta := { content := some (str "c") } }].map
      fun choice => .fromData { choices := [choice] }

def twoCompletions : List (Annotated NvCreateCompletionResponse) :=
  [{ index := 1, text := str "b" }, { text := str "a" }, { index := 1, text := str "c" }].map
    fun choice => .fromData { choices := [choice] }

theorem rolesFirst_twoChats : ChatDeltaAggregator.RolesFirst twoChats := by
  intro k first hfirst
  simp only [twoChats, deltasAt, deltas, deltasOf, Annotated.fromData, Chunk.choices, List.map_cons,
    List.map_nil, List.flatMap_cons, List.flatMap_nil, Option.map_some, Option.getD_some,
    List.append_nil, List.cons_append, List.nil_append, List.filter_cons, List.filter_nil] at hfirst
  by_cases hone : (1 : UInt32) = k <;> by_cases hzero : (0 : UInt32) = k <;>
    simp [hone, hzero] at hfirst <;> simp [← hfirst]

theorem twoChoices_aggregated :
    (∃ choices, ChatDeltaAggregator.Yields twoChats choices ∧
      ∃ choice ∈ choices, choice.index = 1 ∧ choice.message.content = some (str "bc")) ∧
    ∃ choices, CompletionDeltaAggregator.Yields twoCompletions choices ∧
      ∃ choice ∈ choices, choice.index = 1 ∧ choice.text = str "bc" := by
  obtain ⟨⟨chats, hchats, hchat, _⟩, completions, hcompletions, hcompletion, _⟩ :=
    @aggregation_folds_by_index twoChats twoCompletions (by decide) rolesFirst_twoChats (by decide)
  obtain ⟨chat, hmem, hindex⟩ := (hchat.occurs 1).mpr ⟨_, List.mem_cons_self, rfl⟩
  obtain ⟨completion, hmem', hindex'⟩ := (hcompletion.occurs 1).mpr ⟨_, List.mem_cons_self, rfl⟩
  refine ⟨⟨chats, hchats, chat, hmem, hindex, ?_⟩, completions, hcompletions, completion, hmem',
    hindex', ?_⟩
  · rw [(hchat.folds chat hmem).content, hindex]
    rfl
  · rw [(hcompletion.folds completion hmem').text, hindex']
    rfl

/-! ## Main result: failures -/

namespace ChatDeltaAggregator

variable {items : List (Annotated NvCreateChatCompletionStreamResponse)}

theorem isError_eq_false_of_not_exists {α : Type} {items : List (Annotated α)}
    (h : ¬ ∃ item ∈ items, item.isError = true) : ∀ item ∈ items, item.isError = false := by
  intro item hitem
  exact Bool.eq_false_iff.mpr fun htrue => h ⟨item, hitem, htrue⟩

/-- `finalize` throws for an error, or for an index whose first delta has no role. -/
theorem throws_iff (order : (collect items).choices.Order) :
    (∃ e, (collect items).finalize order = .error e) ↔
      (∃ item ∈ items, item.isError = true) ∨ ¬ RolesFirst items := by
  by_cases herror : ∃ item ∈ items, item.isError = true
  · -- the error is thrown before any choice is looked at
    refine iff_of_true ?_ (.inl herror)
    obtain ⟨e, he⟩ := Option.isSome_iff_exists.mp (isSome_error_iff.mpr herror)
    refine ⟨e, ?_⟩
    unfold finalize
    split
    · next e' he' => rw [← Option.some.inj (he.symm.trans he')]
    · next hnone =>
      rw [he] at hnone
      cases hnone
  · have hitems := isError_eq_false_of_not_exists herror
    rw [or_iff_right herror]
    constructor
    · rintro ⟨e, he⟩ hroles
      obtain ⟨response, hresponse, _⟩ := finalize_eq_ok hitems hroles order
      rw [hresponse] at he
      cases he
    · intro hroles
      simp only [RolesFirst, not_forall] at hroles
      obtain ⟨k, first, hfirst, hnone⟩ := hroles
      -- every order visits the entry of that index
      have hget := (getElem?_choices_eq_some_iff hitems).mpr ⟨first, hfirst, rfl⟩
      obtain ⟨e, he⟩ := finishAll_eq_error order.entries
        ⟨(k, _), order.mem_iff.mpr hget, Option.not_isSome_iff_eq_none.mp hnone⟩
      unfold finalize
      split
      · exact ⟨_, rfl⟩
      · exact ⟨e, by rw [he]; rfl⟩

/-- The index occurs, and none of its deltas has a role. -/
def NoRole (items : List (Annotated NvCreateChatCompletionStreamResponse)) (k : UInt32) : Prop :=
  deltasAt (fun d => d.index) items k ≠ [] ∧
    ∀ d ∈ deltasAt (fun d => d.index) items k, d.delta.role = none

theorem NoRole.not_rolesFirst {k : UInt32} (h : NoRole items k) : ¬ RolesFirst items := by
  intro hroles
  obtain ⟨first, ds, hcons⟩ := List.exists_cons_of_ne_nil h.1
  have hfirst : first ∈ (deltasAt (fun d => d.index) items k).head? := by
    rw [hcons]
    rfl
  have hsome := hroles k first hfirst
  rw [h.2 first (List.mem_of_mem_head? hfirst)] at hsome
  cases hsome

theorem head?_filterMap_of_bind {α β : Type} {given : α → Option β} {ds : List α} {b : β}
    (h : ds.head?.bind given = some b) : (ds.filterMap given).head? = some b := by
  cases ds with
  | nil => cases h
  | cons d ds =>
    have hgiven : given d = some b := h
    rw [List.filterMap_cons, hgiven]
    rfl

/-- **Failures of chat aggregation.**  `finalize` throws exactly for an error and for an index
    without any role, and returns the first role of every choice otherwise, exactly if there
    is an error, or an index without any role, or the first delta of every index has one. -/
theorem failures_documented_iff (items : List (Annotated NvCreateChatCompletionStreamResponse))
    (order : (collect items).choices.Order) :
    (((∃ e, (collect items).finalize order = .error e) ↔
          (∃ item ∈ items, item.isError = true) ∨ ∃ k, NoRole items k) ∧
        ∀ response, (collect items).finalize order = .ok response →
          ∀ choice ∈ response.choices,
            ((deltasAt (fun d => d.index) items choice.index).filterMap
              fun d => d.delta.role).head? = some choice.message.role) ↔
      (∃ item ∈ items, item.isError = true) ∨ (∃ k, NoRole items k) ∨ RolesFirst items := by
  rw [throws_iff]
  constructor
  · rintro ⟨hthrows, _⟩
    by_cases hroles : RolesFirst items
    · exact .inr (.inr hroles)
    · -- then it throws, so one of the documented reasons is there
      exact (hthrows.mp (.inr hroles)).imp_right .inl
  · intro hcases
    refine ⟨?_, fun response hresponse choice hchoice => ?_⟩
    · constructor
      · rintro (herror | hroles)
        · exact .inl herror
        · exact hcases.imp_right fun h => h.resolve_right hroles
      · rintro (herror | ⟨k, hk⟩)
        · exact .inl herror
        · exact .inr hk.not_rolesFirst
    · -- the stream has no error, and all roles are in first deltas
      have hok : ¬ ((∃ item ∈ items, item.isError = true) ∨ ¬ RolesFirst items) := by
        rw [← throws_iff order]
        rintro ⟨e, he⟩
        rw [hresponse] at he
        cases he
      have hitems := isError_eq_false_of_not_exists fun herror => hok (.inl herror)
      have hroles : RolesFirst items := not_not.mp fun h => hok (.inr h)
      obtain ⟨response', hresponse', hchoices⟩ := finalize_eq_ok hitems hroles order
      cases hresponse.symm.trans hresponse'
      rw [hchoices] at hchoice
      exact head?_filterMap_of_bind ((perKey_finish hitems hroles order).folds choice hchoice).role

/-- The role comes with the second delta. -/
def lateRole : List (Annotated NvCreateChatCompletionStreamResponse) :=
  [.fromData { choices := [{ delta := { content := some (str "a") } }] },
    .fromData { choices := [{ delta := { role := some (str "assistant") } }] }]

/-- The aggregator does not see it. -/
theorem lateRole_rejected :
    (collect lateRole).finalize (collect lateRole).anyOrder =
        .error (str "chat choice 0 never received a role") ∧
      (lateRole.all fun item => !item.isError) = true ∧
      ((deltasAt (fun d => d.index) lateRole (0 : UInt32)).filterMap fun d => d.delta.role) =
        [str "assistant"] :=
  ⟨rfl, rfl, rfl⟩

end ChatDeltaAggregator

end DynamoCpp.Llm.OpenAi
