import DynamoCpp.Framework.KeyedFold
import DynamoCpp.Llm.Protocols.OpenAi

/-! # Delta aggregators

    `ChatDeltaAggregator` and `CompletionDeltaAggregator` of `llm/protocols/openai.cpp` fold
    a stream of chunks into one response.  A chunk carries deltas of several choices, and a
    map keeps a state for each choice index.  The role of a choice and its log probabilities
    are those of its first delta; contents are appended, and a finish reason replaces the
    one before.

    `choices_` is an unordered map, so `finalize` gets the order in which its entries are
    visited.
-/

open Framework

namespace DynamoCpp.Llm

def Annotated.isError {α : Type} (a : Annotated α) : Bool := a.event = some (str "error")

namespace OpenAi

def annotatedErrorMessage : Option (List Bytes) → Bytes
  | some (comment :: _) => comment
  | _ => str "unknown error"

/-! ## Chunks -/

/-- A response chunk and the deltas in it. -/
class Chunk (α : Type) (δ : outParam Type) where
  choices             : α → List δ
  withChoices         : α → List δ → α
  choices_withChoices : ∀ chunk ds, choices (withChoices chunk ds) = ds

instance : Chunk NvCreateChatCompletionStreamResponse ChatChoiceStream where
  choices             := fun chunk => chunk.choices
  withChoices         := fun chunk choices => { chunk with choices := choices }
  choices_withChoices := fun _ _ => rfl

instance : Chunk NvCreateCompletionResponse CompletionChoice where
  choices             := fun chunk => chunk.choices
  withChoices         := fun chunk choices => { chunk with choices := choices }
  choices_withChoices := fun _ _ => rfl

section chunks

variable {α δ : Type} [Chunk α δ]

/-- The deltas of an item. -/
def deltasOf (item : Annotated α) : List δ := (item.data.map Chunk.choices).getD []

/-- The deltas of a stream, in their order. -/
def deltas (items : List (Annotated α)) : List δ := items.flatMap deltasOf

/-- The deltas of one index. -/
abbrev deltasAt {κ : Type} [DecidableEq κ] (key : δ → κ) (items : List (Annotated α)) (k : κ) :
    List δ :=
  (deltas items).filter fun d => key d = k

/-- Some chunks of a stream are split, each into a chunk for every choice with the same
    metadata. -/
inductive Splits : List (Annotated α) → List (Annotated α) → Prop where
  | nil : Splits [] []
  | keep (item : Annotated α) {items items' : List (Annotated α)} :
      Splits items items' → Splits (item :: items) (item :: items')
  | split {item : Annotated α} {chunk : α} {items items' : List (Annotated α)} :
      item.data = some chunk → Splits items items' →
      Splits (item :: items)
        ((Chunk.choices chunk).map (fun choice =>
          { item with data := some (Chunk.withChoices chunk [choice]) }) ++ items')

theorem Splits.deltas_eq {items items' : List (Annotated α)} (h : Splits items items') :
    deltas items' = deltas items := by
  induction h with
  | nil => rfl
  | keep item _ ih =>
    rw [deltas, deltas, List.flatMap_cons, List.flatMap_cons]
    exact congrArg _ ih
  | split hdata _ ih =>
    rw [deltas, List.flatMap_append, List.flatMap_map]
    refine congr (congrArg _ ?_) ih
    simp [deltasOf, hdata, Chunk.choices_withChoices]

theorem Splits.isError_eq_false {items items' : List (Annotated α)} (h : Splits items items')
    (hitems : ∀ item ∈ items, item.isError = false) : ∀ item ∈ items', item.isError = false := by
  induction h with
  | nil => exact hitems
  | keep item _ ih =>
    obtain ⟨hitem, hrest⟩ := List.forall_mem_cons.mp hitems
    exact List.forall_mem_cons.mpr ⟨hitem, ih hrest⟩
  | split _ _ ih =>
    obtain ⟨hitem, hrest⟩ := List.forall_mem_cons.mp hitems
    intro part hpart
    rcases List.mem_append.mp hpart with hpart | hpart
    · obtain ⟨choice, _, rfl⟩ := List.mem_map.mp hpart
      exact hitem
    · exact ih hrest part hpart

end chunks

/-! ## What both aggregators collect -/

/-- The choices of an aggregator and its error. -/
structure Collected (κ σ : Type) [Ord κ] where
  choices : OrdMap κ σ
  error   : Option Bytes

namespace Collected

section

variable {α δ κ σ : Type} [Chunk α δ] [Ord κ] [Std.TransOrd κ]

/-- An item arrives: after an error no more deltas are taken. -/
def push (key : δ → κ) (fresh : δ → σ) (absorb : σ → δ → σ) (c : Collected κ σ)
    (item : Annotated α) : Collected κ σ :=
  if item.isError then { c with error := some (annotatedErrorMessage item.comment) }
  else if c.error.isSome then c
  else { c with choices := gather key fresh absorb c.choices (deltasOf item) }

variable {key : δ → κ} {fresh : δ → σ} {absorb : σ → δ → σ}

/-- Without errors the deltas of all items are gathered. -/
theorem foldl_push_of_no_error (items : List (Annotated α)) :
    ∀ m : OrdMap κ σ, (∀ item ∈ items, item.isError = false) →
      items.foldl (push key fresh absorb) ⟨m, none⟩ =
        ⟨gather key fresh absorb m (deltas items), none⟩ := by
  induction items with
  | nil => exact fun m _ => rfl
  | cons item items ih =>
    intro m h
    obtain ⟨hitem, hrest⟩ := List.forall_mem_cons.mp h
    rw [List.foldl_cons, deltas, List.flatMap_cons, gather_append, ← deltas, ← ih _ hrest]
    congr 1
    simp [push, hitem]

/-- An error stays. -/
theorem isSome_error_push (c : Collected κ σ) (item : Annotated α) :
    (c.push key fresh absorb item).error.isSome ↔ c.error.isSome ∨ item.isError = true := by
  unfold push
  split
  · next hitem => simp [hitem]
  · next hitem =>
    split
    · next herror => simp [herror]
    · next herror => simp [hitem]

theorem isSome_error_foldl_push (items : List (Annotated α)) : ∀ c : Collected κ σ,
    (items.foldl (push key fresh absorb) c).error.isSome ↔
      c.error.isSome ∨ ∃ item ∈ items, item.isError = true := by
  induction items with
  | nil => simp
  | cons item items ih =>
    intro c
    rw [List.foldl_cons, ih, isSome_error_push, List.exists_mem_cons_iff, or_assoc]

end

end Collected

/-! ## Chat -/

structure ChatResponseMessage where
  role    : Bytes := []
  content : Option Bytes := none

structure ChatChoice where
  index        : UInt32 := 0
  message      : ChatResponseMessage := {}
  finishReason : Option Bytes := none
  logprobs     : Json := .null

structure NvCreateChatCompletionResponse where
  id                : Bytes := []
  choices           : List ChatChoice := []
  created           : UInt64 := 0
  model             : Bytes := []
  object            : Bytes := str "chat.completion"
  usage             : Option CompletionUsage := none
  systemFingerprint : Option Bytes := none
  serviceTier       : Option Bytes := none

namespace ChatDeltaAggregator

structure DeltaChoice where
  index        : UInt32 := 0
  text         : Bytes := []
  role         : Option Bytes := none
  finishReason : Option Bytes := none
  logprobs     : Json := .null

/-- The entry that `try_emplace` has inserted. -/
def DeltaChoice.fresh (choice : ChatChoiceStream) : DeltaChoice where
  index    := choice.index
  role     := choice.delta.role
  logprobs := choice.logprobs

def DeltaChoice.absorb (state : DeltaChoice) (choice : ChatChoiceStream) : DeltaChoice :=
  { state with
    text         := state.text ++ choice.delta.content.getD []
    finishReason := choice.finishReason.elim state.finishReason some }

def DeltaChoice.toChoice (delta : DeltaChoice) (role : Bytes) : ChatChoice where
  index        := delta.index
  message      := { role := role, content := some delta.text }
  finishReason := delta.finishReason
  logprobs     := delta.logprobs

end ChatDeltaAggregator

open ChatDeltaAggregator in
structure ChatDeltaAggregator where
  id                : Bytes := []
  model             : Bytes := []
  created           : UInt64 := 0
  usage             : Option CompletionUsage := none
  systemFingerprint : Option Bytes := none
  serviceTier       : Option Bytes := none
  choices           : OrdMap UInt32 DeltaChoice := ∅
  error             : Option Bytes := none

namespace ChatDeltaAggregator

def push (a : ChatDeltaAggregator) (delta : Annotated NvCreateChatCompletionStreamResponse) :
    ChatDeltaAggregator :=
  if delta.isError then { a with error := some (annotatedErrorMessage delta.comment) }
  else if a.error.isSome then a
  else
    match delta.data with
    | none => a
    | some chunk =>
      { a with
        id                := chunk.id
        model             := chunk.model
        created           := chunk.created
        serviceTier       := chunk.serviceTier.or a.serviceTier
        usage             := chunk.usage.or a.usage
        systemFingerprint := chunk.systemFingerprint.or a.systemFingerprint
        choices           := gather (fun choice => choice.index) DeltaChoice.fresh
          DeltaChoice.absorb a.choices chunk.choices }

/-- The loop of `finalize`, which throws at the first entry without a role. -/
def finishAll : List (UInt32 × DeltaChoice) → Except Bytes (List ChatChoice)
  | [] => .ok []
  | (index, delta) :: entries =>
    match delta.role with
    | none =>
      .error (str "chat choice " ++ (Nat.toDigits 10 index.toNat).map (fun c => c.toUInt8) ++
        str " never received a role")
    | some role => (finishAll entries).map (delta.toChoice role :: ·)

def finalize (a : ChatDeltaAggregator) (order : a.choices.Order) :
    Except Bytes NvCreateChatCompletionResponse :=
  match a.error with
  | some error => .error error
  | none =>
    (finishAll order.entries).map fun choices =>
      { id                := a.id
        model             := a.model
        created           := a.created
        usage             := a.usage
        systemFingerprint := a.systemFingerprint
        serviceTier       := a.serviceTier
        choices           := sortOn (fun choice => choice.index) choices }

/-- A new aggregator gets a stream. -/
def collect (items : List (Annotated NvCreateChatCompletionStreamResponse)) :
    ChatDeltaAggregator :=
  items.foldl push {}

end ChatDeltaAggregator

/-! ## Completions -/

namespace CompletionDeltaAggregator

structure DeltaChoice where
  index        : UInt64 := 0
  text         : Bytes := []
  finishReason : Option FinishReason := none
  logprobs     : Json := .null

/-- The entry that `try_emplace` has inserted. -/
def DeltaChoice.fresh (choice : CompletionChoice) : DeltaChoice where
  index    := choice.index
  logprobs := choice.logprobs

/-- A reason that is not recognised counts as none. -/
def DeltaChoice.absorb (state : DeltaChoice) (choice : CompletionChoice) : DeltaChoice :=
  { state with
    text         := state.text ++ choice.text
    finishReason := choice.finishReason.elim state.finishReason fun reason =>
      (FinishReason.fromString reason).toOption }

def DeltaChoice.toChoice (delta : DeltaChoice) : CompletionChoice where
  text         := delta.text
  index        := delta.index
  finishReason := delta.finishReason.map FinishReason.toString
  logprobs     := delta.logprobs

end CompletionDeltaAggregator

open CompletionDeltaAggregator in
structure CompletionDeltaAggregator where
  id                : Bytes := []
  model             : Bytes := []
  created           : UInt64 := 0
  usage             : Option CompletionUsage := none
  systemFingerprint : Option Bytes := none
  choices           : OrdMap UInt64 DeltaChoice := ∅
  error             : Option Bytes := none

namespace CompletionDeltaAggregator

def push (a : CompletionDeltaAggregator) (delta : Annotated NvCreateCompletionResponse) :
    CompletionDeltaAggregator :=
  if delta.isError then { a with error := some (annotatedErrorMessage delta.comment) }
  else if a.error.isSome then a
  else
    match delta.data with
    | none => a
    | some chunk =>
      { a with
        id                := chunk.id
        model             := chunk.model
        created           := chunk.created
        usage             := chunk.usage.or a.usage
        systemFingerprint := chunk.systemFingerprint.or a.systemFingerprint
        choices           := gather (fun choice => choice.index) DeltaChoice.fresh
          DeltaChoice.absorb a.choices chunk.choices }

def finalize (a : CompletionDeltaAggregator) (order : a.choices.Order) :
    Except Bytes NvCreateCompletionResponse :=
  match a.error with
  | some error => .error error
  | none =>
    .ok
      { id                := a.id
        model             := a.model
        created           := a.created
        usage             := a.usage
        systemFingerprint := a.systemFingerprint
        choices           := sortOn (fun choice => choice.index)
          (order.entries.map fun entry => entry.2.toChoice) }

/-- A new aggregator gets a stream. -/
def collect (items : List (Annotated NvCreateCompletionResponse)) : CompletionDeltaAggregator :=
  items.foldl push {}

end CompletionDeltaAggregator

end OpenAi

end DynamoCpp.Llm
