import DynamoCpp.Runtime.Cancellation

/-! # Cancellation follows the token tree

    A token that is alive and not cancelled is linked to its parent: the parent is alive
    as well, and the callback of the link is registered on it or, if the parent is
    cancelled, about to run.  When no call of `cancel` is left, a token that is not
    cancelled therefore has no cancelled ancestor.
-/

namespace DynamoCpp.Runtime

open Framework

/-- `a` is the token `t` or one of its ancestors. -/
def Ancestor (parent : Nat → Option Nat) (t a : Nat) : Prop :=
  Relation.ReflTransGen (fun t p => parent t = some p) t a

namespace Tokens

/-- The token is about to be cancelled by the callback of its link. -/
def Queued (m : Multiset Todo) (c : Nat) : Prop := .run (.child c) ∈ m ∨ .enter c ∈ m

theorem queued_cons {m : Multiset Todo} {a : Todo} {c : Nat} :
    Queued (a ::ₘ m) c ↔ (a = .run (.child c) ∨ a = .enter c) ∨ Queued m c := by
  simp only [Queued, Multiset.mem_cons, eq_comm]
  tauto

theorem queued_add {m m' : Multiset Todo} {c : Nat} :
    Queued (m + m') c ↔ Queued m c ∨ Queued m' c := by
  simp only [Queued, Multiset.mem_add]
  tauto

@[simp] theorem not_queued_zero {c : Nat} : ¬ Queued 0 c := by simp [Queued]

/-- The tree of tokens and how far its cancellations have come. -/
structure Tree (w : Tokens) : Prop where
  bounded : ∀ t p, w.parent t = some p → t < w.count ∧ p < w.count
  held    : ∀ t, w.handles t ≠ 0 → w.alive t = true
  made    : ∀ t, w.alive t = true → t < w.count
  unused  : ∀ t, w.count ≤ t → w.cancelled t = false ∧ w.callbacks t = []
  called  : ∀ t, w.called t = true → w.cancelled t = true
  sound   : ∀ t, w.cancelled t = true → ∃ a, Ancestor w.parent t a ∧ w.called a = true
  emptied : ∀ t, w.cancelled t = true → w.callbacks t = []
  listed  : ∀ t c, .child c ∈ w.callbacks t → w.parent c = some t
  pending : ∀ c, Queued w.pending c → ∃ p, w.parent c = some p ∧ w.cancelled p = true
  linked  : ∀ c p, w.alive c = true → w.cancelled c = false → w.parent c = some p →
    w.parentLink c = some p ∧ w.alive p = true ∧
      (w.cancelled p = false → .child c ∈ w.callbacks p) ∧
      (w.cancelled p = true → Queued w.pending c)

theorem tree_init : Tree {} where
  bounded := fun _ _ h => by cases h
  held := fun _ h => absurd rfl h
  made := fun _ h => by cases h
  unused := fun _ _ => ⟨rfl, rfl⟩
  called := fun _ h => by cases h
  sound := fun _ h => by cases h
  emptied := fun _ _ => rfl
  listed := fun _ _ h => by cases h
  pending := fun _ h => absurd h not_queued_zero
  linked := fun _ _ h => by cases h

variable {w : Tokens} {t : Nat}

theorem cancelState_of_cancelled (ht : w.cancelled t = true) : w.cancelState t = w := if_pos ht

theorem cancelState_of_not (ht : w.cancelled t = false) :
    w.cancelState t =
      { w with
        cancelled := Function.update w.cancelled t true
        callbacks := Function.update w.callbacks t [] } := by
  rw [cancelState, ht]
  rfl

theorem toRun_of_cancelled (ht : w.cancelled t = true) : w.toRun t = [] := if_pos ht

theorem queued_toRun {c : Nat} (ht : w.cancelled t = false) :
    Queued (w.toRun t) c ↔ .child c ∈ w.callbacks t := by
  simp [toRun, ht, Queued]

/-- A child of a cancelled token is cancelled at once. -/
theorem childToken_of_cancelled (ht : w.cancelled t = true)
    (hopen : w.cancelled w.count = false) (hnone : w.callbacks w.count = []) :
    w.childToken t =
      { w with
        count := w.count + 1
        alive := Function.update w.alive w.count true
        handles := Function.update w.handles w.count 1
        parent := Function.update w.parent w.count (some t)
        cancelled := Function.update w.cancelled w.count true } := by
  have hcallbacks : Function.update w.callbacks w.count [] = w.callbacks := by
    rw [← hnone, Function.update_eq_self]
  unfold childToken
  rw [if_pos (show w.newToken.cancelled t = true from ht)]
  rw [cancelState_of_not (by exact hopen)]
  simp only [newToken, hcallbacks]

theorem childToken_of_not (ht : w.cancelled t = false) :
    w.childToken t =
      { w with
        count := w.count + 1
        alive := Function.update w.alive w.count true
        handles := Function.update w.handles w.count 1
        parent := Function.update w.parent w.count (some t)
        callbacks := Function.update w.callbacks t (w.callbacks t ++ [.child w.count])
        parentLink := Function.update w.parentLink w.count (some t) } := by
  unfold childToken
  rw [if_neg]
  · rfl
  · rw [Bool.not_eq_true]
    exact ht

/-- A flag that is set stays set when another one is. -/
theorem update_true {f : Nat → Bool} (t : Nat) {a : Nat} (ha : f a = true) :
    Function.update f t true a = true := by
  rw [Function.update_apply]
  split
  · rfl
  · exact ha

namespace Tree

variable {w : Tokens} (h : Tree w)
include h

variable {called : Nat → Bool} {running : List (List Todo)} {t c p : Nat}

/-- Steps that leave the states of the tokens and their links alone. -/
theorem rewire {w' : Tokens} (hcount : w'.count = w.count) (hparent : w'.parent = w.parent)
    (hlink : w'.parentLink = w.parentLink) (halive : w'.alive = w.alive)
    (hcancelled : w'.cancelled = w.cancelled)
    (hheld : ∀ t, w'.handles t ≠ 0 → w.alive t = true)
    (hcalled : ∀ a, w'.called a = true → w.cancelled a = true)
    (hkept : ∀ a, w.called a = true → w'.called a = true)
    (hempty : ∀ t, w.callbacks t = [] → w.cancelled t = true ∨ w.count ≤ t → w'.callbacks t = [])
    (hchild : ∀ t c, .child c ∈ w'.callbacks t ↔ .child c ∈ w.callbacks t)
    (hfrom : ∀ c, Queued w'.pending c → Queued w.pending c)
    (hstay : ∀ c, w.alive c = true → w.cancelled c = false → Queued w.pending c →
      Queued w'.pending c) : Tree w' := by
  refine ⟨?_, ?_, ?_, fun t ht => ?_, ?_, fun a ha => ?_, fun t ht => ?_, fun t c hc => ?_,
    fun c hc => ?_, fun c p => ?_⟩
  · rw [hcount, hparent]
    exact h.bounded
  · rw [halive]
    exact hheld
  · rw [hcount, halive]
    exact h.made
  · rw [hcount] at ht
    rw [hcancelled]
    exact ⟨(h.unused t ht).1, hempty t (h.unused t ht).2 (.inr ht)⟩
  · rw [hcancelled]
    exact hcalled
  · rw [hcancelled] at ha
    obtain ⟨b, hancestor, hb⟩ := h.sound a ha
    rw [hparent]
    exact ⟨b, hancestor, hkept b hb⟩
  · rw [hcancelled] at ht
    exact hempty t (h.emptied t ht) (.inl ht)
  · rw [hparent]
    exact h.listed t c ((hchild t c).mp hc)
  · rw [hparent, hcancelled]
    exact h.pending c (hfrom c hc)
  · rw [hlink, halive, hcancelled, hparent, hchild]
    intro halive hc hp
    obtain ⟨hlink, hparent, hwaits, hruns⟩ := h.linked c p halive hc hp
    exact ⟨hlink, hparent, hwaits, fun hp' => hstay c halive hc (hruns hp')⟩

section cancelling

variable (ht : t < w.count)
  (hcalled : ∀ a, called a = true → w.called a = true ∨ a = t)
  (hkept : ∀ a, w.called a = true → called a = true)
  (hcause : ∃ a, Ancestor w.parent t a ∧ called a = true)
  (hfrom : ∀ c, Queued (running.flatten : List Todo) c →
    Queued w.pending c ∨ Queued (w.toRun t) c)
  (hstay : ∀ c, c ≠ t → Queued w.pending c ∨ Queued (w.toRun t) c →
    Queued (running.flatten : List Todo) c)
include ht hcalled hkept hcause hfrom hstay

/-- A token that was not cancelled is cancelled by a call on it, or because an ancestor
    is.  The links to it are about to run, all others stay. -/
theorem cancelOpen (hopen : w.cancelled t = false) :
    Tree
      { w with
        called := called
        cancelled := Function.update w.cancelled t true
        callbacks := Function.update w.callbacks t []
        running := running } where
  bounded := h.bounded
  held := h.held
  made := h.made
  unused := fun a ha => by
    have hne : a ≠ t := by
      have ha : w.count ≤ a := ha
      omega
    simp only [Function.update_of_ne hne]
    exact h.unused a ha
  called := fun a ha => by
    rcases hcalled a ha with ha | rfl
    · exact update_true t (h.called a ha)
    · exact Function.update_self ..
  sound := fun a ha => by
    by_cases hne : a = t
    · exact hne ▸ hcause
    · simp only [Function.update_of_ne hne] at ha
      obtain ⟨b, hancestor, hb⟩ := h.sound a ha
      exact ⟨b, hancestor, hkept b hb⟩
  emptied := fun a ha => by
    by_cases hne : a = t
    · rw [hne]
      exact Function.update_self t [] w.callbacks
    · simp only [Function.update_of_ne hne] at ha ⊢
      exact h.emptied a ha
  listed := fun a c hc => by
    by_cases hne : a = t
    · simp [hne] at hc
    · simp only [Function.update_of_ne hne] at hc
      exact h.listed a c hc
  pending := fun c hc => by
    -- what is about to run was registered on a cancelled token
    rcases hfrom c hc with hc | hc
    · obtain ⟨p, hp, hcancelled⟩ := h.pending c hc
      exact ⟨p, hp, update_true t hcancelled⟩
    · have hc := (queued_toRun hopen).mp hc
      exact ⟨t, h.listed t c hc, Function.update_self t true w.cancelled⟩
  linked := fun c p halive hc hp => by
    have hne : c ≠ t := by
      rintro rfl
      simp at hc
    simp only [Function.update_of_ne hne] at hc
    obtain ⟨hlink, hparent, hwaits, hruns⟩ := h.linked c p halive hc hp
    refine ⟨hlink, hparent, ?_⟩
    by_cases hpt : p = t
    · subst hpt
      simp only [Function.update_self]
      refine ⟨fun hfalse => ?_, fun _ => hstay c hne (.inr ?_)⟩
      · cases hfalse
      · exact (queued_toRun hopen).mpr (hwaits hopen)
    · simp only [Function.update_of_ne hpt]
      exact ⟨hwaits, fun hp' => hstay c hne (.inl (hruns hp'))⟩

theorem cancelState :
    Tree { Tokens.cancelState { w with called := called } t with running := running } := by
  cases hcancelled : w.cancelled t with
  | true =>
    have heq : Tokens.cancelState { w with called := called } t = { w with called := called } :=
      cancelState_of_cancelled hcancelled
    rw [heq]
    rw [toRun_of_cancelled hcancelled] at hfrom hstay
    refine h.rewire rfl rfl rfl rfl rfl h.held (fun a ha => ?_) hkept (fun _ hnone _ => hnone)
      (fun _ _ => Iff.rfl) (fun c hc => (hfrom c hc).resolve_right not_queued_zero)
      (fun c _ hopen hc => hstay c ?_ (.inl hc))
    · rcases hcalled a ha with ha | rfl
      · exact h.called a ha
      · exact hcancelled
    · rintro rfl
      rw [hcancelled] at hopen
      cases hopen
  | false =>
    have heq : Tokens.cancelState { w with called := called } t =
        { w with
          called := called
          cancelled := Function.update w.cancelled t true
          callbacks := Function.update w.callbacks t [] } := cancelState_of_not hcancelled
    rw [heq]
    exact h.cancelOpen ht hcalled hkept hcause hfrom hstay hcancelled

end cancelling

theorem cancel (ht : w.handles t ≠ 0) : Tree (w.cancel t) := by
  have hpending : ∀ c,
      Queued ((w.running ++ [w.toRun t ++ [Todo.leave t]]).flatten : List Todo) c ↔
        Queued w.pending c ∨ Queued (w.toRun t) c := by
    intro c
    rw [List.flatten_append, List.flatten_singleton, ← Multiset.coe_add, ← Multiset.coe_add,
      queued_add, queued_add]
    simp [Tokens.pending, Queued]
  refine h.cancelState (h.made t (h.held t ht)) (fun a ha => ?_) (fun a ha => ?_)
    ⟨t, .refl, Function.update_self t true w.called⟩ (fun c => (hpending c).mp)
    (fun c _ => (hpending c).mpr)
  · rw [Function.update_apply] at ha
    split at ha
    · next hat => exact .inr hat
    · exact .inl ha
  · exact update_true t ha

/-- Steps that change the registrations and their callbacks, and the calls that run them. -/
theorem of_callbacks {w' : Tokens} (hcount : w'.count = w.count) (hparent : w'.parent = w.parent)
    (hlink : w'.parentLink = w.parentLink) (halive : w'.alive = w.alive)
    (hcancelled : w'.cancelled = w.cancelled) (hhandles : w'.handles = w.handles)
    (hcalled : w'.called = w.called)
    (hempty : ∀ t, w.callbacks t = [] → w.cancelled t = true ∨ w.count ≤ t → w'.callbacks t = [])
    (hchild : ∀ t c, .child c ∈ w'.callbacks t ↔ .child c ∈ w.callbacks t)
    (hqueued : ∀ c, Queued w'.pending c ↔ Queued w.pending c) : Tree w' :=
  h.rewire hcount hparent hlink halive hcancelled (hhandles ▸ h.held) (hcalled ▸ h.called)
    (hcalled ▸ fun _ ha => ha) hempty hchild (fun c => (hqueued c).mp)
    (fun c _ _ => (hqueued c).mpr)

theorem registerCallback (ht : w.handles t ≠ 0) : Tree (w.registerCallback t) := by
  have hcount := h.made t (h.held t ht)
  unfold Tokens.registerCallback
  by_cases hcancelled : w.cancelled t = true
  · simp only [hcancelled, if_true]
    exact h.of_callbacks rfl rfl rfl rfl rfl rfl rfl (fun _ hnone _ => hnone)
      (fun _ _ => Iff.rfl) (fun _ => Iff.rfl)
  · simp only [hcancelled, Bool.false_eq_true, if_false]
    refine h.of_callbacks rfl rfl rfl rfl rfl rfl rfl (fun a hnone ha => ?_) (fun a c => ?_)
      (fun _ => Iff.rfl)
    · have hne : a ≠ t := by
        rintro rfl
        rcases ha with ha | ha
        · exact hcancelled ha
        · omega
      simp only [Function.update_of_ne hne, hnone]
    · simp only [Function.update_apply]
      split
      · next hat => simp [hat]
      · rfl

/-- Unregistering the callback of a registration. -/
theorem dropRegistration (r : Nat) : Tree (w.dropRegistration r) := by
  unfold Tokens.dropRegistration reset unregister
  by_cases hcancelled : w.cancelled (w.owner r) = true
  · simp only [hcancelled, if_true]
    exact h.of_callbacks rfl rfl rfl rfl rfl rfl rfl (fun _ hnone _ => hnone)
      (fun _ _ => Iff.rfl) (fun _ => Iff.rfl)
  · simp only [hcancelled, Bool.false_eq_true, if_false]
    refine h.of_callbacks rfl rfl rfl rfl rfl rfl rfl (fun a hnone _ => ?_) (fun a c => ?_)
      (fun _ => Iff.rfl)
    · simp only [Function.update_apply]
      split
      · next hat =>
        rw [← hat, hnone]
        rfl
      · exact hnone
    · simp only [Function.update_apply]
      split
      · next hat =>
        rw [← hat]
        exact List.mem_erase_of_ne (by simp)
      · rfl

theorem newToken : Tree w.newToken where
  bounded := fun t p hp => by
    have hbounded := h.bounded t p hp
    exact ⟨Nat.lt_succ_of_lt hbounded.1, Nat.lt_succ_of_lt hbounded.2⟩
  held := fun t ht => by
    simp only [Tokens.newToken, Function.update_apply] at ht ⊢
    split
    · rfl
    · next hne =>
      rw [if_neg hne] at ht
      exact h.held t ht
  made := fun t ht => by
    simp only [Tokens.newToken, Function.update_apply] at ht ⊢
    split at ht
    · omega
    · exact Nat.lt_succ_of_lt (h.made t ht)
  unused := fun t ht => h.unused t (Nat.le_of_succ_le ht)
  called := h.called
  sound := h.sound
  emptied := h.emptied
  listed := h.listed
  pending := h.pending
  linked := fun c p halive hc hp => by
    have hbounded := h.bounded c p hp
    have hnew : ∀ t, t < w.count → w.newToken.alive t = w.alive t := by
      intro t ht
      show Function.update w.alive w.count true t = w.alive t
      rw [Function.update_of_ne (Nat.ne_of_lt ht)]
    rw [hnew c hbounded.1] at halive
    rw [hnew p hbounded.2]
    exact h.linked c p halive hc hp

/-- The parent of a new token is the only one that changes. -/
theorem parent_new (t : Nat) (hp : w.parent c = some p) :
    c ≠ w.count ∧ Function.update w.parent w.count (some t) c = some p := by
  have hne : c ≠ w.count := by
    rintro rfl
    exact Nat.lt_irrefl _ (h.bounded _ p hp).1
  exact ⟨hne, by rw [Function.update_of_ne hne, hp]⟩

theorem ancestor_new (t : Nat) {a : Nat} (hca : Ancestor w.parent c a) :
    Ancestor (Function.update w.parent w.count (some t)) c a :=
  Relation.ReflTransGen.mono (fun _ _ hp => (h.parent_new t hp).2) _ _ hca

theorem bounded_new (ht : t < w.count)
    (hp : Function.update w.parent w.count (some t) c = some p) :
    c < w.count + 1 ∧ p < w.count + 1 := by
  rw [Function.update_apply] at hp
  split at hp
  · cases hp
    omega
  · have hbounded := h.bounded c p hp
    omega

/-- A child of a cancelled token is cancelled at once. -/
theorem childToken_cancelled (ht : t < w.count) (hcancelled : w.cancelled t = true) :
    Tree (w.childToken t) := by
  obtain ⟨hopen, hnone⟩ := h.unused w.count (Nat.le_refl _)
  rw [childToken_of_cancelled hcancelled hopen hnone]
  refine ⟨fun c p => h.bounded_new ht, h.newToken.held, h.newToken.made, fun a ha => ?_,
    fun a ha => update_true _ (h.called a ha), fun a ha => ?_, fun a ha => ?_,
    fun a c hc => (h.parent_new t (h.listed a c hc)).2, fun c hc => ?_,
    fun c p halive hc hp => ?_⟩
  · have hne : a ≠ w.count := by
      have ha : w.count + 1 ≤ a := ha
      omega
    simp only [Function.update_of_ne hne]
    exact h.unused a (Nat.le_of_succ_le ha)
  · by_cases hne : a = w.count
    · obtain ⟨b, hancestor, hb⟩ := h.sound t hcancelled
      refine ⟨b, .head ?_ (h.ancestor_new t hancestor), hb⟩
      rw [hne]
      exact Function.update_self ..
    · simp only [Function.update_of_ne hne] at ha
      obtain ⟨b, hancestor, hb⟩ := h.sound a ha
      exact ⟨b, h.ancestor_new t hancestor, hb⟩
  · by_cases hne : a = w.count
    · rw [hne, hnone]
    · simp only [Function.update_of_ne hne] at ha
      exact h.emptied a ha
  · obtain ⟨p, hp, hcancelled'⟩ := h.pending c hc
    exact ⟨p, (h.parent_new t hp).2, update_true _ hcancelled'⟩
  · have hne : c ≠ w.count := by
      rintro rfl
      simp [Function.update_self] at hc
    simp only [Function.update_of_ne hne] at halive hc hp
    have hp' : p ≠ w.count := Nat.ne_of_lt (h.bounded c p hp).2
    simp only [Function.update_of_ne hp']
    exact h.linked c p halive hc hp

/-- Otherwise it registers its callback on the parent. -/
theorem childToken_open (ht : w.handles t ≠ 0) (hopen : w.cancelled t = false) :
    Tree (w.childToken t) := by
  have halive := h.held t ht
  have hcount := h.made t halive
  have hchild : ∀ {a c}, .child c ∈ w.callbacks a →
      .child c ∈ Function.update w.callbacks t (w.callbacks t ++ [.child w.count]) a := by
    intro a c hc
    rw [Function.update_apply]
    split
    · next hat => exact List.mem_append_left _ (hat ▸ hc)
    · exact hc
  rw [childToken_of_not hopen]
  refine ⟨fun c p => h.bounded_new hcount, h.newToken.held, h.newToken.made, fun a ha => ?_,
    h.called, fun a ha => ?_, fun a ha => ?_, fun a c hc => ?_, fun c hc => ?_,
    fun c p halive' hc hp => ?_⟩
  · have ha : w.count + 1 ≤ a := ha
    have hne : a ≠ t := by omega
    simp only [Function.update_of_ne hne]
    exact h.unused a (Nat.le_of_succ_le ha)
  · obtain ⟨b, hancestor, hb⟩ := h.sound a ha
    exact ⟨b, h.ancestor_new t hancestor, hb⟩
  · have hne : a ≠ t := by
      rintro rfl
      rw [hopen] at ha
      cases ha
    simp only [Function.update_of_ne hne]
    exact h.emptied a ha
  · simp only [Function.update_apply] at hc
    split at hc
    · next hat =>
      rcases List.mem_append.mp hc with hc | hc
      · exact hat ▸ (h.parent_new t (h.listed t c hc)).2
      · cases List.mem_singleton.mp hc
        rw [hat]
        exact Function.update_self ..
    · exact (h.parent_new t (h.listed a c hc)).2
  · obtain ⟨p, hp, hcancelled⟩ := h.pending c hc
    exact ⟨p, (h.parent_new t hp).2, hcancelled⟩
  · by_cases hne : c = w.count
    · subst hne
      simp only [Function.update_self] at hp ⊢
      cases hp
      refine ⟨rfl, ?_, fun _ => ?_, fun hcancelled => ?_⟩
      · show Function.update w.alive w.count true t = true
        rw [Function.update_of_ne (by omega), halive]
      · rw [Function.update_self]
        exact List.mem_append_right _ List.mem_cons_self
      · have hcancelled : w.cancelled t = true := hcancelled
        rw [hopen] at hcancelled
        cases hcancelled
    · simp only [Function.update_of_ne hne] at hp ⊢
      obtain ⟨hlink, hparent, hwaits, hruns⟩ := h.newToken.linked c p halive' hc hp
      exact ⟨hlink, hparent, fun hp' => hchild (hwaits hp'), hruns⟩

theorem childToken (ht : w.handles t ≠ 0) : Tree (w.childToken t) := by
  cases hcancelled : w.cancelled t with
  | true => exact h.childToken_cancelled (h.made t (h.held t ht)) hcancelled
  | false => exact h.childToken_open ht hcancelled

/-- A state dies when no handle and no child of it is left. -/
theorem kill (hhandles : w.handles t = 0)
    (hchildren : ∀ c, w.alive c = true → w.parentLink c ≠ some t) :
    Tree { w with alive := Function.update w.alive t false } where
  bounded := h.bounded
  held := fun a ha => by
    have hne : a ≠ t := by
      rintro rfl
      exact ha hhandles
    simp only [Function.update_of_ne hne]
    exact h.held a ha
  made := fun a ha => by
    simp only [Function.update_apply] at ha
    split at ha
    · cases ha
    · exact h.made a ha
  unused := h.unused
  called := h.called
  sound := h.sound
  emptied := h.emptied
  listed := h.listed
  pending := h.pending
  linked := fun c p halive hc hp => by
    simp only [Function.update_apply] at halive
    split at halive
    · cases halive
    · obtain ⟨hlink, hparent, hqueued⟩ := h.linked c p halive hc hp
      have hne : p ≠ t := by
        rintro rfl
        exact hchildren c halive hlink
      simp only [Function.update_of_ne hne]
      exact ⟨hlink, hparent, hqueued⟩

/-- The callback of a token that is gone may be unregistered. -/
theorem reset (hdead : w.alive t = false) (p : Nat) : Tree (w.reset p (.child t)) := by
  unfold Tokens.reset unregister
  by_cases hcancelled : w.cancelled p = true
  · simp only [hcancelled, if_true]
    exact h.of_callbacks rfl rfl rfl rfl rfl rfl rfl (fun _ hnone _ => hnone)
      (fun _ _ => Iff.rfl) (fun _ => Iff.rfl)
  simp only [hcancelled, Bool.false_eq_true, if_false]
  refine ⟨h.bounded, h.held, h.made, fun a ha => ⟨(h.unused a ha).1, ?_⟩, h.called, h.sound,
    fun a ha => ?_, fun a c hc => ?_, h.pending, fun c q halive hc hq => ?_⟩
  · simp only [Function.update_apply]
    split
    · next hap => rw [← hap, (h.unused a ha).2, List.erase_nil]
    · exact (h.unused a ha).2
  · have hne : a ≠ p := by
      rintro rfl
      exact hcancelled ha
    simp only [Function.update_of_ne hne]
    exact h.emptied a ha
  · simp only [Function.update_apply] at hc
    split at hc
    · next hap => exact h.listed a c (hap ▸ List.mem_of_mem_erase hc)
    · exact h.listed a c hc
  · have hne : c ≠ t := by
      rintro rfl
      rw [hdead] at halive
      cases halive
    obtain ⟨hlink, hparent, hwaits, hruns⟩ := h.linked c q halive hc hq
    refine ⟨hlink, hparent, fun hq' => ?_, hruns⟩
    simp only [Function.update_apply]
    split
    · next hqp => exact (List.mem_erase_of_ne (by simpa using hne)).mpr (hqp ▸ hwaits hq')
    · exact hwaits hq'

theorem release (t : Nat) : Tree (w.release t) := by
  unfold Tokens.release
  split
  · next hdead =>
    simp only [unreferenced, Bool.and_eq_true, decide_eq_true_eq, List.all_eq_true,
      List.mem_range, Bool.not_eq_true', Bool.and_eq_false_iff, decide_eq_false_iff_not] at hdead
    have hkilled : Tree { w with alive := Function.update w.alive t false } := by
      refine h.kill hdead.1.1.1 fun c halive hlink => ?_
      rcases hdead.1.2 c (h.made c halive) with hc | hc
      · rw [halive] at hc
        cases hc
      · exact hc hlink
    unfold destroy
    dsimp only
    split
    · exact hkilled
    · exact hkilled.reset (Function.update_self t false w.alive) _
  · exact h

theorem rehandle {handles : Nat → Nat} (hheld : ∀ t, handles t ≠ 0 → w.handles t ≠ 0) :
    Tree { w with handles := handles } :=
  h.rewire rfl rfl rfl rfl rfl (fun t ht => h.held t (hheld t ht)) h.called (fun _ ha => ha)
    (fun _ hnone _ => hnone) (fun _ _ => Iff.rfl) (fun _ hc => hc) (fun _ _ _ hc => hc)

theorem dropHandle (ht : w.handles t ≠ 0) : Tree (w.dropHandle t) := by
  refine (h.rehandle fun a ha => ?_).release t
  rw [Function.update_apply] at ha
  split at ha
  · next hat => exact hat ▸ ht
  · exact ha

theorem proceed {w' : Tokens} {call : Nat} (hcall : w.proceed call = some w') : Tree w' := by
  refine proceed_cases hcall (fun r running hpending => ?_)
    (fun c others running hpending hrunning => ?_) (fun c others running hpending hrunning => ?_)
    (fun c running hpending => ?_)
  · refine h.of_callbacks rfl rfl rfl rfl rfl rfl rfl (fun _ hnone _ => hnone)
      (fun _ _ => Iff.rfl) fun c => ?_
    rw [hpending, queued_cons]
    simp [Tokens.pending]
  · -- a child that is alive is next to be cancelled
    have hqueued : ∀ a, Queued (running.flatten : List Todo) a ↔
        Queued others a ∨ w.alive c = true ∧ c = a := by
      intro a
      rw [hrunning, queued_add]
      split <;> simp [Queued, *, eq_comm]
    refine h.rewire rfl rfl rfl rfl rfl h.held h.called (fun _ ha => ha)
      (fun _ hnone _ => hnone) (fun _ _ => Iff.rfl) (fun a ha => ?_) (fun a halive _ ha => ?_)
    · rw [hpending, queued_cons]
      rcases (hqueued a).mp ha with ha | ⟨_, rfl⟩
      · exact .inr ha
      · exact .inl (.inl rfl)
    · rw [hpending, queued_cons] at ha
      rcases ha with (heq | heq) | ha
      · cases heq
        exact (hqueued c).mpr (.inr ⟨halive, rfl⟩)
      · cases heq
      · exact (hqueued a).mpr (.inl ha)
  · have hc : Queued w.pending c := by
      rw [hpending, queued_cons]
      exact .inl (.inr rfl)
    obtain ⟨p, hp, hcancelled⟩ := h.pending c hc
    obtain ⟨a, hancestor, ha⟩ := h.sound p hcancelled
    refine h.cancelState (h.bounded c p hp).1 (fun a ha => .inl ha) (fun a ha => ha)
      ⟨a, .head hp hancestor, ha⟩ (fun b hb => ?_) (fun b hne hb => ?_)
    · rw [hrunning, queued_add] at hb
      rw [hpending, queued_cons]
      exact hb.imp_left .inr
    · rw [hpending, queued_cons] at hb
      rw [hrunning, queued_add]
      refine hb.imp_left fun hb => hb.resolve_left ?_
      rintro (heq | heq)
      · cases heq
      · cases heq
        exact hne rfl
  · refine Tree.release ?_ c
    refine h.of_callbacks rfl rfl rfl rfl rfl rfl rfl (fun _ hnone _ => hnone)
      (fun _ _ => Iff.rfl) fun c => ?_
    rw [hpending, queued_cons]
    simp [Tokens.pending]

end Tree

theorem tree_reachable (hw : (cancellation.guarded Harmless).Reachable w) : Tree w :=
  hw.guarded_invariant tree_init fun _ _ _ h hok hexec =>
    step_cases hok hexec h.newToken (fun _ => h.rehandle) (fun _ => h.dropHandle)
      (fun _ => h.childToken) (fun _ => h.registerCallback) (fun r _ => h.dropRegistration r)
      (fun _ => h.cancel) (fun _ => h.proceed)

/-- When no call of `cancel` is left, the ancestors of a token that is alive and not
    cancelled are alive and not cancelled. -/
theorem Tree.open_ancestor (h : Tree w) (hdone : w.pending = 0) {a : Nat}
    (hancestor : Ancestor w.parent t a) (halive : w.alive t = true)
    (hopen : w.cancelled t = false) : w.alive a = true ∧ w.cancelled a = false := by
  induction hancestor with
  | refl => exact ⟨halive, hopen⟩
  | tail _ hp ih =>
    obtain ⟨_, hparent, _, hruns⟩ := h.linked _ _ ih.1 ih.2 hp
    refine ⟨hparent, eq_false_of_ne_true fun hcancelled => ?_⟩
    have hpending := hruns hcancelled
    rw [hdone] at hpending
    exact not_queued_zero hpending

/-- A token is cancelled exactly when it or an ancestor was, once the calls have returned. -/
theorem Tree.cancelled_iff (h : Tree w) (hdone : w.pending = 0)
    (halive : w.alive t = true) :
    w.cancelled t = true ↔ ∃ a, Ancestor w.parent t a ∧ w.called a = true := by
  refine ⟨h.sound t, fun ⟨a, hancestor, ha⟩ => ?_⟩
  refine eq_true_of_ne_false fun hopen => ?_
  have hcancelled := h.called a ha
  rw [(h.open_ancestor hdone hancestor halive hopen).2] at hcancelled
  cases hcancelled

end Tokens

end DynamoCpp.Runtime
