import DynamoCpp.Discovery.Agreement
import DynamoCpp.Discovery.Wire

/-! # Agreement of the two backends

    What the stores hold is not yet what a client is told.  discoveryd writes its reply as
    a JSON text, and a value is an arbitrary byte string: `dump` throws on a listing with a
    string that is not UTF-8, and the operation fails.  The in-process store answers.
-/

namespace DynamoCpp.Discovery

open Framework InProcess

/-! ## Answers -/

/-- `handle_request` on a connection that holds. -/
def Server.answer (env : Env) (s : Server) (op : Op) : OpResult × Server :=
  let o := handleOp env.net env.now s env.conn env.req op.request
  if IsText o.reply.header then (⟨o.reply.ok, o.reply.kvs⟩, o.server)
  -- the exception of `conn.write(reply)` ends the connection
  else (⟨false, none⟩, closeConn o.server env.conn)

/-- The results of operations that are executed one after another. -/
def answers {σ : Type} (answer : Env → σ → Op → OpResult × σ) : σ → List (Env × Op) → List OpResult
  | _, [] => []
  | s, (env, op) :: ops =>
    let (result, s) := answer env s op
    result :: answers answer s ops

/-- A list operation lists texts only. -/
def Op.Textual (s : Server) : Op → Prop
  | .kvGetPrefix pre => ∀ kv ∈ prefixEntries s pre, IsUtf8 kv.key ∧ IsUtf8 kv.value
  | _ => True

/-- A list operation lists no stale key. -/
def Op.Fresh (g : Ledger) (s : Server) : Op → Prop
  | .kvGetPrefix pre => ∀ kv ∈ prefixEntries s pre, kv.key ∉ g.stale
  | _ => True

/-- Every operation has a property that depends on the ledger and on the state in which it
    finds discoveryd. -/
def Ledger.Along (P : Ledger → Server → Op → Prop) (g : Ledger) (s : Server) :
    List (Env × Op) → Prop
  | [] => True
  | (env, op) :: ops => P g s op ∧ (g.step s op).Along P (s.answer env op).2 ops

/-! ## One operation -/

/-- A positive reply has no error. -/
theorem error_eq_none {env : Env} {s : Server} {op : Op}
    (hok : (handleOp env.net env.now s env.conn env.req op.request).reply.ok = true) :
    (handleOp env.net env.now s env.conn env.req op.request).reply.error = none := by
  cases op with
  | createLease ttl => rfl
  | revoke leaseId => rfl
  | kvGetPrefix pre => rfl
  | kvCreate key value leaseId =>
    revert hok
    simp only [Op.request, handleOp, kvCreate, reject]
    repeat' split
    all_goals simp
  | kvPut key value leaseId =>
    revert hok
    simp only [Op.request, handleOp, kvPut, reject]
    repeat' split
    all_goals simp
  | kvCreateOrValidate key value leaseId =>
    revert hok
    simp only [Op.request, handleOp, kvCreateOrValidate, reject]
    repeat' split
    all_goals simp

namespace Agrees

variable {g : Ledger} {s : Server} {t : InProcess.Store} {env : Env} {op : Op}

theorem closeConn (h : Agrees g s t) (c : ConnId) : Agrees g (closeConn s c) t :=
  ⟨h.bound.congr rfl rfl rfl, h.next, h.members, h.revision, h.entries⟩

/-- An operation keeps the relation, whether its reply is written or not. -/
theorem answer_agrees
    (h : Agrees g (handleOp env.net env.now s env.conn env.req op.request).server t) :
    Agrees g (s.answer env op).2 t := by
  unfold Server.answer
  dsimp only
  split
  · exact h
  · exact h.closeConn env.conn

/-- One that lists nothing fails anyway if its reply is not a text. -/
theorem answer_eq {result : OpResult}
    (hresult : result =
      ⟨(handleOp env.net env.now s env.conn env.req op.request).reply.ok,
        (handleOp env.net env.now s env.conn env.req op.request).reply.kvs⟩)
    (hnone : result.kvs = none) : (s.answer env op).1 = result := by
  unfold Server.answer
  dsimp only
  split
  · exact hresult.symm
  · next htext =>
    have hnone : (handleOp env.net env.now s env.conn env.req op.request).reply.kvs = none :=
      (congrArg OpResult.kvs hresult).symm.trans hnone
    have hok : (handleOp env.net env.now s env.conn env.req op.request).reply.ok = false := by
      refine eq_false_of_ne_true fun hok => htext ((isText_reply _).mpr ⟨?_, ?_⟩)
      · intro kvs hkvs
        cases hnone.symm.trans hkvs
      · intro e he
        cases (error_eq_none hok).symm.trans he
    rw [hresult, hok, hnone]

/-- A listing. -/
theorem answer_getPrefix (h : Agrees g s t) (env : Env) (pre : Bytes) :
    ((s.answer env (.kvGetPrefix pre)).1.ok = (t.answer env (.kvGetPrefix pre)).1.ok ↔
        (Op.kvGetPrefix pre).Textual s) ∧
      ((s.answer env (.kvGetPrefix pre)).1 = (t.answer env (.kvGetPrefix pre)).1 ↔
        (Op.kvGetPrefix pre).Textual s ∧ (Op.kvGetPrefix pre).Fresh g s) := by
  have htext : IsText (handleOp env.net env.now s env.conn env.req
      (Op.kvGetPrefix pre).request).reply.header ↔ (Op.kvGetPrefix pre).Textual s := by
    rw [isText_reply]
    refine ⟨fun h => h.1 _ rfl, fun h => ⟨fun kvs hkvs => ?_, fun e he => ?_⟩⟩
    · cases hkvs
      exact h
    · cases he
  unfold Server.answer
  dsimp only
  by_cases htextual : (Op.kvGetPrefix pre).Textual s
  · rw [if_pos (htext.mpr htextual)]
    refine ⟨iff_of_true rfl htextual, ?_⟩
    show (⟨true, some (prefixEntries s pre)⟩ : OpResult) =
      ⟨true, some (kvGetPrefix t pre)⟩ ↔ _
    rw [OpResult.mk.injEq, Option.some.injEq, h.getPrefix_iff]
    exact ⟨fun hfresh => ⟨htextual, hfresh.2⟩, fun hfresh => ⟨rfl, hfresh.2⟩⟩
  · rw [if_neg (mt htext.mp htextual)]
    exact ⟨iff_of_false Bool.noConfusion htextual,
      iff_of_false (fun heq => Bool.noConfusion (congrArg OpResult.ok heq))
        fun hboth => htextual hboth.1⟩

theorem answer (h : Agrees g s t) (env : Env) (op : Op) :
    Agrees (g.step s op) (s.answer env op).2 (t.answer env op).2 ∧
      ((s.answer env op).1.ok = (t.answer env op).1.ok ↔ op.Textual s) ∧
      ((s.answer env op).1 = (t.answer env op).1 ↔ op.Textual s ∧ op.Fresh g s) := by
  have hsame : ∀ {op : Op}, op.Textual s → op.Fresh g s →
      (s.answer env op).1 = (t.answer env op).1 →
      ((s.answer env op).1.ok = (t.answer env op).1.ok ↔ op.Textual s) ∧
        ((s.answer env op).1 = (t.answer env op).1 ↔ op.Textual s ∧ op.Fresh g s) :=
    fun htext hfresh heq =>
      ⟨iff_of_true (congrArg OpResult.ok heq) htext, iff_of_true heq ⟨htext, hfresh⟩⟩
  have hkvs : ∀ o : InProcess.Outcome, o.answer.1.kvs = none := by
    intro o
    unfold InProcess.Outcome.answer
    split <;> rfl
  match op with
  | .createLease ttl =>
    exact ⟨answer_agrees (h.createLease env.now env.req ttl),
      hsame trivial trivial (answer_eq rfl rfl)⟩
  | .revoke l => exact ⟨answer_agrees (h.revoke env l), hsame trivial trivial (answer_eq rfl rfl)⟩
  | .kvPut key value leaseId =>
    obtain ⟨hresult, hagrees⟩ := @put g s t key value leaseId h env
    exact ⟨answer_agrees hagrees, hsame trivial trivial (answer_eq hresult (hkvs _))⟩
  | .kvCreate key value leaseId =>
    obtain ⟨hresult, hagrees⟩ := @kvCreate g s t key value leaseId h env
    exact ⟨answer_agrees hagrees, hsame trivial trivial (answer_eq hresult (hkvs _))⟩
  | .kvCreateOrValidate key value leaseId =>
    obtain ⟨hresult, hagrees⟩ := @kvCreateOrValidate g s t key value leaseId h env
    exact ⟨answer_agrees hagrees, hsame trivial trivial (answer_eq hresult (hkvs _))⟩
  | .kvGetPrefix pre => exact ⟨answer_agrees h, h.answer_getPrefix env pre⟩

/-- A sequence of operations, as far as `f` tells its results apart. -/
theorem answers_iff {β : Type} (f : OpResult → β) {P : Ledger → Server → Op → Prop}
    (hP : ∀ {g s t}, Agrees g s t → ∀ env op,
      f (s.answer env op).1 = f (t.answer env op).1 ↔ P g s op)
    {ops : List (Env × Op)} : ∀ {g : Ledger} {s : Server} {t : InProcess.Store}, Agrees g s t →
      ((answers Server.answer s ops).map f = (answers InProcess.Store.answer t ops).map f ↔
        g.Along P s ops) := by
  induction ops with
  | nil => exact fun _ => iff_of_true rfl trivial
  | cons first ops ih =>
    intro g s t h
    obtain ⟨env, op⟩ := first
    show f (s.answer env op).1 :: (answers Server.answer (s.answer env op).2 ops).map f =
      f (t.answer env op).1 :: (answers InProcess.Store.answer (t.answer env op).2 ops).map f ↔ _
    rw [List.cons.injEq, hP h, ih (h.answer env op).1]
    rfl

end Agrees

/-- **Agreement of the backends.**  From an empty store every operation succeeds in
    both backends or fails in both exactly if every string that is listed is UTF-8.  All
    results are the same exactly if moreover no key is listed whose last write came when
    the rejected creates and the deleted keys so far differed in number. -/
theorem backends_agree_iff (ops : List (Env × Op)) :
    ((answers Server.answer {} ops).map (·.ok) =
        (answers InProcess.Store.answer {} ops).map (·.ok) ↔
      Ledger.Along (fun _ s op => op.Textual s) {} {} ops) ∧
    (answers Server.answer {} ops = answers InProcess.Store.answer {} ops ↔
      Ledger.Along (fun g s op => op.Textual s ∧ op.Fresh g s) {} {} ops) := by
  refine ⟨agrees_init.answers_iff (·.ok) fun h env op => (h.answer env op).2.1, ?_⟩
  have hall := @Agrees.answers_iff _ id _ (fun h env op => (h.answer env op).2.2) ops _ _ _
    agrees_init
  rwa [List.map_id, List.map_id] at hall

/-- A lease is revoked with its key, then another key is put and listed: for the server
    that is revision 3, for the in-process store revision 2.  And a value that is not UTF-8
    is put and listed: only the in-process store answers. -/
theorem revisions_differ_after_revoke :
    let env : Env := ⟨fun _ => true, 0, 0, 0, fun _ => true⟩
    let ops := [(env, Op.createLease 10), (env, .kvCreate (str "a") (str "v") (some 1)),
      (env, .revoke 1), (env, .kvPut (str "b") (str "v") none), (env, .kvGetPrefix (str "b"))]
    let bytes := [(env, Op.kvPut (str "k") [0xff] none), (env, .kvGetPrefix (str "k"))]
    (answers Server.answer {} ops).getLast? =
        some ⟨true, some [⟨str "b", str "v", 0, 3⟩]⟩ ∧
      (answers InProcess.Store.answer {} ops).getLast? =
        some ⟨true, some [⟨str "b", str "v", 0, 2⟩]⟩ ∧
      (answers Server.answer {} bytes).getLast? = some ⟨false, none⟩ ∧
      (answers InProcess.Store.answer {} bytes).getLast? =
        some ⟨true, some [⟨str "k", [0xff], 0, 1⟩]⟩ := by
  decide +kernel

end DynamoCpp.Discovery
