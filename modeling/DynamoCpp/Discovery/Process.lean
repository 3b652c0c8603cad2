import DynamoCpp.Discovery.History
import DynamoCpp.Framework.System

/-! # A discoveryd process

    The server as a transition system from an empty store.  The accept loop,
    the connection threads and the sweeper each take the server mutex for one
    step, so a process is an interleaving of accepted connections, handled
    requests, closed connections and expired leases.  The sweeper expires
    several leases under one lock, in the order of a hash table; that is a
    sequence of single expiries at one reading of the clock.
-/

namespace DynamoCpp.Discovery

open Framework

/-- One step of the process. -/
inductive Step where
  | accept
  | request (net : Net) (now : Int) (c : ConnId) (req : Nat) (r : Request)
  | close (c : ConnId)
  | expire (net : Net) (now : Int) (leaseId : LeaseId)

/-- `lease.deadline <= now` for a lease the server knows. -/
def leaseExpired (s : Server) (now : Int) (leaseId : LeaseId) : Bool :=
  match s.leases[leaseId]? with
  | none => false
  | some record => record.deadline ≤ now

/-- Requests are read from live connections only. -/
def Step.exec (s : Server) : Step → Option Server
  | .accept => some (acceptConn s)
  | .request net now c req r =>
    if c ∈ s.conns then some (handleRequest net now s c req r).1 else none
  | .close c => if c ∈ s.conns then some (closeConn s c) else none
  | .expire net now leaseId =>
    if leaseExpired s now leaseId then some (expireLeaseLocked net s [] leaseId).1 else none

/-- A freshly started discoveryd. -/
def discoveryd : System Server Step where
  init := {}
  exec := Step.exec

/-- What a step of the process can do. -/
theorem step_cases {s s' : Server} {l : Step} (hexec : discoveryd.exec s l = some s') :
    (l = .accept ∧ s' = acceptConn s) ∨
      (∃ net now c req r, l = .request net now c req r ∧ c ∈ s.conns ∧
        s' = (handleOp net now s c req r).server) ∨
      (∃ c, l = .close c ∧ c ∈ s.conns ∧ s' = closeConn s c) ∨
      ∃ net now leaseId, l = .expire net now leaseId ∧ leaseExpired s now leaseId = true ∧
        s' = (expireLeaseLocked net s [] leaseId).1 := by
  change Step.exec s l = some s' at hexec
  cases l with
  | accept => exact .inl ⟨rfl, (Option.some.inj hexec).symm⟩
  | request net now c req r =>
    obtain ⟨hmay, rfl⟩ := enabled hexec
    exact .inr (.inl ⟨net, now, c, req, r, rfl, hmay, rfl⟩)
  | close c =>
    obtain ⟨hopen, rfl⟩ := enabled hexec
    exact .inr (.inr (.inl ⟨c, rfl, hopen, rfl⟩))
  | expire net now leaseId =>
    obtain ⟨hexpired, rfl⟩ := enabled hexec
    exact .inr (.inr (.inr ⟨net, now, leaseId, rfl, hexpired, rfl⟩))

/-! ## Every process has a history -/

/-- Whatever the history of `s` is, that of `s'` continues it. -/
def Continues (s s' : Server) : Prop :=
  ∃ es, ∀ h, History s h → History s' (h ++ es)

theorem Continues.of_same {s s' : Server} (hkvs : s'.kvs = s.kvs)
    (hrev : s'.revision = s.revision) (hlog : s'.eventLog = s.eventLog) : Continues s s' :=
  ⟨[], fun h hist => by rw [List.append_nil]; exact hist.congr hkvs hrev hlog⟩

theorem Continues.of_advances {net : Net} {s s' : Server} {out out' : List Write}
    (h : ∃ es, Advances net s out s' out' es) : Continues s s' := by
  obtain ⟨es, ha⟩ := h
  exact ⟨es, fun _ hist => hist.advances ha⟩

/-- The other requests leave the store alone. -/
theorem handleOp_readOnly (net : Net) (now : Int) (s : Server) (c : ConnId) (req : Nat)
    (r : Request) (hr : r.isStoreOp = false) :
    (handleOp net now s c req r).server.kvs = s.kvs ∧
      (handleOp net now s c req r).server.revision = s.revision ∧
      (handleOp net now s c req r).server.eventLog = s.eventLog := by
  cases r with
  | queueDispatch subject data =>
    simp only [handleOp, queueDispatch]
    -- delivered or not, only the subscribers and the cursor change
    split <;> exact ⟨rfl, rfl, rfl⟩
  | getPrefix | watch | unwatch | subscribe | unsubscribe | publish | unknown =>
    exact ⟨rfl, rfl, rfl⟩
  -- what is left are the store operations
  | _ => cases hr

theorem continues_step {s s' : Server} {l : Step} (hexec : discoveryd.exec s l = some s') :
    Continues s s' := by
  rcases step_cases hexec with ⟨-, rfl⟩ | ⟨net, now, c, req, r, -, -, rfl⟩ | ⟨c, -, -, rfl⟩ |
    ⟨net, now, leaseId, -, -, rfl⟩
  · exact .of_same rfl rfl rfl
  · cases hr : r.isStoreOp with
    | true => exact .of_advances (handleOp_advances net now s c req r hr)
    | false =>
      obtain ⟨hkvs, hrev, hlog⟩ := handleOp_readOnly net now s c req r hr
      exact .of_same hkvs hrev hlog
  · exact .of_same rfl rfl rfl
  · exact .of_advances (expireLeaseLocked_advances net s [] leaseId)

/-- Every reachable state is the replay of a numbered history. -/
theorem exists_history {s : Server} (hs : discoveryd.Reachable s) : ∃ h, History s h := by
  have hstep : ∀ s l s', (∃ h, History s h) → discoveryd.exec s l = some s' →
      ∃ h, History s' h := by
    rintro s l s' ⟨h, hist⟩ hexec
    obtain ⟨es, hes⟩ := continues_step hexec
    exact ⟨h ++ es, hes h hist⟩
  exact hs.invariant ⟨[], history_init⟩ hstep

end DynamoCpp.Discovery
