import DynamoCpp.Framework.FirstMinimum
import DynamoCpp.Llm.KvRouter.Protocols
import Mathlib.Algebra.Field.Rat

/-! # The KV scheduler

    `llm/kv_router/scheduler.cpp`.  The metrics aggregator gives the scheduler a snapshot of
    the endpoints with their load.  Each decision picks the endpoint with the lowest cost
    among those that are not at capacity, and adds its predicted load to the snapshot.

    `double` is a field `K` with a linear order here, so costs are computed without rounding.
-/

open Framework

namespace DynamoCpp.Llm.KvRouter

/-! ## Endpoints -/

/-- What the selection reads of the latest metrics of a worker. -/
structure ForwardPassMetrics where
  requestActiveSlots : UInt64 := 0
  requestTotalSlots  : UInt64 := 0
  kvActiveBlocks     : UInt64 := 0
  kvTotalBlocks      : UInt64 := 0
deriving DecidableEq

structure Endpoint where
  workerId : WorkerId := 0
  data     : ForwardPassMetrics := {}
deriving DecidableEq

section

variable {K : Type} [Field K] [LinearOrder K]

/-- Endpoints with statistics over their kv load ratios. -/
structure ProcessedEndpoints (K : Type) [Field K] where
  endpoints : List Endpoint := []
  loadAvg   : K := 0
  loadStd   : K := 0

/-! ## Selection -/

inductive SchedulerError where
  | noEndpoints
  | allWorkersBusy
deriving DecidableEq

def SchedulerError.what : SchedulerError → Bytes
  | .noEndpoints => str "no endpoints available to route work"
  | .allWorkersBusy => str "all workers busy"

structure KVHitRateEvent where
  workerId      : WorkerId := 0
  islBlocks     : Nat := 0
  overlapBlocks : Nat := 0
deriving DecidableEq

def Endpoint.atCapacity (w : Endpoint) : Bool :=
  w.data.requestActiveSlots ≥ w.data.requestTotalSlots ||
    w.data.kvActiveBlocks ≥ w.data.kvTotalBlocks

/-- `overlap_tokens`, a `size_t` product. -/
def overlapTokens (overlap : OverlapScores) (kvBlockSize : Nat) (w : Endpoint) : Nat :=
  (overlap.score w.workerId).toNat * kvBlockSize % UInt64.size

namespace ProcessedEndpoints

/-- Balance mode evens out the load across the workers. -/
def balanceMode (workers : ProcessedEndpoints K) : Bool :=
  workers.loadStd > 1 / 10 * workers.loadAvg

/-- The cost of giving the request to an endpoint. -/
def cost (workers : ProcessedEndpoints K) (overlap : OverlapScores) (islTokens kvBlockSize : Nat)
    (w : Endpoint) : K :=
  let alpha : K := if workers.balanceMode then 7 / 10 else 3 / 10
  let gamma : K := 1 / 10
  let kvLoadRatio : K := (w.data.kvActiveBlocks.toNat : K) / (w.data.kvTotalBlocks.toNat : K)
  let loadDeviation := kvLoadRatio - workers.loadAvg
  let newTokens :=
    if islTokens > overlapTokens overlap kvBlockSize w then
      islTokens - overlapTokens overlap kvBlockSize w
    else 0
  let normalizedNewTokens : K := if islTokens = 0 then 0 else (newTokens : K) / (islTokens : K)
  let requestLoadRatio : K :=
    (w.data.requestActiveSlots.toNat : K) / (w.data.requestTotalSlots.toNat : K)
  alpha * loadDeviation + (1 - alpha) * normalizedNewTokens + gamma * requestLoadRatio

/-- Workers at capacity are excluded. -/
def admittedCost (workers : ProcessedEndpoints K) (overlap : OverlapScores)
    (islTokens kvBlockSize : Nat) (w : Endpoint) : Option K :=
  if w.atCapacity then none else some (workers.cost overlap islTokens kvBlockSize w)

/-- `best_index` and `best_cost` after the loop. -/
def best (workers : ProcessedEndpoints K) (overlap : OverlapScores)
    (islTokens kvBlockSize : Nat) : Option (Nat × K) :=
  firstMin (workers.admittedCost overlap islTokens kvBlockSize) workers.endpoints

end ProcessedEndpoints

def islBlocks (islTokens kvBlockSize : Nat) : Nat :=
  if kvBlockSize = 0 then 0 else islTokens / kvBlockSize

/-- The predicted load of one more request. -/
def Endpoint.bump (islBlocks : Nat) (w : Endpoint) : Endpoint :=
  { w with
    data :=
      { w.data with
        requestActiveSlots := w.data.requestActiveSlots + 1
        kvActiveBlocks := w.data.kvActiveBlocks + UInt64.ofNat (min islBlocks 1) } }

/-- The worker, with the event that `schedule` hands out, and the snapshot. -/
def selectWorker (workers : ProcessedEndpoints K) (overlap : OverlapScores)
    (islTokens kvBlockSize : Nat) :
    Except SchedulerError (WorkerId × KVHitRateEvent) × ProcessedEndpoints K :=
  if workers.endpoints.isEmpty then (.error .noEndpoints, workers)
  else
    match workers.best overlap islTokens kvBlockSize with
    | none => (.error .allWorkersBusy, workers)
    | some (i, _) =>
      let chosen := workers.endpoints.getD i {}
      let blocks := islBlocks islTokens kvBlockSize
      let event : KVHitRateEvent :=
        { workerId := chosen.workerId
          islBlocks := blocks
          overlapBlocks := (overlap.score chosen.workerId).toNat }
      (.ok (chosen.workerId, event),
        { workers with endpoints := workers.endpoints.modify i (Endpoint.bump blocks) })

/-! ## The scheduler -/

structure KvScheduler (K : Type) [Field K] where
  endpoints   : ProcessedEndpoints K := {}
  kvBlockSize : Nat

/-- The arguments of `schedule`. -/
structure Request where
  overlap   : OverlapScores
  islTokens : Nat

namespace KvScheduler

def updateEndpoints (s : KvScheduler K) (endpoints : ProcessedEndpoints K) : KvScheduler K :=
  { s with endpoints }

def schedule (s : KvScheduler K) (r : Request) :
    Except SchedulerError (WorkerId × KVHitRateEvent) × KvScheduler K :=
  let result := selectWorker s.endpoints r.overlap r.islTokens s.kvBlockSize
  (result.1, s.updateEndpoints result.2)

/-- The scheduler after some decisions on one snapshot. -/
def scheduleAll (s : KvScheduler K) (requests : List Request) : KvScheduler K :=
  requests.foldl (fun s r => (s.schedule r).2) s

/-- The cost that the scheduler compares, for the endpoints it compares. -/
def cost (s : KvScheduler K) (r : Request) : Endpoint → Option K :=
  s.endpoints.admittedCost r.overlap r.islTokens s.kvBlockSize

/-- The index of the endpoint that a request goes to. -/
def selected (s : KvScheduler K) (r : Request) : Option Nat :=
  (s.endpoints.best r.overlap r.islTokens s.kvBlockSize).map (·.1)

/-- How many of the requests go to the endpoint at `i`. -/
def selections (i : Nat) : KvScheduler K → List Request → Nat
  | _, [] => 0
  | s, r :: requests =>
    (if s.selected r = some i then 1 else 0) + selections i (s.schedule r).2 requests

/-! ## One decision -/

/-- The endpoint at `i` gets the request: it is the first with the lowest cost among those
    that are not at capacity. -/
structure Selects (s : KvScheduler K) (r : Request) (i : Nat) (w : Endpoint) : Prop where
  endpoint : s.endpoints.endpoints[i]? = some w
  slots    : w.data.requestActiveSlots < w.data.requestTotalSlots
  blocks   : w.data.kvActiveBlocks < w.data.kvTotalBlocks
  cheapest : ∃ c, IsFirstMin (s.cost r) s.endpoints.endpoints i c

theorem atCapacity_eq_false_iff {w : Endpoint} :
    w.atCapacity = false ↔ w.data.requestActiveSlots < w.data.requestTotalSlots ∧
      w.data.kvActiveBlocks < w.data.kvTotalBlocks := by
  simp [Endpoint.atCapacity]

theorem cost_eq_none_iff {s : KvScheduler K} {r : Request} {w : Endpoint} :
    s.cost r w = none ↔ w.atCapacity = true := by
  simp [cost, ProcessedEndpoints.admittedCost]

/-- Everything that a call of `schedule` can do. -/
theorem schedule_cases (s : KvScheduler K) (r : Request) :
    (s.endpoints.endpoints = [] ∧ s.selected r = none ∧
      s.schedule r = (.error .noEndpoints, s)) ∨
    (s.endpoints.endpoints ≠ [] ∧ (∀ w ∈ s.endpoints.endpoints, w.atCapacity = true) ∧
      s.selected r = none ∧ s.schedule r = (.error .allWorkersBusy, s)) ∨
    ∃ i w, s.Selects r i w ∧ s.selected r = some i ∧
      s.schedule r =
        (.ok (w.workerId, ⟨w.workerId, islBlocks r.islTokens s.kvBlockSize,
            (r.overlap.score w.workerId).toNat⟩),
          s.updateEndpoints
            { s.endpoints with
              endpoints := s.endpoints.endpoints.modify i
                (Endpoint.bump (islBlocks r.islTokens s.kvBlockSize)) }) := by
  by_cases hempty : s.endpoints.endpoints = []
  · refine .inl ⟨hempty, ?_, ?_⟩
    · unfold selected ProcessedEndpoints.best
      rw [hempty]
      rfl
    · unfold schedule selectWorker
      rw [hempty]
      rfl
  -- with endpoints, the loop finds none exactly if all are at capacity
  have hsome : s.endpoints.endpoints.isEmpty = false := by
    rwa [List.isEmpty_eq_false_iff]
  cases hbest : s.endpoints.best r.overlap r.islTokens s.kvBlockSize with
  | none =>
    refine .inr (.inl ⟨hempty, ?_, ?_, ?_⟩)
    · intro w hw
      exact cost_eq_none_iff.mp (firstMin_eq_none_iff.mp hbest w hw)
    · rw [selected, hbest, Option.map_none]
    · simp only [schedule, selectWorker, hsome, hbest]
      rfl
  | some best =>
    obtain ⟨i, c⟩ := best
    have hmin : IsFirstMin (s.cost r) s.endpoints.endpoints i c := searched_firstMin.some hbest
    obtain ⟨w, hw, hcost⟩ := hmin.chosen
    have hfree : w.atCapacity = false := by
      by_contra hfull
      rw [cost_eq_none_iff.mpr (Bool.eq_true_of_not_eq_false hfull)] at hcost
      cases hcost
    obtain ⟨hslots, hblocks⟩ := atCapacity_eq_false_iff.mp hfree
    refine .inr (.inr ⟨i, w, ⟨hw, hslots, hblocks, c, hmin⟩, ?_, ?_⟩)
    · rw [selected, hbest, Option.map_some]
    · simp only [schedule, selectWorker, hsome, hbest, List.getD_eq_getElem?_getD, hw,
        Option.getD_some]
      rfl

/-! ## Whole runs on one snapshot -/

/-- What `n` requests do to an endpoint. -/
structure Serves (w w' : Endpoint) (n : Nat) : Prop where
  worker : w'.workerId = w.workerId
  slots  : w'.data.requestTotalSlots = w.data.requestTotalSlots
  blocks : w'.data.kvTotalBlocks = w.data.kvTotalBlocks
  active : w'.data.requestActiveSlots.toNat = w.data.requestActiveSlots.toNat + n
  within : n = 0 ∨ w'.data.requestActiveSlots ≤ w.data.requestTotalSlots
  memory : w'.data.kvActiveBlocks = w.data.kvActiveBlocks ∨
    w'.data.kvActiveBlocks ≤ w.data.kvTotalBlocks

theorem Serves.refl (w : Endpoint) : Serves w w 0 := ⟨rfl, rfl, rfl, rfl, .inl rfl, .inl rfl⟩

theorem Serves.trans {w w' w'' : Endpoint} {m n : Nat} (h : Serves w w' m) (h' : Serves w' w'' n) :
    Serves w w'' (m + n) where
  worker := h'.worker.trans h.worker
  slots := h'.slots.trans h.slots
  blocks := h'.blocks.trans h.blocks
  active := by rw [h'.active, h.active, Nat.add_assoc]
  within := by
    rcases h'.within with hn | hn
    · rcases h.within with hm | hm
      · exact .inl (by omega)
      · have hsame := h'.active
        rw [hn, Nat.add_zero] at hsame
        exact .inr (by rwa [UInt64.toNat_inj.mp hsame])
    · exact .inr (h.slots ▸ hn)
  memory := by
    rcases h'.memory with hn | hn
    · rw [hn]
      exact h.memory
    · exact .inr (h.blocks ▸ hn)

/-- A bump of an endpoint that is not at capacity does not wrap around. -/
theorem serves_bump {w : Endpoint} (blocks : Nat)
    (hslots : w.data.requestActiveSlots < w.data.requestTotalSlots)
    (hblocks : w.data.kvActiveBlocks < w.data.kvTotalBlocks) : Serves w (w.bump blocks) 1 := by
  rw [UInt64.lt_iff_toNat_lt] at hslots hblocks
  have htotal := w.data.requestTotalSlots.toNat_lt
  have hkv := w.data.kvTotalBlocks.toNat_lt
  have hactive : (w.data.requestActiveSlots + 1).toNat = w.data.requestActiveSlots.toNat + 1 := by
    rw [UInt64.toNat_add]
    exact Nat.mod_eq_of_lt (by simp only [UInt64.reduceToNat]; omega)
  refine ⟨rfl, rfl, rfl, hactive, .inr ?_, .inr ?_⟩
  · rw [UInt64.le_iff_toNat_le]
    exact hactive.trans_le hslots
  · have hone : min blocks 1 ≤ 1 := Nat.min_le_right _ _
    show (w.data.kvActiveBlocks + UInt64.ofNat (min blocks 1)).toNat ≤ w.data.kvTotalBlocks.toNat
    rw [UInt64.toNat_add, UInt64.toNat_ofNat', Nat.mod_eq_of_lt (by omega : min blocks 1 < 2 ^ 64),
      Nat.mod_eq_of_lt (by omega)]
    omega

/-- One decision seen from one endpoint. -/
theorem serves_schedule (s : KvScheduler K) (r : Request) {i : Nat} {w : Endpoint}
    (hw : s.endpoints.endpoints[i]? = some w) :
    ∃ w', (s.schedule r).2.endpoints.endpoints[i]? = some w' ∧
      Serves w w' (if s.selected r = some i then 1 else 0) := by
  rcases s.schedule_cases r with ⟨-, hnone, heq⟩ | ⟨-, -, hnone, heq⟩ | ⟨j, v, hsel, hj, heq⟩
  · rw [hnone, heq]
    exact ⟨w, hw, .refl w⟩
  · rw [hnone, heq]
    exact ⟨w, hw, .refl w⟩
  · rw [hj, heq]
    show ∃ w', (s.endpoints.endpoints.modify j _)[i]? = some w' ∧ _
    rw [List.getElem?_modify, hw]
    -- the bump is at the selected index only
    by_cases hji : j = i
    · subst hji
      obtain rfl := Option.some.inj (hw.symm.trans hsel.endpoint)
      simp only [if_true]
      exact ⟨_, rfl, serves_bump _ hsel.slots hsel.blocks⟩
    · have hne : ¬ some j = some i := fun h => hji (Option.some.inj h)
      simp only [if_neg hji, if_neg hne]
      exact ⟨w, rfl, .refl w⟩

theorem serves_scheduleAll (requests : List Request) {i : Nat} :
    ∀ {s : KvScheduler K} {w : Endpoint}, s.endpoints.endpoints[i]? = some w →
      ∃ w', (s.scheduleAll requests).endpoints.endpoints[i]? = some w' ∧
        Serves w w' (s.selections i requests) := by
  induction requests with
  | nil => exact fun hw => ⟨_, hw, .refl _⟩
  | cons r requests ih =>
    intro s w hw
    obtain ⟨w', hw', hone⟩ := s.serves_schedule r hw
    obtain ⟨w'', hw'', hrest⟩ := ih hw'
    exact ⟨w'', hw'', hone.trans hrest⟩

end KvScheduler

/-! ## Main result -/

/-- **The scheduler respects capacity.**  After any decisions on a snapshot, a call picks
    the first endpoint with the lowest cost among those below both of their totals, and it
    throws `AllWorkersBusyError`, without a change, exactly if there are endpoints and none
    of them is.  No endpoint gets more requests than it had free slots in the snapshot, and
    its predicted blocks do not rise above its total. -/
theorem schedule_respects_capacity (s : KvScheduler K) (requests : List Request) :
    (∀ r : Request,
      let now := s.scheduleAll requests
      (∀ worker event, (now.schedule r).1 = .ok (worker, event) →
        ∃ i w, now.Selects r i w ∧ now.selected r = some i ∧ worker = w.workerId) ∧
      ((now.schedule r).1 = .error .allWorkersBusy ↔
        now.endpoints.endpoints ≠ [] ∧ ∀ w ∈ now.endpoints.endpoints,
          ¬ (w.data.requestActiveSlots < w.data.requestTotalSlots ∧
            w.data.kvActiveBlocks < w.data.kvTotalBlocks)) ∧
      ((now.schedule r).1 = .error .allWorkersBusy → (now.schedule r).2 = now) ∧
      ((now.schedule r).1 = .error .noEndpoints ↔ now.endpoints.endpoints = [])) ∧
    ∀ i w, s.endpoints.endpoints[i]? = some w →
      s.selections i requests ≤
        w.data.requestTotalSlots.toNat - w.data.requestActiveSlots.toNat ∧
      ∃ w', (s.scheduleAll requests).endpoints.endpoints[i]? = some w' ∧
        w'.workerId = w.workerId ∧ w'.data.kvTotalBlocks = w.data.kvTotalBlocks ∧
        (w'.data.kvActiveBlocks = w.data.kvActiveBlocks ∨
          w'.data.kvActiveBlocks ≤ w.data.kvTotalBlocks) := by
  constructor
  · intro r now
    rcases now.schedule_cases r with ⟨hempty, -, heq⟩ | ⟨hsome, hall, -, heq⟩ |
      ⟨i, w, hsel, hi, heq⟩
    · rw [heq]
      exact ⟨nofun, ⟨nofun, fun h => absurd hempty h.1⟩, nofun, fun _ => hempty, fun _ => rfl⟩
    · rw [heq]
      refine ⟨nofun, ⟨fun _ => ⟨hsome, fun w hw hfree => ?_⟩, fun _ => rfl⟩, fun _ => rfl, nofun,
        fun hempty => absurd hempty hsome⟩
      rw [← KvScheduler.atCapacity_eq_false_iff, hall w hw] at hfree
      cases hfree
    · rw [heq]
      have hmem := List.mem_of_getElem? hsel.endpoint
      refine ⟨?_, ⟨nofun, fun h => ?_⟩, nofun, nofun, fun hempty => ?_⟩
      · rintro worker event ⟨⟩
        exact ⟨i, w, hsel, hi, rfl⟩
      · exact absurd ⟨hsel.slots, hsel.blocks⟩ (h.2 w hmem)
      · rw [hempty] at hmem
        cases hmem
  · intro i w hw
    obtain ⟨w', hw', hserves⟩ := KvScheduler.serves_scheduleAll requests hw
    refine ⟨?_, w', hw', hserves.worker, hserves.blocks, hserves.memory⟩
    have hactive := hserves.active
    rcases hserves.within with hnone | hle
    · omega
    · rw [UInt64.le_iff_toNat_le] at hle
      omega

end

end DynamoCpp.Llm.KvRouter
