import SelfHealingCache.ClusterManager
import SelfHealingCache.Runs

namespace SelfHealingCache

inductive BreakerState
  | CLOSED
  | OPEN
  | HALF_OPEN
  deriving DecidableEq, Repr

structure NodeCircuit where
  nodeId : String
  state : BreakerState := .CLOSED
  failureCount : Nat := 0
  lastFailureTime : Time
  lastSuccessTime : Time
  deriving DecidableEq

structure CircuitBreaker where
  failureThreshold : Int
  timeoutS : Int
  states : Dict String NodeCircuit

namespace NodeCircuit

def init (now : Time) (nodeId : String) : NodeCircuit :=
  { nodeId := nodeId, lastFailureTime := now, lastSuccessTime := now }

/-- What `record_success` does to the circuit of its node. -/
def succeed (now : Time) (c : NodeCircuit) : NodeCircuit :=
  { c with lastSuccessTime := now, state := .CLOSED, failureCount := 0 }

/-- What `record_failure` does to it. -/
def fail (failureThreshold : Int) (now : Time) (c : NodeCircuit) : NodeCircuit :=
  let failureCount := c.failureCount + 1
  { c with
    failureCount := failureCount
    lastFailureTime := now
    state := if failureThreshold ≤ failureCount ∧ c.state ≠ .OPEN then .OPEN else c.state }

/-- What `is_available` does to it, and the answer. -/
def ask (timeoutS : Int) (now : Time) (c : NodeCircuit) : NodeCircuit × Bool :=
  match c.state with
  | .CLOSED => (c, true)
  | .OPEN =>
    if (timeoutS : ℚ) ≤ now - c.lastFailureTime then
      ({ c with state := .HALF_OPEN, failureCount := 0 }, true)
    else (c, false)
  | .HALF_OPEN => (c, true)

/-- The circuit is OPEN and its cooldown has elapsed. -/
def CooledDown (timeoutS : Int) (now : Time) (c : NodeCircuit) : Prop :=
  c.state = .OPEN ∧ (timeoutS : ℚ) ≤ now - c.lastFailureTime

instance (timeoutS : Int) (now : Time) (c : NodeCircuit) :
    Decidable (c.CooledDown timeoutS now) :=
  inferInstanceAs (Decidable (c.state = .OPEN ∧ (timeoutS : ℚ) ≤ now - c.lastFailureTime))

theorem ask_of_cooledDown {timeoutS : Int} {now : Time} {c : NodeCircuit}
    (h : c.CooledDown timeoutS now) :
    c.ask timeoutS now = ({ c with state := .HALF_OPEN, failureCount := 0 }, true) := by
  unfold ask
  rw [h.1]
  exact if_pos h.2

/-- Otherwise the question changes nothing. -/
theorem ask_of_not_cooledDown {timeoutS : Int} {now : Time} {c : NodeCircuit}
    (h : ¬c.CooledDown timeoutS now) :
    c.ask timeoutS now = (c, decide (c.state ≠ .OPEN)) := by
  unfold ask
  cases hs : c.state with
  | CLOSED => rfl
  | OPEN => exact if_neg fun ht => h ⟨hs, ht⟩
  | HALF_OPEN => rfl

theorem ask_refused_iff {timeoutS : Int} {now : Time} {c : NodeCircuit} :
    (c.ask timeoutS now).2 = false ↔
      c.state = .OPEN ∧ now - c.lastFailureTime < (timeoutS : ℚ) := by
  by_cases h : c.CooledDown timeoutS now
  · rw [ask_of_cooledDown h]
    exact iff_of_false (by simp) fun hr => absurd h.2 (not_le.mpr hr.2)
  · rw [ask_of_not_cooledDown h]
    constructor
    · intro hs
      have hopen : c.state = .OPEN := by simpa using hs
      exact ⟨hopen, not_le.mp fun ht => h ⟨hopen, ht⟩⟩
    · intro hr
      simp [hr.1]

end NodeCircuit

namespace CircuitBreaker

def init (failureThreshold timeoutS : Int) : CircuitBreaker where
  failureThreshold := failureThreshold
  timeoutS := timeoutS
  states := ∅

/-- `_get`; a circuit that a caller changes is stored back. -/
def get (cb : CircuitBreaker) (now : Time) (nodeId : String) : CircuitBreaker × NodeCircuit :=
  let found := cb.states.getOrCreate nodeId (NodeCircuit.init now nodeId)
  ({ cb with states := found.1 }, found.2)

def store (cb : CircuitBreaker) (nodeId : String) (c : NodeCircuit) : CircuitBreaker :=
  { cb with states := cb.states.set nodeId c }

def recordSuccess (cb : CircuitBreaker) (now : Time) (nodeId : String) : CircuitBreaker :=
  let found := cb.get now nodeId
  found.1.store nodeId (found.2.succeed now)

def recordFailure (cb : CircuitBreaker) (now : Time) (nodeId : String) : CircuitBreaker :=
  let found := cb.get now nodeId
  found.1.store nodeId (found.2.fail cb.failureThreshold now)

def isAvailable (cb : CircuitBreaker) (now : Time) (nodeId : String) : CircuitBreaker × Bool :=
  let found := cb.get now nodeId
  let asked := found.2.ask cb.timeoutS now
  (found.1.store nodeId asked.1, asked.2)

/-- A call into the breaker, with the reading of the clock it makes. -/
inductive Call
  | isAvailable (now : Time) (nodeId : String)
  | recordSuccess (now : Time) (nodeId : String)
  | recordFailure (now : Time) (nodeId : String)
  deriving DecidableEq

namespace Call

def node : Call → String
  | .isAvailable _ nodeId => nodeId
  | .recordSuccess _ nodeId => nodeId
  | .recordFailure _ nodeId => nodeId

def now : Call → Time
  | .isAvailable now _ => now
  | .recordSuccess now _ => now
  | .recordFailure now _ => now

/-- What a call does to the circuit of its node. -/
def act (failureThreshold timeoutS : Int) (c : NodeCircuit) : Call → NodeCircuit
  | .isAvailable now _ => (c.ask timeoutS now).1
  | .recordSuccess now _ => c.succeed now
  | .recordFailure now _ => c.fail failureThreshold now

end Call

def step (cb : CircuitBreaker) : Call → CircuitBreaker
  | .isAvailable now nodeId => (cb.isAvailable now nodeId).1
  | .recordSuccess now nodeId => cb.recordSuccess now nodeId
  | .recordFailure now nodeId => cb.recordFailure now nodeId

def run (cb : CircuitBreaker) (history : List Call) : CircuitBreaker := history.foldl step cb

/-- The circuit that a call on the node at `now` works on. -/
def circuit (cb : CircuitBreaker) (now : Time) (nodeId : String) : NodeCircuit :=
  (cb.states.get? nodeId).getD (NodeCircuit.init now nodeId)

/-- State and failure count of a node; a node without an entry is CLOSED without failures. -/
def view (cb : CircuitBreaker) (nodeId : String) : BreakerState × Nat :=
  match cb.states.get? nodeId with
  | none => (.CLOSED, 0)
  | some c => (c.state, c.failureCount)

theorem get_circuit (cb : CircuitBreaker) (now : Time) (nodeId : String) :
    (cb.get now nodeId).2 = cb.circuit now nodeId := Dict.getOrCreate_snd _ _ _

theorem get?_store_get (cb : CircuitBreaker) (now : Time) (nodeId : String) (c : NodeCircuit)
    (x : String) : ((cb.get now nodeId).1.store nodeId c).states.get? x =
      if x = nodeId then some c else cb.states.get? x :=
  Dict.get?_set_getOrCreate _ _ _ _ _

theorem isAvailable_answer (cb : CircuitBreaker) (now : Time) (nodeId : String) :
    (cb.isAvailable now nodeId).2 = ((cb.circuit now nodeId).ask cb.timeoutS now).2 := by
  rw [← get_circuit]
  rfl

/-- A call changes the circuit of its node, as that circuit demands, and no other. -/
theorem get?_step (cb : CircuitBreaker) (call : Call) (x : String) :
    (cb.step call).states.get? x =
      if x = call.node then
        some (call.act cb.failureThreshold cb.timeoutS (cb.circuit call.now call.node))
      else cb.states.get? x := by
  cases call with
  | isAvailable now nodeId =>
    rw [step, isAvailable, get?_store_get, get_circuit]
    rfl
  | recordSuccess now nodeId =>
    rw [step, recordSuccess, get?_store_get, get_circuit]
    rfl
  | recordFailure now nodeId =>
    rw [step, recordFailure, get?_store_get, get_circuit]
    rfl

@[simp] theorem step_failureThreshold (cb : CircuitBreaker) (call : Call) :
    (cb.step call).failureThreshold = cb.failureThreshold := by
  cases call <;> rfl

@[simp] theorem step_timeoutS (cb : CircuitBreaker) (call : Call) :
    (cb.step call).timeoutS = cb.timeoutS := by
  cases call <;> rfl

theorem run_config (cb : CircuitBreaker) (history : List Call) :
    (cb.run history).failureThreshold = cb.failureThreshold ∧
      (cb.run history).timeoutS = cb.timeoutS := by
  refine foldl_invariant (I := fun s : CircuitBreaker =>
    s.failureThreshold = cb.failureThreshold ∧ s.timeoutS = cb.timeoutS) ?_ history ⟨rfl, rfl⟩
  intro s call h
  rw [step_failureThreshold, step_timeoutS]
  exact h

theorem run_snoc (cb : CircuitBreaker) (past : List Call) (call : Call) :
    cb.run (past ++ [call]) = (cb.run past).step call := List.foldl_append

theorem run_append (cb : CircuitBreaker) (past rest : List Call) :
    cb.run (past ++ rest) = (cb.run past).run rest := List.foldl_append

theorem view_of_circuit {cb : CircuitBreaker} {nodeId : String} (now : Time) :
    cb.view nodeId = ((cb.circuit now nodeId).state, (cb.circuit now nodeId).failureCount) := by
  unfold view circuit
  cases cb.states.get? nodeId <;> rfl

theorem view_congr {cb cb' : CircuitBreaker} {nodeId : String}
    (h : cb'.states.get? nodeId = cb.states.get? nodeId) : cb'.view nodeId = cb.view nodeId := by
  rw [view, h, view]

theorem view_step_other {cb : CircuitBreaker} {call : Call} {nodeId : String}
    (h : nodeId ≠ call.node) : (cb.step call).view nodeId = cb.view nodeId := by
  apply view_congr
  rw [get?_step, if_neg h]

theorem view_step_self (cb : CircuitBreaker) (call : Call) :
    (cb.step call).view call.node =
      ((call.act cb.failureThreshold cb.timeoutS (cb.circuit call.now call.node)).state,
        (call.act cb.failureThreshold cb.timeoutS
          (cb.circuit call.now call.node)).failureCount) := by
  rw [view, get?_step, if_pos rfl]

theorem step_circuit_other {cb : CircuitBreaker} {call : Call} {nodeId : String}
    (h : nodeId ≠ call.node) (t : Time) :
    (cb.step call).circuit t nodeId = cb.circuit t nodeId := by
  rw [circuit, get?_step, if_neg h, circuit]

theorem step_circuit_self (cb : CircuitBreaker) (call : Call) (t : Time) :
    (cb.step call).circuit t call.node =
      call.act cb.failureThreshold cb.timeoutS (cb.circuit call.now call.node) := by
  rw [circuit, get?_step, if_pos rfl, Option.getD_some]

/-- What a call on any node does to the circuit of one node. -/
def circuitStep (failureThreshold timeoutS : Int) (nodeId : String) (c : Option NodeCircuit)
    (call : Call) : Option NodeCircuit :=
  if nodeId = call.node then
    some (call.act failureThreshold timeoutS (c.getD (NodeCircuit.init call.now nodeId)))
  else c

/-- Every circuit runs on its own. -/
theorem get?_run (cb : CircuitBreaker) (history : List Call) (x : String) :
    (cb.run history).states.get? x =
      history.foldl (circuitStep cb.failureThreshold cb.timeoutS x) (cb.states.get? x) := by
  refine foldl_history (I := fun past (s : CircuitBreaker) => s.states.get? x =
    past.foldl (circuitStep cb.failureThreshold cb.timeoutS x) (cb.states.get? x)) rfl ?_ history
  intro past call ih
  obtain ⟨hthreshold, htimeout⟩ := run_config cb past
  change (cb.run past).states.get? x = _ at ih
  change ((cb.run past).step call).states.get? x = _
  rw [get?_step, hthreshold, htimeout, List.foldl_append, List.foldl_cons, List.foldl_nil, ← ih]
  unfold circuitStep circuit
  by_cases hx : x = call.node
  · rw [if_pos hx, if_pos hx, ← hx]
  · rw [if_neg hx, if_neg hx]

end CircuitBreaker

end SelfHealingCache
