import SelfHealingCache.Gateway
import SelfHealingCache.BreakerProbes

namespace SelfHealingCache

namespace CircuitBreaker

/-- Calls on other nodes and a first question do not change the answer to the next question. -/
theorem isAvailable_again (cb : CircuitBreaker) (now : Time) (m n : String) :
    ((cb.isAvailable now m).1.isAvailable now n).2 = (cb.isAvailable now n).2 := by
  have hstep := get?_step cb (.isAvailable now m) n
  change (((cb.step (.isAvailable now m)).isAvailable now n).2) = _
  rw [isAvailable_answer, isAvailable_answer, circuit, hstep, step_timeoutS]
  by_cases hn : n = m
  · subst hn
    rw [if_pos (by rfl), Option.getD_some]
    change ((NodeCircuit.ask cb.timeoutS now (cb.circuit now n)).1.ask cb.timeoutS now).2 =
      (NodeCircuit.ask cb.timeoutS now (cb.circuit now n)).2
    by_cases hc : cb.CooledDown now n
    · rw [NodeCircuit.ask_of_cooledDown hc]
      rfl
    · rw [NodeCircuit.ask_of_not_cooledDown hc, NodeCircuit.ask_of_not_cooledDown hc]
  · rw [if_neg (by exact hn)]
    rfl

/-- A cooled down circuit answers with yes. -/
theorem CooledDown.available {cb : CircuitBreaker} {now : Time} {n : String}
    (h : cb.CooledDown now n) : (cb.isAvailable now n).2 = true := by
  rw [isAvailable_answer, NodeCircuit.ask_of_cooledDown h]

theorem cooledDown_step_other {cb : CircuitBreaker} {call : Call} {now : Time} {n : String}
    (h : n ≠ call.node) : (cb.step call).CooledDown now n ↔ cb.CooledDown now n := by
  rw [CooledDown, CooledDown, circuit, get?_step, if_neg h, step_timeoutS]
  rfl

end CircuitBreaker

open CircuitBreaker in
/-- The list comprehension of `get_key`: which replicas it keeps, and what it does to the
breaker. -/
theorem availableReplicas_eq (cb : CircuitBreaker) (now : Time) (replicas : List String) :
    availableReplicas cb now replicas =
      (cb.run (replicas.map (.isAvailable now)),
        replicas.filter fun n => (cb.isAvailable now n).2) := by
  induction replicas generalizing cb with
  | nil => rfl
  | cons m replicas ih =>
    have hsame : replicas.filter (fun n => ((cb.isAvailable now m).1.isAvailable now n).2) =
        replicas.filter fun n => (cb.isAvailable now n).2 :=
      List.filter_congr fun n _ => isAvailable_again cb now m n
    rw [availableReplicas, ih, hsame, List.filter_cons]
    rfl

/-- The questions of `get_key` start a probe of every cooled down replica, and change no other
circuit. -/
theorem view_availableReplicas (cb : CircuitBreaker) (now : Time) (replicas : List String)
    (n : String) : (availableReplicas cb now replicas).1.view n =
      if n ∈ replicas ∧ cb.CooledDown now n then (.HALF_OPEN, 0) else cb.view n := by
  rw [availableReplicas_eq]
  induction replicas generalizing cb with
  | nil =>
    rw [if_neg (by simp)]
    rfl
  | cons m replicas ih =>
    change ((cb.step (.isAvailable now m)).run (replicas.map (.isAvailable now))).view n = _
    have hrest := ih (cb.step (.isAvailable now m))
    dsimp only at hrest
    rw [hrest]
    by_cases hn : n = m
    · subst hn
      have hview := CircuitBreaker.view_ask cb now n
      by_cases hc : cb.CooledDown now n
      · rw [if_pos hc] at hview
        rw [hview, ite_self, if_pos ⟨List.mem_cons_self, hc⟩]
      · rw [if_neg hc] at hview
        have hcool : ¬(cb.step (.isAvailable now n)).CooledDown now n := by
          have hask := CircuitBreaker.get?_step cb (.isAvailable now n) n
          rw [if_pos (by rfl)] at hask
          rw [CircuitBreaker.CooledDown, CircuitBreaker.circuit, hask, Option.getD_some,
            CircuitBreaker.step_timeoutS]
          change ¬(NodeCircuit.ask cb.timeoutS now (cb.circuit now n)).1.CooledDown _ _
          rw [NodeCircuit.ask_of_not_cooledDown hc]
          exact hc
        rw [if_neg fun h => hcool h.2, if_neg fun h => hc h.2, hview]
    · have hother : n ≠ (CircuitBreaker.Call.isAvailable now m).node := hn
      rw [CircuitBreaker.view_step_other hother]
      congr 1
      rw [CircuitBreaker.cooledDown_step_other hother, List.mem_cons, eq_iff_iff]
      simp [hn]

namespace Gateway

/-- A node is registered in the cluster. -/
def Registered (g : Gateway) (nodeId : String) : Prop :=
  nodeId ∈ g.clusterManager.nodes.keys

instance (g : Gateway) (nodeId : String) : Decidable (g.Registered nodeId) :=
  inferInstanceAs (Decidable (nodeId ∈ g.clusterManager.nodes.keys))

/-- The state in which a call is pending. -/
def await (g : Gateway) (call : PendingCall) : Gateway := { g with pending := g.pending ++ [call] }

/-- A call is sent exactly to a registered node. -/
theorem send_of_registered {g : Gateway} (call : PendingCall) (h : g.Registered call.nodeId)
    (method : Method) (body : Option Json) :
    ∃ request, g.send call method body = (g.await call, .ok (call, request)) := by
  obtain ⟨node, hnode⟩ := Dict.mem_keys_iff.mp h
  unfold send callNodeStart ClusterManager.getNodeInfo
  rw [hnode]
  exact ⟨_, rfl⟩

theorem send_of_not_registered {g : Gateway} (call : PendingCall) (h : ¬g.Registered call.nodeId)
    (method : Method) (body : Option Json) : g.send call method body =
      (g, .error ⟨503, "Node " ++ call.nodeId ++ " not found"⟩) := by
  have hnode : g.clusterManager.nodes.get? call.nodeId = none := Dict.get?_eq_none.mpr h
  unfold send callNodeStart ClusterManager.getNodeInfo
  rw [hnode]

theorem send_fields (g : Gateway) (call : PendingCall) (method : Method) (body : Option Json) :
    (g.send call method body).1.clusterManager = g.clusterManager ∧
    (g.send call method body).1.circuitBreaker = g.circuitBreaker ∧
    (g.send call method body).1.zoneRouter = g.zoneRouter := by
  rw [send]
  split
  next => exact ⟨rfl, rfl, rfl⟩
  next => exact ⟨rfl, rfl, rfl⟩

section steps

variable (_hash : String → Nat)

/-- The replicas of a key. -/
def replicas (g : Gateway) (key : String) : List String :=
  g.clusterManager.getReplicasForKey _hash key

/-- The replicas that `get_key` chooses from. -/
def choices (g : Gateway) (now : Time) (key : String) : List String :=
  (g.replicas _hash key).filter fun n => (g.circuitBreaker.isAvailable now n).2

/-- The state of the gateway once `get_key` has asked for every replica. -/
def asked (g : Gateway) (now : Time) (key : String) : Gateway :=
  { g with circuitBreaker := (availableReplicas g.circuitBreaker now (g.replicas _hash key)).1 }

/-- `get_key` refuses, or it calls the preferred one of the available replicas. -/
theorem getKey_cases (g : Gateway) (now : Time) (key : String) (xClientZone : Option String) :
    (g.choices _hash now key = [] ∧
      ∃ e : HTTPException, e.statusCode = 503 ∧
        g.getKey _hash now key xClientZone = (g.asked _hash now key, .error e)) ∨
    ∃ n, g.choices _hash now key ≠ [] ∧
      g.zoneRouter.Preferred (g.choices _hash now key) n ∧
      g.getKey _hash now key xClientZone =
        (g.asked _hash now key).send ⟨.getKey, n, key, xClientZone⟩ .GET none := by
  unfold getKey choices asked replicas
  split
  next h =>
    rw [h]
    exact Or.inl ⟨rfl, _, rfl, rfl⟩
  next primary rest h =>
    have hkeep : (availableReplicas g.circuitBreaker now (primary :: rest)).2 =
        (primary :: rest).filter fun n => (g.circuitBreaker.isAvailable now n).2 := by
      rw [availableReplicas_eq]
    rw [h]
    dsimp only
    rw [hkeep]
    by_cases hnone : ((primary :: rest).filter fun n =>
        (g.circuitBreaker.isAvailable now n).2) = []
    · rw [if_pos hnone]
      exact Or.inl ⟨hnone, _, rfl, rfl⟩
    · rw [if_neg hnone]
      obtain ⟨n, hn, _⟩ := g.zoneRouter.exists_preferred hnone xClientZone primary
      rw [hn]
      exact Or.inr ⟨n, hnone, (ZoneRouter.pickReplica_iff hnone).mp hn, rfl⟩

/-- The primary of a key, as the write path sees it. -/
def primary (g : Gateway) (key : String) : String :=
  (g.clusterManager.getNodeForKey _hash key).getD ""

/-- The calls into the breaker that an event makes. -/
def breakerCalls (g : Gateway) : Event → List CircuitBreaker.Call
  | .failureDetection scannedAt now =>
    (g.clusterManager.checkHeartbeatTimeouts _hash scannedAt).2.flatMap fun n =>
      List.replicate g.circuitBreaker.failureThreshold.toNat (.recordFailure now n)
  | .getKey now key _ => (g.replicas _hash key).map (.isAvailable now)
  | .putKey now key _ _ | .deleteKey now key =>
    if g.primary _hash key = "" then [] else [.isAvailable now (g.primary _hash key)]
  | .reply now call (.response resp) =>
    [if 500 ≤ resp.statusCode then .recordFailure now call.nodeId
      else .recordSuccess now call.nodeId]
  | .reply now call (.error e) =>
    if e = .ConnectError ∨ e.TimeoutException then [.recordFailure now call.nodeId] else []
  | _ => []

theorem callPrimary_breaker (g : Gateway) (now : Time) (handler : Handler) (method : Method)
    (key : String) (xClientZone : Option String) (body : Option Json) :
    (g.callPrimary _hash now handler method key xClientZone body).1.clusterManager =
      g.clusterManager ∧
    (g.callPrimary _hash now handler method key xClientZone body).1.circuitBreaker =
      g.circuitBreaker.run
        (if g.primary _hash key = "" then [] else [.isAvailable now (g.primary _hash key)]) := by
  unfold callPrimary primary
  dsimp only
  split
  next => exact ⟨rfl, rfl⟩
  next =>
    split
    next =>
      obtain ⟨hcm, hcb, _⟩ := send_fields { g with circuitBreaker := _ } _ _ _
      exact ⟨hcm, hcb⟩
    next => exact ⟨rfl, rfl⟩

theorem getKey_breaker (g : Gateway) (now : Time) (key : String) (xClientZone : Option String) :
    (g.getKey _hash now key xClientZone).1.clusterManager = g.clusterManager ∧
    (g.getKey _hash now key xClientZone).1.circuitBreaker =
      g.circuitBreaker.run ((g.replicas _hash key).map (.isAvailable now)) := by
  have hasked : (g.asked _hash now key).circuitBreaker =
      g.circuitBreaker.run ((g.replicas _hash key).map (.isAvailable now)) := by
    rw [asked, availableReplicas_eq]
  rw [← hasked]
  rcases getKey_cases _hash g now key xClientZone with ⟨_, e, _, h⟩ | ⟨n, _, _, h⟩
  · rw [h]
    exact ⟨rfl, rfl⟩
  · rw [h]
    obtain ⟨hcm, hcb, _⟩ := send_fields (g.asked _hash now key) ⟨.getKey, n, key, xClientZone⟩
      .GET none
    exact ⟨hcm, hcb⟩

theorem callNodeFinish_breaker (cb : CircuitBreaker) (now : Time) (nodeId : String)
    (outcome : Outcome) : (callNodeFinish cb now nodeId outcome).1 =
      cb.run (match outcome with
        | .response resp =>
          [if 500 ≤ resp.statusCode then .recordFailure now nodeId
            else .recordSuccess now nodeId]
        | .error e =>
          if e = .ConnectError ∨ e.TimeoutException then [.recordFailure now nodeId] else []) := by
  cases outcome with
  | response resp =>
    change (if 500 ≤ resp.statusCode then _ else _) = _
    dsimp only
    split
    next => rfl
    next => rfl
  | error e =>
    rw [callNodeFinish]
    dsimp only
    split
    next => rfl
    next => rfl

/-- The end of a call touches no other circuit. -/
theorem view_callNodeFinish {cb : CircuitBreaker} {now : Time} {nodeId n : String}
    (h : n ≠ nodeId) (outcome : Outcome) :
    (callNodeFinish cb now nodeId outcome).1.view n = cb.view n := by
  have hfailed : (cb.step (.recordFailure now nodeId)).view n = cb.view n :=
    CircuitBreaker.view_step_other h
  have hsucceeded : (cb.step (.recordSuccess now nodeId)).view n = cb.view n :=
    CircuitBreaker.view_step_other h
  cases outcome with
  | response resp =>
    unfold callNodeFinish
    dsimp only
    split
    next => exact hfailed
    next => exact hsucceeded
  | error e =>
    unfold callNodeFinish
    dsimp only
    split
    next => exact hfailed
    next => rfl

theorem reply_fields (g : Gateway) (now : Time) (call : PendingCall) (outcome : Outcome) :
    (g.reply now call outcome).1.clusterManager = g.clusterManager ∧
    (g.reply now call outcome).1.circuitBreaker =
      (callNodeFinish g.circuitBreaker now call.nodeId outcome).1 ∧
    (g.reply now call outcome).1.pending = g.pending.erase call := by
  unfold reply
  dsimp only
  split
  next => exact ⟨rfl, rfl, rfl⟩
  next =>
    split
    next => exact ⟨rfl, rfl, rfl⟩
    next => exact ⟨rfl, rfl, rfl⟩
    next => exact ⟨rfl, rfl, rfl⟩

theorem failure_detection_breaker (cb : CircuitBreaker) (now : Time) (threshold : Nat)
    (newlyDead : List String) :
    newlyDead.foldl (fun cb n => (List.range threshold).foldl
        (fun cb _ => cb.recordFailure now n) cb) cb =
      cb.run (newlyDead.flatMap fun n => List.replicate threshold (.recordFailure now n)) := by
  have hone : ∀ (n : String) (cb : CircuitBreaker), (List.range threshold).foldl
      (fun cb _ => cb.recordFailure now n) cb =
        cb.run (List.replicate threshold (.recordFailure now n)) := by
    intro n cb
    have hrange : List.replicate threshold (CircuitBreaker.Call.recordFailure now n) =
        (List.range threshold).map fun _ => .recordFailure now n := by
      rw [List.map_const', List.length_range]
    rw [CircuitBreaker.run, hrange, List.foldl_map]
    rfl
  induction newlyDead generalizing cb with
  | nil => rfl
  | cons n newlyDead ih =>
    rw [List.foldl_cons, ih, hone, List.flatMap_cons, CircuitBreaker.run_append]

/-- The breaker of the gateway runs by the calls that its events make. -/
theorem step_breaker {g g' : Gateway} {event : Event} (h : g.step _hash event = some g') :
    g'.circuitBreaker = g.circuitBreaker.run (g.breakerCalls _hash event) := by
  cases event with
  | heartbeat registeredAt now payload =>
    cases Option.some.inj h
    rfl
  | registerNode now nodeId host port zone cacheCapacity =>
    cases Option.some.inj h
    rfl
  | failureDetection scannedAt now =>
    cases Option.some.inj h
    exact failure_detection_breaker g.circuitBreaker now _ _
  | healthCheck now =>
    cases Option.some.inj h
    rfl
  | updateLatency nodeId latencyMs =>
    cases Option.some.inj h
    rfl
  | cleanupExpiredPins now =>
    cases Option.some.inj h
    rfl
  | getKey now key xClientZone =>
    cases Option.some.inj h
    exact (getKey_breaker _hash g now key xClientZone).2
  | putKey now key request xClientZone =>
    cases Option.some.inj h
    exact (callPrimary_breaker _hash g now _ _ key xClientZone _).2
  | deleteKey now key =>
    cases Option.some.inj h
    exact (callPrimary_breaker _hash g now _ _ key none none).2
  | reply now call outcome =>
    rw [step] at h
    split at h
    next =>
      cases Option.some.inj h
      rw [(reply_fields g now call outcome).2.1, callNodeFinish_breaker]
      cases outcome <;> rfl
    next => cases h

/-- Threshold and cooldown never change. -/
theorem runs_config {g g' : Gateway} {events : List Event}
    (h : runs (step _hash) g events = some g') :
    g'.circuitBreaker.failureThreshold = g.circuitBreaker.failureThreshold ∧
      g'.circuitBreaker.timeoutS = g.circuitBreaker.timeoutS := by
  refine runs_history (I := fun _ (s : Gateway) =>
    s.circuitBreaker.failureThreshold = g.circuitBreaker.failureThreshold ∧
      s.circuitBreaker.timeoutS = g.circuitBreaker.timeoutS) ⟨rfl, rfl⟩ ?_ h
  intro past event rest mid s' _ _ hmid hstep
  obtain ⟨hthreshold, htimeout⟩ := CircuitBreaker.run_config mid.circuitBreaker
    (mid.breakerCalls _hash event)
  rw [step_breaker _hash hstep, hthreshold, htimeout]
  exact hmid

/-- The cluster manager runs by its own events. -/
theorem step_cluster {g g' : Gateway} {event : Event} (h : g.step _hash event = some g') :
    g'.clusterManager = g.clusterManager ∨
      ∃ e : ClusterManager.Event, g'.clusterManager = g.clusterManager.step _hash e := by
  cases event with
  | heartbeat registeredAt now payload =>
    cases Option.some.inj h
    exact Or.inr ⟨.heartbeat registeredAt now payload, rfl⟩
  | registerNode now nodeId host port zone cacheCapacity =>
    cases Option.some.inj h
    exact Or.inr ⟨.registerNode now nodeId host port zone cacheCapacity, rfl⟩
  | failureDetection scannedAt now =>
    cases Option.some.inj h
    exact Or.inr ⟨.checkHeartbeatTimeouts scannedAt, rfl⟩
  | healthCheck now =>
    cases Option.some.inj h
    exact Or.inr ⟨.checkHeartbeatTimeouts now, rfl⟩
  | updateLatency nodeId latencyMs =>
    cases Option.some.inj h
    exact Or.inl rfl
  | cleanupExpiredPins now =>
    cases Option.some.inj h
    exact Or.inl rfl
  | getKey now key xClientZone =>
    cases Option.some.inj h
    exact Or.inl (getKey_breaker _hash g now key xClientZone).1
  | putKey now key request xClientZone =>
    cases Option.some.inj h
    exact Or.inl (callPrimary_breaker _hash g now _ _ key xClientZone _).1
  | deleteKey now key =>
    cases Option.some.inj h
    exact Or.inl (callPrimary_breaker _hash g now _ _ key none none).1
  | reply now call outcome =>
    rw [step] at h
    split at h
    next =>
      cases Option.some.inj h
      exact Or.inl (reply_fields g now call outcome).1
    next => cases h

/-- In every state of a run the nodes of the ring are registered. -/
theorem routingInv_runs {g g' : Gateway} {events : List Event}
    (hg : g.clusterManager.RoutingInv) (h : runs (step _hash) g events = some g') :
    g'.clusterManager.RoutingInv := by
  refine runs_history (I := fun _ (s : Gateway) => s.clusterManager.RoutingInv) hg ?_ h
  intro past event rest mid s' _ _ hmid hstep
  rcases step_cluster _hash hstep with hsame | ⟨e, he⟩
  · rw [hsame]
    exact hmid
  · rw [he]
    exact ClusterManager.routingInv_step _hash hmid e

theorem registered_of_replica {g : Gateway} (hg : g.clusterManager.RoutingInv) {key n : String}
    (hn : n ∈ g.replicas _hash key) : g.Registered n := by
  have hring := ClusterManager.getReplicasForKey_mem _hash hn
  rcases hg.routed n hring with ⟨node, hnode, _⟩ | ⟨node, hnode, _⟩
  · exact Dict.mem_keys_iff.mpr ⟨node, hnode⟩
  · exact Dict.mem_keys_iff.mpr ⟨node, hnode⟩

end steps

end Gateway

end SelfHealingCache
