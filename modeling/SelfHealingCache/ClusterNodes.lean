import SelfHealingCache.ClusterRouting

namespace SelfHealingCache

namespace ClusterManager

variable (_hash : String → Nat)

/-- The record a registration stores. -/
def registered (now : Time) (nodeId host : String) (port : Int) (zone : String) : NodeMetadata :=
  { nodeId := nodeId, host := host, port := port, zone := zone, lastHeartbeat := now }

theorem get?_registerNode (cm : ClusterManager) (now : Time) (nodeId host : String) (port : Int)
    (zone : String) (cacheCapacity : Int) (x : String) :
    (cm.registerNode _hash now nodeId host port zone cacheCapacity).nodes.get? x =
      if x = nodeId then some (registered now nodeId host port zone) else cm.nodes.get? x :=
  Dict.get?_set cm.nodes nodeId x _

theorem get?_deregisterNode (cm : ClusterManager) (now : Time) (nodeId x : String) :
    (cm.deregisterNode _hash now nodeId).nodes.get? x =
      if x = nodeId then none else cm.nodes.get? x := by
  unfold deregisterNode
  split
  next h =>
    by_cases hx : x = nodeId
    · rw [if_pos hx, hx, h]
    · rw [if_neg hx]
  next => exact Dict.get?_erase cm.nodes nodeId x

theorem processHeartbeat_known {cm : ClusterManager} {nodeId : String} {node : NodeMetadata}
    (h : cm.nodes.get? nodeId = some node) (now : Time) (metrics : HeartbeatMetrics) :
    (cm.processHeartbeat _hash now nodeId metrics).nodes =
        cm.nodes.set nodeId (node.receive now metrics) ∧
      (cm.processHeartbeat _hash now nodeId metrics).heartbeatTimeoutS =
        cm.heartbeatTimeoutS := by
  unfold processHeartbeat
  rw [h]
  dsimp only
  split <;> split <;> exact ⟨rfl, rfl⟩

theorem processHeartbeat_unknown {cm : ClusterManager} {nodeId : String}
    (h : cm.nodes.get? nodeId = none) (now : Time) (metrics : HeartbeatMetrics) :
    cm.processHeartbeat _hash now nodeId metrics = cm := by
  unfold processHeartbeat
  rw [h]

theorem get?_processHeartbeat (cm : ClusterManager) (now : Time) (nodeId : String)
    (metrics : HeartbeatMetrics) (x : String) :
    (cm.processHeartbeat _hash now nodeId metrics).nodes.get? x =
      if x = nodeId then (cm.nodes.get? nodeId).map (NodeMetadata.receive now metrics)
      else cm.nodes.get? x := by
  cases h : cm.nodes.get? nodeId with
  | none =>
    rw [processHeartbeat_unknown _hash h]
    by_cases hx : x = nodeId
    · rw [if_pos hx, hx, h]
      rfl
    · rw [if_neg hx]
  | some node =>
    rw [(processHeartbeat_known _hash h now metrics).1, Dict.get?_set]
    rfl

/-- The record the heartbeat endpoint hands to `process_heartbeat`. -/
def contacted (registeredAt : Time) (payload : HeartbeatPayload) :
    Option NodeMetadata → NodeMetadata
  | none => registered registeredAt payload.nodeId payload.host payload.port payload.zone
  | some node => { node with host := payload.host, port := payload.port }

def payloadMetrics (payload : HeartbeatPayload) : HeartbeatMetrics :=
  { memoryBytes := some payload.memoryBytes, cacheSize := some payload.cacheSize,
    hitRatio := some payload.hitRatio, uptimeS := some payload.uptimeS }

theorem get?_heartbeat (cm : ClusterManager) (registeredAt now : Time)
    (payload : HeartbeatPayload) (x : String) :
    (cm.heartbeat _hash registeredAt now payload).nodes.get? x =
      if x = payload.nodeId then
        some ((contacted registeredAt payload (cm.nodes.get? payload.nodeId)).receive now
          (payloadMetrics payload))
      else cm.nodes.get? x := by
  unfold heartbeat
  rw [get?_processHeartbeat]
  by_cases hx : x = payload.nodeId
  · rw [if_pos hx, if_pos hx]
    split
    next h =>
      rw [get?_registerNode, if_pos rfl, h]
      rfl
    next node h =>
      by_cases hc : node.host ≠ payload.host ∨ node.port ≠ payload.port
      · rw [if_pos hc, Dict.get?_set_self, h]
        rfl
      · rw [if_neg hc, h]
        simp only [not_or, not_not] at hc
        rw [contacted, ← hc.1, ← hc.2]
        rfl
  · rw [if_neg hx, if_neg hx]
    split
    next h => rw [get?_registerNode, if_neg hx]
    next node h =>
      split
      next => rw [Dict.get?_set, if_neg hx]
      next => rfl

theorem scanNode_timeout (now : Time) (acc : ClusterManager × List String) (nodeId : String) :
    (scanNode _hash now acc nodeId).1.heartbeatTimeoutS = acc.1.heartbeatTimeoutS := by
  unfold scanNode
  split
  next => rfl
  next node _ =>
    split
    next =>
      dsimp only
      split
      next => rfl
      next => split <;> rfl
    next => rfl

theorem get?_scanNode (now : Time) (acc : ClusterManager × List String) (nodeId x : String) :
    (scanNode _hash now acc nodeId).1.nodes.get? x =
      if x = nodeId then
        (acc.1.nodes.get? nodeId).map (NodeMetadata.scan acc.1.heartbeatTimeoutS now)
      else acc.1.nodes.get? x := by
  unfold scanNode
  split
  next h =>
    by_cases hx : x = nodeId
    · rw [if_pos hx, hx, h]
      rfl
    · rw [if_neg hx]
  next node h =>
    rw [h, Option.map_some]
    by_cases hm : node.Missed acc.1.heartbeatTimeoutS now
    · have hset := Dict.get?_set acc.1.nodes nodeId x (node.scan acc.1.heartbeatTimeoutS now)
      rw [if_pos hm, ← hset]
      dsimp only
      split
      next => rfl
      next => split <;> rfl
    · have hscan : node.scan acc.1.heartbeatTimeoutS now = node := if_neg hm
      rw [if_neg hm, hscan]
      by_cases hx : x = nodeId
      · rw [if_pos hx, hx, h]
      · rw [if_neg hx]

theorem get?_scan_fold (now : Time) {keys : List String} (hk : keys.Nodup)
    (acc : ClusterManager × List String) (x : String) :
    (keys.foldl (scanNode _hash now) acc).1.nodes.get? x =
      if x ∈ keys then (acc.1.nodes.get? x).map (NodeMetadata.scan acc.1.heartbeatTimeoutS now)
      else acc.1.nodes.get? x := by
  induction keys generalizing acc with
  | nil => rfl
  | cons k keys ih =>
    obtain ⟨hnk, hk⟩ := List.nodup_cons.mp hk
    rw [List.foldl_cons, ih hk, get?_scanNode, scanNode_timeout]
    by_cases hx : x = k
    · subst hx
      rw [if_neg hnk, if_pos rfl, if_pos List.mem_cons_self]
    · simp only [hx, ↓reduceIte, List.mem_cons, false_or]

/-- One scan updates every record on its own, whatever the iteration order. -/
theorem get?_checkHeartbeatTimeouts (cm : ClusterManager) (now : Time) (x : String) :
    (cm.checkHeartbeatTimeouts _hash now).1.nodes.get? x =
      (cm.nodes.get? x).map (NodeMetadata.scan cm.heartbeatTimeoutS now) := by
  rw [checkHeartbeatTimeouts, get?_scan_fold _hash now cm.nodes.keys_nodup]
  by_cases hx : x ∈ cm.nodes.keys
  · rw [if_pos hx]
  · rw [if_neg hx, Dict.get?_eq_none.mpr hx]
    rfl

theorem step_timeout (cm : ClusterManager) (event : Event) :
    (cm.step _hash event).heartbeatTimeoutS = cm.heartbeatTimeoutS := by
  have hp : ∀ (cm : ClusterManager) now nodeId metrics,
      (cm.processHeartbeat _hash now nodeId metrics).heartbeatTimeoutS =
        cm.heartbeatTimeoutS := by
    intro cm now nodeId metrics
    cases h : cm.nodes.get? nodeId with
    | none => rw [processHeartbeat_unknown _hash h]
    | some node => exact (processHeartbeat_known _hash h now metrics).2
  cases event with
  | registerNode now nodeId host port zone cacheCapacity => rfl
  | deregisterNode now nodeId =>
    simp only [step, deregisterNode]
    split <;> rfl
  | processHeartbeat now nodeId metrics => exact hp cm now nodeId metrics
  | heartbeat registeredAt now payload =>
    rw [step, heartbeat, hp]
    split
    next => rfl
    next => split <;> rfl
  | checkHeartbeatTimeouts now =>
    exact foldl_invariant
      (I := fun acc : ClusterManager × List String => acc.1.heartbeatTimeoutS = _)
      (fun acc nodeId h => (scanNode_timeout _hash now acc nodeId).trans h) _ rfl

theorem run_timeout (cm : ClusterManager) (history : List Event) :
    (cm.run _hash history).heartbeatTimeoutS = cm.heartbeatTimeoutS :=
  foldl_invariant (I := fun s : ClusterManager => s.heartbeatTimeoutS = cm.heartbeatTimeoutS)
    (fun s event h => (step_timeout _hash s event).trans h) history rfl

end ClusterManager

end SelfHealingCache
