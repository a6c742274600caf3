import SelfHealingCache.ClusterFailover
import SelfHealingCache.ClusterStats
import SelfHealingCache.GatewayReads
import SelfHealingCache.GatewayStaleness

namespace SelfHealingCache

/-- `models.HealthResponse`. -/
structure HealthResponse where
  status : String
  clusterSize : Nat
  aliveNodes : Nat
  uptimeS : Int
  deriving DecidableEq

/-- The answer of `GET /status`. -/
structure GatewayStatus where
  status : String
  clusterStats : ClusterStats
  circuitBreakers : Nat

/-- `GET /api/cluster/health`. -/
def ClusterManager.health (cm : ClusterManager) : HealthResponse :=
  let stats := cm.getClusterStats
  { status := if 0 < stats.aliveNodes then "healthy" else "degraded"
    clusterSize := stats.totalNodes
    aliveNodes := stats.aliveNodes
    uptimeS := 0 }

/-- `GET /status`. -/
def Gateway.status (g : Gateway) : GatewayStatus :=
  let stats := g.clusterManager.getClusterStats
  { status := if 0 < stats.aliveNodes then "healthy" else "degraded"
    clusterStats := stats
    circuitBreakers := g.circuitBreaker.states.size }

namespace CircuitBreaker

/-- The circuit is OPEN and its cooldown has not elapsed. -/
def Blocked (cb : CircuitBreaker) (now : Time) (nodeId : String) : Prop :=
  (cb.circuit now nodeId).state = .OPEN ∧
    now - (cb.circuit now nodeId).lastFailureTime < (cb.timeoutS : ℚ)

instance (cb : CircuitBreaker) (now : Time) (nodeId : String) :
    Decidable (cb.Blocked now nodeId) :=
  inferInstanceAs (Decidable ((cb.circuit now nodeId).state = .OPEN ∧
    now - (cb.circuit now nodeId).lastFailureTime < (cb.timeoutS : ℚ)))

theorem isAvailable_eq_false {cb : CircuitBreaker} {now : Time} {nodeId : String} :
    (cb.isAvailable now nodeId).2 = false ↔ cb.Blocked now nodeId := by
  rw [isAvailable_answer, NodeCircuit.ask_refused_iff]
  rfl

end CircuitBreaker

namespace ClusterManager

theorem healthy_iff {cm : ClusterManager} :
    cm.health.status = "healthy" ↔ ∃ n, cm.HasStatus n .ALIVE := by
  have hpos : 0 < cm.getClusterStats.aliveNodes ↔ ∃ n, cm.HasStatus n .ALIVE := by
    change 0 < cm.nodes.values.countP (fun n => n.status = .ALIVE) ↔ _
    rw [List.countP_pos_iff]
    constructor
    · intro ⟨node, hnode, halive⟩
      obtain ⟨n, hn⟩ := Dict.mem_values_iff.mp hnode
      exact ⟨n, node, hn, of_decide_eq_true halive⟩
    · intro ⟨n, node, hn, halive⟩
      exact ⟨node, Dict.mem_values_iff.mpr ⟨n, hn⟩, decide_eq_true halive⟩
  rw [← hpos, health]
  dsimp only
  split
  next h => exact iff_of_true rfl h
  next h => exact iff_of_false (by decide) h

end ClusterManager

namespace Gateway

variable (_hash : String → Nat)

/-- Why a read is refused without a call. -/
def readRefusal (g : Gateway) (now : Time) (key : String) : Option HTTPException :=
  if g.replicas _hash key = [] then some ⟨503, "No nodes available"⟩
  else if ∀ n ∈ g.replicas _hash key, g.circuitBreaker.Blocked now n then
    some ⟨503, "All replicas unavailable"⟩
  else none

/-- Why a write is refused without a call; a primary with the empty id counts as none. -/
def writeRefusal (g : Gateway) (now : Time) (key : String) : Option HTTPException :=
  match g.clusterManager.getNodeForKey _hash key with
  | none => some ⟨503, "No nodes available"⟩
  | some primary =>
    if primary = "" then some ⟨503, "No nodes available"⟩
    else if g.circuitBreaker.Blocked now primary then some ⟨503, "Primary node unavailable"⟩
    else none

/-- The call of a registered node is made; `call_node` never answers that it was not found. -/
theorem send_ne_error {g : Gateway} {call : PendingCall} (h : g.Registered call.nodeId)
    (method : Method) (body : Option Json) (e : HTTPException) :
    (g.send call method body).2 ≠ .error e := by
  obtain ⟨request, hsend⟩ := send_of_registered call h method body
  rw [hsend]
  exact fun heq => by cases heq

theorem choices_blocked {g : Gateway} {now : Time} {key : String} :
    g.choices _hash now key = [] ↔
      ∀ n ∈ g.replicas _hash key, g.circuitBreaker.Blocked now n := by
  rw [choices_eq_nil]
  exact forall₂_congr fun n _ => CircuitBreaker.isAvailable_eq_false

theorem getKey_refused {g : Gateway} (hg : g.clusterManager.RoutingInv) (now : Time)
    (key : String) (xClientZone : Option String) (e : HTTPException) :
    (g.getKey _hash now key xClientZone).2 = .error e ↔
      g.readRefusal _hash now key = some e := by
  unfold readRefusal
  by_cases hnone : g.replicas _hash key = []
  · rw [if_pos hnone, getKey]
    rw [replicas] at hnone
    rw [hnone]
    exact ⟨fun h => by cases h; rfl, fun h => by cases h; rfl⟩
  · rw [if_neg hnone]
    by_cases hchoices : g.choices _hash now key = []
    · rw [if_pos ((choices_blocked _hash).mp hchoices), getKey]
      obtain ⟨primary, rest, hreplicas⟩ := List.exists_cons_of_ne_nil hnone
      have hasked : (availableReplicas g.circuitBreaker now (primary :: rest)).2 = [] := by
        rw [availableReplicas_eq, ← hreplicas]
        exact hchoices
      rw [replicas] at hreplicas
      rw [hreplicas]
      dsimp only
      rw [if_pos hasked]
      exact ⟨fun h => by cases h; rfl, fun h => by cases h; rfl⟩
    · rw [if_neg fun hall => hchoices ((choices_blocked _hash).mpr hall)]
      rcases getKey_cases _hash g now key xClientZone with ⟨hempty, _⟩ | ⟨n, _, hpref, hsend⟩
      · exact absurd hempty hchoices
      · have hreg : (g.asked _hash now key).Registered n :=
          registered_of_replica _hash hg (List.mem_of_mem_filter hpref.1)
        rw [hsend]
        exact iff_of_false (send_ne_error hreg _ _ _) (by simp)

theorem registered_of_primary {g : Gateway} (hg : g.clusterManager.RoutingInv) {key n : String}
    (h : g.clusterManager.getNodeForKey _hash key = some n) : g.Registered n := by
  rcases hg.routed n (ClusterManager.getNodeForKey_mem _hash h) with
    ⟨node, hnode, _⟩ | ⟨node, hnode, _⟩
  · exact Dict.mem_keys_iff.mpr ⟨node, hnode⟩
  · exact Dict.mem_keys_iff.mpr ⟨node, hnode⟩

theorem callPrimary_refused {g : Gateway} (hg : g.clusterManager.RoutingInv) (now : Time)
    (handler : Handler) (method : Method) (key : String) (xClientZone : Option String)
    (body : Option Json) (e : HTTPException) :
    (g.callPrimary _hash now handler method key xClientZone body).2 = .error e ↔
      g.writeRefusal _hash now key = some e := by
  rw [writeRefusal, callPrimary]
  dsimp only
  cases hprimary : g.clusterManager.getNodeForKey _hash key with
  | none =>
    rw [Option.getD_none, if_pos rfl]
    exact ⟨fun h => by cases h; rfl, fun h => by cases h; rfl⟩
  | some primary =>
    rw [Option.getD_some]
    dsimp only
    by_cases hempty : primary = ""
    · rw [if_pos hempty, if_pos hempty]
      exact ⟨fun h => by cases h; rfl, fun h => by cases h; rfl⟩
    · rw [if_neg hempty, if_neg hempty]
      cases hasked : (g.circuitBreaker.isAvailable now primary).2 with
      | true =>
        have hfree : ¬g.circuitBreaker.Blocked now primary := by
          rw [← CircuitBreaker.isAvailable_eq_false, hasked]
          decide
        rw [if_pos rfl, if_neg hfree]
        have hreg : Registered { g with
            circuitBreaker := (g.circuitBreaker.isAvailable now primary).1 } primary :=
          registered_of_primary _hash hg hprimary
        exact iff_of_false (send_ne_error hreg _ _ _) (by simp)
      | false =>
        rw [if_neg (by decide), if_pos (CircuitBreaker.isAvailable_eq_false.mp hasked)]
        exact ⟨fun h => by cases h; rfl, fun h => by cases h; rfl⟩

/-- A call whose URL is rejected ends in an error, of which nothing is recorded. -/
theorem reply_invalid_url (g : Gateway) (now : Time) (call : PendingCall) :
    g.reply now call (.error .InvalidURL) =
      ({ g with pending := g.pending.erase call }, .error ⟨500, "Internal server error"⟩) := rfl

/-- The only node does not answer, which is one failure too many. -/
def callFailed : List Event :=
  [.registerNode 0 "a" "h" 1 "z" 5, .getKey 1 "k" none,
    .reply 1 ⟨.getKey, "a", "k", none⟩ (.error .ConnectError)]

end Gateway

end SelfHealingCache
