import SelfHealingCache.ClusterManager
import SelfHealingCache.RingLookup
import SelfHealingCache.Runs

namespace SelfHealingCache

namespace HashRing

variable (_hash : String → Nat)

theorem mem_nodes_addNode {r : HashRing} {node n : String} :
    n ∈ (r.addNode _hash node).nodes ↔ n = node ∨ n ∈ r.nodes := by
  unfold addNode
  split
  next h =>
    refine ⟨Or.inr, fun hn => hn.elim ?_ id⟩
    rintro rfl
    exact h
  next => exact Finset.mem_insert

theorem mem_nodes_init {nodes : List String} {virtualNodes : Int} {n : String} :
    n ∈ (init _hash nodes virtualNodes).nodes ↔ n ∈ nodes := by
  have hfold : ∀ (nodes : List String) (r : HashRing),
      n ∈ (nodes.foldl (addNode _hash) r).nodes ↔ n ∈ nodes ∨ n ∈ r.nodes := by
    intro nodes
    induction nodes with
    | nil => simp
    | cons a nodes ih =>
      intro r
      rw [List.foldl_cons, ih, mem_nodes_addNode, List.mem_cons, or_left_comm, or_assoc]
  rw [init, hfold]
  simp [empty]

/-- A ring that can route: it owns a point whenever it has a node. -/
def Routes (r : HashRing) : Prop := 0 < r.virtualNodes ∧ (r.nodes.Nonempty → r.ring.size ≠ 0)

theorem size_ne_zero_of_get? {d : Dict Nat String} {h : Nat} {owner : String}
    (hg : d.get? h = some owner) : d.size ≠ 0 := by
  have := List.length_pos_of_mem (Dict.get?_eq_some.mp hg)
  unfold Dict.size
  omega

theorem routes_addNode {r : HashRing} (h : r.Routes) (node : String) :
    (r.addNode _hash node).Routes := by
  unfold addNode
  split
  next => exact h
  next =>
    refine ⟨h.1, fun _ => ?_⟩
    have hpos : 0 < r.virtualNodes.toNat := by
      have := h.1
      omega
    have hm : _hash (virtualKey node 0) ∈ virtualHashes _hash r.virtualNodes node :=
      List.mem_map.mpr ⟨0, List.mem_range.mpr hpos, rfl⟩
    have hg := get?_placeVirtual _hash r.virtualNodes node r.ring (_hash (virtualKey node 0))
    exact size_ne_zero_of_get? (hg.trans (if_pos hm))

theorem routes_init (nodes : List String) {virtualNodes : Int} (h : 0 < virtualNodes) :
    (init _hash nodes virtualNodes).Routes :=
  foldl_invariant (I := Routes) (s := empty virtualNodes)
    (fun _ node hr => routes_addNode _hash hr node) nodes
    ⟨h, fun hn => absurd hn Finset.not_nonempty_empty⟩

end HashRing

namespace ClusterManager

/-- The nodes the ring routes to; `None` counts as the empty set. -/
def ringNodes (cm : ClusterManager) : Finset String :=
  match cm.hashRing with
  | none => ∅
  | some ring => ring.nodes

def HasStatus (cm : ClusterManager) (nodeId : String) (status : HealthStatus) : Prop :=
  ∃ node, cm.nodes.get? nodeId = some node ∧ node.status = status

theorem mem_aliveNodes {cm : ClusterManager} {nodeId : String} :
    nodeId ∈ cm.aliveNodes ↔ cm.HasStatus nodeId .ALIVE := by
  rw [aliveNodes, List.mem_map]
  constructor
  · rintro ⟨p, hp, rfl⟩
    obtain ⟨hm, ha⟩ := List.mem_filter.mp hp
    exact ⟨p.2, Dict.get?_eq_some.mpr hm, by simpa using ha⟩
  · rintro ⟨node, hg, ha⟩
    exact ⟨(nodeId, node), List.mem_filter.mpr ⟨Dict.get?_eq_some.mp hg, by simpa using ha⟩, rfl⟩

/-- The routing invariant: every ALIVE node is routed, only ALIVE and SUSPECT
nodes are, and a ring that exists can answer. -/
structure RoutingInv (cm : ClusterManager) : Prop where
  alive : ∀ nodeId, cm.HasStatus nodeId .ALIVE → nodeId ∈ cm.ringNodes
  routed : ∀ nodeId ∈ cm.ringNodes,
    cm.HasStatus nodeId .ALIVE ∨ cm.HasStatus nodeId .SUSPECT
  answers : ∀ ring, cm.hashRing = some ring → ring.ring.size ≠ 0

@[simp] theorem logEvent_nodes (cm : ClusterManager) (now : Time) (data : EventData) :
    (cm.logEvent now data).nodes = cm.nodes := rfl

@[simp] theorem logEvent_hashRing (cm : ClusterManager) (now : Time) (data : EventData) :
    (cm.logEvent now data).hashRing = cm.hashRing := rfl

@[simp] theorem logEvent_timeout (cm : ClusterManager) (now : Time) (data : EventData) :
    (cm.logEvent now data).heartbeatTimeoutS = cm.heartbeatTimeoutS := rfl

theorem RoutingInv.logEvent {cm : ClusterManager} (h : cm.RoutingInv) (now : Time)
    (data : EventData) : (cm.logEvent now data).RoutingInv := ⟨h.alive, h.routed, h.answers⟩

section steps

variable (_hash : String → Nat)

@[simp] theorem rebuild_nodes (cm : ClusterManager) :
    (cm.rebuildHashRing _hash).nodes = cm.nodes := rfl

@[simp] theorem rebuild_timeout (cm : ClusterManager) :
    (cm.rebuildHashRing _hash).heartbeatTimeoutS = cm.heartbeatTimeoutS := rfl

theorem mem_ringNodes_rebuild {cm : ClusterManager} {nodeId : String} :
    nodeId ∈ (cm.rebuildHashRing _hash).ringNodes ↔ cm.HasStatus nodeId .ALIVE := by
  rw [← mem_aliveNodes, ringNodes, rebuildHashRing]
  by_cases h : cm.aliveNodes = []
  · simp [h]
  · simp only [h, ↓reduceIte, HashRing.mem_nodes_init]

/-- A rebuild establishes the routing invariant from any state. -/
theorem routingInv_rebuild (cm : ClusterManager) : (cm.rebuildHashRing _hash).RoutingInv := by
  refine ⟨fun _ h => (mem_ringNodes_rebuild _hash).mpr h,
    fun _ h => Or.inl ((mem_ringNodes_rebuild _hash).mp h), ?_⟩
  intro ring hr
  rw [rebuildHashRing] at hr
  split at hr
  next => cases hr
  next hne =>
    cases Option.some.inj hr
    obtain ⟨n, hn⟩ := List.exists_mem_of_ne_nil _ hne
    exact (HashRing.routes_init _hash cm.aliveNodes (by decide)).2
      ⟨n, (HashRing.mem_nodes_init _hash).mpr hn⟩

/-- Replacing a record by one that carries the same routing decision. -/
theorem RoutingInv.set {cm : ClusterManager} (h : cm.RoutingInv) {nodeId : String}
    {node updated : NodeMetadata} (hg : cm.nodes.get? nodeId = some node)
    (hs : updated.status = node.status ∨ node.status = .ALIVE ∧ updated.status = .SUSPECT) :
    ({ cm with nodes := cm.nodes.set nodeId updated } : ClusterManager).RoutingInv := by
  have other : ∀ {x status}, x ≠ nodeId → (cm.HasStatus x status ↔
      ({ cm with nodes := cm.nodes.set nodeId updated } : ClusterManager).HasStatus x status) := by
    intro x status hx
    simp only [HasStatus, Dict.get?_set, if_neg hx]
  refine ⟨?_, ?_, h.answers⟩
  · rintro x ⟨n, hn, ha⟩
    by_cases hx : x = nodeId
    · subst hx
      simp only [Dict.get?_set_self, Option.some.injEq] at hn
      subst hn
      rcases hs with hs | ⟨_, hs⟩
      · exact h.alive x ⟨node, hg, hs.symm.trans ha⟩
      · rw [hs] at ha; cases ha
    · exact h.alive x ((other hx).mpr ⟨n, hn, ha⟩)
  · intro x hx
    by_cases he : x = nodeId
    · subst he
      have hself : ({ cm with nodes := cm.nodes.set x updated } : ClusterManager).nodes.get? x =
          some updated := Dict.get?_set_self _ _ _
      rcases hs with hs | ⟨_, hs⟩
      · rcases h.routed x hx with ⟨n, hn, ha⟩ | ⟨n, hn, ha⟩
        · have := Option.some.inj (hn.symm.trans hg)
          exact Or.inl ⟨updated, hself, by rw [hs, ← this, ha]⟩
        · have := Option.some.inj (hn.symm.trans hg)
          exact Or.inr ⟨updated, hself, by rw [hs, ← this, ha]⟩
      · exact Or.inr ⟨updated, hself, hs⟩
    · exact (h.routed x hx).imp (other he).mp (other he).mp

theorem routingInv_registerNode (cm : ClusterManager) (now : Time) (nodeId host : String)
    (port : Int) (zone : String) (cacheCapacity : Int) :
    (cm.registerNode _hash now nodeId host port zone cacheCapacity).RoutingInv :=
  (routingInv_rebuild _hash _).logEvent now _

theorem routingInv_deregisterNode {cm : ClusterManager} (h : cm.RoutingInv) (now : Time)
    (nodeId : String) : (cm.deregisterNode _hash now nodeId).RoutingInv := by
  unfold deregisterNode
  split
  next => exact h
  next => exact (routingInv_rebuild _hash _).logEvent now _

theorem routingInv_processHeartbeat {cm : ClusterManager} (h : cm.RoutingInv) (now : Time)
    (nodeId : String) (metrics : HeartbeatMetrics) :
    (cm.processHeartbeat _hash now nodeId metrics).RoutingInv := by
  unfold processHeartbeat
  split
  next => exact h
  next node hg =>
    by_cases hs : node.status = (node.receive now metrics).status
    · have hd : node.status ≠ .DEAD := by
        intro hd
        simp [NodeMetadata.receive, hd] at hs
      rw [if_neg (not_not.mpr hs), if_neg hd]
      exact h.set hg (Or.inl hs.symm)
    · simp only [ne_eq, hs, not_false_eq_true, ↓reduceIte]
      exact routingInv_rebuild _hash _

theorem routingInv_heartbeat {cm : ClusterManager} (h : cm.RoutingInv) (registeredAt now : Time)
    (payload : HeartbeatPayload) :
    (cm.heartbeat _hash registeredAt now payload).RoutingInv := by
  apply routingInv_processHeartbeat
  split
  next => exact routingInv_registerNode _hash _ _ _ _ _ _ _
  next node hg =>
    split
    next => exact h.set hg (Or.inl rfl)
    next => exact h

theorem routingInv_scanNode {now : Time} {acc : ClusterManager × List String}
    (h : acc.1.RoutingInv) (nodeId : String) : (scanNode _hash now acc nodeId).1.RoutingInv := by
  unfold scanNode
  split
  next => exact h
  next node hg =>
    by_cases hm : node.Missed acc.1.heartbeatTimeoutS now
    · simp only [hm, ↓reduceIte]
      split
      next => exact routingInv_rebuild _hash _
      next hd =>
        have hstatus : ¬deadThreshold ≤ node.failedAttempts + 1 := by
          intro ht
          simp [NodeMetadata.scan, hm, ht] at hd
        split
        next ha =>
          refine (h.set hg (Or.inr ⟨ha, ?_⟩)).logEvent now _
          simp [NodeMetadata.scan, hm, hstatus, ha]
        next ha =>
          refine h.set hg (Or.inl ?_)
          simp [NodeMetadata.scan, hm, hstatus, ha]
    · simp only [hm, ↓reduceIte]
      exact h

theorem routingInv_checkHeartbeatTimeouts {cm : ClusterManager} (h : cm.RoutingInv)
    (now : Time) : (cm.checkHeartbeatTimeouts _hash now).1.RoutingInv :=
  foldl_invariant (I := fun acc : ClusterManager × List String => acc.1.RoutingInv)
    (fun _ nodeId ha => routingInv_scanNode _hash ha nodeId) _ h

theorem routingInv_step {cm : ClusterManager} (h : cm.RoutingInv) (event : Event) :
    (cm.step _hash event).RoutingInv := by
  cases event with
  | registerNode now nodeId host port zone cacheCapacity =>
    exact routingInv_registerNode _hash cm now nodeId host port zone cacheCapacity
  | deregisterNode now nodeId => exact routingInv_deregisterNode _hash h now nodeId
  | processHeartbeat now nodeId metrics =>
    exact routingInv_processHeartbeat _hash h now nodeId metrics
  | heartbeat registeredAt now payload =>
    exact routingInv_heartbeat _hash h registeredAt now payload
  | checkHeartbeatTimeouts now => exact routingInv_checkHeartbeatTimeouts _hash h now

theorem routingInv_init (heartbeatTimeoutS replicationFactor : Int) :
    (init heartbeatTimeoutS replicationFactor).RoutingInv := by
  refine ⟨?_, ?_, ?_⟩
  · rintro x ⟨n, hn, _⟩
    cases hn
  · intro x hx
    cases hx
  · intro ring hr
    cases hr

theorem routingInv_run (heartbeatTimeoutS replicationFactor : Int) (history : List Event) :
    (run _hash (init heartbeatTimeoutS replicationFactor) history).RoutingInv :=
  foldl_invariant (I := RoutingInv) (fun _ event h => routingInv_step _hash h event) history
    (routingInv_init heartbeatTimeoutS replicationFactor)

theorem mem_ringNodes {cm : ClusterManager} {nodeId : String} :
    nodeId ∈ cm.ringNodes ↔ ∃ ring, cm.hashRing = some ring ∧ nodeId ∈ ring.nodes := by
  unfold ringNodes
  cases hr : cm.hashRing with
  | none => simp
  | some ring => simp

theorem getNodeForKey_mem {cm : ClusterManager} {key owner : String}
    (h : cm.getNodeForKey _hash key = some owner) : owner ∈ cm.ringNodes := by
  unfold getNodeForKey at h
  cases hr : cm.hashRing with
  | none => simp [hr] at h
  | some ring =>
    rw [hr] at h
    exact mem_ringNodes.mpr ⟨ring, hr, HashRing.getNode_mem_nodes _hash h⟩

theorem getReplicasForKey_mem {cm : ClusterManager} {key owner : String}
    (h : owner ∈ cm.getReplicasForKey _hash key) : owner ∈ cm.ringNodes := by
  unfold getReplicasForKey at h
  cases hr : cm.hashRing with
  | none => simp [hr] at h
  | some ring =>
    rw [hr] at h
    exact mem_ringNodes.mpr ⟨ring, hr, HashRing.getReplicas_mem_nodes _hash h⟩

/-- The first replica of a key is the node that `get_node_for_key` returns. -/
theorem head?_getReplicasForKey {cm : ClusterManager} {key : String}
    (h : cm.getReplicasForKey _hash key ≠ []) :
    (cm.getReplicasForKey _hash key).head? = cm.getNodeForKey _hash key := by
  unfold getReplicasForKey getNodeForKey at *
  cases hr : cm.hashRing with
  | none =>
    rw [hr] at h
    exact absurd rfl h
  | some ring =>
    rw [hr] at h
    dsimp only at h ⊢
    rw [HashRing.getReplicas_eq] at h ⊢
    have hpos : cm.replicationFactor.toNat ≠ 0 := fun hz => h (by rw [hz, List.take_zero])
    rw [HashRing.getNode_eq, List.head?_take, if_neg hpos]

/-- With an ALIVE node in the cluster every key has a primary. -/
theorem getNodeForKey_ne_none {cm : ClusterManager} (h : cm.RoutingInv) {nodeId : String}
    (ha : cm.HasStatus nodeId .ALIVE) (key : String) : cm.getNodeForKey _hash key ≠ none := by
  obtain ⟨ring, hr, _⟩ := mem_ringNodes.mp (h.alive nodeId ha)
  unfold getNodeForKey
  rw [hr]
  exact fun hn => h.answers ring hr ((HashRing.getNode_eq_none _hash).mp hn)

theorem getReplicasForKey_ne_nil {cm : ClusterManager} (h : cm.RoutingInv) {nodeId : String}
    (ha : cm.HasStatus nodeId .ALIVE) (hf : 1 ≤ cm.replicationFactor) (key : String) :
    cm.getReplicasForKey _hash key ≠ [] := by
  obtain ⟨ring, hr, _⟩ := mem_ringNodes.mp (h.alive nodeId ha)
  have hpoints : preference ring.points (_hash key) ≠ [] := fun hn =>
    h.answers ring hr (HashRing.points_eq_nil.mp (preference_eq_nil.mp hn))
  have hpos : cm.replicationFactor.toNat ≠ 0 := by omega
  unfold getReplicasForKey
  rw [hr]
  simp only [HashRing.getReplicas_eq, ne_eq, List.take_eq_nil_iff]
  exact fun hn => hn.elim hpos hpoints

/-- Routing safety over every run of the manager. -/
theorem routing_safety (heartbeatTimeoutS replicationFactor : Int) (history : List Event)
    (cm : ClusterManager)
    (hrun : run _hash (init heartbeatTimeoutS replicationFactor) history = cm) :
    (∀ nodeId, cm.HasStatus nodeId .ALIVE → nodeId ∈ cm.ringNodes) ∧
      (∀ nodeId ∈ cm.ringNodes,
        cm.HasStatus nodeId .ALIVE ∨ cm.HasStatus nodeId .SUSPECT) ∧
      ∀ key,
        (∀ owner, cm.getNodeForKey _hash key = some owner →
          cm.HasStatus owner .ALIVE ∨ cm.HasStatus owner .SUSPECT) ∧
        (∀ owner ∈ cm.getReplicasForKey _hash key,
          cm.HasStatus owner .ALIVE ∨ cm.HasStatus owner .SUSPECT) ∧
        ((∃ nodeId, cm.HasStatus nodeId .ALIVE) →
          cm.getNodeForKey _hash key ≠ none ∧
            (1 ≤ cm.replicationFactor → cm.getReplicasForKey _hash key ≠ [])) := by
  subst hrun
  have h := routingInv_run _hash heartbeatTimeoutS replicationFactor history
  refine ⟨h.alive, h.routed, fun key => ⟨?_, ?_, ?_⟩⟩
  · exact fun owner ho => h.routed owner (getNodeForKey_mem _hash ho)
  · exact fun owner ho => h.routed owner (getReplicasForKey_mem _hash ho)
  · rintro ⟨nodeId, ha⟩
    exact ⟨getNodeForKey_ne_none _hash h ha key,
      fun hf => getReplicasForKey_ne_nil _hash h ha hf key⟩

end steps

theorem routing_safety_two_nodes :
    ((init 10 3).run (fun _ => 0) [.registerNode 0 "a" "h" 1 "z" 5,
      .registerNode 0 "b" "h" 2 "z" 5, .checkHeartbeatTimeouts 20,
      .registerNode 21 "b" "h" 2 "z" 5]).getNodeForKey (fun _ => 0) "k" ≠ none :=
  (((routing_safety (fun _ => 0) 10 3 _ _ rfl).2.2 "k").2.2
    ⟨"b", { nodeId := "b", host := "h", port := 2, zone := "z", lastHeartbeat := 21 },
      by decide +kernel, rfl⟩).1

end ClusterManager

end SelfHealingCache
