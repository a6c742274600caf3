import SelfHealingCache.ClusterRouting
import SelfHealingCache.RingHistory

namespace SelfHealingCache

namespace HashRing

variable {_hash : String → Nat}

/-- A ring of some of the nodes holds their points of the larger ring. -/
theorem Placed.points_filter {r r' : HashRing} (hp : Placed _hash r) (hp' : Placed _hash r')
    (hv : r.virtualNodes = r'.virtualNodes) (hn : r.nodes ⊆ r'.nodes) :
    r.points = r'.points.filter fun p => p.2 ∈ r.nodes := by
  apply points_ext r.points_pairwise (r'.points_pairwise.filter _)
  intro p
  have hlarge := hp' p.1 p.2
  have hsmall := hp p.1 p.2
  rw [List.mem_filter, mem_points, mem_points, hsmall, hlarge, hv, decide_eq_true_iff]
  constructor
  · rintro ⟨hm, hh⟩
    exact ⟨⟨hn hm, hh⟩, hm⟩
  · rintro ⟨⟨_, hh⟩, hm⟩
    exact ⟨hm, hh⟩

/-- Every node of a collision-free ring owns a point. -/
theorem mem_preference_init {nodes : List String} {virtualNodes : Int} (hv : 0 < virtualNodes)
    (hc : CollisionFree _hash virtualNodes nodes) {n : String} (x : Nat) :
    n ∈ preference (init _hash nodes virtualNodes).points x ↔ n ∈ nodes := by
  have hplaced := placed_init hc
  rw [mem_preference]
  constructor
  · rintro ⟨h, hm⟩
    have hn := owner_mem_nodes hm
    rwa [init_nodes, List.mem_toFinset] at hn
  · intro hn
    have hpos : 0 < virtualNodes.toNat := by omega
    have hhash : _hash (virtualKey n 0) ∈ virtualHashes _hash virtualNodes n :=
      List.mem_map.mpr ⟨0, List.mem_range.mpr hpos, rfl⟩
    have hmem : n ∈ (init _hash nodes virtualNodes).nodes := by
      rw [init_nodes]
      exact List.mem_toFinset.mpr hn
    refine ⟨_hash (virtualKey n 0), mem_points.mpr ((hplaced _ _).mpr ⟨hmem, ?_⟩)⟩
    rw [init_virtualNodes]
    exact hhash

end HashRing

namespace ClusterManager

/-- The node that an event registers if it is new. -/
def Event.registers : Event → Option String
  | .registerNode _ nodeId _ _ _ _ => some nodeId
  | .heartbeat _ _ payload => some payload.nodeId
  | _ => none

section failover

variable (_hash : String → Nat)

/-- The order in which a key falls back from node to node while all of them are there. -/
def fallback (fleet : List String) (key : String) : List String :=
  preference (HashRing.init _hash fleet 160).points (_hash key)

/-- The nodes come from the fleet, and the ring was built from such nodes. -/
structure Within (fleet : List String) (factor : Int) (cm : ClusterManager) : Prop where
  factor : cm.replicationFactor = factor
  registered : ∀ n ∈ cm.nodes.keys, n ∈ fleet
  built : ∀ ring, cm.hashRing = some ring → ∃ nodes : List String,
    (∀ n ∈ nodes, n ∈ fleet) ∧ ring = HashRing.init _hash nodes 160

variable {_hash} {fleet : List String} {factor : Int} {cm : ClusterManager}

theorem within_init (heartbeatTimeoutS factor : Int) :
    Within _hash fleet factor (init heartbeatTimeoutS factor) := by
  refine ⟨rfl, fun n hn => ?_, fun ring hring => ?_⟩
  · exact absurd hn (by simp [init])
  · cases hring

theorem Within.logEvent (h : Within _hash fleet factor cm) (now : Time) (data : EventData) :
    Within _hash fleet factor (cm.logEvent now data) := ⟨h.factor, h.registered, h.built⟩

theorem Within.rebuild (h : Within _hash fleet factor cm) :
    Within _hash fleet factor (cm.rebuildHashRing _hash) := by
  refine ⟨h.factor, h.registered, fun ring hring => ⟨cm.aliveNodes, fun n hn => ?_, ?_⟩⟩
  · obtain ⟨node, hnode, _⟩ := mem_aliveNodes.mp hn
    exact h.registered n (Dict.mem_keys_iff.mpr ⟨node, hnode⟩)
  · rw [rebuildHashRing] at hring
    split at hring
    next => cases hring
    next => exact (Option.some.inj hring).symm

theorem Within.set (h : Within _hash fleet factor cm) {nodeId : String} (hn : nodeId ∈ fleet)
    (node : NodeMetadata) :
    Within _hash fleet factor { cm with nodes := cm.nodes.set nodeId node } := by
  refine ⟨h.factor, fun n hm => ?_, h.built⟩
  obtain ⟨found, hfound⟩ := Dict.mem_keys_iff.mp hm
  rw [Dict.get?_set] at hfound
  split at hfound
  next heq => exact heq ▸ hn
  next => exact h.registered n (Dict.mem_keys_iff.mpr ⟨found, hfound⟩)

theorem Within.update (h : Within _hash fleet factor cm) {nodeId : String} {node : NodeMetadata}
    (hg : cm.nodes.get? nodeId = some node) (updated : NodeMetadata) :
    Within _hash fleet factor { cm with nodes := cm.nodes.set nodeId updated } :=
  h.set (h.registered nodeId (Dict.mem_keys_iff.mpr ⟨node, hg⟩)) updated

theorem Within.registerNode (h : Within _hash fleet factor cm) {nodeId : String}
    (hn : nodeId ∈ fleet) (now : Time) (host : String) (port : Int) (zone : String)
    (cacheCapacity : Int) :
    Within _hash fleet factor (cm.registerNode _hash now nodeId host port zone cacheCapacity) :=
  (h.set hn _).rebuild.logEvent now _

theorem Within.deregisterNode (h : Within _hash fleet factor cm) (now : Time) (nodeId : String) :
    Within _hash fleet factor (cm.deregisterNode _hash now nodeId) := by
  unfold ClusterManager.deregisterNode
  split
  next => exact h
  next =>
    have herase : Within _hash fleet factor { cm with nodes := cm.nodes.erase nodeId } := by
      refine ⟨h.factor, fun n hn => ?_, h.built⟩
      obtain ⟨node, hnode⟩ := Dict.mem_keys_iff.mp hn
      rw [Dict.get?_erase] at hnode
      split at hnode
      next => cases hnode
      next => exact h.registered n (Dict.mem_keys_iff.mpr ⟨node, hnode⟩)
    exact herase.rebuild.logEvent now _

theorem Within.processHeartbeat (h : Within _hash fleet factor cm) (now : Time) (nodeId : String)
    (metrics : HeartbeatMetrics) :
    Within _hash fleet factor (cm.processHeartbeat _hash now nodeId metrics) := by
  unfold ClusterManager.processHeartbeat
  split
  next => exact h
  next node hg =>
    have hupdate := h.update hg (node.receive now metrics)
    dsimp only
    split
    next =>
      split
      next => exact (hupdate.logEvent now _).rebuild
      next => exact hupdate.rebuild
    next =>
      split
      next => exact hupdate.logEvent now _
      next => exact hupdate

theorem Within.heartbeat (h : Within _hash fleet factor cm) {payload : HeartbeatPayload}
    (hn : payload.nodeId ∈ fleet) (registeredAt now : Time) :
    Within _hash fleet factor (cm.heartbeat _hash registeredAt now payload) := by
  apply Within.processHeartbeat
  split
  next => exact h.registerNode hn _ _ _ _ _
  next node hg =>
    split
    next => exact h.update hg _
    next => exact h

theorem Within.scanNode {now : Time} {acc : ClusterManager × List String}
    (h : Within _hash fleet factor acc.1) (nodeId : String) :
    Within _hash fleet factor (scanNode _hash now acc nodeId).1 := by
  unfold ClusterManager.scanNode
  split
  next => exact h
  next node hg =>
    have hupdate := h.update hg (node.scan acc.1.heartbeatTimeoutS now)
    split
    next =>
      dsimp only
      split
      next => exact (hupdate.logEvent now _).rebuild
      next =>
        split
        next => exact hupdate.logEvent now _
        next => exact hupdate
    next => exact h

theorem Within.step (h : Within _hash fleet factor cm) {event : Event}
    (hevent : ∀ n, event.registers = some n → n ∈ fleet) :
    Within _hash fleet factor (cm.step _hash event) := by
  cases event with
  | registerNode now nodeId host port zone cacheCapacity =>
    exact h.registerNode (hevent nodeId rfl) now host port zone cacheCapacity
  | deregisterNode now nodeId => exact h.deregisterNode now nodeId
  | processHeartbeat now nodeId metrics => exact h.processHeartbeat now nodeId metrics
  | heartbeat registeredAt now payload =>
    exact h.heartbeat (hevent payload.nodeId rfl) registeredAt now
  | checkHeartbeatTimeouts now =>
    exact foldl_invariant
      (I := fun acc : ClusterManager × List String => Within _hash fleet factor acc.1)
      (fun _ nodeId ha => ha.scanNode nodeId) _ h

theorem Within.run (h : Within _hash fleet factor cm) {history : List Event}
    (hknown : ∀ n ∈ history.filterMap Event.registers, n ∈ fleet) :
    Within _hash fleet factor (cm.run _hash history) := by
  induction history using List.reverseRecOn with
  | nil => exact h
  | append_singleton past event ih =>
    rw [List.filterMap_append] at hknown
    rw [ClusterManager.run, List.foldl_append]
    refine (ih fun n hn => hknown n (List.mem_append_left _ hn)).step fun n hn => ?_
    exact hknown n (List.mem_append_right _ (by simp [hn]))

/-- The ring lists its nodes in the order of the fleet. -/
theorem Within.preference_eq (h : Within _hash fleet factor cm)
    (hc : HashRing.CollisionFree _hash 160 fleet) {ring : HashRing}
    (hring : cm.hashRing = some ring) (key : String) :
    preference ring.points (_hash key) =
      (fallback _hash fleet key).filter fun n => n ∈ cm.ringNodes := by
  obtain ⟨nodes, hnodes, hbuilt⟩ := h.built ring hring
  have hmembers : cm.ringNodes = ring.nodes := by
    rw [ringNodes, hring]
  have hsub : ring.nodes ⊆ (HashRing.init _hash fleet 160).nodes := by
    intro n hn
    rw [hbuilt, HashRing.init_nodes, List.mem_toFinset] at hn
    rw [HashRing.init_nodes, List.mem_toFinset]
    exact hnodes n hn
  have hplaced : ring.Placed _hash := hbuilt ▸ HashRing.placed_init (hc.mono hnodes)
  have hvirtual : ring.virtualNodes = (HashRing.init _hash fleet 160).virtualNodes := by
    rw [hbuilt, HashRing.init_virtualNodes, HashRing.init_virtualNodes]
  rw [hplaced.points_filter (HashRing.placed_init hc) hvirtual hsub, hmembers]
  exact preference_filter _ _ fun n => n ∈ ring.nodes

theorem Within.replicas_eq (h : Within _hash fleet factor cm)
    (hc : HashRing.CollisionFree _hash 160 fleet) (key : String) :
    cm.getReplicasForKey _hash key =
      ((fallback _hash fleet key).filter fun n => n ∈ cm.ringNodes).take factor.toNat := by
  unfold getReplicasForKey
  cases hring : cm.hashRing with
  | none => simp [ringNodes, hring]
  | some ring =>
    dsimp only
    rw [HashRing.getReplicas_eq, h.preference_eq hc hring, h.factor]

theorem Within.primary_eq (h : Within _hash fleet factor cm)
    (hc : HashRing.CollisionFree _hash 160 fleet) (key : String) : cm.getNodeForKey _hash key =
      ((fallback _hash fleet key).filter fun n => n ∈ cm.ringNodes).head? := by
  unfold getNodeForKey
  cases hring : cm.hashRing with
  | none => simp [ringNodes, hring]
  | some ring =>
    dsimp only
    rw [HashRing.getNode_eq, h.preference_eq hc hring]

variable (_hash) in
/-- In every reachable state a key is held by the first nodes of the ring in an order of the fleet
that depends on the key alone; between two states its primary only changes if the old one has left
the ring or the new one has joined it. -/
theorem failover_order (heartbeatTimeoutS replicationFactor : Int)
    (hc : HashRing.CollisionFree _hash 160 fleet) {history : List Event}
    (hknown : ∀ n ∈ history.filterMap Event.registers, n ∈ fleet)
    (hrun : (init heartbeatTimeoutS replicationFactor).run _hash history = cm) (key : String) :
    ((fallback _hash fleet key).Nodup ∧ ∀ n, n ∈ fallback _hash fleet key ↔ n ∈ fleet) ∧
      cm.getReplicasForKey _hash key = ((fallback _hash fleet key).filter fun n =>
        n ∈ cm.ringNodes).take replicationFactor.toNat ∧
      cm.getNodeForKey _hash key =
        ((fallback _hash fleet key).filter fun n => n ∈ cm.ringNodes).head? ∧
      ∀ later, (∀ n ∈ later.filterMap Event.registers, n ∈ fleet) → ∀ a b,
        cm.getNodeForKey _hash key = some a →
        (cm.run _hash later).getNodeForKey _hash key = some b → a ≠ b →
          a ∉ (cm.run _hash later).ringNodes ∨ b ∉ cm.ringNodes := by
  have hwithin : Within _hash fleet replicationFactor cm :=
    hrun ▸ (within_init heartbeatTimeoutS replicationFactor).run hknown
  refine ⟨⟨preference_nodup _ _, fun n => HashRing.mem_preference_init (by omega) hc _⟩,
    hwithin.replicas_eq hc key, hwithin.primary_eq hc key, fun later hlater a b ha hb hab => ?_⟩
  rw [hwithin.primary_eq hc] at ha
  rw [(hwithin.run hlater).primary_eq hc] at hb
  by_contra hstay
  rw [not_or, not_not, not_not] at hstay
  exact hab (head?_filter_unique ha hb (by simp [hstay.1]) (by simp [hstay.2]))

end failover

/-- The characters of a text as the digits of a number. -/
def numeral (s : String) : Nat := s.toList.foldl (fun n c => 4294967296 * n + (c.toNat + 1)) 0

theorem numeral_injective {s s' : String} (h : numeral s = numeral s') : s = s' := by
  have hlists : ∀ l l' : List Char, l.foldl (fun n c => 4294967296 * n + (c.toNat + 1)) 0 =
      l'.foldl (fun n c => 4294967296 * n + (c.toNat + 1)) 0 → l = l' := by
    intro l
    induction l using List.reverseRecOn with
    | nil =>
      intro l' heq
      cases l' using List.reverseRecOn with
      | nil => rfl
      | append_singleton l' c =>
        rw [List.foldl_append] at heq
        simp at heq
    | append_singleton l c ih =>
      intro l' heq
      cases l' using List.reverseRecOn with
      | nil =>
        rw [List.foldl_append] at heq
        simp at heq
      | append_singleton l' c' =>
        rw [List.foldl_append, List.foldl_append] at heq
        simp only [List.foldl_cons, List.foldl_nil] at heq
        have hc : c.toNat < 4294967296 := c.val.toNat_lt
        have hc' : c'.toNat < 4294967296 := c'.val.toNat_lt
        have hsame : c.toNat = c'.toNat := by omega
        rw [ih l' (by omega), Char.toNat_inj.mp hsame]
  exact String.toList_inj.mp (hlists _ _ h)

/-- Two nodes of which one leaves. -/
theorem failover_order_two_nodes :
    ((init 10 3).run numeral [.registerNode 0 "a" "h" 1 "z" 5, .registerNode 0 "b" "h" 2 "z" 5,
        .deregisterNode 1 "a"]).getReplicasForKey numeral "k" =
      ((fallback numeral ["a", "b"] "k").filter fun n =>
        n ∈ ((init 10 3).run numeral [.registerNode 0 "a" "h" 1 "z" 5,
          .registerNode 0 "b" "h" 2 "z" 5, .deregisterNode 1 "a"]).ringNodes).take 3 := by
  have hc : HashRing.CollisionFree numeral 160 ["a", "b"] :=
    fun n _ m _ i _ j _ => numeral_injective
  exact (failover_order numeral 10 3 hc (by decide) rfl "k").2.1

end ClusterManager

end SelfHealingCache
