import SelfHealingCache.ClusterRecords
import Mathlib.Algebra.BigOperators.Group.Finset.Basic

namespace SelfHealingCache

/-- The answer of `get_cluster_stats`. -/
structure ClusterStats where
  totalNodes : Nat
  aliveNodes : Nat
  deadNodes : Nat
  suspectNodes : Nat
  totalCacheSize : Int
  totalCapacity : Int
  avgHitRatio : ℚ
  replicationFactor : Int

namespace ClusterManager

def getClusterStats (cm : ClusterManager) : ClusterStats :=
  let nodes := cm.nodes.values
  { totalNodes := cm.nodes.size
    aliveNodes := nodes.countP fun n => n.status = .ALIVE
    deadNodes := nodes.countP fun n => n.status = .DEAD
    suspectNodes := nodes.countP fun n => n.status = .SUSPECT
    totalCacheSize := (nodes.map NodeMetadata.cacheSize).sum
    totalCapacity := (nodes.map NodeMetadata.cacheCapacity).sum
    avgHitRatio :=
      if nodes = [] then 0 else (nodes.map NodeMetadata.hitRatio).sum / nodes.length
    replicationFactor := cm.replicationFactor }

/-- The effect of a call on the registered nodes. -/
def memberStep (nodes : Finset String) : Event → Finset String
  | .registerNode _ nodeId _ _ _ _ => insert nodeId nodes
  | .deregisterNode _ nodeId => nodes.erase nodeId
  | .heartbeat _ _ payload => insert payload.nodeId nodes
  | _ => nodes

/-- The nodes registered by a history, by their own call or by a first heartbeat. -/
def registeredNodes (history : List Event) : Finset String := history.foldl memberStep ∅

/-- The effect of a call on the cache size in the latest heartbeat of a node. -/
def sizeStep (x : String) (size : Int) : Event → Int
  | .registerNode _ nodeId _ _ _ _ => if x = nodeId then 0 else size
  | .processHeartbeat _ nodeId metrics =>
    if x = nodeId then metrics.cacheSize.getD 0 else size
  | .heartbeat _ _ payload => if x = payload.nodeId then payload.cacheSize else size
  | _ => size

/-- The cache size in the latest heartbeat of a node since its registration. -/
def reportedSize (x : String) (history : List Event) : Int := history.foldl (sizeStep x) 0

/-- The node and the capacity that a call reports. -/
def Event.capacityReport : Event → Option (String × Int)
  | .registerNode _ nodeId _ _ _ cacheCapacity => some (nodeId, cacheCapacity)
  | .heartbeat _ _ payload => some (payload.nodeId, payload.cacheCapacity)
  | _ => none

/-- The effect of a call on the capacity last reported for a node. -/
def capacityStep (x : String) (capacity : Int) (event : Event) : Int :=
  match event.capacityReport with
  | some (nodeId, cacheCapacity) => if x = nodeId then cacheCapacity else capacity
  | none => capacity

def reportedCapacity (x : String) (history : List Event) : Int :=
  history.foldl (capacityStep x) 0

/-- The statistics agree with the history. -/
structure Consistent (history : List Event) (stats : ClusterStats) : Prop where
  statuses : stats.aliveNodes + stats.suspectNodes + stats.deadNodes = stats.totalNodes
  sizes : stats.totalCacheSize = ∑ x ∈ registeredNodes history, reportedSize x history
  capacities : stats.totalCapacity = ∑ x ∈ registeredNodes history, reportedCapacity x history

/-- The record of a node is there while the node is registered, its size is the reported one, and
its capacity is never stored. -/
def Stored (x : String) (history : List Event) (record : Option NodeMetadata) : Prop :=
  (x ∈ registeredNodes history ↔ record.isSome) ∧
    ∀ node, record = some node →
      node.cacheSize = reportedSize x history ∧ node.cacheCapacity = 0

theorem receive_fields (now : Time) (metrics : HeartbeatMetrics) (node : NodeMetadata) :
    (node.receive now metrics).cacheSize = metrics.cacheSize.getD 0 ∧
      (node.receive now metrics).cacheCapacity = node.cacheCapacity := ⟨rfl, rfl⟩

theorem scan_fields (timeout : Int) (now : Time) (node : NodeMetadata) :
    (node.scan timeout now).cacheSize = node.cacheSize ∧
      (node.scan timeout now).cacheCapacity = node.cacheCapacity := by
  unfold NodeMetadata.scan
  split
  next =>
    split
    next => exact ⟨rfl, rfl⟩
    next => split <;> exact ⟨rfl, rfl⟩
  next => exact ⟨rfl, rfl⟩

theorem registeredNodes_snoc (past : List Event) (event : Event) :
    registeredNodes (past ++ [event]) = memberStep (registeredNodes past) event := by
  simp [registeredNodes]

theorem reportedSize_snoc (x : String) (past : List Event) (event : Event) :
    reportedSize x (past ++ [event]) = sizeStep x (reportedSize x past) event := by
  simp [reportedSize]

theorem reportedCapacity_snoc (x : String) (past : List Event) (event : Event) :
    reportedCapacity x (past ++ [event]) = capacityStep x (reportedCapacity x past) event := by
  simp [reportedCapacity]

theorem stored_step {timeout : Int} {x : String} {past : List Event}
    {record : Option NodeMetadata} (h : Stored x past record) (event : Event) :
    Stored x (past ++ [event]) (recordStep timeout x record event) := by
  obtain ⟨hmem, hfields⟩ := h
  rw [Stored, registeredNodes_snoc, reportedSize_snoc]
  cases event with
  | registerNode now nodeId host port zone cacheCapacity =>
    by_cases hx : x = nodeId
    · simp [recordStep, memberStep, sizeStep, hx, registered]
    · simpa [recordStep, memberStep, sizeStep, hx] using ⟨hmem, hfields⟩
  | deregisterNode now nodeId =>
    by_cases hx : x = nodeId
    · simp [recordStep, memberStep, hx]
    · simpa [recordStep, memberStep, sizeStep, hx] using ⟨hmem, hfields⟩
  | processHeartbeat now nodeId metrics =>
    by_cases hx : x = nodeId
    · rw [recordStep, if_pos hx, sizeStep, if_pos hx, Option.isSome_map]
      refine ⟨hmem, fun node hnode => ?_⟩
      obtain ⟨old, hold, rfl⟩ := Option.map_eq_some_iff.mp hnode
      obtain ⟨hsize, hcapacity⟩ := receive_fields now metrics old
      exact ⟨hsize, hcapacity.trans (hfields old hold).2⟩
    · simpa [recordStep, memberStep, sizeStep, hx] using ⟨hmem, hfields⟩
  | heartbeat registeredAt now payload =>
    by_cases hx : x = payload.nodeId
    · rw [recordStep, if_pos hx, sizeStep, if_pos hx]
      refine ⟨by simp [memberStep, hx], fun node hnode => ?_⟩
      cases Option.some.inj hnode
      refine ⟨rfl, ?_⟩
      have hcapacity : (contacted registeredAt payload record).cacheCapacity = 0 := by
        cases record with
        | none => rfl
        | some old => exact (hfields old rfl).2
      exact hcapacity
    · simpa [recordStep, memberStep, sizeStep, hx] using ⟨hmem, hfields⟩
  | checkHeartbeatTimeouts now =>
    rw [recordStep, Option.isSome_map]
    refine ⟨hmem, fun node hnode => ?_⟩
    obtain ⟨old, hold, rfl⟩ := Option.map_eq_some_iff.mp hnode
    obtain ⟨hsize, hcapacity⟩ := scan_fields timeout now old
    obtain ⟨hs, hc⟩ := hfields old hold
    exact ⟨hsize.trans hs, hcapacity.trans hc⟩

/-- A sum over the records is a sum over the registered nodes. -/
theorem sum_values {cm : ClusterManager} {f : NodeMetadata → Int} {g : String → Int}
    (h : ∀ x node, cm.nodes.get? x = some node → f node = g x) :
    (cm.nodes.values.map f).sum = ∑ x ∈ cm.nodes.keys.toFinset, g x := by
  have hitems : cm.nodes.values.map f = cm.nodes.keys.map g := by
    rw [Dict.values, Dict.keys, List.map_map, List.map_map]
    apply List.map_congr_left
    intro p hp
    exact h p.1 p.2 (Dict.get?_eq_some.mpr hp)
  rw [hitems, List.sum_toFinset g cm.nodes.keys_nodup]

/-- The three counts leave out the records with the fourth status. -/
theorem count_statuses (nodes : List NodeMetadata) :
    nodes.countP (fun n => n.status = .ALIVE) + nodes.countP (fun n => n.status = .SUSPECT) +
      nodes.countP (fun n => n.status = .DEAD) + nodes.countP (fun n => n.status = .RECOVERED) =
        nodes.length := by
  induction nodes with
  | nil => rfl
  | cons node nodes ih =>
    simp only [List.countP_cons, List.length_cons]
    cases node.status <;> simp <;> omega

theorem statuses_iff (cm : ClusterManager) :
    cm.getClusterStats.aliveNodes + cm.getClusterStats.suspectNodes +
        cm.getClusterStats.deadNodes = cm.getClusterStats.totalNodes ↔
      ∀ x, ¬cm.HasStatus x .RECOVERED := by
  have hcount := count_statuses cm.nodes.values
  have hlength : cm.nodes.values.length = cm.nodes.size := by simp [Dict.values, Dict.size]
  have hzero : cm.nodes.values.countP (fun n => n.status = .RECOVERED) = 0 ↔
      ∀ x, ¬cm.HasStatus x .RECOVERED := by
    simp only [List.countP_eq_zero, Dict.mem_values_iff, HasStatus, decide_eq_true_eq]
    constructor
    · rintro h x ⟨node, hg, hs⟩
      exact h node ⟨x, hg⟩ hs
    · rintro h node ⟨x, hg⟩ hs
      exact h x ⟨node, hg, hs⟩
  rw [← hzero]
  simp only [getClusterStats]
  omega

section runs

variable (_hash : String → Nat) (heartbeatTimeoutS replicationFactor : Int)

theorem stored_run (history : List Event) (x : String) :
    Stored x history
      (((init heartbeatTimeoutS replicationFactor).run _hash history).nodes.get? x) := by
  rw [get?_run]
  refine foldl_history (I := fun past record => Stored x past record) ?_ ?_ history
  · exact ⟨by simp [registeredNodes, init], fun node hnode => by cases hnode⟩
  · intro past event ih
    exact stored_step ih event

theorem keys_run (history : List Event) :
    ((init heartbeatTimeoutS replicationFactor).run _hash history).nodes.keys.toFinset =
      registeredNodes history := by
  ext x
  rw [List.mem_toFinset, Dict.mem_keys_iff, (stored_run _hash heartbeatTimeoutS
    replicationFactor history x).1, Option.isSome_iff_exists]

/-- The cache sizes always agree with the history. -/
theorem sizes_run (history : List Event) :
    ((init heartbeatTimeoutS replicationFactor).run _hash
        history).getClusterStats.totalCacheSize =
      ∑ x ∈ registeredNodes history, reportedSize x history := by
  rw [← keys_run _hash heartbeatTimeoutS replicationFactor history]
  refine sum_values fun x node hg => ?_
  exact ((stored_run _hash heartbeatTimeoutS replicationFactor history x).2 node hg).1

/-- No capacity is ever stored. -/
theorem capacity_run (history : List Event) :
    ((init heartbeatTimeoutS replicationFactor).run _hash
        history).getClusterStats.totalCapacity = 0 := by
  have hzero : ∀ x node,
      ((init heartbeatTimeoutS replicationFactor).run _hash history).nodes.get? x = some node →
        node.cacheCapacity = 0 := fun x node hg =>
    ((stored_run _hash heartbeatTimeoutS replicationFactor history x).2 node hg).2
  have hsum := sum_values (g := fun _ => 0) hzero
  rw [Finset.sum_const_zero] at hsum
  exact hsum

/-- The call reports no capacity other than 0. -/
def Event.CapacityFree (event : Event) : Prop :=
  ∀ nodeId cacheCapacity, event.capacityReport = some (nodeId, cacheCapacity) →
    cacheCapacity = 0

theorem capacityStep_free {event : Event} (h : event.CapacityFree) (x : String) :
    capacityStep x 0 event = 0 := by
  unfold capacityStep
  split
  next nodeId cacheCapacity hreport =>
    split
    next => exact h nodeId cacheCapacity hreport
    next => rfl
  next => rfl

/-- A call that reports a capacity registers its node. -/
theorem capacityReport_member {event : Event} {x : String} {cacheCapacity : Int}
    (h : event.capacityReport = some (x, cacheCapacity)) (nodes : Finset String) :
    x ∈ memberStep nodes event := by
  cases event with
  | registerNode now nodeId host port zone reported =>
    cases Option.some.inj h
    exact Finset.mem_insert_self _ _
  | heartbeat registeredAt now payload =>
    cases Option.some.inj h
    exact Finset.mem_insert_self _ _
  | deregisterNode => cases h
  | processHeartbeat => cases h
  | checkHeartbeatTimeouts => cases h

/-- The reported capacities sum up to 0 all along a run only when each of them is 0. -/
theorem capacities_iff (history : List Event) :
    (∀ past, past <+: history →
        ∑ x ∈ registeredNodes past, reportedCapacity x past = 0) ↔
      ∀ past event, past ++ [event] <+: history → event.CapacityFree := by
  have hreported : ∀ history : List Event,
      (∀ past event, past ++ [event] <+: history → event.CapacityFree) →
        ∀ x, reportedCapacity x history = 0 := by
    intro history hfree x
    induction history using List.reverseRecOn with
    | nil => rfl
    | append_singleton past event ih =>
      rw [reportedCapacity_snoc,
        ih fun past' event' hp => hfree past' event' (hp.trans (List.prefix_append _ _))]
      exact capacityStep_free (hfree past event (List.prefix_refl _)) x
  constructor
  · intro hsum
    induction history using List.reverseRecOn with
    | nil =>
      intro past event hp
      simp at hp
    | append_singleton history last ih =>
      have hpast := ih fun past hp => hsum past (hp.trans (List.prefix_append _ _))
      intro past event hp
      rcases List.prefix_concat_iff.mp hp with heq | hp
      · obtain ⟨rfl, hlast⟩ := List.append_inj' heq rfl
        have hlast : event = last := by simpa using hlast
        subst hlast
        intro x cacheCapacity hreport
        have htotal := hsum (past ++ [event]) (List.prefix_refl _)
        have hother : ∀ y ∈ registeredNodes (past ++ [event]), y ≠ x →
            reportedCapacity y (past ++ [event]) = 0 := by
          intro y _ hy
          rw [reportedCapacity_snoc, hreported past hpast y, capacityStep, hreport]
          exact if_neg hy
        have hmember : x ∈ registeredNodes (past ++ [event]) := by
          rw [registeredNodes_snoc]
          exact capacityReport_member hreport _
        rw [Finset.sum_eq_single_of_mem x hmember hother, reportedCapacity_snoc, capacityStep,
          hreport] at htotal
        simpa using htotal
      · exact hpast past event hp
  · intro hfree past hp
    apply Finset.sum_eq_zero
    intro x _
    exact hreported past (fun past' event' hp' => hfree past' event' (hp'.trans hp)) x

/-- Every node has one of the three counted statuses all along a run only when no heartbeat
comes from a DEAD node. -/
theorem counted_iff (history : List Event) :
    (∀ past, past <+: history → ∀ x,
        ¬((init heartbeatTimeoutS replicationFactor).run _hash past).HasStatus x .RECOVERED) ↔
      ∀ past event, past ++ [event] <+: history →
        ¬((init heartbeatTimeoutS replicationFactor).run _hash past).Revives event := by
  constructor
  · rintro hcounted past event hp ⟨x, hbeat, hdead⟩
    have hrecovered := revived_status _hash hbeat hdead
    have hrun : (init heartbeatTimeoutS replicationFactor).run _hash (past ++ [event]) =
        ((init heartbeatTimeoutS replicationFactor).run _hash past).step _hash event := by
      simp [run]
    rw [← hrun] at hrecovered
    exact hcounted (past ++ [event]) hp x hrecovered
  · rintro hrevives past hp x ⟨node, hg, hs⟩
    have htracked := tracked_run _hash
      (fun past' event' hp' => hrevives past' event' (hp'.trans hp)) x node hg
    exact htracked.1 hs

/-- The statistics agree with the history all along a run exactly when no heartbeat of the run
comes from a DEAD node and no call of it reports a capacity. -/
theorem stats_consistent_iff (history : List Event) :
    (∀ past, past <+: history → Consistent past
        ((init heartbeatTimeoutS replicationFactor).run _hash past).getClusterStats) ↔
      ∀ past event, past ++ [event] <+: history →
        ¬((init heartbeatTimeoutS replicationFactor).run _hash past).Revives event ∧
          event.CapacityFree := by
  constructor
  · intro hall past event hp
    have hcounted := (counted_iff _hash heartbeatTimeoutS replicationFactor history).mp
      fun past hp => (statuses_iff _).mp (hall past hp).statuses
    have hfree := (capacities_iff history).mp fun past hp =>
      (hall past hp).capacities.symm.trans
        (capacity_run _hash heartbeatTimeoutS replicationFactor past)
    exact ⟨hcounted past event hp, hfree past event hp⟩
  · intro hall past hp
    have hcounted := (counted_iff _hash heartbeatTimeoutS replicationFactor history).mpr
      fun past event hp => (hall past event hp).1
    have hfree := (capacities_iff history).mpr fun past event hp => (hall past event hp).2
    exact
      { statuses := (statuses_iff _).mpr (hcounted past hp)
        sizes := sizes_run _hash heartbeatTimeoutS replicationFactor past
        capacities := (capacity_run _hash heartbeatTimeoutS replicationFactor past).trans
          (hfree past hp).symm }

end runs

/-- The one node of this run is in none of the three counts, and its capacity in no total. -/
theorem silent_then_back_stats :
    ((init 10 3).run (fun _ => 0) silentThenBack).getClusterStats.totalNodes = 1 ∧
      ((init 10 3).run (fun _ => 0) silentThenBack).getClusterStats.aliveNodes = 0 ∧
      ((init 10 3).run (fun _ => 0) silentThenBack).getClusterStats.suspectNodes = 0 ∧
      ((init 10 3).run (fun _ => 0) silentThenBack).getClusterStats.deadNodes = 0 ∧
      ((init 10 3).run (fun _ => 0) silentThenBack).getClusterStats.totalCapacity = 0 ∧
      ∑ x ∈ registeredNodes silentThenBack, reportedCapacity x silentThenBack = 1000 ∧
      ¬Consistent silentThenBack
        ((init 10 3).run (fun _ => 0) silentThenBack).getClusterStats := by
  have hreported :
      ∑ x ∈ registeredNodes silentThenBack, reportedCapacity x silentThenBack = 1000 := by
    decide +kernel
  have hshown := capacity_run (fun _ => 0) 10 3 silentThenBack
  refine ⟨by decide +kernel, by decide +kernel, by decide +kernel, by decide +kernel, hshown,
    hreported, fun h => ?_⟩
  have hcapacities := h.capacities
  omega

end ClusterManager

end SelfHealingCache
