import SelfHealingCache.ClusterHealing

namespace SelfHealingCache

/-- The miss of this scan is the one that kills the node. -/
def NodeMetadata.Dies (timeout : Int) (now : Time) (node : NodeMetadata) : Prop :=
  node.Missed timeout now ∧ deadThreshold ≤ node.failedAttempts + 1

instance (timeout : Int) (now : Time) (node : NodeMetadata) : Decidable (node.Dies timeout now) :=
  inferInstanceAs (Decidable (node.Missed timeout now ∧ deadThreshold ≤ node.failedAttempts + 1))

/-- The scan finds an ALIVE node overdue that has misses left. -/
def NodeMetadata.Suspected (timeout : Int) (now : Time) (node : NodeMetadata) : Prop :=
  node.Missed timeout now ∧ node.failedAttempts + 1 < deadThreshold ∧ node.status = .ALIVE

instance (timeout : Int) (now : Time) (node : NodeMetadata) :
    Decidable (node.Suspected timeout now) :=
  inferInstanceAs (Decidable (node.Missed timeout now ∧
    node.failedAttempts + 1 < deadThreshold ∧ node.status = .ALIVE))

namespace NodeMetadata

theorem scan_of_dies {timeout : Int} {now : Time} {node : NodeMetadata}
    (h : node.Dies timeout now) : node.scan timeout now =
      { node with failedAttempts := node.failedAttempts + 1, status := .DEAD } := by
  unfold scan
  rw [if_pos h.1, if_pos h.2]

theorem scan_of_suspected {timeout : Int} {now : Time} {node : NodeMetadata}
    (h : node.Suspected timeout now) : node.scan timeout now =
      { node with failedAttempts := node.failedAttempts + 1, status := .SUSPECT } := by
  have hlow : ¬deadThreshold ≤ node.failedAttempts + 1 := by have := h.2.1; omega
  unfold scan
  rw [if_pos h.1, if_neg hlow, if_pos h.2.2]

/-- Any other miss is only counted. -/
theorem scan_of_counted {timeout : Int} {now : Time} {node : NodeMetadata}
    (hm : node.Missed timeout now) (hd : ¬node.Dies timeout now)
    (hs : ¬node.Suspected timeout now) : node.status ≠ .ALIVE ∧
      node.scan timeout now = { node with failedAttempts := node.failedAttempts + 1 } := by
  have hlow : ¬deadThreshold ≤ node.failedAttempts + 1 := fun h => hd ⟨hm, h⟩
  have halive : node.status ≠ .ALIVE := fun h => hs ⟨hm, by omega, h⟩
  unfold scan
  rw [if_pos hm, if_neg hlow, if_neg halive]
  exact ⟨halive, rfl⟩

theorem scan_of_not_missed {timeout : Int} {now : Time} {node : NodeMetadata}
    (hm : ¬node.Missed timeout now) : node.scan timeout now = node := if_neg hm

theorem scan_dead_iff {timeout : Int} {now : Time} {node : NodeMetadata}
    (hm : node.Missed timeout now) :
    (node.scan timeout now).status = .DEAD ↔ node.Dies timeout now := by
  constructor
  · intro h
    by_contra hd
    by_cases hs : node.Suspected timeout now
    · rw [scan_of_suspected hs] at h
      cases h
    · rw [(scan_of_counted hm hd hs).2] at h
      exact hm.1 h
  · intro hd
    rw [scan_of_dies hd]

end NodeMetadata

namespace ClusterManager

/-- What a call does to the record of one node. -/
def recordStep (timeout : Int) (x : String) (record : Option NodeMetadata) :
    Event → Option NodeMetadata
  | .registerNode now nodeId host port zone _ =>
    if x = nodeId then some (registered now nodeId host port zone) else record
  | .deregisterNode _ nodeId => if x = nodeId then none else record
  | .processHeartbeat now nodeId metrics =>
    if x = nodeId then record.map (NodeMetadata.receive now metrics) else record
  | .heartbeat registeredAt now payload =>
    if x = payload.nodeId then
      some ((contacted registeredAt payload record).receive now (payloadMetrics payload))
    else record
  | .checkHeartbeatTimeouts now => record.map (NodeMetadata.scan timeout now)

/-- The call is about this node alone. -/
def Event.concerns (x : String) : Event → Bool
  | .registerNode _ nodeId _ _ _ _ => x = nodeId
  | .deregisterNode _ nodeId => x = nodeId
  | .processHeartbeat _ nodeId _ => x = nodeId
  | .heartbeat _ _ payload => x = payload.nodeId
  | .checkHeartbeatTimeouts _ => false

/-- The calls that can change the record of a node: its own, and the scans. -/
def Event.reaches (x : String) : Event → Bool
  | .checkHeartbeatTimeouts _ => true
  | event => event.concerns x

theorem recordStep_unreached {timeout : Int} {x : String} {record : Option NodeMetadata}
    {event : Event} (h : event.reaches x = false) : recordStep timeout x record event = record := by
  cases event with
  | checkHeartbeatTimeouts now => cases h
  | _ =>
    have hx := of_decide_eq_false h
    exact if_neg hx

variable (_hash : String → Nat)

theorem get?_step (cm : ClusterManager) (event : Event) (x : String) :
    (cm.step _hash event).nodes.get? x =
      recordStep cm.heartbeatTimeoutS x (cm.nodes.get? x) event := by
  cases event with
  | registerNode now nodeId host port zone cacheCapacity =>
    exact get?_registerNode _hash cm now nodeId host port zone cacheCapacity x
  | deregisterNode now nodeId => exact get?_deregisterNode _hash cm now nodeId x
  | processHeartbeat now nodeId metrics =>
    rw [step, get?_processHeartbeat, recordStep]
    by_cases hx : x = nodeId
    · rw [if_pos hx, if_pos hx, hx]
    · rw [if_neg hx, if_neg hx]
  | heartbeat registeredAt now payload =>
    rw [step, get?_heartbeat, recordStep]
    by_cases hx : x = payload.nodeId
    · rw [if_pos hx, if_pos hx, hx]
    · rw [if_neg hx, if_neg hx]
  | checkHeartbeatTimeouts now => exact get?_checkHeartbeatTimeouts _hash cm now x

/-- Every record runs on its own. -/
theorem get?_run (cm : ClusterManager) (history : List Event) (x : String) :
    (cm.run _hash history).nodes.get? x =
      history.foldl (recordStep cm.heartbeatTimeoutS x) (cm.nodes.get? x) := by
  refine foldl_history (I := fun past (s : ClusterManager) => s.nodes.get? x =
    past.foldl (recordStep cm.heartbeatTimeoutS x) (cm.nodes.get? x)) rfl ?_ history
  intro past event ih
  have htimeout := run_timeout _hash cm past
  rw [get?_step, ih, List.foldl_append, List.foldl_cons, List.foldl_nil, ← htimeout]
  rfl

/-- Calls about other nodes leave no trace in the record of a node. -/
theorem get?_run_filter (cm : ClusterManager) (history : List Event) (x : String) :
    (cm.run _hash (history.filter (Event.reaches x))).nodes.get? x =
      (cm.run _hash history).nodes.get? x := by
  have hskip : ∀ (record : Option NodeMetadata) event, event.reaches x = false →
      recordStep cm.heartbeatTimeoutS x record event = record :=
    fun _ _ h => recordStep_unreached h
  rw [get?_run, get?_run, foldl_relevant hskip]

/-- The node is registered, and the next scan at `now` kills it. -/
def due (cm : ClusterManager) (now : Time) (x : String) : Bool :=
  (cm.nodes.get? x).any fun node => node.Dies cm.heartbeatTimeoutS now

theorem due_iff {cm : ClusterManager} {now : Time} {x : String} :
    cm.due now x = true ↔ ∃ node, cm.nodes.get? x = some node ∧
      node.Dies cm.heartbeatTimeoutS now := by
  unfold due
  cases cm.nodes.get? x <;> simp

theorem scanNode_newly_dead (now : Time) (acc : ClusterManager × List String) (x : String) :
    (scanNode _hash now acc x).2 = if acc.1.due now x then acc.2 ++ [x] else acc.2 := by
  unfold scanNode due
  cases hg : acc.1.nodes.get? x with
  | none => rfl
  | some node =>
    dsimp only
    by_cases hm : node.Missed acc.1.heartbeatTimeoutS now
    · rw [if_pos hm]
      by_cases hd : node.Dies acc.1.heartbeatTimeoutS now
      · rw [if_pos ((NodeMetadata.scan_dead_iff hm).mpr hd)]
        simp [hd]
      · rw [if_neg fun h => hd ((NodeMetadata.scan_dead_iff hm).mp h)]
        have hnone : (some node).any (fun node => node.Dies acc.1.heartbeatTimeoutS now) = false := by
          simp [hd]
        rw [hnone]
        split <;> rfl
    · have hd : ¬node.Dies acc.1.heartbeatTimeoutS now := fun hd => hm hd.1
      simp [hm, hd]

theorem due_scanNode (now : Time) (acc : ClusterManager × List String) {k x : String}
    (hx : x ≠ k) : (scanNode _hash now acc k).1.due now x = acc.1.due now x := by
  unfold due
  rw [get?_scanNode, if_neg hx, scanNode_timeout]

theorem scan_fold_newly_dead (now : Time) {keys : List String} (hk : keys.Nodup)
    (acc : ClusterManager × List String) :
    (keys.foldl (scanNode _hash now) acc).2 = acc.2 ++ keys.filter (acc.1.due now) := by
  induction keys generalizing acc with
  | nil => simp
  | cons k keys ih =>
    obtain ⟨hnk, hk⟩ := List.nodup_cons.mp hk
    have hrest : keys.filter ((scanNode _hash now acc k).1.due now) =
        keys.filter (acc.1.due now) := by
      apply List.filter_congr
      intro x hx
      exact due_scanNode _hash now acc (by rintro rfl; exact hnk hx)
    rw [List.foldl_cons, ih hk, hrest, scanNode_newly_dead]
    cases hd : acc.1.due now k with
    | true => simp [hd]
    | false => simp [hd]

/-- The nodes a scan returns: those it kills, in the order of the dictionary. -/
theorem newly_dead_eq (cm : ClusterManager) (now : Time) :
    (cm.checkHeartbeatTimeouts _hash now).2 = cm.nodes.keys.filter (cm.due now) := by
  rw [checkHeartbeatTimeouts, scan_fold_newly_dead _hash now cm.nodes.keys_nodup,
    List.nil_append]

theorem mem_newly_dead {cm : ClusterManager} {now : Time} {x : String} :
    x ∈ (cm.checkHeartbeatTimeouts _hash now).2 ↔ ∃ node, cm.nodes.get? x = some node ∧
      node.Dies cm.heartbeatTimeoutS now := by
  rw [newly_dead_eq, List.mem_filter, due_iff, Dict.mem_keys_iff]
  constructor
  · exact fun h => h.2
  · intro ⟨node, hg, hd⟩
    exact ⟨⟨node, hg⟩, node, hg, hd⟩

theorem newly_dead_nodup (cm : ClusterManager) (now : Time) :
    (cm.checkHeartbeatTimeouts _hash now).2.Nodup := by
  rw [newly_dead_eq]
  exact cm.nodes.keys_nodup.filter _

theorem newly_dead_of_record {cm : ClusterManager} {x : String} {node : NodeMetadata}
    (h : cm.nodes.get? x = some node) (now : Time) :
    x ∈ (cm.checkHeartbeatTimeouts _hash now).2 ↔ node.Dies cm.heartbeatTimeoutS now := by
  rw [mem_newly_dead]
  constructor
  · intro ⟨known, hknown, hd⟩
    cases Option.some.inj (hknown.symm.trans h)
    exact hd
  · exact fun hd => ⟨node, h, hd⟩

/-- A scan reports a node that it kills once. -/
theorem count_newly_dead {cm : ClusterManager} {x : String} {node : NodeMetadata}
    (h : cm.nodes.get? x = some node) (now : Time) :
    (cm.checkHeartbeatTimeouts _hash now).2.count x =
      if node.Dies cm.heartbeatTimeoutS now then 1 else 0 := by
  have hiff := newly_dead_of_record _hash h now
  by_cases hd : node.Dies cm.heartbeatTimeoutS now
  · rw [List.count_eq_one_of_mem (newly_dead_nodup _hash cm now) (hiff.mpr hd), if_pos hd]
  · rw [List.count_eq_zero_of_not_mem fun hm => hd (hiff.mp hm), if_neg hd]

end ClusterManager

end SelfHealingCache
