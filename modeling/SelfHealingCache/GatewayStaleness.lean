import SelfHealingCache.ClusterHealing
import SelfHealingCache.ClusterSingleCopy
import SelfHealingCache.FailureDetection

namespace SelfHealingCache

/-- Every window of a length within a span of time has a reading in it. -/
def Swept (start d t : Time) (times : List Time) : Prop :=
  ∀ u, start ≤ u → u + d ≤ t → ∃ r ∈ times, u < r ∧ r ≤ u + d

theorem three_le_countP {times : List Time} {p : Time → Bool} {r₁ r₂ r₃ : Time} (h₁ : r₁ ∈ times)
    (h₂ : r₂ ∈ times) (h₃ : r₃ ∈ times) (hp : p r₁ ∧ p r₂ ∧ p r₃) (h₁₂ : r₁ < r₂) (h₂₃ : r₂ < r₃) :
    3 ≤ times.countP p := by
  have hnodup : [r₁, r₂, r₃].Nodup := by
    simp [ne_of_lt h₁₂, ne_of_lt h₂₃, ne_of_lt (lt_trans h₁₂ h₂₃)]
  have hsub : [r₁, r₂, r₃] ⊆ times.filter p := by
    intro r hr
    rw [List.mem_filter]
    rcases List.mem_cons.mp hr with rfl | hr
    · exact ⟨h₁, hp.1⟩
    rcases List.mem_cons.mp hr with rfl | hr
    · exact ⟨h₂, hp.2.1⟩
    · rw [List.mem_singleton.mp hr]
      exact ⟨h₃, hp.2.2⟩
  have hlength := (List.subperm_of_subset hnodup hsub).length_le
  rw [List.countP_eq_length_filter]
  exact hlength

/-- Readings at regular times leave three of them behind every deadline that is long past. -/
theorem Swept.three {start d t deadline : Time} {times : List Time} (h : Swept start d t times)
    (hd : 0 ≤ d) (hlate : max deadline start + 3 * d < t) :
    3 ≤ times.countP fun r => deadline < r := by
  have hdeadline := le_max_left deadline start
  have hstart := le_max_right deadline start
  obtain ⟨r₁, h₁, hlow₁, hhigh₁⟩ := h (max deadline start) hstart (by linarith)
  obtain ⟨r₂, h₂, hlow₂, hhigh₂⟩ := h (max deadline start + d) (by linarith) (by linarith)
  obtain ⟨r₃, h₃, hlow₃, hhigh₃⟩ := h (max deadline start + d + d) (by linarith) (by linarith)
  refine three_le_countP h₁ h₂ h₃ ?_ (by linarith) (by linarith)
  simp only [decide_eq_true_eq]
  exact ⟨by linarith, by linarith, by linarith⟩

namespace ClusterManager

/-- The times at which the nodes were scanned. -/
def scanTimes (history : List Event) : List Time :=
  history.filterMap fun event =>
    match event with
    | .checkHeartbeatTimeouts now => some now
    | _ => none

theorem scanTimes_snoc_other (past : List Event) {event : Event}
    (h : ∀ now, event ≠ .checkHeartbeatTimeouts now) :
    scanTimes (past ++ [event]) = scanTimes past := by
  unfold scanTimes
  rw [List.filterMap_append]
  cases event with
  | checkHeartbeatTimeouts now => exact absurd rfl (h now)
  | _ => exact List.append_nil _

theorem mem_readings_of_scan {history : List Event} {r : Time} (h : r ∈ scanTimes history) :
    r ∈ readings history := by
  obtain ⟨event, hevent, hr⟩ := List.mem_filterMap.mp h
  refine List.mem_flatMap.mpr ⟨event, hevent, ?_⟩
  cases event with
  | checkHeartbeatTimeouts now =>
    cases Option.some.inj hr
    exact List.mem_singleton.mpr rfl
  | _ => cases hr

/-- A call that concerns a node is its last contact from then on. -/
theorem contactStep_concerns {x : String} {event : Event} {old : Option Time} {since : Time}
    (hc : event.concerns x = true) (h : contactStep x old event = some since) :
    since ∈ event.readings := by
  cases event with
  | checkHeartbeatTimeouts now => cases hc
  | registerNode now nodeId host port zone cacheCapacity =>
    rw [contactStep, if_pos (of_decide_eq_true hc)] at h
    cases h
    exact List.mem_singleton.mpr rfl
  | deregisterNode now nodeId =>
    rw [contactStep, if_pos (of_decide_eq_true hc)] at h
    cases h
  | processHeartbeat now nodeId metrics =>
    rw [contactStep, if_pos (of_decide_eq_true hc)] at h
    obtain ⟨_, _, rfl⟩ := Option.map_eq_some_iff.mp h
    exact List.mem_singleton.mpr rfl
  | heartbeat registeredAt now payload =>
    rw [contactStep, if_pos (of_decide_eq_true hc)] at h
    cases h
    exact List.mem_cons_of_mem _ (List.mem_singleton.mpr rfl)

theorem contactStep_other {x : String} {event : Event} (old : Option Time)
    (h : event.concerns x = false) : contactStep x old event = old := by
  cases event with
  | checkHeartbeatTimeouts now => rfl
  | _ => exact if_neg (of_decide_eq_false h)

/-- The scans past a node's deadline are late ones. -/
theorem countP_le_lateScans {timeout : Int} (htimeout : 0 ≤ timeout) {x : String} {since : Time}
    (history : List Event) (hclock : (readings history).Pairwise (· ≤ ·))
    (hcontact : lastContact x history = some since) :
    (scanTimes history).countP (fun r => since + timeout < r) ≤
      lateScans timeout x history := by
  induction history using List.reverseRecOn with
  | nil => cases hcontact
  | append_singleton past event ih =>
    rw [lastContact_snoc] at hcontact
    rw [readings_snoc] at hclock
    obtain ⟨hpast, _, hlast⟩ := List.pairwise_append.mp hclock
    by_cases hscan : ∃ now, event = .checkHeartbeatTimeouts now
    · obtain ⟨now, rfl⟩ := hscan
      have hsame : lastContact x past = some since := hcontact
      have hearlier := ih hpast hsame
      have htimes : scanTimes (past ++ [.checkHeartbeatTimeouts now]) =
          scanTimes past ++ [now] := by
        simp [scanTimes]
      rw [lateScans_snoc, hsame, htimes, List.countP_append, List.countP_singleton]
      have hdue : (timeout : ℚ) < now - since ↔ since + timeout < now := lt_sub_iff_add_lt'
      simp only [lateStep, Option.any_some, decide_eq_true_eq, hdue]
      split
      next => omega
      next => omega
    · rw [not_exists] at hscan
      rw [scanTimes_snoc_other past hscan]
      cases hc : event.concerns x with
      | true =>
        have hsince := contactStep_concerns hc hcontact
        have hzero : (scanTimes past).countP (fun r => since + timeout < r) = 0 := by
          rw [List.countP_eq_zero]
          intro r hr hlate
          have hle := hlast r (mem_readings_of_scan hr) since hsince
          have hnonneg : (0 : ℚ) ≤ timeout := by exact_mod_cast htimeout
          have hlt : since + timeout < r := of_decide_eq_true hlate
          linarith
        rw [hzero]
        exact Nat.zero_le _
      | false =>
        rw [contactStep_other _ hc] at hcontact
        have hreaches : event.reaches x = false := by
          cases event with
          | checkHeartbeatTimeouts now => exact absurd rfl (hscan now)
          | _ => exact hc
        rw [lateScans_other hreaches]
        exact ih hpast hcontact

variable (_hash : String → Nat)

/-- A node of the ring has been heard of within the timeout and three scans. -/
theorem heard_of_ring {timeout replicationFactor : Int} (htimeout : 0 ≤ timeout)
    {history : List Event} (hclock : (readings history).Pairwise (· ≤ ·)) {start d t : Time}
    (hd : 0 ≤ d) (hswept : Swept start d t (scanTimes history)) {n : String}
    (hn : n ∈ ((init timeout replicationFactor).run _hash history).ringNodes) :
    ∃ since, lastContact n history = some since ∧ t ≤ max (since + timeout) start + 3 * d := by
  have hrouting := routingInv_run _hash timeout replicationFactor history
  obtain ⟨node, hnode, hstatus⟩ : ∃ node,
      ((init timeout replicationFactor).run _hash history).nodes.get? n = some node ∧
        node.status ≠ .DEAD := by
    rcases hrouting.routed n hn with ⟨node, hnode, hs⟩ | ⟨node, hnode, hs⟩
    · exact ⟨node, hnode, by simp [hs]⟩
    · exact ⟨node, hnode, by simp [hs]⟩
  have hcontact := lastContact_eq _hash timeout replicationFactor history n
  rw [hnode, Option.map_some] at hcontact
  refine ⟨node.lastHeartbeat, hcontact, ?_⟩
  by_contra hlate
  have hthree := hswept.three hd (not_le.mp hlate)
  have hscans := countP_le_lateScans htimeout history hclock hcontact
  have hthreshold : deadThreshold = 3 := rfl
  rcases detected_run _hash timeout replicationFactor history n node hnode with
    ⟨hdead, _⟩ | ⟨_, _, hlow⟩
  · exact hstatus hdead
  · omega

end ClusterManager

namespace Gateway

/-- What an event of the gateway is for its cluster manager. -/
def clusterEvent : Event → Option ClusterManager.Event
  | .heartbeat registeredAt now payload => some (.heartbeat registeredAt now payload)
  | .registerNode now nodeId host port zone cacheCapacity =>
    some (.registerNode now nodeId host port zone cacheCapacity)
  | .failureDetection scannedAt _ => some (.checkHeartbeatTimeouts scannedAt)
  | .healthCheck now => some (.checkHeartbeatTimeouts now)
  | _ => none

variable {_hash : String → Nat}

theorem step_clusterEvent {g g' : Gateway} {event : Event} (h : g.step _hash event = some g') :
    g'.clusterManager = (clusterEvent event).toList.foldl (ClusterManager.step _hash)
      g.clusterManager := by
  cases event with
  | heartbeat registeredAt now payload =>
    cases Option.some.inj h
    rfl
  | registerNode now nodeId host port zone cacheCapacity =>
    cases Option.some.inj h
    rfl
  | failureDetection scannedAt now =>
    cases Option.some.inj h
    rfl
  | healthCheck now =>
    cases Option.some.inj h
    rfl
  | _ => exact step_members _hash h rfl

/-- The cluster manager of a run has seen the calls that the events made to it. -/
theorem runs_cluster {g g' : Gateway} {events : List Event}
    (h : runs (step _hash) g events = some g') :
    g'.clusterManager = g.clusterManager.run _hash (events.filterMap clusterEvent) := by
  refine runs_history (I := fun past (mid : Gateway) => mid.clusterManager =
    g.clusterManager.run _hash (past.filterMap clusterEvent)) rfl ?_ h
  intro past event rest mid next _ _ ih hstep
  have hlast : [event].filterMap clusterEvent = (clusterEvent event).toList := by
    cases hevent : clusterEvent event <;> simp [hevent]
  rw [List.filterMap_append, ClusterManager.run, List.foldl_append, hlast, step_clusterEvent hstep,
    ih]
  rfl

theorem node_of_replicas {g : Gateway} {call : PendingCall}
    (h : call.nodeId ∈ g.replicas _hash call.key ∨
      g.clusterManager.getNodeForKey _hash call.key = some call.nodeId) :
    call.nodeId ∈ g.clusterManager.ringNodes := by
  rcases h with hmem | hprimary
  · exact ClusterManager.getReplicasForKey_mem _hash hmem
  · exact ClusterManager.getNodeForKey_mem _hash hprimary

variable (_hash) in
/-- Whatever the clients and the nodes do, as long as the gateway scans every `d` seconds it sends
no request to a node that has been silent for longer than the timeout and three scans. -/
theorem sent_to_heard {heartbeatTimeoutS replicationFactor failureThreshold timeoutS : Int}
    (htimeout : 0 ≤ heartbeatTimeoutS) {events : List Event} {g : Gateway}
    (hrun : runs (step _hash)
      (init heartbeatTimeoutS replicationFactor failureThreshold timeoutS) events = some g)
    (hclock : (ClusterManager.readings (events.filterMap clusterEvent)).Pairwise (· ≤ ·))
    {start d t : Time} (hd : 0 ≤ d)
    (hswept : Swept start d t (ClusterManager.scanTimes (events.filterMap clusterEvent)))
    {event : Event} {call : PendingCall} {request : HttpRequest}
    (hsent : g.sent _hash event = some (call, request)) :
    ∃ since, ClusterManager.lastContact call.nodeId (events.filterMap clusterEvent) = some since ∧
      t ≤ max (since + heartbeatTimeoutS) start + 3 * d := by
  have hring := node_of_replicas (sent_node _hash hsent)
  have hcluster : g.clusterManager = (ClusterManager.init heartbeatTimeoutS
      replicationFactor).run _hash (events.filterMap clusterEvent) := runs_cluster hrun
  rw [hcluster] at hring
  exact ClusterManager.heard_of_ring _hash htimeout hclock hd hswept hring

/-- A node registers and two scans follow. -/
def scannedTwice : List Event :=
  [.registerNode 0 "a" "h" 1 "z" 5, .failureDetection 3 3, .failureDetection 6 6]

theorem sent_to_heard_scanned_twice : ∃ g call request,
    runs (step fun _ => 0) (init 10 3 5 30) scannedTwice = some g ∧
    g.sent (fun _ => 0) (.getKey 6 "k" none) = some (call, request) ∧
    ∃ since, ClusterManager.lastContact call.nodeId (scannedTwice.filterMap clusterEvent) =
      some since ∧ 6 ≤ max (since + ((10 : Int) : Time)) 0 + 3 * 3 := by
  obtain ⟨g, hrun⟩ := Option.isSome_iff_exists.mp
    (show (runs (step fun _ => 0) (init 10 3 5 30) scannedTwice).isSome from by decide +kernel)
  have hmade : ((runs (step fun _ => 0) (init 10 3 5 30) scannedTwice).bind fun g =>
      g.sent (fun _ => 0) (.getKey 6 "k" none)).isSome = true := by decide +kernel
  rw [hrun, Option.bind_some] at hmade
  obtain ⟨made, hsent⟩ := Option.isSome_iff_exists.mp hmade
  have hswept : Swept 0 3 6
      (ClusterManager.scanTimes (scannedTwice.filterMap clusterEvent)) := by
    intro u hlow hhigh
    rcases lt_or_ge u 3 with hu | hu
    · exact ⟨3, by simp [scannedTwice, clusterEvent, ClusterManager.scanTimes], hu, by linarith⟩
    · exact ⟨6, by simp [scannedTwice, clusterEvent, ClusterManager.scanTimes], by linarith,
        by linarith⟩
  exact ⟨g, made.1, made.2, hrun, hsent, sent_to_heard (fun _ => 0) (by decide) hrun (by decide)
    (by decide) hswept hsent⟩

end Gateway

end SelfHealingCache
