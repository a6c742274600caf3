import SelfHealingCache.ClusterRecords
import Mathlib.Data.Fintype.EquivFin

namespace SelfHealingCache

namespace ClusterManager

/-- The same nodes are registered, with the same statuses. -/
def SameHealth (cm cm' : ClusterManager) : Prop :=
  ∀ x, (cm.nodes.get? x).map NodeMetadata.status = (cm'.nodes.get? x).map NodeMetadata.status

/-- The node set of the ring, `none` when there is no ring. -/
def ringMembers (cm : ClusterManager) : Option (Finset String) := cm.hashRing.map HashRing.nodes

/-- The node set of the ring that `_rebuild_hash_ring` would build now. -/
def aliveMembers (cm : ClusterManager) : Option (Finset String) :=
  if cm.aliveNodes = [] then none else some cm.aliveNodes.toFinset

/-- The ring is the one a rebuild would build. -/
def Current (cm : ClusterManager) : Prop := cm.ringMembers = cm.aliveMembers

/-- A scan at `now` turns the node SUSPECT. -/
def suspects (cm : ClusterManager) (now : Time) (x : String) : Bool :=
  (cm.nodes.get? x).any fun node => node.Suspected cm.heartbeatTimeoutS now

/-- Every node of the list that a scan at `now` turns SUSPECT is followed by one it kills. -/
def EndsRebuilt (cm : ClusterManager) (now : Time) : List String → Prop
  | [] => True
  | x :: rest =>
    (cm.suspects now x = true → rest.any (cm.due now) = true) ∧ EndsRebuilt cm now rest

/-- No node turns SUSPECT after the last death of a scan at `now`. -/
def Settles (cm : ClusterManager) (now : Time) : Prop := cm.EndsRebuilt now cm.nodes.keys

/-- All scans of a run settle. -/
def SettledRun (_hash : String → Nat) (cm : ClusterManager) (history : List Event) : Prop :=
  ∀ past now, past ++ [.checkHeartbeatTimeouts now] <+: history →
    (cm.run _hash past).Settles now

theorem suspects_iff {cm : ClusterManager} {now : Time} {x : String} :
    cm.suspects now x = true ↔ ∃ node, cm.nodes.get? x = some node ∧
      node.Suspected cm.heartbeatTimeoutS now := by
  unfold suspects
  cases cm.nodes.get? x <;> simp

theorem hasStatus_iff {cm : ClusterManager} {x : String} {status : HealthStatus} :
    cm.HasStatus x status ↔ (cm.nodes.get? x).map NodeMetadata.status = some status :=
  Option.map_eq_some_iff.symm

theorem SameHealth.hasStatus {cm cm' : ClusterManager} (h : SameHealth cm cm') (x : String)
    (status : HealthStatus) : cm.HasStatus x status ↔ cm'.HasStatus x status := by
  rw [hasStatus_iff, hasStatus_iff, h x]

theorem aliveMembers_eq_none {cm : ClusterManager} :
    cm.aliveMembers = none ↔ ∀ x, ¬cm.HasStatus x .ALIVE := by
  have hmem : ∀ x, x ∈ cm.aliveNodes ↔ cm.HasStatus x .ALIVE := fun _ => mem_aliveNodes
  unfold aliveMembers
  by_cases h : cm.aliveNodes = []
  · rw [if_pos h]
    refine ⟨fun _ x hx => ?_, fun _ => rfl⟩
    have := (hmem x).mpr hx
    simp [h] at this
  · rw [if_neg h]
    refine ⟨fun hn => (by cases hn), fun hx => ?_⟩
    exact absurd (List.eq_nil_iff_forall_not_mem.mpr fun x hm => hx x ((hmem x).mp hm)) h

theorem aliveMembers_eq_some {cm : ClusterManager} {members : Finset String}
    (h : cm.aliveMembers = some members) (x : String) :
    x ∈ members ↔ cm.HasStatus x .ALIVE := by
  unfold aliveMembers at h
  split at h
  next => cases h
  next =>
    cases Option.some.inj h
    rw [List.mem_toFinset, mem_aliveNodes]

theorem SameHealth.aliveMembers {cm cm' : ClusterManager} (h : SameHealth cm cm') :
    cm.aliveMembers = cm'.aliveMembers := by
  cases hm : cm.aliveMembers with
  | none =>
    have hnone := aliveMembers_eq_none.mp hm
    refine (aliveMembers_eq_none.mpr fun x hx => hnone x ?_).symm
    exact (h.hasStatus x .ALIVE).mpr hx
  | some members =>
    cases hm' : cm'.aliveMembers with
    | none =>
      have hnone := aliveMembers_eq_none.mp hm'
      have hnone' : cm.aliveMembers = none :=
        aliveMembers_eq_none.mpr fun x hx => hnone x ((h.hasStatus x .ALIVE).mp hx)
      rw [hm] at hnone'
      cases hnone'
    | some members' =>
      congr 1
      ext x
      rw [aliveMembers_eq_some hm, aliveMembers_eq_some hm', h.hasStatus]

/-- A call that changes neither ring nor statuses. -/
theorem SameHealth.current {cm cm' : ClusterManager} (h : SameHealth cm cm')
    (hring : cm'.hashRing = cm.hashRing) : cm'.Current ↔ cm.Current := by
  have halive := h.aliveMembers
  unfold Current ringMembers
  rw [hring, halive]

theorem sameHealth_set {cm : ClusterManager} {x : String} {node updated : NodeMetadata}
    (hg : cm.nodes.get? x = some node) (hs : updated.status = node.status) :
    SameHealth cm { cm with nodes := cm.nodes.set x updated } := by
  intro y
  by_cases hy : y = x
  · subst hy
    simp [hg, hs]
  · simp [Dict.get?_set, hy]

section steps

variable (_hash : String → Nat)

theorem current_rebuild (cm : ClusterManager) : (cm.rebuildHashRing _hash).Current := by
  change (if cm.aliveNodes = [] then none
    else some (HashRing.init _hash cm.aliveNodes 160)).map HashRing.nodes =
      if cm.aliveNodes = [] then none else some cm.aliveNodes.toFinset
  split
  next => rfl
  next =>
    rw [Option.map_some]
    congr 1
    ext x
    rw [HashRing.mem_nodes_init, List.mem_toFinset]

theorem current_registerNode (cm : ClusterManager) (now : Time) (nodeId host : String)
    (port : Int) (zone : String) (cacheCapacity : Int) :
    (cm.registerNode _hash now nodeId host port zone cacheCapacity).Current :=
  current_rebuild _hash _

theorem current_deregisterNode {cm : ClusterManager} (h : cm.Current) (now : Time)
    (nodeId : String) : (cm.deregisterNode _hash now nodeId).Current := by
  unfold deregisterNode
  split
  next => exact h
  next => exact current_rebuild _hash _

theorem current_processHeartbeat {cm : ClusterManager} (h : cm.Current) (now : Time)
    (nodeId : String) (metrics : HeartbeatMetrics) :
    (cm.processHeartbeat _hash now nodeId metrics).Current := by
  unfold processHeartbeat
  split
  next => exact h
  next node hg =>
    by_cases hs : node.status = (node.receive now metrics).status
    · have hd : node.status ≠ .DEAD := by
        intro hd
        simp [NodeMetadata.receive, hd] at hs
      rw [if_neg (not_not.mpr hs), if_neg hd]
      have hsame := sameHealth_set hg hs.symm
      exact (hsame.current rfl).mpr h
    · simp only [ne_eq, hs, not_false_eq_true, ↓reduceIte]
      exact current_rebuild _hash _

theorem current_heartbeat {cm : ClusterManager} (h : cm.Current) (registeredAt now : Time)
    (payload : HeartbeatPayload) : (cm.heartbeat _hash registeredAt now payload).Current := by
  apply current_processHeartbeat
  split
  next => exact current_registerNode _hash _ _ _ _ _ _ _
  next node hg =>
    split
    next =>
      have hsame : SameHealth cm { cm with
          nodes :=
            cm.nodes.set payload.nodeId { node with host := payload.host, port := payload.port } } :=
        sameHealth_set hg rfl
      exact (hsame.current rfl).mpr h
    next => exact h

/-- What the scan of one node does to the ring: a death rebuilds it, a suspicion leaves it
behind, and anything else keeps both the ring and the statuses. -/
inductive ScanEffect (now : Time) (cm next : ClusterManager) (x : String) : Prop
  | died (hdue : cm.due now x = true) (hsuspects : cm.suspects now x = false)
    (hcurrent : next.Current)
  | suspected (hdue : cm.due now x = false) (hsuspects : cm.suspects now x = true)
    (hring : next.hashRing = cm.hashRing) (hbefore : cm.HasStatus x .ALIVE)
    (hafter : next.HasStatus x .SUSPECT)
  | kept (hdue : cm.due now x = false) (hsuspects : cm.suspects now x = false)
    (hring : next.hashRing = cm.hashRing) (hhealth : SameHealth cm next)

theorem scanNode_effect (now : Time) (acc : ClusterManager × List String) (x : String) :
    ScanEffect now acc.1 (scanNode _hash now acc x).1 x := by
  unfold scanNode
  cases hg : acc.1.nodes.get? x with
  | none => exact .kept (by simp [due, hg]) (by simp [suspects, hg]) rfl fun _ => rfl
  | some node =>
    dsimp only
    by_cases hm : node.Missed acc.1.heartbeatTimeoutS now
    · rw [if_pos hm]
      by_cases hd : node.Dies acc.1.heartbeatTimeoutS now
      · have hs : ¬node.Suspected acc.1.heartbeatTimeoutS now := by
          intro hs
          have hlast := hd.2
          have hlow := hs.2.1
          omega
        rw [if_pos ((NodeMetadata.scan_dead_iff hm).mpr hd)]
        exact .died (due_iff.mpr ⟨node, hg, hd⟩) (by simp [suspects, hg, hs])
          (current_rebuild _hash _)
      · have hdue : acc.1.due now x = false := by simp [due, hg, hd]
        rw [if_neg fun h => hd ((NodeMetadata.scan_dead_iff hm).mp h)]
        by_cases hs : node.Suspected acc.1.heartbeatTimeoutS now
        · rw [if_pos hs.2.2]
          refine .suspected hdue (suspects_iff.mpr ⟨node, hg, hs⟩) rfl ⟨node, hg, hs.2.2⟩
            ⟨_, Dict.get?_set_self _ _ _, ?_⟩
          rw [NodeMetadata.scan_of_suspected hs]
        · obtain ⟨halive, hscan⟩ := NodeMetadata.scan_of_counted hm hd hs
          rw [if_neg halive]
          exact .kept hdue (by simp [suspects, hg, hs]) rfl (sameHealth_set hg (by rw [hscan]))
    · have hd : ¬node.Dies acc.1.heartbeatTimeoutS now := fun hd => hm hd.1
      have hs : ¬node.Suspected acc.1.heartbeatTimeoutS now := fun hs => hm hs.1
      rw [if_neg hm]
      exact .kept (by simp [due, hg, hd]) (by simp [suspects, hg, hs]) rfl fun _ => rfl

theorem suspects_scanNode (now : Time) (acc : ClusterManager × List String) {k x : String}
    (hx : x ≠ k) : (scanNode _hash now acc k).1.suspects now x = acc.1.suspects now x := by
  unfold suspects
  rw [get?_scanNode, if_neg hx, scanNode_timeout]

theorem endsRebuilt_congr {cm cm' : ClusterManager} {now : Time} {keys : List String}
    (hdue : ∀ x ∈ keys, cm'.due now x = cm.due now x)
    (hsuspects : ∀ x ∈ keys, cm'.suspects now x = cm.suspects now x) :
    cm'.EndsRebuilt now keys ↔ cm.EndsRebuilt now keys := by
  induction keys with
  | nil => exact Iff.rfl
  | cons k keys ih =>
    have hany : keys.any (cm'.due now) = keys.any (cm.due now) := by
      rw [Bool.eq_iff_iff, List.any_eq_true, List.any_eq_true]
      refine exists_congr fun x => and_congr_right fun hx => ?_
      rw [hdue x (List.mem_cons_of_mem k hx)]
    rw [EndsRebuilt, EndsRebuilt, hsuspects k List.mem_cons_self, hany,
      ih (fun x hx => hdue x (List.mem_cons_of_mem k hx))
        fun x hx => hsuspects x (List.mem_cons_of_mem k hx)]

/-- A suspicion that no rebuild follows leaves its node on the ring. -/
theorem not_current_of_suspected {cm next : ClusterManager} {x : String} (h : cm.RoutingInv)
    (hring : next.hashRing = cm.hashRing) (hbefore : cm.HasStatus x .ALIVE)
    (hafter : next.HasStatus x .SUSPECT) : ¬next.Current := by
  intro hcurrent
  obtain ⟨ring, hr, hm⟩ := mem_ringNodes.mp (h.alive x hbefore)
  have hmembers : next.aliveMembers = some ring.nodes := by
    rw [← hcurrent, ringMembers, hring, hr]
    rfl
  have halive := (aliveMembers_eq_some hmembers x).mp hm
  rw [hasStatus_iff] at halive hafter
  rw [hafter] at halive
  cases halive

/-- The ring a scan leaves behind is current exactly when the last suspicion comes before
the last death. -/
theorem current_scan_fold (now : Time) {keys : List String} (hk : keys.Nodup)
    {acc : ClusterManager × List String} (h : acc.1.RoutingInv) :
    (keys.foldl (scanNode _hash now) acc).1.Current ↔
      (acc.1.Current ∨ keys.any (acc.1.due now) = true) ∧ acc.1.EndsRebuilt now keys := by
  induction keys generalizing acc with
  | nil => simp [EndsRebuilt]
  | cons k keys ih =>
    obtain ⟨hnk, hk⟩ := List.nodup_cons.mp hk
    have hne : ∀ x ∈ keys, x ≠ k := by
      rintro x hx rfl
      exact hnk hx
    have hany : keys.any ((scanNode _hash now acc k).1.due now) = keys.any (acc.1.due now) := by
      rw [Bool.eq_iff_iff, List.any_eq_true, List.any_eq_true]
      refine exists_congr fun x => and_congr_right fun hx => ?_
      rw [due_scanNode _hash now acc (hne x hx)]
    have hends : (scanNode _hash now acc k).1.EndsRebuilt now keys ↔
        acc.1.EndsRebuilt now keys :=
      endsRebuilt_congr (fun x hx => due_scanNode _hash now acc (hne x hx))
        fun x hx => suspects_scanNode _hash now acc (hne x hx)
    rw [List.foldl_cons, ih hk (routingInv_scanNode _hash h k), hany, hends, EndsRebuilt,
      List.any_cons]
    cases scanNode_effect _hash now acc k with
    | died hdue hsuspects hcurrent => simp [hdue, hsuspects, hcurrent]
    | suspected hdue hsuspects hring hbefore hafter =>
      have hstale := not_current_of_suspected h hring hbefore hafter
      simp only [hstale, hdue, hsuspects, false_or, Bool.false_or, true_imp_iff]
      constructor
      · exact fun hr => ⟨.inr hr.1, hr.1, hr.2⟩
      · exact fun hr => hr.2
    | kept hdue hsuspects hring hhealth => simp [hdue, hsuspects, hhealth.current hring]

theorem current_checkHeartbeatTimeouts {cm : ClusterManager} (h : cm.RoutingInv)
    (hcurrent : cm.Current) (now : Time) :
    (cm.checkHeartbeatTimeouts _hash now).1.Current ↔ cm.Settles now := by
  rw [checkHeartbeatTimeouts, current_scan_fold _hash now cm.nodes.keys_nodup h]
  simp [hcurrent, Settles]

/-- A call keeps the ring current, unless it is a scan that does not settle. -/
theorem current_step {cm : ClusterManager} (h : cm.RoutingInv) (hcurrent : cm.Current)
    (event : Event) : (cm.step _hash event).Current ↔
      ∀ now, event = .checkHeartbeatTimeouts now → cm.Settles now := by
  cases event with
  | checkHeartbeatTimeouts now =>
    refine (current_checkHeartbeatTimeouts _hash h hcurrent now).trans ⟨?_, fun hs => hs now rfl⟩
    intro hs _ heq
    cases heq
    exact hs
  | registerNode now nodeId host port zone cacheCapacity =>
    refine iff_of_true ?_ fun _ heq => (by cases heq)
    exact current_registerNode _hash cm now nodeId host port zone cacheCapacity
  | deregisterNode now nodeId =>
    refine iff_of_true ?_ fun _ heq => (by cases heq)
    exact current_deregisterNode _hash hcurrent now nodeId
  | processHeartbeat now nodeId metrics =>
    refine iff_of_true ?_ fun _ heq => (by cases heq)
    exact current_processHeartbeat _hash hcurrent now nodeId metrics
  | heartbeat registeredAt now payload =>
    refine iff_of_true ?_ fun _ heq => (by cases heq)
    exact current_heartbeat _hash hcurrent registeredAt now payload

section runs

variable (heartbeatTimeoutS replicationFactor : Int)

theorem current_run {history : List Event}
    (hsettled : SettledRun _hash (init heartbeatTimeoutS replicationFactor) history) :
    ((init heartbeatTimeoutS replicationFactor).run _hash history).Current := by
  induction history using List.reverseRecOn with
  | nil => rfl
  | append_singleton past event ih =>
    have hpast := ih fun before now hp => hsettled before now (hp.trans (List.prefix_append _ _))
    have hinv := routingInv_run _hash heartbeatTimeoutS replicationFactor past
    have hstep := (current_step _hash hinv hpast event).mpr
    rw [run, List.foldl_append]
    apply hstep
    intro now heq
    exact hsettled past now (by rw [heq])

/-- A run with a scan that does not settle reaches a state whose ring is not current. -/
theorem stale_of_not_settled {history : List Event}
    (h : ¬SettledRun _hash (init heartbeatTimeoutS replicationFactor) history) :
    ∃ past, past <+: history ∧
      ¬((init heartbeatTimeoutS replicationFactor).run _hash past).Current := by
  simp only [SettledRun, not_forall] at h
  obtain ⟨past, now, hp, hs⟩ := h
  by_cases hcurrent : ((init heartbeatTimeoutS replicationFactor).run _hash past).Current
  · refine ⟨past ++ [.checkHeartbeatTimeouts now], hp, fun hafter => ?_⟩
    have hinv := routingInv_run _hash heartbeatTimeoutS replicationFactor past
    rw [run, List.foldl_append] at hafter
    exact hs ((current_checkHeartbeatTimeouts _hash hinv hcurrent now).mp hafter)
  · exact ⟨past, (List.prefix_append _ _).trans hp, hcurrent⟩

/-- Registering and deregistering one more node changes no status and rebuilds the ring. -/
theorem detour_current (cm : ClusterManager) (now : Time) {x : String} (hx : x ∉ cm.nodes.keys)
    (host : String) (port : Int) (zone : String) :
    SameHealth cm (cm.run _hash [.registerNode now x host port zone 0, .deregisterNode now x]) ∧
      (cm.run _hash [.registerNode now x host port zone 0, .deregisterNode now x]).Current := by
  have hnone : cm.nodes.get? x = none := Dict.get?_eq_none.mpr hx
  have hknown := get?_registerNode _hash cm now x host port zone 0 x
  rw [if_pos rfl] at hknown
  refine ⟨?_, ?_⟩
  · intro y
    rw [get?_run]
    by_cases hy : y = x
    · subst hy
      simp [recordStep, hnone]
    · simp [recordStep, hy]
  · change ((cm.registerNode _hash now x host port zone 0).deregisterNode _hash now x).Current
    unfold deregisterNode
    rw [hknown]
    exact current_rebuild _hash _

end runs

/-- Runs whose scans all settle end with the same ring whenever they end with the same
registered nodes and statuses; a run with a scan that does not settle reaches a state that
another run reaches with a different ring. -/
theorem ring_by_health :
    (∀ (timeout factor timeout' factor' : Int) (history history' : List Event),
      SettledRun _hash (init timeout factor) history →
      SettledRun _hash (init timeout' factor') history' →
      SameHealth ((init timeout factor).run _hash history)
        ((init timeout' factor').run _hash history') →
      ((init timeout factor).run _hash history).ringMembers =
        ((init timeout' factor').run _hash history').ringMembers) ∧
    ∀ (timeout factor : Int) (history : List Event),
      ¬SettledRun _hash (init timeout factor) history →
      ∃ past history', past <+: history ∧
        SameHealth ((init timeout factor).run _hash past)
          ((init timeout factor).run _hash history') ∧
        ((init timeout factor).run _hash past).ringMembers ≠
          ((init timeout factor).run _hash history').ringMembers := by
  refine ⟨?_, ?_⟩
  · intro timeout factor timeout' factor' history history' hs hs' hhealth
    have hcurrent := current_run _hash timeout factor hs
    have hcurrent' := current_run _hash timeout' factor' hs'
    exact hcurrent.trans (hhealth.aliveMembers.trans hcurrent'.symm)
  · intro timeout factor history hs
    obtain ⟨past, hp, hstale⟩ := stale_of_not_settled _hash timeout factor hs
    obtain ⟨x, hx⟩ := Infinite.exists_notMem_finset
      ((init timeout factor).run _hash past).nodes.keys.toFinset
    rw [List.mem_toFinset] at hx
    obtain ⟨hhealth, hcurrent⟩ := detour_current _hash _ 0 hx "host" 0 "zone"
    refine ⟨past, past ++ [.registerNode 0 x "host" 0 "zone" 0, .deregisterNode 0 x], hp, ?_⟩
    have happ : (init timeout factor).run _hash
        (past ++ [.registerNode 0 x "host" 0 "zone" 0, .deregisterNode 0 x]) =
      ((init timeout factor).run _hash past).run _hash
        [.registerNode 0 x "host" 0 "zone" 0, .deregisterNode 0 x] := List.foldl_append
    rw [happ]
    refine ⟨hhealth, fun heq => hstale ?_⟩
    exact heq.trans (hcurrent.trans hhealth.aliveMembers.symm)

end steps

/-- Node `a` is silent from the start, node `b` after one heartbeat; the third scan kills
`a` and suspects `b`. -/
def twoFailures (first second : String) : List Event :=
  [.registerNode 0 first "host" 1 "zone" 5, .registerNode 0 second "host" 2 "zone" 5,
    .processHeartbeat 5 "b" ⟨none, none, none, none⟩, .checkHeartbeatTimeouts 11,
    .checkHeartbeatTimeouts 14, .checkHeartbeatTimeouts 17]

theorem two_failures_order_matters :
    SameHealth ((init 10 3).run (fun _ => 0) (twoFailures "a" "b"))
        ((init 10 3).run (fun _ => 0) (twoFailures "b" "a")) ∧
      ((init 10 3).run (fun _ => 0) (twoFailures "a" "b")).ringMembers = some {"b"} ∧
      ((init 10 3).run (fun _ => 0) (twoFailures "b" "a")).ringMembers = none := by
  refine ⟨?_, by decide +kernel, by decide +kernel⟩
  intro x
  rw [get?_run, get?_run]
  by_cases ha : x = "a"
  · subst ha
    decide +kernel
  · by_cases hb : x = "b"
    · subst hb
      decide +kernel
    · simp [twoFailures, recordStep, init, ha, hb]

end ClusterManager

end SelfHealingCache
