import SelfHealingCache.ClusterRecords
import Mathlib.Data.List.DropRight

namespace SelfHealingCache

theorem rtake_of_length_le {α : Type} {xs : List α} {n : Nat} (h : xs.length ≤ n) :
    xs.rtake n = xs := by
  have hzero : xs.length - n = 0 := by omega
  rw [List.rtake, hzero, List.drop_zero]

theorem length_rtake {α : Type} (xs : List α) (n : Nat) :
    (xs.rtake n).length = min n xs.length := by
  rw [List.rtake, List.length_drop]
  omega

/-- What a window of the last `n` has dropped, no later window of `n` would show. -/
theorem rtake_append {α : Type} (xs ys : List α) (n : Nat) :
    (xs.rtake n ++ ys).rtake n = (xs ++ ys).rtake n := by
  have hdropped : xs.length - n ≤ xs.length := by omega
  rw [List.rtake, List.rtake, List.rtake, List.length_append, List.length_append, List.length_drop,
    ← List.drop_append_of_le_length hdropped, List.drop_drop]
  congr 1
  omega

theorem rtake_rtake {α : Type} (xs : List α) (m n : Nat) :
    (xs.rtake n).rtake m = xs.rtake (min m n) := by
  rw [List.rtake, List.rtake, List.rtake, List.length_drop, List.drop_drop]
  congr 1
  omega

/-- The slice `xs[start:]`; a negative start counts from the end. -/
def sliceFrom {α : Type} (xs : List α) (start : Int) : List α :=
  xs.drop (if start < 0 then start + xs.length else start).toNat

/-- A negated limit counts the last elements, except when it is zero. -/
theorem sliceFrom_neg {α : Type} (xs : List α) (limit : Nat) :
    sliceFrom xs (-limit) = if limit = 0 then xs else xs.rtake limit := by
  unfold sliceFrom
  by_cases h0 : limit = 0
  · simp [h0]
  · have hneg : -(limit : Int) < 0 := by omega
    rw [if_pos hneg, if_neg h0, List.rtake]
    congr 1
    omega

namespace ClusterManager

def getEventLog (cm : ClusterManager) (limit : Int) : List LogEntry :=
  sliceFrom cm.eventLog (-limit)

/-- The event of a registration. -/
def registration (cm : ClusterManager) (now : Time) (nodeId host : String) (port : Int)
    (zone : String) : LogEntry :=
  ⟨now, .nodeRegistered nodeId zone
    (cm.nodes.set nodeId (registered now nodeId host port zone)).size⟩

/-- The event of a deregistration, which an unknown node has none of. -/
def deregistration (cm : ClusterManager) (now : Time) (nodeId : String) : List LogEntry :=
  match cm.nodes.get? nodeId with
  | none => []
  | some _ => [⟨now, .nodeDeregistered nodeId (cm.nodes.erase nodeId).size⟩]

/-- The event of a heartbeat from a DEAD node. -/
def recovery (cm : ClusterManager) (now : Time) (nodeId : String) : List LogEntry :=
  match cm.nodes.get? nodeId with
  | none => []
  | some node => if node.status = .DEAD then [⟨now, .nodeRecovered nodeId⟩] else []

/-- The event of a scan for one node: its death or its suspicion. -/
def detection (cm : ClusterManager) (now : Time) (nodeId : String) : List LogEntry :=
  match cm.nodes.get? nodeId with
  | none => []
  | some node =>
    if node.Dies cm.heartbeatTimeoutS now then
      [⟨now, .nodeDead nodeId (round1 (now - node.lastHeartbeat))⟩]
    else if node.Suspected cm.heartbeatTimeoutS now then
      [⟨now, .nodeSuspect nodeId (node.failedAttempts + 1)⟩]
    else []

/-- The events of one call, in order of occurrence. -/
def occurred (cm : ClusterManager) : Event → List LogEntry
  | .registerNode now nodeId host port zone _ => [cm.registration now nodeId host port zone]
  | .deregisterNode now nodeId => cm.deregistration now nodeId
  | .processHeartbeat now nodeId _ => cm.recovery now nodeId
  | .heartbeat registeredAt now payload =>
    match cm.nodes.get? payload.nodeId with
    | none =>
      [cm.registration registeredAt payload.nodeId payload.host payload.port payload.zone]
    | some _ => cm.recovery now payload.nodeId
  | .checkHeartbeatTimeouts now => cm.nodes.keys.flatMap (cm.detection now)

/-- The events of a history of calls, in order of occurrence. -/
def allEvents (_hash : String → Nat) (cm : ClusterManager) (history : List Event) :
    List LogEntry :=
  (history.foldl (fun (s : ClusterManager × List LogEntry) event =>
    (s.1.step _hash event, s.2 ++ s.1.occurred event)) (cm, [])).2

/-- The log of the later state is the window of the log of the earlier state with the events. -/
def Logs (cm later : ClusterManager) (events : List LogEntry) : Prop :=
  later.eventLog = (cm.eventLog ++ events).rtake 1000

theorem Logs.bounded {cm later : ClusterManager} {events : List LogEntry}
    (h : cm.Logs later events) : later.eventLog.length ≤ 1000 := by
  rw [h, length_rtake]
  omega

theorem Logs.nothing {cm later : ClusterManager} (hlen : cm.eventLog.length ≤ 1000)
    (h : later.eventLog = cm.eventLog) : cm.Logs later [] := by
  rw [Logs, h, List.append_nil, rtake_of_length_le hlen]

theorem Logs.trans {cm later last : ClusterManager} {events more : List LogEntry}
    (h : cm.Logs later events) (hmore : later.Logs last more) :
    cm.Logs last (events ++ more) := by
  rw [Logs, hmore, h, rtake_append, List.append_assoc]

theorem Logs.of_same_log {cm changed later : ClusterManager} {events : List LogEntry}
    (hsame : changed.eventLog = cm.eventLog) (h : changed.Logs later events) :
    cm.Logs later events := by
  rw [Logs, ← hsame]
  exact h

theorem logs_logEvent {cm changed : ClusterManager} (hlen : cm.eventLog.length ≤ 1000)
    (h : changed.eventLog = cm.eventLog) (now : Time) (data : EventData) :
    cm.Logs (changed.logEvent now data) [⟨now, data⟩] := by
  have hlong : (cm.eventLog ++ [(⟨now, data⟩ : LogEntry)]).length = cm.eventLog.length + 1 := by
    simp
  simp only [Logs, logEvent, h]
  by_cases hfull : 1000 < (cm.eventLog ++ [(⟨now, data⟩ : LogEntry)]).length
  · have hone : (cm.eventLog ++ [(⟨now, data⟩ : LogEntry)]).length - 1000 = 1 := by omega
    rw [if_pos hfull, List.rtake, hone, List.drop_one]
  · rw [if_neg hfull, rtake_of_length_le (by omega)]

variable (_hash : String → Nat)

theorem logs_registerNode {cm : ClusterManager} (hlen : cm.eventLog.length ≤ 1000) (now : Time)
    (nodeId host : String) (port : Int) (zone : String) (cacheCapacity : Int) :
    cm.Logs (cm.registerNode _hash now nodeId host port zone cacheCapacity)
      [cm.registration now nodeId host port zone] := by
  unfold registerNode registration
  exact logs_logEvent hlen rfl now _

theorem logs_deregisterNode {cm : ClusterManager} (hlen : cm.eventLog.length ≤ 1000) (now : Time)
    (nodeId : String) :
    cm.Logs (cm.deregisterNode _hash now nodeId) (cm.deregistration now nodeId) := by
  unfold deregisterNode deregistration
  cases cm.nodes.get? nodeId with
  | none => exact Logs.nothing hlen rfl
  | some node => exact logs_logEvent hlen rfl now _

theorem logs_rebuild {cm later : ClusterManager} {events : List LogEntry}
    (h : cm.Logs later events) : cm.Logs (later.rebuildHashRing _hash) events := h

theorem logs_processHeartbeat {cm : ClusterManager} (hlen : cm.eventLog.length ≤ 1000)
    (now : Time) (nodeId : String) (metrics : HeartbeatMetrics) :
    cm.Logs (cm.processHeartbeat _hash now nodeId metrics) (cm.recovery now nodeId) := by
  unfold processHeartbeat recovery
  cases cm.nodes.get? nodeId with
  | none => exact Logs.nothing hlen rfl
  | some node =>
    have hlogs : cm.Logs
        (if node.status = .DEAD then
          ({ cm with nodes := cm.nodes.set nodeId (node.receive now metrics) } :
            ClusterManager).logEvent now (.nodeRecovered nodeId)
        else { cm with nodes := cm.nodes.set nodeId (node.receive now metrics) })
        (if node.status = .DEAD then [⟨now, .nodeRecovered nodeId⟩] else []) := by
      by_cases hdead : node.status = .DEAD
      · rw [if_pos hdead, if_pos hdead]
        exact logs_logEvent hlen rfl now _
      · rw [if_neg hdead, if_neg hdead]
        exact Logs.nothing hlen rfl
    dsimp only
    split
    next => exact logs_rebuild _hash hlogs
    next => exact hlogs

theorem recovery_congr {cm changed : ClusterManager} {nodeId : String}
    (h : (changed.nodes.get? nodeId).map NodeMetadata.status =
      (cm.nodes.get? nodeId).map NodeMetadata.status) (now : Time) :
    changed.recovery now nodeId = cm.recovery now nodeId := by
  unfold recovery
  cases hc : changed.nodes.get? nodeId with
  | none =>
    rw [hc] at h
    rw [Option.map_eq_none_iff.mp h.symm]
  | some node =>
    rw [hc] at h
    obtain ⟨known, hknown, hstatus⟩ := Option.map_eq_some_iff.mp h.symm
    simp only [hknown, hstatus]

theorem logs_heartbeat {cm : ClusterManager} (hlen : cm.eventLog.length ≤ 1000)
    (registeredAt now : Time) (payload : HeartbeatPayload) :
    cm.Logs (cm.heartbeat _hash registeredAt now payload)
      (cm.occurred (.heartbeat registeredAt now payload)) := by
  unfold heartbeat
  simp only [occurred]
  cases hg : cm.nodes.get? payload.nodeId with
  | none =>
    have hreg := logs_registerNode _hash hlen registeredAt payload.nodeId payload.host
      payload.port payload.zone payload.cacheCapacity
    have halive : (cm.registerNode _hash registeredAt payload.nodeId payload.host payload.port
        payload.zone payload.cacheCapacity).recovery now payload.nodeId = [] := by
      rw [recovery, get?_registerNode, if_pos rfl]
      rfl
    have hbeat := logs_processHeartbeat _hash hreg.bounded now payload.nodeId
      (payloadMetrics payload)
    rw [halive] at hbeat
    have hboth := hreg.trans hbeat
    rw [List.append_nil] at hboth
    exact hboth
  | some node =>
    dsimp only
    split
    next =>
      have hstatus : ({ cm with
          nodes := cm.nodes.set payload.nodeId
            { node with host := payload.host, port := payload.port } } : ClusterManager).recovery
            now payload.nodeId = cm.recovery now payload.nodeId := by
        apply recovery_congr
        rw [Dict.get?_set_self, hg]
        rfl
      rw [← hstatus]
      exact Logs.of_same_log rfl
        (logs_processHeartbeat _hash (by exact hlen) now payload.nodeId (payloadMetrics payload))
    next => exact logs_processHeartbeat _hash hlen now payload.nodeId (payloadMetrics payload)

/-- The iteration of a scan logs what its own test of the record finds. -/
theorem logs_scanNode (now : Time) {acc : ClusterManager × List String}
    (hlen : acc.1.eventLog.length ≤ 1000) (x : String) :
    acc.1.Logs (scanNode _hash now acc x).1 (acc.1.detection now x) := by
  unfold scanNode detection
  cases acc.1.nodes.get? x with
  | none => exact Logs.nothing hlen rfl
  | some node =>
    dsimp only
    by_cases hm : node.Missed acc.1.heartbeatTimeoutS now
    · rw [if_pos hm]
      by_cases hd : node.Dies acc.1.heartbeatTimeoutS now
      · rw [if_pos hd, if_pos ((NodeMetadata.scan_dead_iff hm).mpr hd)]
        exact logs_rebuild _hash (logs_logEvent hlen rfl now _)
      · rw [if_neg hd, if_neg fun h => hd ((NodeMetadata.scan_dead_iff hm).mp h)]
        by_cases hs : node.Suspected acc.1.heartbeatTimeoutS now
        · have hscan := NodeMetadata.scan_of_suspected hs
          rw [if_pos hs, if_pos hs.2.2, hscan]
          exact logs_logEvent hlen rfl now _
        · rw [if_neg hs, if_neg (NodeMetadata.scan_of_counted hm hd hs).1]
          exact Logs.nothing hlen rfl
    · have hd : ¬node.Dies acc.1.heartbeatTimeoutS now := fun hd => hm hd.1
      have hs : ¬node.Suspected acc.1.heartbeatTimeoutS now := fun hs => hm hs.1
      rw [if_neg hm, if_neg hd, if_neg hs]
      exact Logs.nothing hlen rfl

theorem detection_scanNode (now : Time) (acc : ClusterManager × List String) {k x : String}
    (hx : x ≠ k) : (scanNode _hash now acc k).1.detection now x = acc.1.detection now x := by
  unfold detection
  rw [get?_scanNode, if_neg hx, scanNode_timeout]

theorem logs_scan_fold (now : Time) {keys : List String} (hk : keys.Nodup)
    {acc : ClusterManager × List String} (hlen : acc.1.eventLog.length ≤ 1000) :
    acc.1.Logs (keys.foldl (scanNode _hash now) acc).1 (keys.flatMap (acc.1.detection now)) := by
  induction keys generalizing acc with
  | nil => exact Logs.nothing hlen rfl
  | cons k keys ih =>
    obtain ⟨hnk, hk⟩ := List.nodup_cons.mp hk
    have hfirst := logs_scanNode _hash now hlen k
    have hrest : keys.flatMap ((scanNode _hash now acc k).1.detection now) =
        keys.flatMap (acc.1.detection now) := by
      apply List.flatMap_congr
      intro x hx
      exact detection_scanNode _hash now acc (by rintro rfl; exact hnk hx)
    have hkeys := ih hk hfirst.bounded
    rw [hrest] at hkeys
    exact hfirst.trans hkeys

theorem logs_step {cm : ClusterManager} (hlen : cm.eventLog.length ≤ 1000) (event : Event) :
    cm.Logs (cm.step _hash event) (cm.occurred event) := by
  cases event with
  | registerNode now nodeId host port zone cacheCapacity =>
    exact logs_registerNode _hash hlen now nodeId host port zone cacheCapacity
  | deregisterNode now nodeId => exact logs_deregisterNode _hash hlen now nodeId
  | processHeartbeat now nodeId metrics =>
    exact logs_processHeartbeat _hash hlen now nodeId metrics
  | heartbeat registeredAt now payload => exact logs_heartbeat _hash hlen registeredAt now payload
  | checkHeartbeatTimeouts now =>
    exact logs_scan_fold _hash now cm.nodes.keys_nodup hlen

/-- The log is the window of the last 1000 events of the run. -/
theorem logs_run {cm : ClusterManager} (hlen : cm.eventLog.length ≤ 1000)
    (history : List Event) :
    cm.Logs (cm.run _hash history) (cm.allEvents _hash history) := by
  have hboth : (history.foldl (fun (s : ClusterManager × List LogEntry) event =>
      (s.1.step _hash event, s.2 ++ s.1.occurred event)) (cm, [])).1 = cm.run _hash history ∧
      cm.Logs (cm.run _hash history) (cm.allEvents _hash history) := by
    induction history using List.reverseRecOn with
    | nil => exact ⟨rfl, Logs.nothing hlen rfl⟩
    | append_singleton past event ih =>
      obtain ⟨hstate, hlogs⟩ := ih
      have hstep := logs_step _hash hlogs.bounded event
      have hevents : cm.allEvents _hash (past ++ [event]) =
          cm.allEvents _hash past ++ (cm.run _hash past).occurred event := by
        rw [allEvents, List.foldl_append, List.foldl_cons, List.foldl_nil, hstate]
        rfl
      have hrun : cm.run _hash (past ++ [event]) = (cm.run _hash past).step _hash event := by
        simp [run]
      refine ⟨?_, ?_⟩
      · rw [List.foldl_append, List.foldl_cons, List.foldl_nil, hstate, hrun]
      · rw [hevents, hrun]
        exact hlogs.trans hstep
  exact hboth.2

/-- The last events up to the limit, of at most 1000 kept. -/
def window (events : List LogEntry) (limit : Nat) : List LogEntry :=
  events.rtake (min limit (min 1000 events.length))

theorem window_eq (events : List LogEntry) (limit : Nat) :
    window events limit = events.rtake (min limit 1000) := by
  rw [window, List.rtake, List.rtake]
  congr 1
  omega

/-- The query answers with the window unless its limit is zero and something was logged. -/
theorem get_event_log_iff (heartbeatTimeoutS replicationFactor : Int) (history : List Event)
    (limit : Nat) :
    (((init heartbeatTimeoutS replicationFactor).run _hash history).getEventLog limit =
        window ((init heartbeatTimeoutS replicationFactor).allEvents _hash history) limit)
      ↔ 0 < limit ∨ (init heartbeatTimeoutS replicationFactor).allEvents _hash history = [] := by
  have hempty : (init heartbeatTimeoutS replicationFactor).eventLog.length ≤ 1000 :=
    Nat.zero_le 1000
  have hrun := logs_run _hash hempty history
  have hlog : ((init heartbeatTimeoutS replicationFactor).run _hash history).eventLog =
      ((init heartbeatTimeoutS replicationFactor).allEvents _hash history).rtake 1000 := by
    simpa [Logs, init] using hrun
  rw [getEventLog, sliceFrom_neg, hlog, window_eq]
  by_cases h0 : limit = 0
  · rw [if_pos h0, h0, Nat.zero_min, List.rtake_zero]
    constructor
    · intro hnone
      have hlength := congrArg List.length hnone
      rw [length_rtake, List.length_nil] at hlength
      exact Or.inr (List.length_eq_zero_iff.mp (by omega))
    · rintro (hpos | hnone)
      · omega
      · rw [hnone, List.rtake_nil]
  · rw [if_neg h0, rtake_rtake]
    simp [Nat.pos_of_ne_zero h0]

/-- A limit of zero shows the whole log. -/
theorem get_event_log_zero :
    ((init 15 3).run (fun _ => 0) [.registerNode 0 "a" "host" 8001 "zone" 100]).getEventLog 0 ≠
      window ((init 15 3).allEvents (fun _ => 0) [.registerNode 0 "a" "host" 8001 "zone" 100])
        0 := by
  have hshown : ((init 15 3).run (fun _ => 0)
      [.registerNode 0 "a" "host" 8001 "zone" 100]).getEventLog 0 =
        [⟨0, .nodeRegistered "a" "zone" 1⟩] := rfl
  have hlast : window ((init 15 3).allEvents (fun _ => 0)
      [.registerNode 0 "a" "host" 8001 "zone" 100]) 0 = [] := rfl
  rw [hshown, hlast]
  exact List.cons_ne_nil _ _

end ClusterManager

end SelfHealingCache
