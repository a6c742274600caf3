import SelfHealingCache.HashRing
import Mathlib.Data.Rat.Floor

namespace SelfHealingCache

/-- `time.time()`, in seconds; the arithmetic on it is exact. -/
abbrev Time := ℚ

inductive HealthStatus
  | ALIVE
  | SUSPECT
  | DEAD
  | RECOVERED
  deriving DecidableEq, Repr

structure NodeMetadata where
  nodeId : String
  host : String
  port : Int
  zone : String
  status : HealthStatus := .ALIVE
  lastHeartbeat : Time
  memoryBytes : Int := 0
  cacheSize : Int := 0
  cacheCapacity : Int := 0
  hitRatio : ℚ := 0
  failedAttempts : Nat := 0
  uptimeS : Int := 0
  deriving DecidableEq

/-- The `metrics` dict of `process_heartbeat`; a missing key is `none`. -/
structure HeartbeatMetrics where
  memoryBytes : Option Int
  cacheSize : Option Int
  hitRatio : Option ℚ
  uptimeS : Option Int

/-- `models.HeartbeatPayload`. -/
structure HeartbeatPayload where
  nodeId : String
  host : String
  port : Int
  zone : String
  status : String
  cacheSize : Int
  cacheCapacity : Int
  hitRatio : ℚ
  memoryBytes : Int
  uptimeS : Int
  timestamp : Int

/-- The `type` of an event with the data logged beside it. -/
inductive EventData
  | nodeRegistered (nodeId zone : String) (totalNodes : Nat)
  | nodeDeregistered (nodeId : String) (totalNodes : Nat)
  | nodeRecovered (nodeId : String)
  | nodeDead (nodeId : String) (timeSinceHeartbeat : ℚ)
  | nodeSuspect (nodeId : String) (missedCount : Nat)

structure LogEntry where
  timestamp : Time
  data : EventData

def deadThreshold : Nat := 3

/-- `round(x, 1)`, ties to the even digit. -/
def round1 (x : ℚ) : ℚ :=
  let down := ⌊10 * x⌋
  let rest := 10 * x - down
  if rest < 1 / 2 ∨ rest = 1 / 2 ∧ down % 2 = 0 then down / 10 else (down + 1) / 10

/-- `models.NodeInfo`. -/
structure NodeInfo where
  nodeId : String
  host : String
  port : Int
  zone : String
  status : HealthStatus
  cacheSize : Int
  cacheCapacity : Int
  hitRatio : ℚ
  memoryBytes : Int
  uptimeS : Int
  lastHeartbeat : Time
  deriving DecidableEq

structure ClusterManager where
  heartbeatTimeoutS : Int
  replicationFactor : Int
  nodes : Dict String NodeMetadata
  hashRing : Option HashRing
  eventLog : List LogEntry

namespace NodeMetadata

/-- What one accepted heartbeat does to the record of its node. -/
def receive (now : Time) (metrics : HeartbeatMetrics) (node : NodeMetadata) : NodeMetadata :=
  { node with
    lastHeartbeat := now
    memoryBytes := metrics.memoryBytes.getD 0
    cacheSize := metrics.cacheSize.getD 0
    hitRatio := metrics.hitRatio.getD 0
    uptimeS := metrics.uptimeS.getD 0
    failedAttempts := 0
    status :=
      match node.status with
      | .DEAD => .RECOVERED
      | .SUSPECT => .ALIVE
      | status => status }

/-- The test of one scan: the node is not yet DEAD and its heartbeat is overdue. -/
def Missed (timeout : Int) (now : Time) (node : NodeMetadata) : Prop :=
  node.status ≠ .DEAD ∧ (timeout : ℚ) < now - node.lastHeartbeat

instance (timeout : Int) (now : Time) (node : NodeMetadata) :
    Decidable (node.Missed timeout now) :=
  inferInstanceAs (Decidable (node.status ≠ .DEAD ∧ (timeout : ℚ) < now - node.lastHeartbeat))

/-- What one scan does to the record of a node. -/
def scan (timeout : Int) (now : Time) (node : NodeMetadata) : NodeMetadata :=
  if node.Missed timeout now then
    if deadThreshold ≤ node.failedAttempts + 1 then
      { node with failedAttempts := node.failedAttempts + 1, status := .DEAD }
    else if node.status = .ALIVE then
      { node with failedAttempts := node.failedAttempts + 1, status := .SUSPECT }
    else { node with failedAttempts := node.failedAttempts + 1 }
  else node

end NodeMetadata

namespace ClusterManager

def init (heartbeatTimeoutS replicationFactor : Int) : ClusterManager where
  heartbeatTimeoutS := heartbeatTimeoutS
  replicationFactor := replicationFactor
  nodes := ∅
  hashRing := none
  eventLog := []

def logEvent (cm : ClusterManager) (now : Time) (data : EventData) : ClusterManager :=
  let eventLog := cm.eventLog ++ [⟨now, data⟩]
  { cm with eventLog := if 1000 < eventLog.length then eventLog.tail else eventLog }

def aliveNodes (cm : ClusterManager) : List String :=
  (cm.nodes.items.filter fun p => p.2.status = .ALIVE).map Prod.fst

section transitions

variable (_hash : String → Nat)

def rebuildHashRing (cm : ClusterManager) : ClusterManager :=
  { cm with
    hashRing :=
      if cm.aliveNodes = [] then none else some (HashRing.init _hash cm.aliveNodes 160) }

/-- `cache_capacity` is a parameter the source does not store. -/
def registerNode (cm : ClusterManager) (now : Time) (nodeId host : String) (port : Int)
    (zone : String) (_cacheCapacity : Int) : ClusterManager :=
  let node : NodeMetadata :=
    { nodeId := nodeId, host := host, port := port, zone := zone, lastHeartbeat := now }
  let cm := { cm with nodes := cm.nodes.set nodeId node }
  (cm.rebuildHashRing _hash).logEvent now (.nodeRegistered nodeId zone cm.nodes.size)

def deregisterNode (cm : ClusterManager) (now : Time) (nodeId : String) : ClusterManager :=
  match cm.nodes.get? nodeId with
  | none => cm
  | some _ =>
    let cm := { cm with nodes := cm.nodes.erase nodeId }
    (cm.rebuildHashRing _hash).logEvent now (.nodeDeregistered nodeId cm.nodes.size)

def processHeartbeat (cm : ClusterManager) (now : Time) (nodeId : String)
    (metrics : HeartbeatMetrics) : ClusterManager :=
  match cm.nodes.get? nodeId with
  | none => cm
  | some node =>
    let updated := node.receive now metrics
    let cm := { cm with nodes := cm.nodes.set nodeId updated }
    let cm := if node.status = .DEAD then cm.logEvent now (.nodeRecovered nodeId) else cm
    if node.status ≠ updated.status then cm.rebuildHashRing _hash else cm

/-- The body of the scan loop for one entry of `self.nodes`. -/
def scanNode (now : Time) (acc : ClusterManager × List String) (nodeId : String) :
    ClusterManager × List String :=
  match acc.1.nodes.get? nodeId with
  | none => acc
  | some node =>
    if node.Missed acc.1.heartbeatTimeoutS now then
      let updated := node.scan acc.1.heartbeatTimeoutS now
      let cm := { acc.1 with nodes := acc.1.nodes.set nodeId updated }
      if updated.status = .DEAD then
        ((cm.logEvent now
          (.nodeDead nodeId (round1 (now - node.lastHeartbeat)))).rebuildHashRing _hash,
          acc.2 ++ [nodeId])
      else if node.status = .ALIVE then
        (cm.logEvent now (.nodeSuspect nodeId updated.failedAttempts), acc.2)
      else (cm, acc.2)
    else acc

/-- Returns the new state and `newly_dead`. -/
def checkHeartbeatTimeouts (cm : ClusterManager) (now : Time) : ClusterManager × List String :=
  cm.nodes.keys.foldl (scanNode _hash now) (cm, [])

/-- `POST /heartbeat`: `registeredAt` is the clock read by the registration of
an unknown node, `now` the one read by `process_heartbeat`. -/
def heartbeat (cm : ClusterManager) (registeredAt now : Time) (payload : HeartbeatPayload) :
    ClusterManager :=
  let cm :=
    match cm.nodes.get? payload.nodeId with
    | none =>
      cm.registerNode _hash registeredAt payload.nodeId payload.host payload.port payload.zone
        payload.cacheCapacity
    | some node =>
      if node.host ≠ payload.host ∨ node.port ≠ payload.port then
        { cm with
          nodes :=
            cm.nodes.set payload.nodeId { node with host := payload.host, port := payload.port } }
      else cm
  cm.processHeartbeat _hash now payload.nodeId
    { memoryBytes := some payload.memoryBytes, cacheSize := some payload.cacheSize,
      hitRatio := some payload.hitRatio, uptimeS := some payload.uptimeS }

def getNodeForKey (cm : ClusterManager) (key : String) : Option String :=
  match cm.hashRing with
  | none => none
  | some ring => ring.getNode _hash key

def getReplicasForKey (cm : ClusterManager) (key : String) : List String :=
  match cm.hashRing with
  | none => []
  | some ring => ring.getReplicas _hash key cm.replicationFactor

end transitions

def getNodeInfo (cm : ClusterManager) (nodeId : String) : Option NodeInfo :=
  match cm.nodes.get? nodeId with
  | none => none
  | some n =>
    some
      { nodeId := n.nodeId
        host := n.host
        port := n.port
        zone := n.zone
        status := n.status
        cacheSize := n.cacheSize
        cacheCapacity := n.cacheCapacity
        hitRatio := n.hitRatio
        memoryBytes := n.memoryBytes
        uptimeS := n.uptimeS
        lastHeartbeat := n.lastHeartbeat }

/-- One call into the manager, with the clock readings it makes. -/
inductive Event
  | registerNode (now : Time) (nodeId host : String) (port : Int) (zone : String)
      (cacheCapacity : Int)
  | deregisterNode (now : Time) (nodeId : String)
  | processHeartbeat (now : Time) (nodeId : String) (metrics : HeartbeatMetrics)
  | heartbeat (registeredAt now : Time) (payload : HeartbeatPayload)
  | checkHeartbeatTimeouts (now : Time)

def step (_hash : String → Nat) (cm : ClusterManager) : Event → ClusterManager
  | .registerNode now nodeId host port zone cacheCapacity =>
    cm.registerNode _hash now nodeId host port zone cacheCapacity
  | .deregisterNode now nodeId => cm.deregisterNode _hash now nodeId
  | .processHeartbeat now nodeId metrics => cm.processHeartbeat _hash now nodeId metrics
  | .heartbeat registeredAt now payload => cm.heartbeat _hash registeredAt now payload
  | .checkHeartbeatTimeouts now => (cm.checkHeartbeatTimeouts _hash now).1

/-- The state after a history of calls. -/
def run (_hash : String → Nat) (cm : ClusterManager) (history : List Event) : ClusterManager :=
  history.foldl (step _hash) cm

end ClusterManager

end SelfHealingCache
