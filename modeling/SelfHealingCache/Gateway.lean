import SelfHealingCache.BreakerHistory
import SelfHealingCache.CacheWire
import SelfHealingCache.ClusterRouting
import SelfHealingCache.ZoneRouter

namespace SelfHealingCache

structure HTTPException where
  statusCode : Int
  detail : String
  deriving DecidableEq

/-- What ends a handler's `try` block: an `HTTPException` or any other exception. -/
inductive Raised
  | http (e : HTTPException)
  | other
  deriving DecidableEq

inductive Method
  | GET
  | PUT
  | DELETE
  | POST
  deriving DecidableEq

/-- The request `httpx` is given; `json` is the body. -/
structure HttpRequest where
  method : Method
  url : String
  json : Option Json

/-- The exceptions `httpx` raises while it sends a request and reads the response;
`InvalidURL` comes before anything is sent. -/
inductive RequestError
  | InvalidURL
  | ConnectTimeout
  | ReadTimeout
  | WriteTimeout
  | PoolTimeout
  | ConnectError
  | ReadError
  | WriteError
  | CloseError
  | LocalProtocolError
  | RemoteProtocolError
  | ProxyError
  | UnsupportedProtocol
  | DecodingError
  | TooManyRedirects
  deriving DecidableEq

/-- The subclasses of `httpx.TimeoutException`. -/
def RequestError.TimeoutException : RequestError → Bool
  | .ConnectTimeout | .ReadTimeout | .WriteTimeout | .PoolTimeout => true
  | _ => false

/-- A response; `json` is `none` where `resp.json()` raises. -/
structure Response where
  statusCode : Int
  json : Option Json

/-- `resp.json()`. -/
def Response.jsonResult (resp : Response) : Except Raised Json :=
  match resp.json with
  | none => .error .other
  | some j => .ok j

/-- How an awaited call ends. -/
inductive Outcome
  | response (resp : Response)
  | error (e : RequestError)

/-- `models.CachePutRequest`. -/
structure CachePutRequest where
  value : String
  ttl : Option Int

/-- The handlers that wait for a call. -/
inductive Handler
  | getKey
  | putKey
  | deleteKey
  deriving DecidableEq

/-- A call a handler waits for. -/
structure PendingCall where
  handler : Handler
  nodeId : String
  key : String
  xClientZone : Option String
  deriving DecidableEq

/-- The services of the gateway, and the calls its handlers wait for. -/
structure Gateway where
  clusterManager : ClusterManager
  circuitBreaker : CircuitBreaker
  zoneRouter : ZoneRouter
  pending : List PendingCall

/-- What the `except` clauses of the handlers make of an exception. -/
def Raised.translate : Raised → HTTPException
  | .http e => e
  | .other => ⟨500, "Internal server error"⟩

/-- `call_node` up to its `await`. -/
def callNodeStart (cm : ClusterManager) (nodeId : String) (method : Method) (path : String)
    (body : Option Json) : Except HTTPException HttpRequest :=
  match cm.getNodeInfo nodeId with
  | none => .error ⟨503, "Node " ++ nodeId ++ " not found"⟩
  | some nodeInfo =>
    .ok
      { method := method
        url := "http://" ++ nodeInfo.host ++ ":" ++ toString nodeInfo.port ++ path
        json :=
          match method with
          | .GET => none
          | .PUT => body
          | .DELETE => none
          | .POST => body }

/-- `call_node` after its `await`. -/
def callNodeFinish (cb : CircuitBreaker) (now : Time) (nodeId : String) :
    Outcome → CircuitBreaker × Except Raised Response
  | .response resp =>
    (if 500 ≤ resp.statusCode then cb.recordFailure now nodeId
      else cb.recordSuccess now nodeId, .ok resp)
  | .error e =>
    if e = .ConnectError ∨ e.TimeoutException then
      (cb.recordFailure now nodeId, .error (.http ⟨503, "Node " ++ nodeId ++ " unreachable"⟩))
    else (cb, .error .other)

/-- `available_replicas` of `get_key`, with the breaker after the questions. -/
def availableReplicas (cb : CircuitBreaker) (now : Time) :
    List String → CircuitBreaker × List String
  | [] => (cb, [])
  | n :: replicas =>
    let asked := cb.isAvailable now n
    let rest := availableReplicas asked.1 now replicas
    (rest.1, if asked.2 then n :: rest.2 else rest.2)

namespace Gateway

/-- `startup_event`. -/
def init (heartbeatTimeoutS replicationFactor failureThreshold timeoutS : Int) : Gateway where
  clusterManager := ClusterManager.init heartbeatTimeoutS replicationFactor
  circuitBreaker := CircuitBreaker.init failureThreshold timeoutS
  zoneRouter := ZoneRouter.init
  pending := []

/-- A handler calls a node: the call is pending from here on, or it is refused. -/
def send (g : Gateway) (call : PendingCall) (method : Method) (body : Option Json) :
    Gateway × Except HTTPException (PendingCall × HttpRequest) :=
  match callNodeStart g.clusterManager call.nodeId method ("/cache/" ++ call.key) body with
  | .error e => (g, .error e)
  | .ok request => ({ g with pending := g.pending ++ [call] }, .ok (call, request))

section handlers

variable (_hash : String → Nat)

/-- `get_key` up to the call of a node. -/
def getKey (g : Gateway) (now : Time) (key : String) (xClientZone : Option String) :
    Gateway × Except HTTPException (PendingCall × HttpRequest) :=
  match g.clusterManager.getReplicasForKey _hash key with
  | [] => (g, .error ⟨503, "No nodes available"⟩)
  | primary :: replicas =>
    let asked := availableReplicas g.circuitBreaker now (primary :: replicas)
    let g := { g with circuitBreaker := asked.1 }
    if asked.2 = [] then (g, .error ⟨503, "All replicas unavailable"⟩)
    else
      match g.zoneRouter.pickReplica asked.2 xClientZone primary with
      | none => (g, .error ⟨503, "Node None not found"⟩)
      | some targetNode => g.send ⟨.getKey, targetNode, key, xClientZone⟩ .GET none

/-- The common beginning of `put_key` and `delete_key`. -/
def callPrimary (g : Gateway) (now : Time) (handler : Handler) (method : Method) (key : String)
    (xClientZone : Option String) (body : Option Json) :
    Gateway × Except HTTPException (PendingCall × HttpRequest) :=
  let primary := (g.clusterManager.getNodeForKey _hash key).getD ""
  if primary = "" then (g, .error ⟨503, "No nodes available"⟩)
  else
    let asked := g.circuitBreaker.isAvailable now primary
    let g := { g with circuitBreaker := asked.1 }
    if asked.2 then g.send ⟨handler, primary, key, xClientZone⟩ method body
    else (g, .error ⟨503, "Primary node unavailable"⟩)

/-- `put_key` up to the call of the primary. -/
def putKey (g : Gateway) (now : Time) (key : String) (request : CachePutRequest)
    (xClientZone : Option String) : Gateway × Except HTTPException (PendingCall × HttpRequest) :=
  g.callPrimary _hash now .putKey .PUT key xClientZone
    (some (.obj [("value", .str request.value), ("ttl", .int (request.ttl.getD 0))]))

/-- `delete_key` up to the call of the primary. -/
def deleteKey (g : Gateway) (now : Time) (key : String) :
    Gateway × Except HTTPException (PendingCall × HttpRequest) :=
  g.callPrimary _hash now .deleteKey .DELETE key none none

/-- `POST /heartbeat`. -/
def heartbeat (g : Gateway) (registeredAt now : Time) (payload : HeartbeatPayload) : Gateway :=
  { g with clusterManager := g.clusterManager.heartbeat _hash registeredAt now payload }

/-- `POST /register`. -/
def registerNode (g : Gateway) (now : Time) (nodeId host : String) (port : Int) (zone : String)
    (cacheCapacity : Int) : Gateway :=
  { g with
    clusterManager := g.clusterManager.registerNode _hash now nodeId host port zone
      cacheCapacity }

/-- One turn of `_failure_detection_loop`: the scan reads the clock, then the breaker does. -/
def failureDetection (g : Gateway) (scannedAt now : Time) : Gateway :=
  let scan := g.clusterManager.checkHeartbeatTimeouts _hash scannedAt
  { g with
    clusterManager := scan.1
    circuitBreaker := scan.2.foldl (fun cb nodeId =>
      (List.range g.circuitBreaker.failureThreshold.toNat).foldl
        (fun cb _ => cb.recordFailure now nodeId) cb) g.circuitBreaker }

/-- The background task of `trigger_health_check`. -/
def healthCheck (g : Gateway) (now : Time) : Gateway :=
  { g with clusterManager := (g.clusterManager.checkHeartbeatTimeouts _hash now).1 }

end handlers

/-- `get_key` from the response on. -/
def getKeyResponse (resp : Response) : Except Raised Json :=
  if resp.statusCode = 404 then .error (.http ⟨404, "Key not found"⟩)
  else if resp.statusCode ≠ 200 then .error (.http ⟨resp.statusCode, "Cache node error"⟩)
  else resp.jsonResult

/-- `put_key` from the response on; the write is pinned once its result is read. -/
def putKeyResponse (zr : ZoneRouter) (now : Time) (call : PendingCall) (resp : Response) :
    ZoneRouter × Except Raised Json :=
  if ¬(resp.statusCode = 200 ∨ resp.statusCode = 201) then
    (zr, .error (.http ⟨resp.statusCode, "Write failed"⟩))
  else
    match resp.jsonResult with
    | .error e => (zr, .error e)
    | .ok result =>
      let zone := call.xClientZone.getD ""
      (zr.pinWrite now call.key call.nodeId (if zone = "" then "default" else zone), .ok result)

/-- `delete_key` from the response on. -/
def deleteKeyResponse (resp : Response) : Except Raised Json :=
  if resp.statusCode = 404 then .error (.http ⟨404, "Key not found"⟩)
  else if resp.statusCode ≠ 200 then .error (.http ⟨resp.statusCode, "Delete failed"⟩)
  else resp.jsonResult

/-- A pending call ends and its handler runs to its end. -/
def reply (g : Gateway) (now : Time) (call : PendingCall) (outcome : Outcome) :
    Gateway × Except HTTPException Json :=
  let called := callNodeFinish g.circuitBreaker now call.nodeId outcome
  let g := { g with circuitBreaker := called.1, pending := g.pending.erase call }
  match called.2 with
  | .error e => (g, .error e.translate)
  | .ok resp =>
    match call.handler with
    | .getKey => (g, (getKeyResponse resp).mapError Raised.translate)
    | .putKey =>
      let answered := putKeyResponse g.zoneRouter now call resp
      ({ g with zoneRouter := answered.1 }, answered.2.mapError Raised.translate)
    | .deleteKey => (g, (deleteKeyResponse resp).mapError Raised.translate)

/-- What can happen to the gateway, with the readings of the clock. -/
inductive Event
  | heartbeat (registeredAt now : Time) (payload : HeartbeatPayload)
  | registerNode (now : Time) (nodeId host : String) (port : Int) (zone : String)
      (cacheCapacity : Int)
  | failureDetection (scannedAt now : Time)
  | healthCheck (now : Time)
  | updateLatency (nodeId : String) (latencyMs : ℚ)
  | cleanupExpiredPins (now : Time)
  | getKey (now : Time) (key : String) (xClientZone : Option String)
  | putKey (now : Time) (key : String) (request : CachePutRequest) (xClientZone : Option String)
  | deleteKey (now : Time) (key : String)
  | reply (now : Time) (call : PendingCall) (outcome : Outcome)

/-- Only a pending call can end. -/
def step (_hash : String → Nat) (g : Gateway) : Event → Option Gateway
  | .heartbeat registeredAt now payload => some (g.heartbeat _hash registeredAt now payload)
  | .registerNode now nodeId host port zone cacheCapacity =>
    some (g.registerNode _hash now nodeId host port zone cacheCapacity)
  | .failureDetection scannedAt now => some (g.failureDetection _hash scannedAt now)
  | .healthCheck now => some (g.healthCheck _hash now)
  | .updateLatency nodeId latencyMs =>
    some { g with zoneRouter := g.zoneRouter.updateLatency nodeId latencyMs }
  | .cleanupExpiredPins now =>
    some { g with zoneRouter := (g.zoneRouter.cleanupExpiredPins now).1 }
  | .getKey now key xClientZone => some (g.getKey _hash now key xClientZone).1
  | .putKey now key request xClientZone => some (g.putKey _hash now key request xClientZone).1
  | .deleteKey now key => some (g.deleteKey _hash now key).1
  | .reply now call outcome => if call ∈ g.pending then some (g.reply now call outcome).1 else none

end Gateway

end SelfHealingCache
