import SelfHealingCache.ClusterNodes
import SelfHealingCache.KeyPath
import SelfHealingCache.ServerAtomicity

namespace SelfHealingCache

/-- `hit_ratio()`, without rounding. -/
def CacheMetrics.hitRatio (m : CacheMetrics) : ℚ :=
  let total := m.hits + m.misses
  if total = 0 then 0 else (m.hits.toNat : ℚ) / total.toNat

/-- What `heartbeat_loop` measures besides the state of the cache. -/
structure Measured where
  memoryBytes : Nat
  uptime : Int
  timestamp : Int

structure JsonPost where
  path : String
  body : Document

namespace CacheServer

def heartbeatPayload (server : CacheServer) (measured : Measured) : JsonValue :=
  .object
    [(text "node_id", .string server.config_.nodeId),
      (text "host", .string server.config_.host),
      (text "port", .numberInteger server.config_.port.toInt),
      (text "zone", .string server.config_.zone),
      (text "status", .string (text "alive")),
      (text "cache_size", .numberInteger server.cache_.map_.size),
      (text "cache_capacity", .numberInteger server.cache_.capacity_),
      (text "hit_ratio", .numberFloat server.cache_.metrics_.hitRatio),
      (text "memory_bytes", .numberInteger measured.memoryBytes),
      (text "uptime_s", .numberInteger measured.uptime),
      (text "timestamp", .numberInteger measured.timestamp)]

/-- The request of one turn of `heartbeat_loop`; `none` where `dump` throws. -/
def heartbeatPost (server : CacheServer) (measured : Measured) : Option JsonPost := do
  let body ← (server.heartbeatPayload measured).dump
  some ⟨"/internal/heartbeat", body⟩

end CacheServer

/-- The functions behind the routes of the gateway. -/
inductive Endpoint
  | heartbeat
  | registerNode
  | listNodes
  | getNode
  | clusterStats
  | health
  | eventLog
  | triggerRebalance
  | manualFailover
  | getKey
  | putKey
  | deleteKey
  | root
  | status
  | triggerHealthCheck
  deriving DecidableEq

structure Route where
  method : Method
  path : String
  endpoint : Endpoint

/-- The routers that `main.py` includes, with their prefixes, and its own routes. -/
def routes : List Route :=
  [⟨.POST, "/heartbeat", .heartbeat⟩,
    ⟨.POST, "/register", .registerNode⟩,
    ⟨.GET, "/api/cluster/nodes", .listNodes⟩,
    ⟨.GET, "/api/cluster/nodes/{node_id}", .getNode⟩,
    ⟨.GET, "/api/cluster/stats", .clusterStats⟩,
    ⟨.GET, "/api/cluster/health", .health⟩,
    ⟨.GET, "/api/cluster/events", .eventLog⟩,
    ⟨.POST, "/api/cluster/rebalance", .triggerRebalance⟩,
    ⟨.POST, "/api/cluster/failover/{node_id}", .manualFailover⟩,
    ⟨.GET, "/api/cache/{key}", .getKey⟩,
    ⟨.PUT, "/api/cache/{key}", .putKey⟩,
    ⟨.DELETE, "/api/cache/{key}", .deleteKey⟩,
    ⟨.GET, "/", .root⟩,
    ⟨.GET, "/status", .status⟩,
    ⟨.POST, "/api/health-check", .triggerHealthCheck⟩]

/-- The text of a route before its first parameter. -/
def literalPart (path : String) : List Char := path.toList.takeWhile fun c => c ≠ '\x7b'

/-- Starlette: the path of a request matches a route without parameters if it is the route's
own, and any route only if it begins with the text before the first parameter. -/
structure RoutePaths (pathMatches : String → String → Bool) : Prop where
  plain : ∀ route path, literalPart route = route.toList →
    (pathMatches route path = true ↔ path = route)
  parameter : ∀ route path, pathMatches route path = true → literalPart route <+: path.toList

/-- The function that handles a request, if there is one. -/
def dispatch (pathMatches : String → String → Bool) (method : Method) (path : String) :
    Option Endpoint :=
  (routes.find? fun r => r.method = method ∧ pathMatches r.path path).map Route.endpoint

section agreement

variable (_hash : String → Nat) (pathMatches : String → String → Bool)
  (validate : Document → Option HeartbeatPayload)

/-- The heartbeat of a node reaches its handler, is accepted, and the record of the node then
holds what it carried. -/
def HeartbeatAgreed (server : CacheServer) (measured : Measured) (g : Gateway)
    (registeredAt now : Time) : Prop :=
  ∃ post payload node, server.heartbeatPost measured = some post ∧
    dispatch pathMatches .POST post.path = some .heartbeat ∧
    validate post.body = some payload ∧
    (g.heartbeat _hash registeredAt now payload).clusterManager.nodes.get? payload.nodeId =
      some node ∧
    text node.nodeId = server.config_.nodeId ∧ text node.host = server.config_.host ∧
    node.port = server.config_.port.toInt ∧ text node.zone = server.config_.zone ∧
    node.cacheSize = server.cache_.map_.size ∧ node.cacheCapacity = server.cache_.capacity_ ∧
    node.hitRatio = server.cache_.metrics_.hitRatio ∧
    node.memoryBytes = measured.memoryBytes ∧ node.uptimeS = measured.uptime ∧
    node.lastHeartbeat = now

variable {pathMatches}

/-- No route takes the path of the heartbeats. -/
theorem heartbeat_not_dispatched (hm : RoutePaths pathMatches) (method : Method) :
    dispatch pathMatches method "/internal/heartbeat" = none := by
  have hplain : ∀ r ∈ routes, literalPart r.path = r.path.toList →
      ¬"/internal/heartbeat" = r.path := by decide
  have hparameter : ∀ r ∈ routes, literalPart r.path ≠ r.path.toList →
      ¬literalPart r.path <+: "/internal/heartbeat".toList := by decide
  rw [dispatch, Option.map_eq_none_iff, List.find?_eq_none]
  intro r hr hmatch
  have hpath : pathMatches r.path "/internal/heartbeat" = true := by
    simpa using (of_decide_eq_true hmatch).2
  by_cases hliteral : literalPart r.path = r.path.toList
  · exact hplain r hr hliteral ((hm.plain _ _ hliteral).mp hpath)
  · exact hparameter r hr hliteral (hm.parameter _ _ hpath)

theorem heartbeatPost_path {server : CacheServer} {measured : Measured} {post : JsonPost}
    (h : server.heartbeatPost measured = some post) : post.path = "/internal/heartbeat" := by
  obtain ⟨body, _, hpost⟩ := Option.bind_eq_some_iff.mp h
  cases Option.some.inj hpost
  rfl

/-- Whatever the node, its state and the gateway, no heartbeat reaches a handler. -/
theorem heartbeat_never_agreed (hm : RoutePaths pathMatches) (server : CacheServer)
    (measured : Measured) (g : Gateway) (registeredAt now : Time) :
    (∀ post, server.heartbeatPost measured = some post →
      dispatch pathMatches .POST post.path = none) ∧
    ¬HeartbeatAgreed _hash pathMatches validate server measured g registeredAt now := by
  have hlost : ∀ post, server.heartbeatPost measured = some post →
      dispatch pathMatches .POST post.path = none := by
    intro post hpost
    rw [heartbeatPost_path hpost]
    exact heartbeat_not_dispatched hm .POST
  refine ⟨hlost, fun ⟨post, payload, node, hpost, hdispatch, _⟩ => ?_⟩
  rw [hlost post hpost] at hdispatch
  cases hdispatch

end agreement

/-- Routes whose only parameter, if any, is their last segment. -/
def matchPath (route path : String) : Bool :=
  if literalPart route = route.toList then path = route
  else
    let rest := path.toList.drop (literalPart route).length
    (literalPart route).isPrefixOf path.toList && !rest.isEmpty && !rest.contains '/'

theorem matchPath_routes : RoutePaths matchPath where
  plain := by
    intro route path h
    rw [matchPath, if_pos h, decide_eq_true_iff]
  parameter := by
    intro route path h
    unfold matchPath at h
    split at h
    next hliteral =>
      rw [hliteral, of_decide_eq_true h]
    next =>
      simp only [Bool.and_eq_true] at h
      exact List.isPrefixOf_iff_prefix.mp h.1.1

theorem heartbeat_never_agreed_one_slot : ∃ server,
    CacheServer.construct CacheServer.oneSlot = .ok server ∧
    ¬HeartbeatAgreed (fun _ => 0) matchPath (fun _ => none) server ⟨0, 5, 5000⟩
      Gateway.oneNode 5 5 := by
  obtain ⟨server, hserver⟩ : ∃ server, CacheServer.construct CacheServer.oneSlot = .ok server :=
    ⟨_, rfl⟩
  exact ⟨server, hserver, (heartbeat_never_agreed _ _ matchPath_routes server _ _ 5 5).2⟩

/-- A node sends its heartbeat, and the gateway has no route for it, though it has a handler. -/
theorem heartbeat_lost : ∃ server post,
    CacheServer.construct CacheServer.oneSlot = .ok server ∧
    server.heartbeatPost ⟨0, 5, 5000⟩ = some post ∧
    RoutePaths matchPath ∧ dispatch matchPath .POST post.path = none ∧
    dispatch matchPath .POST "/heartbeat" = some .heartbeat :=
  ⟨_, _, rfl, rfl, matchPath_routes, by decide, by decide⟩

namespace ClusterManager

/-- What the handler would record of a heartbeat that reaches it: all but the capacity, and the
zone only of a node it does not know. -/
theorem heartbeat_record (_hash : String → Nat) (cm : ClusterManager) (registeredAt now : Time)
    (payload : HeartbeatPayload) : ∃ node,
    (cm.heartbeat _hash registeredAt now payload).nodes.get? payload.nodeId = some node ∧
    node.host = payload.host ∧ node.port = payload.port ∧
    node.cacheSize = payload.cacheSize ∧ node.hitRatio = payload.hitRatio ∧
    node.memoryBytes = payload.memoryBytes ∧ node.uptimeS = payload.uptimeS ∧
    node.lastHeartbeat = now ∧
    node.zone = ((cm.nodes.get? payload.nodeId).map NodeMetadata.zone).getD payload.zone ∧
    node.cacheCapacity =
      ((cm.nodes.get? payload.nodeId).map NodeMetadata.cacheCapacity).getD 0 := by
  rw [get?_heartbeat, if_pos rfl]
  cases cm.nodes.get? payload.nodeId with
  | none => exact ⟨_, rfl, rfl, rfl, rfl, rfl, rfl, rfl, rfl, rfl, rfl⟩
  | some node => exact ⟨_, rfl, rfl, rfl, rfl, rfl, rfl, rfl, rfl, rfl, rfl⟩

end ClusterManager

end SelfHealingCache
