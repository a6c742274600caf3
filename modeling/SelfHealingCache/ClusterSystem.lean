import SelfHealingCache.Linearizability
import SelfHealingCache.ServerReplies
import SelfHealingCache.TtlPath

namespace SelfHealingCache

def stringField (p : Bytes × JsonValue) : Option (String × Json) := do
  let name ← readText p.1
  let s ← p.2.getString
  let value ← readText s
  some (name, .str value)

/-- `resp.json()` on an object of strings, which is what the routes of a key answer with. -/
def stringObject : JsonValue → Option Json
  | .object fields => (fields.mapM stringField).map Json.obj
  | _ => none

/-- The answer of a node as `httpx` gives it to the gateway. -/
def HttpReply.response (reply : HttpReply) : Response :=
  ⟨reply.status, reply.content.bind fun content => stringObject content.json⟩

/-- What a client of the gateway receives: the fields of the response model, or an error. -/
abbrev ClientReply := Except HTTPException (List (String × String))

/-- `CacheGetResponse`, `CachePutResponse` and `CacheDeleteResponse`. -/
def Handler.responseModel : Handler → List String
  | .getKey => ["key", "value", "node_id", "zone"]
  | .putKey => ["status", "key", "node_id"]
  | .deleteKey => ["status", "key"]

/-- A field of type `str` of a response model. -/
def modelField (result : Json) (name : String) : Option (String × String) := do
  let value ← (← result.field name).getString
  some (name, value)

/-- The framework checks the result of a handler against its response model. -/
def Handler.validate (handler : Handler) : Except HTTPException Json → ClientReply
  | .error e => .error e
  | .ok result =>
    match handler.responseModel.mapM (modelField result) with
    | none => .error ⟨500, "Internal Server Error"⟩
    | some body => .ok body

/-- What a handler makes of the response of the node. -/
def Handler.result (resp : Response) : Handler → Except Raised Json
  | .getKey => Gateway.getKeyResponse resp
  | .putKey =>
    if ¬(resp.statusCode = 200 ∨ resp.statusCode = 201) then
      .error (.http ⟨resp.statusCode, "Write failed"⟩)
    else resp.jsonResult
  | .deleteKey => Gateway.deleteKeyResponse resp

/-- What the client of a handler receives when the node answers. -/
def Handler.clientReply (handler : Handler) (reply : HttpReply) : ClientReply :=
  handler.validate ((handler.result reply.response).mapError Raised.translate)

/-- How `httpx` and the HTTP server read a URL. -/
structure Wire where
  host : String → String
  rawPath : String → List UInt8
  decode : List UInt8 → List UInt8

/-- The key a handler of the node is called with, if the path has one. -/
def Wire.key (wire : Wire) (url : String) : Option Bytes := received wire.rawPath wire.decode url

/-- The part of a URL between the scheme and the path. -/
def httpHost (url : String) : String :=
  String.ofList ((url.toList.drop 7).takeWhile fun c => c ≠ '/')

/-- Plain HTTP. -/
def httpWire : Wire := ⟨httpHost, httpPath, percentDecode⟩

/-- How far a node is with a request. -/
inductive Flight
  | sent
  | checked (put : WaitingPut)
  | answered (reply : HttpReply)
  | lost

/-- A request on its connection; `waiting` while the handler of the gateway waits for it. -/
structure Message where
  call : PendingCall
  request : HttpRequest
  waiting : Bool
  flight : Flight

/-- A node that is restarted answers none of the requests that it had not answered before. -/
def Message.lose (wire : Wire) (address : String) (message : Message) : Message :=
  match message.flight with
  | .answered _ => message
  | _ => if wire.host message.request.url = address then { message with flight := .lost } else message

theorem Message.lose_call (message : Message) (wire : Wire) (address : String) :
    (message.lose wire address).call = message.call ∧
      (message.lose wire address).waiting = message.waiting := by
  unfold lose
  split
  next => exact ⟨rfl, rfl⟩
  next => split <;> exact ⟨rfl, rfl⟩

/-- The handler no longer waits; a request whose URL is rejected has never been sent. -/
def Message.giveUp (message : Message) (e : RequestError) : Message :=
  { message with
    waiting := false
    flight := if e = .InvalidURL then .lost else message.flight }

theorem Message.giveUp_flight (message : Message) (e : RequestError) :
    (message.giveUp e).flight = message.flight ∨ (message.giveUp e).flight = .lost := by
  unfold giveUp
  dsimp only
  split
  next => exact Or.inr rfl
  next => exact Or.inl rfl

/-- The gateway, the nodes by their addresses, and the requests by their connections. -/
structure ClusterSystem where
  gateway : Gateway
  servers : Dict String CacheServer
  messages : Dict Nat Message
  connections : Nat

section replies

theorem Gateway.reply_result (g : Gateway) (now : Time) (call : PendingCall) (resp : Response) :
    (g.reply now call (.response resp)).2 =
      (call.handler.result resp).mapError Raised.translate := by
  unfold reply callNodeFinish
  dsimp only
  cases call.handler with
  | getKey => rfl
  | deleteKey => rfl
  | putKey =>
    unfold putKeyResponse Handler.result
    dsimp only
    split
    next => rfl
    next => cases resp.jsonResult <;> rfl

theorem stringObject_texts (fields : List (String × String)) :
    stringObject (.object (fields.map fun p => (text p.1, .string (text p.2)))) =
      some (.obj (fields.map fun p => (p.1, .str p.2))) := by
  have hmap : (fields.map fun p => (text p.1, JsonValue.string (text p.2))).mapM stringField =
      some (fields.map fun p => (p.1, Json.str p.2)) := by
    induction fields with
    | nil => rfl
    | cons p fields ih =>
      have hp : stringField (text p.1, .string (text p.2)) = some (p.1, .str p.2) := by
        simp [stringField, JsonValue.getString]
      simp [hp, ih]
  rw [stringObject, hmap, Option.map_some]

/-- The gateway reads the texts that a node writes. -/
theorem respond_texts (status : Nat) (fields : List (String × String)) :
    (respond status (.object (fields.map fun p => (text p.1, .string (text p.2))))).response =
      ⟨status, some (.obj (fields.map fun p => (p.1, .str p.2)))⟩ := by
  have hvalid : (JsonValue.object
      (fields.map fun p => (text p.1, .string (text p.2)))).valid = true := by
    refine JsonValue.valid_object.mpr fun p hp => ?_
    obtain ⟨q, _, rfl⟩ := List.mem_map.mp hp
    exact ⟨isText_text q.1, JsonValue.valid_string.mpr (isText_text q.2)⟩
  rw [respond_valid hvalid, HttpReply.response, Option.bind_some, stringObject_texts]

/-- An exception in the node is an error for the client. -/
theorem clientReply_thrown (handler : Handler) : ∃ e,
    handler.clientReply .thrown = .error e ∧ e.statusCode = 500 := by
  cases handler with
  | getKey => exact ⟨_, rfl, rfl⟩
  | putKey => exact ⟨_, rfl, rfl⟩
  | deleteKey => exact ⟨_, rfl, rfl⟩

theorem clientReply_missing (config_ : NodeConfig) (key : Bytes) : ∃ e,
    Handler.clientReply .getKey (getReply config_ key none) = .error e ∧
      (e.statusCode = 404 ∨ e.statusCode = 500) := by
  by_cases hkey : IsText key
  · obtain ⟨k, rfl⟩ := isText_iff.mp hkey
    have hresp := respond_texts 404 [("error", "key not found"), ("key", k)]
    simp only [List.map_cons, List.map_nil] at hresp
    refine ⟨⟨404, "Key not found"⟩, ?_, Or.inl rfl⟩
    rw [Handler.clientReply, getReply, hresp]
    rfl
  · have hthrown : getReply config_ key none = .thrown := by
      rw [getReply, respond_invalid]
      simp [hkey]
    rw [hthrown]
    obtain ⟨e, he, hstatus⟩ := clientReply_thrown .getKey
    exact ⟨e, he, Or.inr hstatus⟩

/-- A GET that finds a value is answered with this value under the key of the node, or with an
error other than 404. -/
theorem clientReply_found (config_ : NodeConfig) (key : Bytes) (value : String) :
    (∃ k nodeId zone, text k = key ∧
      Handler.clientReply .getKey (getReply config_ key (some (text value))) =
        .ok [("key", k), ("value", value), ("node_id", nodeId), ("zone", zone)]) ∨
    ∃ e, Handler.clientReply .getKey (getReply config_ key (some (text value))) = .error e ∧
      e.statusCode = 500 := by
  by_cases hvalid : IsText key ∧ IsText config_.nodeId ∧ IsText config_.zone
  · obtain ⟨hkey, hid, hzone⟩ := hvalid
    obtain ⟨k, hk⟩ := isText_iff.mp hkey
    obtain ⟨n, hn⟩ := isText_iff.mp hid
    obtain ⟨z, hz⟩ := isText_iff.mp hzone
    have hresp := respond_texts 200 [("key", k), ("value", value), ("node_id", n), ("zone", z)]
    simp only [List.map_cons, List.map_nil] at hresp
    refine Or.inl ⟨k, n, z, hk, ?_⟩
    rw [Handler.clientReply, getReply, ← hk, ← hn, ← hz, hresp]
    rfl
  · have hthrown : getReply config_ key (some (text value)) = .thrown := by
      rw [getReply, respond_invalid]
      simpa [isText_text] using hvalid
    rw [hthrown]
    exact Or.inr (clientReply_thrown .getKey)

/-- A PUT that is carried out is acknowledged, or its answer cannot be written. -/
theorem clientReply_put (config_ : NodeConfig) (key : Bytes) (existed : Bool) :
    (∃ body, Handler.clientReply .putKey (putReply config_ key existed) = .ok body) ∨
    ∃ e, Handler.clientReply .putKey (putReply config_ key existed) = .error e ∧
      e.statusCode = 500 := by
  by_cases hvalid : IsText key ∧ IsText config_.nodeId
  · obtain ⟨hkey, hid⟩ := hvalid
    obtain ⟨k, rfl⟩ := isText_iff.mp hkey
    obtain ⟨n, hn⟩ := isText_iff.mp hid
    cases existed with
    | true =>
      have hresp := respond_texts 200 [("status", "updated"), ("key", k), ("node_id", n)]
      simp only [List.map_cons, List.map_nil] at hresp
      refine Or.inl ⟨[("status", "updated"), ("key", k), ("node_id", n)], ?_⟩
      rw [Handler.clientReply, putReply, if_pos rfl, if_pos rfl, ← hn, hresp]
      rfl
    | false =>
      have hresp := respond_texts 201 [("status", "created"), ("key", k), ("node_id", n)]
      simp only [List.map_cons, List.map_nil] at hresp
      refine Or.inl ⟨[("status", "created"), ("key", k), ("node_id", n)], ?_⟩
      rw [Handler.clientReply, putReply, if_neg (by decide), if_neg (by decide), ← hn, hresp]
      rfl
  · have hthrown : putReply config_ key existed = .thrown := by
      rw [putReply, respond_invalid]
      cases existed <;> simpa [isText_text] using hvalid
    rw [hthrown]
    exact Or.inr (clientReply_thrown .putKey)

/-- A DELETE is acknowledged only if it has removed an entry. -/
theorem clientReply_delete (key : Bytes) (removed : Bool) :
    (removed = true ∧
      ∃ body, Handler.clientReply .deleteKey (deleteReply key removed) = .ok body) ∨
    ∃ e, Handler.clientReply .deleteKey (deleteReply key removed) = .error e ∧
      (e.statusCode = 404 ∨ e.statusCode = 500) := by
  by_cases hkey : IsText key
  · obtain ⟨k, rfl⟩ := isText_iff.mp hkey
    cases removed with
    | true =>
      have hresp := respond_texts 200 [("status", "deleted"), ("key", k)]
      simp only [List.map_cons, List.map_nil] at hresp
      refine Or.inl ⟨rfl, [("status", "deleted"), ("key", k)], ?_⟩
      rw [Handler.clientReply, deleteReply, if_pos rfl, hresp]
      rfl
    | false =>
      have hresp := respond_texts 404 [("error", "key not found"), ("key", k)]
      simp only [List.map_cons, List.map_nil] at hresp
      refine Or.inr ⟨⟨404, "Key not found"⟩, ?_, Or.inl rfl⟩
      rw [Handler.clientReply, deleteReply, if_neg (by decide), hresp]
      rfl
  · have hthrown : deleteReply key removed = .thrown := by
      unfold deleteReply
      split <;> exact respond_invalid (by simp [hkey])
    rw [hthrown]
    obtain ⟨e, he, hstatus⟩ := clientReply_thrown .deleteKey
    exact Or.inr ⟨e, he, Or.inr hstatus⟩

end replies

namespace CacheServer

/-- The next step of a handler: a PUT looks for the key first and stores it then, every other
request is one call of the cache. -/
def handleMessage (wire : Wire) (server : CacheServer) (now : TimePoint) (request : HttpRequest) :
    Flight → Option (CacheServer × Flight)
  | .sent =>
    match wire.key request.url with
    | none => some (server, .answered ⟨404, none⟩)
    | some key =>
      match request.method with
      | .GET => (server.handleGet now key).map fun handled => (handled.1, .answered handled.2)
      | .PUT =>
        match parsePut (request.json.map Json.document) with
        | .error reply => some (server, .answered reply)
        | .ok (value, ttl) =>
          (server.cache_.contains now key).map fun existed =>
            (server, .checked ⟨key, value, ttl, existed⟩)
      | .DELETE => (server.handleDelete key).map fun handled => (handled.1, .answered handled.2)
      | .POST => some (server, .answered ⟨404, none⟩)
  | .checked put =>
    (server.cache_.put now put.key put.value put.ttl).map fun cache =>
      ({ server with cache_ := cache },
        .answered (putReply server.config_ put.key put.existed))
  | .answered _ | .lost => none

end CacheServer

namespace ClusterSystem

/-- What can happen: something at the gateway, a step of a node with a request, the answer
reaches the gateway or the call ends in an exception, a node is started, or it purges. -/
inductive Event
  | gateway (event : Gateway.Event)
  | handle (connection : Nat) (now : TimePoint)
  | respond (connection : Nat) (now : Time)
  | fail (connection : Nat) (now : Time) (e : RequestError)
  | start (address : String) (config : NodeConfig)
  | purge (address : String) (now : Nat → TimePoint)

def init (gateway : Gateway) : ClusterSystem := ⟨gateway, ∅, ∅, 0⟩

section steps

variable (_hash : String → Nat) (wire : Wire)

/-- A call of the gateway opens a connection. -/
def connect (s : ClusterSystem) (gateway : Gateway) :
    Option (PendingCall × HttpRequest) → ClusterSystem
  | none => { s with gateway := gateway }
  | some (call, request) =>
    { s with
      gateway := gateway
      messages := s.messages.set s.connections ⟨call, request, true, .sent⟩
      connections := s.connections + 1 }

def step (s : ClusterSystem) : Event → Option ClusterSystem
  | .gateway (.reply _ _ _) => none
  | .gateway event => do
    let gateway ← s.gateway.step _hash event
    some (s.connect gateway (s.gateway.sent _hash event))
  | .handle connection now => do
    let message ← s.messages.get? connection
    let address := wire.host message.request.url
    let server ← s.servers.get? address
    let (server, flight) ← server.handleMessage wire now message.request message.flight
    some
      { s with
        servers := s.servers.set address server
        messages := s.messages.set connection { message with flight := flight } }
  | .respond connection now => do
    let message ← s.messages.get? connection
    match message.waiting, message.flight with
    | true, .answered reply => do
      let gateway ← s.gateway.step _hash (.reply now message.call (.response reply.response))
      some { s with gateway := gateway, messages := s.messages.erase connection }
    | _, _ => none
  | .fail connection now e => do
    let message ← s.messages.get? connection
    if message.waiting then do
      let gateway ← s.gateway.step _hash (.reply now message.call (.error e))
      some
        { s with
          gateway := gateway
          messages := s.messages.set connection (message.giveUp e) }
    else none
  | .start address config =>
    match CacheServer.construct config with
    | .error _ => none
    | .ok server =>
      some
        { s with
          servers := s.servers.set address server
          messages := s.messages.updateAll (·.lose wire address) }
  | .purge address now => do
    let server ← s.servers.get? address
    let (server, _) ← server.handlePurgeExpired now
    some { s with servers := s.servers.set address server }

variable {_hash wire}

/-- A step of the gateway, with the request that it sends. -/
theorem step_gateway {s s' : ClusterSystem} {event : Gateway.Event}
    (h : s.step _hash wire (.gateway event) = some s') :
    ∃ gateway, s.gateway.step _hash event = some gateway ∧
      s' = s.connect gateway (s.gateway.sent _hash event) := by
  cases event with
  | reply now call outcome => cases h
  | _ =>
    simp only [step, Option.bind_eq_bind, Option.bind_eq_some_iff, Option.some.injEq] at h
    obtain ⟨gateway, hgateway, rfl⟩ := h
    exact ⟨gateway, hgateway, rfl⟩

end steps

end ClusterSystem

end SelfHealingCache
