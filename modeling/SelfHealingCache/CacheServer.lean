import SelfHealingCache.LruInvariant
import SelfHealingCache.NodeJson

namespace SelfHealingCache

structure NodeConfig where
  nodeId : Bytes
  host : Bytes
  port : Int32
  zone : Bytes
  cacheCapacity : Nat
  defaultTtlS : UInt32

/-- What the HTTP server answers; without content after an exception. -/
structure HttpReply where
  status : Nat
  content : Option Document

namespace HttpReply

/-- An exception leaves the handler. -/
def thrown : HttpReply := ⟨500, none⟩

def Success (reply : HttpReply) : Prop := 200 ≤ reply.status ∧ reply.status < 300

instance (reply : HttpReply) : Decidable reply.Success :=
  inferInstanceAs (Decidable (200 ≤ reply.status ∧ reply.status < 300))

end HttpReply

/-- `set_content(body.dump(), "application/json")` and the status. -/
def respond (status : Nat) (body : JsonValue) : HttpReply :=
  match body.dump with
  | none => .thrown
  | some content => ⟨status, some content⟩

/-- The configuration and the cache of the class. -/
structure CacheServer where
  config_ : NodeConfig
  cache_ : LRUCache Bytes Bytes

section replies

variable (config_ : NodeConfig) (key : Bytes)

def getReply : Option Bytes → HttpReply
  | some val => respond 200 (.object
      [(text "key", .string key), (text "value", .string val),
        (text "node_id", .string config_.nodeId), (text "zone", .string config_.zone)])
  | none => respond 404 (.object
      [(text "error", .string (text "key not found")), (text "key", .string key)])

def putReply (existed : Bool) : HttpReply :=
  respond (if existed then 200 else 201) (.object
    [(text "status", .string (if existed then text "updated" else text "created")),
      (text "key", .string key), (text "node_id", .string config_.nodeId)])

def deleteReply (removed : Bool) : HttpReply :=
  if removed then
    respond 200 (.object [(text "status", .string (text "deleted")), (text "key", .string key)])
  else
    respond 404 (.object
      [(text "error", .string (text "key not found")), (text "key", .string key)])

def keysReply (keys : List Bytes) : HttpReply :=
  respond 200 (.object
    [(text "node_id", .string config_.nodeId), (text "keys", .array (keys.map .string))])

/-- The object of one entry of a snapshot. -/
def snapshotEntry (e : Bytes × Bytes × UInt32) : JsonValue :=
  .object [(text "key", .string e.1), (text "value", .string e.2.1),
    (text "ttl", .numberInteger e.2.2.toNat)]

def snapshotReply (snap : List (Bytes × Bytes × UInt32)) : HttpReply :=
  respond 200 (.object
    [(text "node_id", .string config_.nodeId), (text "entries", .array (snap.map snapshotEntry))])

def loadReply (count : Nat) : HttpReply :=
  respond 200 (.object
    [(text "status", .string (text "loaded")), (text "count", .numberInteger count)])

def purgeReply (removed : Nat) : HttpReply :=
  respond 200 (.object [(text "purged", .numberInteger removed)])

end replies

/-- The fields `handle_put` reads; `none` where one of the reads throws. -/
def putFields (reqBody : JsonValue) : Option (Bytes × UInt32) := do
  let value ← (← reqBody.index "value").getString
  let ttl ← reqBody.valueInt "ttl" 0
  some (value, ttl.toUInt32)

/-- `handle_put` up to its calls of the cache; the body is what `json::parse` makes of it. -/
def parsePut (body : Option Document) : Except HttpReply (Bytes × UInt32) :=
  match body with
  | none => .error (respond 400 (.object [(text "error", .string (text "invalid JSON body"))]))
  | some reqBody =>
    if reqBody.json.contains "value" then
      match putFields reqBody.json with
      | none => .error .thrown
      | some fields => .ok fields
    else .error (respond 400 (.object [(text "error", .string (text "missing 'value' field"))]))

/-- One turn of the loop of `handle_bulk_load`. -/
def loadEntry (e : JsonValue) : Option (Bytes × Bytes × UInt32) := do
  let key ← (← e.index "key").getString
  let value ← (← e.index "value").getString
  let ttl ← e.valueInt "ttl" 0
  some (key, value, ttl.toUInt32)

def loadEntries (req : JsonValue) : Option (List (Bytes × Bytes × UInt32)) := do
  let entries ← req.index "entries"
  entries.elements.mapM loadEntry

/-- `handle_bulk_load` up to its call of the cache. -/
def parseLoad (body : Option Document) : Except HttpReply (List (Bytes × Bytes × UInt32)) :=
  match body with
  | none => .error (respond 400 (.object [(text "error", .string (text "invalid JSON"))]))
  | some req =>
    match loadEntries req.json with
    | none => .error .thrown
    | some entries => .ok entries

/-- The requests that may change the cache, with the readings of the clock. -/
inductive Request
  | get (now : TimePoint) (key : Bytes)
  | put (checked now : TimePoint) (key : Bytes) (body : Option Document)
  | delete (key : Bytes)
  | bulkLoad (now : Nat → TimePoint) (body : Option Document)
  | purgeExpired (now : Nat → TimePoint)

namespace CacheServer

def construct (config : NodeConfig) : Except String CacheServer :=
  match LRUCache.construct config.cacheCapacity config.defaultTtlS with
  | .error what => .error what
  | .ok cache => .ok ⟨config, cache⟩

def handleGet (server : CacheServer) (now : TimePoint) (key : Bytes) :
    Option (CacheServer × HttpReply) := do
  let (cache, val) ← server.cache_.get now key
  some ({ server with cache_ := cache }, getReply server.config_ key val)

/-- `contains` reads the clock at `checked`, `put` at `now`. -/
def handlePut (server : CacheServer) (checked now : TimePoint) (key : Bytes)
    (body : Option Document) : Option (CacheServer × HttpReply) :=
  match parsePut body with
  | .error reply => some (server, reply)
  | .ok (value, ttl) => do
    let existed ← server.cache_.contains checked key
    let cache ← server.cache_.put now key value ttl
    some ({ server with cache_ := cache }, putReply server.config_ key existed)

def handleDelete (server : CacheServer) (key : Bytes) : Option (CacheServer × HttpReply) := do
  let (cache, removed) ← server.cache_.remove key
  some ({ server with cache_ := cache }, deleteReply key removed)

def handleBulkLoad (server : CacheServer) (now : Nat → TimePoint) (body : Option Document) :
    Option (CacheServer × HttpReply) :=
  match parseLoad body with
  | .error reply => some (server, reply)
  | .ok entries => do
    let cache ← LRUCache.bulkLoad now entries server.cache_
    some ({ server with cache_ := cache }, loadReply entries.length)

def handlePurgeExpired (server : CacheServer) (now : Nat → TimePoint) :
    Option (CacheServer × HttpReply) := do
  let (cache, removed) ← server.cache_.purgeExpired now
  some ({ server with cache_ := cache }, purgeReply removed)

def handleKeys (server : CacheServer) (now : Nat → TimePoint) : Option HttpReply := do
  let keys ← server.cache_.keys now
  some (keysReply server.config_ keys)

def handleSnapshot (server : CacheServer) (start : TimePoint) (now : Nat → TimePoint) :
    Option HttpReply := do
  let snap ← server.cache_.snapshot start now
  some (snapshotReply server.config_ snap)

def handle (server : CacheServer) : Request → Option (CacheServer × HttpReply)
  | .get now key => server.handleGet now key
  | .put checked now key body => server.handlePut checked now key body
  | .delete key => server.handleDelete key
  | .bulkLoad now body => server.handleBulkLoad now body
  | .purgeExpired now => server.handlePurgeExpired now

/-- A sequence of requests, one after the other. -/
def run (server : CacheServer) (requests : List Request) : Option CacheServer :=
  runs (fun server request => (server.handle request).map Prod.fst) server requests

/-- The server holds the entries of the store, under its own configuration. -/
structure Holds (server : CacheServer) (c : LruStore Bytes Bytes) : Prop where
  refines : Refines server.cache_ c
  capacity : c.capacity = server.config_.cacheCapacity
  defaultTtlS : c.defaultTtlS = server.config_.defaultTtlS

end CacheServer

namespace LruStore

/-- What a request is to do to the entries, and its answer. -/
def serve (config_ : NodeConfig) (c : LruStore Bytes Bytes) :
    Request → LruStore Bytes Bytes × HttpReply
  | .get now key => ((c.get now key).1, getReply config_ key (c.get now key).2)
  | .put checked now key body =>
    match parsePut body with
    | .error reply => (c, reply)
    | .ok (value, ttl) =>
      (c.put now key value ttl, putReply config_ key (c.contains checked key))
  | .delete key => ((c.remove key).1, deleteReply key (c.remove key).2)
  | .bulkLoad now body =>
    match parseLoad body with
    | .error reply => (c, reply)
    | .ok entries => (bulkLoad now entries c, loadReply entries.length)
  | .purgeExpired now => ((c.purgeExpired now).1, purgeReply (c.purgeExpired now).2)

/-- What a sequence of requests is to do. -/
def serves (config_ : NodeConfig) (c : LruStore Bytes Bytes) (requests : List Request) :
    LruStore Bytes Bytes :=
  requests.foldl (fun c request => (c.serve config_ request).1) c

section bodies

variable {config_ : NodeConfig} {c : LruStore Bytes Bytes} {checked now : TimePoint} {key : Bytes}
  {times : Nat → TimePoint} {body : Option Document} {reply : HttpReply}

theorem serve_put {fields : Bytes × UInt32} (h : parsePut body = .ok fields) :
    c.serve config_ (.put checked now key body) =
      (c.put now key fields.1 fields.2, putReply config_ key (c.contains checked key)) := by
  rw [serve, h]

theorem serve_put_refused (h : parsePut body = .error reply) :
    c.serve config_ (.put checked now key body) = (c, reply) := by
  rw [serve, h]

theorem serve_bulkLoad {entries : List (Bytes × Bytes × UInt32)}
    (h : parseLoad body = .ok entries) :
    c.serve config_ (.bulkLoad times body) =
      (bulkLoad times entries c, loadReply entries.length) := by
  rw [serve, h]

theorem serve_bulkLoad_refused (h : parseLoad body = .error reply) :
    c.serve config_ (.bulkLoad times body) = (c, reply) := by
  rw [serve, h]

end bodies

theorem serve_sameConfig (config_ : NodeConfig) (c : LruStore Bytes Bytes) (request : Request) :
    SameConfig c (c.serve config_ request).1 := by
  cases request with
  | get now key => exact get_sameConfig c now key
  | put checked now key body =>
    cases hparse : parsePut body with
    | error reply =>
      rw [serve_put_refused hparse]
      exact ⟨rfl, rfl⟩
    | ok fields =>
      rw [serve_put hparse]
      exact put_sameConfig c now key fields.1 fields.2
  | delete key => exact remove_sameConfig c key
  | bulkLoad now body =>
    cases hparse : parseLoad body with
    | error reply =>
      rw [serve_bulkLoad_refused hparse]
      exact ⟨rfl, rfl⟩
    | ok entries =>
      rw [serve_bulkLoad hparse]
      exact bulkLoad_sameConfig entries now c
  | purgeExpired now => exact purgeExpired_sameConfig c now

end LruStore

section answers

theorem respond_valid {status : Nat} {body : JsonValue} (h : body.valid = true) :
    respond status body = ⟨status, some ⟨body, h⟩⟩ := by
  rw [respond, JsonValue.dump_of_valid h]

theorem respond_invalid {status : Nat} {body : JsonValue} (h : ¬body.valid = true) :
    respond status body = .thrown := by
  rw [respond, JsonValue.dump_of_invalid h]

theorem thrown_not_success : ¬HttpReply.thrown.Success := by decide

/-- An answer with a success status arrives if its text can be written. -/
theorem respond_success {status : Nat} {body : JsonValue} (h : 200 ≤ status ∧ status < 300) :
    (respond status body).Success ↔ body.valid = true := by
  by_cases hv : body.valid = true
  · rw [respond_valid hv]
    exact ⟨fun _ => hv, fun _ => h⟩
  · rw [respond_invalid hv]
    exact ⟨fun hs => absurd hs thrown_not_success, fun ht => absurd ht hv⟩

theorem respond_status {status : Nat} {body : JsonValue} (h : (respond status body).Success) :
    (respond status body).status = status := by
  by_cases hv : body.valid = true
  · rw [respond_valid hv]
  · rw [respond_invalid hv] at h
    exact absurd h thrown_not_success

theorem failure_status {reply : HttpReply} (h : ¬reply.Success) {status : Nat}
    (hstatus : 200 ≤ status ∧ status < 300) : reply.status ≠ status := by
  intro heq
  rw [← heq] at hstatus
  exact h hstatus

theorem respond_failure {status : Nat} (body : JsonValue) (h : 300 ≤ status) :
    ¬(respond status body).Success := by
  by_cases hv : body.valid = true
  · rw [respond_valid hv]
    intro hs
    have hlt : status < 300 := hs.2
    omega
  · rw [respond_invalid hv]
    exact thrown_not_success

end answers

namespace CacheServer

theorem construct_holds {config : NodeConfig} {server : CacheServer}
    (h : construct config = .ok server) :
    ∃ hcap : 0 < config.cacheCapacity, server.config_ = config ∧
      server.Holds (LruStore.init config.cacheCapacity config.defaultTtlS hcap) := by
  unfold construct at h
  split at h
  next => cases h
  next cache hcache =>
    cases h
    obtain ⟨hcap, hrefines⟩ := construct_ok hcache
    exact ⟨hcap, rfl, hrefines, rfl, rfl⟩

theorem handle_put_refused {server : CacheServer} {body : Option Document} {reply : HttpReply}
    (h : parsePut body = .error reply) (checked now : TimePoint) (key : Bytes) :
    server.handle (.put checked now key body) = some (server, reply) := by
  rw [handle, handlePut, h]

theorem handle_bulkLoad_refused {server : CacheServer} {body : Option Document}
    {reply : HttpReply} (h : parseLoad body = .error reply) (now : Nat → TimePoint) :
    server.handle (.bulkLoad now body) = some (server, reply) := by
  rw [handle, handleBulkLoad, h]

/-- Every handler does to the cache and answers what it is to. -/
theorem handle_holds {server : CacheServer} {c : LruStore Bytes Bytes} (h : server.Holds c)
    (request : Request) : ∃ server',
      server.handle request = some (server', (c.serve server.config_ request).2) ∧
      server'.config_ = server.config_ ∧ server'.Holds (c.serve server.config_ request).1 := by
  obtain ⟨hcap, httl⟩ := c.serve_sameConfig server.config_ request
  have hholds : ∀ cache : LRUCache Bytes Bytes,
      Refines cache (c.serve server.config_ request).1 →
        Holds { server with cache_ := cache } (c.serve server.config_ request).1 :=
    fun cache hrefines => ⟨hrefines, hcap.trans h.capacity, httl.trans h.defaultTtlS⟩
  cases request with
  | get now key =>
    obtain ⟨cache, hget, hrefines⟩ := get_refines h.refines now key
    refine ⟨{ server with cache_ := cache }, ?_, rfl, hholds cache hrefines⟩
    rw [handle, handleGet, hget]
    rfl
  | put checked now key body =>
    cases hparse : parsePut body with
    | error reply =>
      rw [LruStore.serve_put_refused hparse]
      exact ⟨server, handle_put_refused hparse checked now key, rfl, h⟩
    | ok fields =>
      obtain ⟨cache, hput, hrefines⟩ := put_refines h.refines now key fields.1 fields.2
      rw [LruStore.serve_put hparse] at hholds ⊢
      refine ⟨{ server with cache_ := cache }, ?_, rfl, hholds cache hrefines⟩
      rw [handle, handlePut, hparse]
      dsimp only
      rw [contains_refines h.refines, hput]
      rfl
  | delete key =>
    obtain ⟨cache, hremove, hrefines⟩ := remove_refines h.refines key
    refine ⟨{ server with cache_ := cache }, ?_, rfl, hholds cache hrefines⟩
    rw [handle, handleDelete, hremove]
    rfl
  | bulkLoad now body =>
    cases hparse : parseLoad body with
    | error reply =>
      rw [LruStore.serve_bulkLoad_refused hparse]
      exact ⟨server, handle_bulkLoad_refused hparse now, rfl, h⟩
    | ok entries =>
      obtain ⟨cache, hload, hrefines⟩ := bulkLoad_refines entries h.refines now
      rw [LruStore.serve_bulkLoad hparse] at hholds ⊢
      refine ⟨{ server with cache_ := cache }, ?_, rfl, hholds cache hrefines⟩
      rw [handle, handleBulkLoad, hparse]
      dsimp only
      rw [hload]
      rfl
  | purgeExpired now =>
    obtain ⟨cache, hpurge, hrefines⟩ := purgeExpired_refines h.refines now
    refine ⟨{ server with cache_ := cache }, ?_, rfl, hholds cache hrefines⟩
    rw [handle, handlePurgeExpired, hpurge]
    rfl

theorem run_holds (requests : List Request) {server : CacheServer} {c : LruStore Bytes Bytes}
    (h : server.Holds c) : ∃ server', server.run requests = some server' ∧
      server'.config_ = server.config_ ∧ server'.Holds (c.serves server.config_ requests) := by
  induction requests generalizing server c with
  | nil => exact ⟨server, rfl, rfl, h⟩
  | cons request requests ih =>
    obtain ⟨mid, hhandle, hconfig, hmid⟩ := handle_holds h request
    obtain ⟨server', hrun, hconfig', h'⟩ := ih hmid
    rw [hconfig] at hconfig' h'
    refine ⟨server', ?_, hconfig', h'⟩
    rw [run, runs_cons, hhandle]
    exact hrun

end CacheServer

end SelfHealingCache
