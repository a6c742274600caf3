import SelfHealingCache.ClusterSystem

namespace SelfHealingCache

/-- An operation on the entry of one key. -/
inductive Operation
  | read
  | write (value : String)
  | erase
  deriving DecidableEq

/-- The handler of the gateway for an operation. -/
def Operation.handler : Operation → Handler
  | .read => .getKey
  | .write _ => .putKey
  | .erase => .deleteKey

/-- A register that may forget: a read returns what was written last, and only a register that
holds something has something to erase. What is reported as missing is gone; an answer 500 says
nothing about the register, and what it answers is carried out. -/
inductive Lossy : Option String → Operation → ClientReply → Option String → Prop
  | hit {value : String} {body : List (String × String)} :
      ("value", value) ∈ body → Lossy (some value) .read (.ok body) (some value)
  | miss {s : Option String} {e : HTTPException} :
      e.statusCode = 404 → Lossy s .read (.error e) none
  | unread {s : Option String} {e : HTTPException} :
      e.statusCode = 500 → Lossy s .read (.error e) s
  | written {s : Option String} {value : String} {body : List (String × String)} :
      Lossy s (.write value) (.ok body) (some value)
  | unconfirmed {s : Option String} {value : String} {e : HTTPException} :
      e.statusCode = 500 → Lossy s (.write value) (.error e) (some value)
  | erased {value : String} {body : List (String × String)} :
      Lossy (some value) .erase (.ok body) none
  | not_erased {s : Option String} {e : HTTPException} :
      e.statusCode = 404 ∨ e.statusCode = 500 → Lossy s .erase (.error e) none

namespace HttpRequest

/-- The operation that a request asks a node for. -/
def operation (request : HttpRequest) : Option Operation :=
  match request.method with
  | .GET => some .read
  | .PUT => do
    let body ← request.json
    let value ← body.field "value"
    some (.write (← value.getString))
  | .DELETE => some .erase
  | .POST => none

/-- The request is handled by the node at the address under the key. -/
def Targets (wire : Wire) (address : String) (key : Bytes) (request : HttpRequest) : Prop :=
  wire.host request.url = address ∧ wire.key request.url = some key

instance (wire : Wire) (address : String) (key : Bytes) (request : HttpRequest) :
    Decidable (request.Targets wire address key) :=
  inferInstanceAs (Decidable (_ ∧ _))

/-- The request is what the handler of the operation forwards. -/
def Forwards (request : HttpRequest) : Operation → Prop
  | .read => request.method = .GET
  | .write value => request.method = .PUT ∧
      ∃ ttl, request.json = some (.obj [("value", .str value), ("ttl", .int ttl)])
  | .erase => request.method = .DELETE

theorem Forwards.operation {request : HttpRequest} {op : Operation} (h : request.Forwards op) :
    request.operation = some op := by
  unfold HttpRequest.operation
  cases op with
  | read =>
    have hmethod : request.method = .GET := h
    rw [hmethod]
  | write value =>
    obtain ⟨hmethod, ttl, hjson⟩ := h
    rw [hmethod, hjson]
    rfl
  | erase =>
    have hmethod : request.method = .DELETE := h
    rw [hmethod]

end HttpRequest

namespace Gateway

theorem send_request {g : Gateway} {call : PendingCall} {method : Method} {body : Option Json}
    {made : PendingCall × HttpRequest} (h : (g.send call method body).2.toOption = some made) :
    made.1 = call ∧ made.2.method = method ∧ (method = .PUT → made.2.json = body) := by
  unfold send callNodeStart at h
  cases hinfo : g.clusterManager.getNodeInfo call.nodeId with
  | none =>
    rw [hinfo] at h
    cases h
  | some info =>
    rw [hinfo] at h
    cases Option.some.inj h
    refine ⟨rfl, rfl, fun hput => ?_⟩
    rw [hput]

theorem callPrimary_request (_hash : String → Nat) {g : Gateway} {now : Time} {handler : Handler}
    {method : Method} {key : String} {xClientZone : Option String} {body : Option Json}
    {made : PendingCall × HttpRequest}
    (h : (g.callPrimary _hash now handler method key xClientZone body).2.toOption = some made) :
    made.1.handler = handler ∧ made.2.method = method ∧ (method = .PUT → made.2.json = body) := by
  unfold callPrimary at h
  dsimp only at h
  split at h
  next => cases h
  next =>
    split at h
    next =>
      obtain ⟨hcall, hrequest⟩ := send_request h
      rw [hcall]
      exact ⟨rfl, hrequest⟩
    next => cases h

/-- The request of a handler is the one for its operation. -/
theorem sent_forwards (_hash : String → Nat) {g : Gateway} {event : Event} {call : PendingCall}
    {request : HttpRequest} (h : g.sent _hash event = some (call, request)) :
    ∃ op, request.Forwards op ∧ call.handler = op.handler := by
  cases event with
  | getKey now key xClientZone =>
    rw [sent] at h
    rcases getKey_cases _hash g now key xClientZone with ⟨_, e, _, hget⟩ | ⟨n, _, _, hget⟩
    · rw [hget] at h
      cases h
    · rw [hget] at h
      obtain ⟨hcall, hmethod, _⟩ := send_request h
      refine ⟨.read, hmethod, ?_⟩
      dsimp only at hcall
      rw [hcall]
      rfl
  | putKey now key put xClientZone =>
    obtain ⟨hhandler, hmethod, hbody⟩ := callPrimary_request _hash h
    exact ⟨.write put.value, ⟨hmethod, put.ttl.getD 0, hbody rfl⟩, hhandler⟩
  | deleteKey now key =>
    obtain ⟨hhandler, hmethod, _⟩ := callPrimary_request _hash h
    exact ⟨.erase, hmethod, hhandler⟩
  | _ => cases h

end Gateway

namespace LruStore

/-- An entry of the key, if there is one, has the value last written. -/
def Remembers (c : LruStore Bytes Bytes) (key : Bytes) (written : Option String) : Prop :=
  ∀ e, c.find? key = some e → ∃ value, text value = e.value ∧ written = some value

variable {c c' : LruStore Bytes Bytes} {key : Bytes} {written : Option String}

theorem Remembers.of_missing (h : c.find? key = none) : c.Remembers key written := by
  intro e he
  rw [h] at he
  cases he

theorem Remembers.of_entries (h : c.Remembers key written)
    (hsub : ∀ e ∈ c'.entries, e.key = key → e ∈ c.entries) : c'.Remembers key written := by
  rcases find?_of_entries hsub with hnone | hsame
  · exact .of_missing hnone
  · intro e he
    exact h e (hsame ▸ he)

theorem Remembers.get (h : c.Remembers key written) (now : TimePoint) (k : Bytes) :
    (c.get now k).1.Remembers key written :=
  h.of_entries fun _ he _ => get_entries_subset c now k he

theorem Remembers.purgeExpired (h : c.Remembers key written) (now : Nat → TimePoint) :
    (c.purgeExpired now).1.Remembers key written :=
  h.of_entries fun _ he _ => (unexpired_sublist now c.entries).subset he

theorem Remembers.remove (h : c.Remembers key written) (k : Bytes) :
    (c.remove k).1.Remembers key written := by
  refine h.of_entries fun e he _ => ?_
  rw [remove_entries] at he
  exact (mem_without.mp he).1

theorem Remembers.put_other (h : c.Remembers key written) {k : Bytes} (hk : k ≠ key)
    (now : TimePoint) (value : Bytes) (ttl : UInt32) :
    (c.put now k value ttl).Remembers key written :=
  h.of_entries (put_entries_other c now value ttl hk)

/-- What is removed is what was written. -/
theorem Remembers.of_removed (h : c.Remembers key written) (hremoved : (c.remove key).2 = true) :
    ∃ value, written = some value := by
  rw [remove_removed] at hremoved
  obtain ⟨e, he⟩ := Option.isSome_iff_exists.mp hremoved
  obtain ⟨value, _, hwritten⟩ := h e he
  exact ⟨value, hwritten⟩

theorem remembers_put (c : LruStore Bytes Bytes) (now : TimePoint) (key : Bytes) (value : String)
    (ttl : UInt32) : (c.put now key (text value) ttl).Remembers key (some value) := by
  intro e he
  rw [put_find?_self] at he
  cases Option.some.inj he
  exact ⟨value, rfl, rfl⟩

theorem remembers_remove (c : LruStore Bytes Bytes) (key : Bytes) :
    (c.remove key).1.Remembers key none := by
  refine .of_missing (find?_eq_none.mpr fun e he => ?_)
  rw [remove_entries] at he
  exact (mem_without.mp he).2

/-- A read that finds a value finds the one last written; after one that finds none there is
no entry. -/
theorem Remembers.read (h : c.Remembers key written) (now : TimePoint) :
    (∃ value, (c.get now key).2 = some (text value) ∧ written = some value) ∨
      (c.get now key).2 = none ∧ (c.get now key).1.find? key = none := by
  cases hf : c.find? key with
  | none =>
    refine Or.inr ⟨(get_missing hf now).1, find?_eq_none.mpr ?_⟩
    rw [missed_entries hf]
    exact find?_eq_none.mp hf
  | some e =>
    cases hexp : isExpired now e with
    | true =>
      refine Or.inr ⟨(get_expired hf hexp).1, find?_eq_none.mpr fun x hx => ?_⟩
      rw [expired_entries hf hexp] at hx
      exact (mem_without.mp hx).2
    | false =>
      obtain ⟨value, hvalue, hwritten⟩ := h e hf
      refine Or.inl ⟨value, ?_, hwritten⟩
      rw [hvalue]
      exact (get_hit hf hexp).1

end LruStore

/-- A PUT that has been checked is about to write the value of the operation. -/
def Flight.Carries (key : Bytes) (op : Operation) : Flight → Prop
  | .checked put => put.key = key ∧ ∃ value, op = .write value ∧ put.value = text value
  | _ => True

namespace CacheServer

variable {wire : Wire} {server server' : CacheServer} {store : LruStore Bytes Bytes}
  {now : TimePoint} {request : HttpRequest} {flight flight' : Flight} {key : Bytes}
  {written : Option String}

/-- The server holds entries of which the one of the key has the value last written. -/
def Remembers (server : CacheServer) (key : Bytes) (written : Option String) : Prop :=
  ∃ store, server.Holds store ∧ store.Remembers key written

theorem handleGet_store (h : server.Holds store) {k : Bytes} {reply : HttpReply}
    (hget : server.handleGet now k = some (server', reply)) :
    server'.Holds (store.get now k).1 ∧
      reply = getReply server.config_ k (store.get now k).2 := by
  obtain ⟨next, hhandle, _, hholds⟩ := handle_holds h (.get now k)
  rw [handle, hget] at hhandle
  cases hhandle
  exact ⟨hholds, rfl⟩

theorem handleDelete_store (h : server.Holds store) {k : Bytes} {reply : HttpReply}
    (hdelete : server.handleDelete k = some (server', reply)) :
    server'.Holds (store.remove k).1 ∧ reply = deleteReply k (store.remove k).2 := by
  obtain ⟨next, hhandle, _, hholds⟩ := handle_holds h (.delete k)
  rw [handle, hdelete] at hhandle
  cases hhandle
  exact ⟨hholds, rfl⟩

theorem handle_purge_store (h : server.Holds store) {times : Nat → TimePoint} {reply : HttpReply}
    (hpurge : server.handlePurgeExpired times = some (server', reply)) :
    server'.Holds (store.purgeExpired times).1 := by
  obtain ⟨next, hhandle, _, hholds⟩ := handle_holds h (.purgeExpired times)
  rw [handle, hpurge] at hhandle
  cases hhandle
  exact hholds

theorem put_store (h : server.Holds store) {k value : Bytes} {ttl : UInt32}
    {cache : LRUCache Bytes Bytes} (hput : server.cache_.put now k value ttl = some cache) :
    Holds { server with cache_ := cache } (store.put now k value ttl) := by
  obtain ⟨cache', hput', hrefines⟩ := put_refines h.refines now k value ttl
  cases Option.some.inj (hput.symm.trans hput')
  obtain ⟨hcap, httl⟩ := LruStore.put_sameConfig store now k value ttl
  exact ⟨hrefines, hcap.trans h.capacity, httl.trans h.defaultTtlS⟩

/-- A step with a request for another key leaves the entry of this one or drops it. -/
theorem handleMessage_other (h : server.Remembers key written) (hkey : wire.key request.url ≠ some key)
    (hput : ∀ put, flight = .checked put → wire.key request.url = some put.key)
    (hhandle : server.handleMessage wire now request flight = some (server', flight')) :
    server'.Remembers key written := by
  obtain ⟨store, hholds, hremembers⟩ := h
  unfold handleMessage at hhandle
  split at hhandle
  next =>
    split at hhandle
    next =>
      cases hhandle
      exact ⟨store, hholds, hremembers⟩
    next k hk =>
      split at hhandle
      next =>
        obtain ⟨handled, hget, heq⟩ := Option.map_eq_some_iff.mp hhandle
        cases heq
        exact ⟨_, (handleGet_store hholds hget).1, hremembers.get now k⟩
      next =>
        split at hhandle
        next =>
          cases hhandle
          exact ⟨store, hholds, hremembers⟩
        next =>
          obtain ⟨existed, _, heq⟩ := Option.map_eq_some_iff.mp hhandle
          cases heq
          exact ⟨store, hholds, hremembers⟩
      next =>
        obtain ⟨handled, hdelete, heq⟩ := Option.map_eq_some_iff.mp hhandle
        cases heq
        exact ⟨_, (handleDelete_store hholds hdelete).1, hremembers.remove k⟩
      next =>
        cases hhandle
        exact ⟨store, hholds, hremembers⟩
  next put =>
    obtain ⟨cache, hcache, heq⟩ := Option.map_eq_some_iff.mp hhandle
    cases heq
    have hne : put.key ≠ key := by
      intro hsame
      rw [← hsame] at hkey
      exact hkey (hput put rfl)
    exact ⟨_, put_store hholds hcache, hremembers.put_other hne now put.value put.ttl⟩
  next => cases hhandle
  next => cases hhandle

/-- A PUT that has been checked carries the key of its path. -/
theorem handleMessage_checked {put : WaitingPut}
    (hhandle : server.handleMessage wire now request flight = some (server', .checked put)) :
    wire.key request.url = some put.key := by
  unfold handleMessage at hhandle
  split at hhandle
  next =>
    split at hhandle
    next => cases hhandle
    next k hk =>
      split at hhandle
      next =>
        obtain ⟨handled, _, heq⟩ := Option.map_eq_some_iff.mp hhandle
        cases heq
      next =>
        split at hhandle
        next => cases hhandle
        next =>
          obtain ⟨existed, _, heq⟩ := Option.map_eq_some_iff.mp hhandle
          cases heq
          exact hk
      next =>
        obtain ⟨handled, _, heq⟩ := Option.map_eq_some_iff.mp hhandle
        cases heq
      next => cases hhandle
  next =>
    obtain ⟨cache, _, heq⟩ := Option.map_eq_some_iff.mp hhandle
    cases heq
  next => cases hhandle
  next => cases hhandle

/-- A node takes steps only with requests that it has not answered. -/
theorem handleMessage_open
    (hhandle : server.handleMessage wire now request flight = some (server', flight')) :
    flight = .sent ∨ ∃ put, flight = .checked put := by
  cases flight with
  | sent => exact Or.inl rfl
  | checked put => exact Or.inr ⟨put, rfl⟩
  | answered reply => cases hhandle
  | lost => cases hhandle

/-- A GET answers with the value last written, or its entry is gone. -/
theorem get_lossy {reply : HttpReply} (h : server.Remembers key written)
    (hget : server.handleGet now key = some (server', reply)) : ∃ written',
      Lossy written .read (Operation.read.handler.clientReply reply) written' ∧
        server'.Remembers key written' := by
  obtain ⟨store, hholds, hremembers⟩ := h
  obtain ⟨hholds', rfl⟩ := handleGet_store hholds hget
  rcases hremembers.read now with ⟨value, hfound, hwritten⟩ | ⟨hnone, hmissing⟩
  · refine ⟨written, ?_, _, hholds', hremembers.get now key⟩
    rw [hfound, hwritten, Operation.handler]
    rcases clientReply_found server.config_ key value with ⟨_, _, _, _, hbody⟩ | ⟨e, he, hstatus⟩
    · rw [hbody]
      exact .hit (by simp)
    · rw [he]
      exact .unread hstatus
  · obtain ⟨e, he, hstatus⟩ := clientReply_missing server.config_ key
    rw [hnone, Operation.handler, he]
    rcases hstatus with hstatus | hstatus
    · exact ⟨none, .miss hstatus, _, hholds', .of_missing hmissing⟩
    · exact ⟨written, .unread hstatus, _, hholds', .of_missing hmissing⟩

/-- A DELETE that is acknowledged has found what it erases. -/
theorem delete_lossy {reply : HttpReply} (h : server.Remembers key written)
    (hdelete : server.handleDelete key = some (server', reply)) :
    Lossy written .erase (Operation.erase.handler.clientReply reply) none ∧
      server'.Remembers key none := by
  obtain ⟨store, hholds, hremembers⟩ := h
  obtain ⟨hholds', rfl⟩ := handleDelete_store hholds hdelete
  refine ⟨?_, _, hholds', store.remembers_remove key⟩
  rw [Operation.handler]
  rcases clientReply_delete key (store.remove key).2 with
    ⟨hremoved, body, hbody⟩ | ⟨e, he, hstatus⟩
  · obtain ⟨value, hwritten⟩ := hremembers.of_removed hremoved
    rw [hbody, hwritten]
    exact .erased
  · rw [he]
    exact .not_erased hstatus

/-- The put of a PUT is carried out, whatever is answered. -/
theorem put_lossy {put : WaitingPut} {value : String} {cache : LRUCache Bytes Bytes}
    (h : server.Remembers put.key written) (hvalue : put.value = text value)
    (hcache : server.cache_.put now put.key put.value put.ttl = some cache) :
    Lossy written (.write value) ((Operation.write value).handler.clientReply
        (putReply server.config_ put.key put.existed)) (some value) ∧
      Remembers { server with cache_ := cache } put.key (some value) := by
  obtain ⟨store, hholds, _⟩ := h
  refine ⟨?_, _, put_store hholds hcache, ?_⟩
  · rw [Operation.handler]
    rcases clientReply_put server.config_ put.key put.existed with ⟨body, hbody⟩ | ⟨e, he, hstatus⟩
    · rw [hbody]
      exact .written
    · rw [he]
      exact .unconfirmed hstatus
  · rw [hvalue]
    exact store.remembers_put now put.key value put.ttl

/-- A step with a request for the key checks a PUT, or it carries the operation out on the
register and answers it. -/
theorem handleMessage_takes {op : Operation} (h : server.Remembers key written)
    (hkey : wire.key request.url = some key) (hop : request.Forwards op)
    (hcarries : flight.Carries key op)
    (hhandle : server.handleMessage wire now request flight = some (server', flight')) :
    (∃ put, flight' = .checked put ∧ flight'.Carries key op ∧ server'.Remembers key written) ∨
      ∃ reply written', flight' = .answered reply ∧
        Lossy written op (op.handler.clientReply reply) written' ∧
        server'.Remembers key written' := by
  unfold handleMessage at hhandle
  split at hhandle
  next =>
    rw [hkey] at hhandle
    dsimp only at hhandle
    cases op with
    | read =>
      have hmethod : request.method = .GET := hop
      rw [hmethod] at hhandle
      dsimp only at hhandle
      obtain ⟨handled, hget, heq⟩ := Option.map_eq_some_iff.mp hhandle
      cases heq
      obtain ⟨written', hlossy, hafter⟩ := get_lossy h hget
      exact Or.inr ⟨handled.2, written', rfl, hlossy, hafter⟩
    | write value =>
      obtain ⟨hmethod, ttl, hjson⟩ := hop
      have hparse := parsePut_forwarded value ttl
      rw [hmethod, hjson] at hhandle
      dsimp only [Option.map_some] at hhandle
      rw [hparse] at hhandle
      dsimp only at hhandle
      obtain ⟨existed, _, heq⟩ := Option.map_eq_some_iff.mp hhandle
      cases heq
      exact Or.inl ⟨_, rfl, ⟨rfl, value, rfl, rfl⟩, h⟩
    | erase =>
      have hmethod : request.method = .DELETE := hop
      rw [hmethod] at hhandle
      dsimp only at hhandle
      obtain ⟨handled, hdelete, heq⟩ := Option.map_eq_some_iff.mp hhandle
      cases heq
      obtain ⟨hlossy, hafter⟩ := delete_lossy h hdelete
      exact Or.inr ⟨handled.2, none, rfl, hlossy, hafter⟩
  next put =>
    obtain ⟨rfl, value, rfl, hvalue⟩ := hcarries
    obtain ⟨cache, hcache, heq⟩ := Option.map_eq_some_iff.mp hhandle
    cases heq
    obtain ⟨hlossy, hafter⟩ := put_lossy h hvalue hcache
    exact Or.inr ⟨_, some value, rfl, hlossy, hafter⟩
  next => cases hhandle
  next => cases hhandle

end CacheServer

namespace Message

theorem lose_cases (message : Message) (wire : Wire) (address : String) :
    message.lose wire address = message ∨
      (message.lose wire address).request = message.request ∧
        (message.lose wire address).call = message.call ∧
        (message.lose wire address).flight = .lost := by
  unfold lose
  split
  next => exact Or.inl rfl
  next =>
    split
    next => exact Or.inr ⟨rfl, rfl, rfl⟩
    next => exact Or.inl rfl

/-- The message carries the operation, which is at the stage that the node has reached. -/
structure AtStage (message : Message) (key : Bytes) (op : Operation)
    (stage : Stage Operation ClientReply) : Prop where
  forwards : message.request.Forwards op
  handler : message.call.handler = op.handler
  carries : message.flight.Carries key op
  reached : match message.flight with
    | .sent | .checked _ => stage = .called op
    | .answered reply => stage = .taken (op.handler.clientReply reply)
    | .lost => True

variable {message message' : Message} {key : Bytes} {op : Operation}
  {stage : Stage Operation ClientReply}

theorem AtStage.lost (h : message.AtStage key op stage)
    (hrequest : message'.request = message.request) (hcall : message'.call = message.call)
    (hlost : message'.flight = .lost) : message'.AtStage key op stage where
  forwards := hrequest ▸ h.forwards
  handler := hcall ▸ h.handler
  carries := by
    rw [hlost]
    trivial
  reached := by
    rw [hlost]
    trivial

theorem AtStage.given_up (h : message.AtStage key op stage) (e : RequestError) :
    (message.giveUp e).AtStage key op stage where
  forwards := h.forwards
  handler := h.handler
  carries := by
    rcases message.giveUp_flight e with hflight | hflight
    · rw [hflight]
      exact h.carries
    · rw [hflight]
      trivial
  reached := by
    rcases message.giveUp_flight e with hflight | hflight
    · rw [hflight]
      exact h.reached
    · rw [hflight]
      trivial

theorem AtStage.called (h : message.AtStage key op stage)
    (hopen : message.flight = .sent ∨ ∃ put, message.flight = .checked put) :
    stage = .called op := by
  have hreached := h.reached
  rcases hopen with hsent | ⟨put, hchecked⟩
  · rw [hsent] at hreached
    exact hreached
  · rw [hchecked] at hreached
    exact hreached

theorem AtStage.taken (h : message.AtStage key op stage) {reply : HttpReply}
    (hanswered : message.flight = .answered reply) :
    stage = .taken (message.call.handler.clientReply reply) := by
  have hreached := h.reached
  rw [hanswered] at hreached
  rw [h.handler]
  exact hreached

end Message

namespace ClusterSystem

section register

variable (_hash : String → Nat) (wire : Wire)

/-- What a step shows of the calls watched: their requests as they are sent, handled and
answered. -/
def point (watch : PendingCall → HttpRequest → Bool) (s : ClusterSystem) :
    Event → Option (Point Nat Operation ClientReply)
  | .gateway event => do
    let (call, request) ← s.gateway.sent _hash event
    if watch call request then request.operation.map (.call s.connections) else none
  | .handle connection now => do
    let message ← s.messages.get? connection
    if watch message.call message.request then do
      let server ← s.servers.get? (wire.host message.request.url)
      match server.handleMessage wire now message.request message.flight with
      | some (_, .answered reply) =>
        message.request.operation.map fun op =>
          .effect connection op (message.call.handler.clientReply reply)
      | _ => none
    else none
  | .respond connection now => do
    let message ← s.messages.get? connection
    if watch message.call message.request then
      match message.flight with
      | .answered reply =>
        some (.ret connection (message.call.handler.validate
          (s.gateway.reply now message.call (.response reply.response)).2))
      | _ => none
    else none
  | _ => none

/-- The calls watched and their answers, as the clients see them. The answer 503 or 500 that the
gateway gives itself when its request times out or fails is none: it says nothing about the
node, and the call stays open. -/
def clientHistory (watch : PendingCall → HttpRequest → Bool) (s : ClusterSystem)
    (events : List Event) : List (Mark Nat Operation ClientReply) :=
  marks (observations (step _hash wire) (point _hash wire watch) s events)

/-- The calls that the node at an address handles under a key. -/
def atNode (address : String) (key : Bytes) (_call : PendingCall) (request : HttpRequest) : Bool :=
  request.Targets wire address key

variable {_hash wire} {address : String} {key : Bytes}

theorem atNode_iff {call : PendingCall} {request : HttpRequest} :
    atNode wire address key call request = true ↔ request.Targets wire address key :=
  decide_eq_true_iff

/-- Every request for the register has an operation at the stage that it has reached. -/
structure Tracks (wire : Wire) (address : String) (key : Bytes) (messages : Dict Nat Message)
    (connections : Nat) (stage : Nat → Stage Operation ClientReply) : Prop where
  fresh : ∀ c, connections ≤ c → messages.get? c = none ∧ stage c = .idle
  checked : ∀ c message put, messages.get? c = some message → message.flight = .checked put →
    wire.key message.request.url = some put.key
  stages : ∀ c message, messages.get? c = some message →
    message.request.Targets wire address key → ∃ op, message.AtStage key op (stage c)

namespace Tracks

variable {messages : Dict Nat Message} {connections next c : Nat}
  {stage stage' : Nat → Stage Operation ClientReply} {message : Message}

/-- One connection changes, and the stage of its operation with it. -/
theorem set (h : Tracks wire address key messages connections stage) (hnext : connections ≤ next)
    (hc : c < next) (hsame : ∀ j, j ≠ c → stage' j = stage j)
    (hchecked : ∀ put, message.flight = .checked put →
      wire.key message.request.url = some put.key)
    (hstage : message.request.Targets wire address key →
      ∃ op, message.AtStage key op (stage' c)) :
    Tracks wire address key (messages.set c message) next stage' where
  fresh := by
    intro j hj
    have hne : j ≠ c := by omega
    obtain ⟨hnone, hidle⟩ := h.fresh j (by omega)
    rw [Dict.get?_set, if_neg hne, hsame j hne]
    exact ⟨hnone, hidle⟩
  checked := by
    intro j x put hx hput
    rw [Dict.get?_set] at hx
    split at hx
    next =>
      cases hx
      exact hchecked put hput
    next => exact h.checked j x put hx hput
  stages := by
    intro j x hx ht
    rw [Dict.get?_set] at hx
    split at hx
    next heq =>
      cases hx
      rw [heq]
      exact hstage ht
    next hne =>
      rw [hsame j hne]
      exact h.stages j x hx ht

theorem lt (h : Tracks wire address key messages connections stage)
    (hc : messages.get? c = some message) : c < connections := by
  by_contra hge
  obtain ⟨hnone, _⟩ := h.fresh c (by omega)
  rw [hc] at hnone
  cases hnone

theorem erase (h : Tracks wire address key messages connections stage) (hc : c < connections)
    (hsame : ∀ j, j ≠ c → stage' j = stage j) :
    Tracks wire address key (messages.erase c) connections stage' where
  fresh := by
    intro j hj
    have hne : j ≠ c := by omega
    obtain ⟨hnone, hidle⟩ := h.fresh j hj
    rw [Dict.get?_erase, if_neg hne, hsame j hne]
    exact ⟨hnone, hidle⟩
  checked := by
    intro j x put hx hput
    rw [Dict.get?_erase] at hx
    split at hx
    next => cases hx
    next => exact h.checked j x put hx hput
  stages := by
    intro j x hx ht
    rw [Dict.get?_erase] at hx
    split at hx
    next => cases hx
    next hne =>
      rw [hsame j hne]
      exact h.stages j x hx ht

theorem lose (h : Tracks wire address key messages connections stage) (restarted : String) :
    Tracks wire address key (messages.updateAll (·.lose wire restarted)) connections stage where
  fresh := by
    intro j hj
    obtain ⟨hnone, hidle⟩ := h.fresh j hj
    rw [Dict.get?_updateAll, hnone]
    exact ⟨rfl, hidle⟩
  checked := by
    intro j x put hx hput
    rw [Dict.get?_updateAll] at hx
    obtain ⟨y, hy, rfl⟩ := Option.map_eq_some_iff.mp hx
    rcases y.lose_cases wire restarted with hsame | ⟨hrequest, _, hlost⟩
    · rw [hsame] at hput ⊢
      exact h.checked j y put hy hput
    · rw [hlost] at hput
      cases hput
  stages := by
    intro j x hx ht
    rw [Dict.get?_updateAll] at hx
    obtain ⟨y, hy, rfl⟩ := Option.map_eq_some_iff.mp hx
    rcases y.lose_cases wire restarted with hsame | ⟨hrequest, hcall, hlost⟩
    · rw [hsame] at ht ⊢
      exact h.stages j y hy ht
    · rw [hrequest] at ht
      obtain ⟨op, hop⟩ := h.stages j y hy ht
      exact ⟨op, hop.lost hrequest hcall hlost⟩

end Tracks

/-- The system is at the same point as the register with its operations. -/
structure Simulates (wire : Wire) (address : String) (key : Bytes) (s : ClusterSystem)
    (m : Monitor Nat Operation ClientReply (Option String)) : Prop where
  tracks : Tracks wire address key s.messages s.connections m.stage
  remembers : ∀ server, s.servers.get? address = some server → server.Remembers key m.state

variable {s s' : ClusterSystem} {m : Monitor Nat Operation ClientReply (Option String)}

theorem simulates_init (gateway : Gateway) :
    Simulates wire address key (init gateway) (.start none) where
  tracks :=
    { fresh := fun _ _ => ⟨rfl, rfl⟩
      checked := fun _ _ _ hc => by cases hc
      stages := fun _ _ hc => by cases hc }
  remembers := fun _ hserver => by cases hserver

/-- A step agrees with the register: it shows nothing and is none for it, or it shows a step
of the register. -/
def Agrees (wire : Wire) (address : String) (key : Bytes) (s' : ClusterSystem)
    (shown : Option (Point Nat Operation ClientReply))
    (m : Monitor Nat Operation ClientReply (Option String)) : Prop :=
  (shown = none ∧ Simulates wire address key s' m) ∨
    ∃ p m', shown = some p ∧ Monitor.Step Lossy m p m' ∧ Simulates wire address key s' m'

namespace Simulates

/-- A call of the gateway is a call of the register if it is sent there. -/
theorem connect (h : Simulates wire address key s m) (gateway : Gateway)
    {event : Gateway.Event} : Agrees wire address key (s.connect gateway (s.gateway.sent _hash event))
      (s.point _hash wire (atNode wire address key) (.gateway event)) m := by
  cases hsent : s.gateway.sent _hash event with
  | none =>
    refine Or.inl ⟨?_, h.tracks, h.remembers⟩
    rw [point, hsent]
    rfl
  | some made =>
    obtain ⟨call, request⟩ := made
    obtain ⟨op, hop, hhandler⟩ := Gateway.sent_forwards _hash hsent
    have hconnections : s.connections < s.connections + 1 := by omega
    by_cases ht : request.Targets wire address key
    · refine Or.inr ⟨.call s.connections op,
        ⟨Function.update m.stage s.connections (.called op), m.state⟩, ?_, .call ?_, ?_, h.remembers⟩
      · simp only [point, hsent, Option.bind_eq_bind, Option.bind_some]
        rw [if_pos (atNode_iff.mpr ht), hop.operation, Option.map_some]
      · exact (h.tracks.fresh s.connections (by omega)).2
      · refine h.tracks.set hconnections.le hconnections (fun j hj => Function.update_of_ne hj _ _)
          (fun put hput => by cases hput) fun _ => ?_
        exact ⟨op, hop, hhandler, trivial, Function.update_self _ _ _⟩
    · refine Or.inl ⟨?_, ?_, h.remembers⟩
      · simp only [point, hsent, Option.bind_eq_bind, Option.bind_some]
        rw [if_neg fun hw => ht (atNode_iff.mp hw)]
      · exact h.tracks.set hconnections.le hconnections (fun j hj => rfl)
          (fun put hput => by cases hput) fun htargets => absurd htargets ht

/-- A step of a node with a request. -/
theorem handle (h : Simulates wire address key s m) {c : Nat} {now : TimePoint}
    (hstep : s.step _hash wire (.handle c now) = some s') :
    Agrees wire address key s' (s.point _hash wire (atNode wire address key) (.handle c now)) m := by
  obtain ⟨message, hmessage, hstep⟩ := Option.bind_eq_some_iff.mp hstep
  obtain ⟨server, hserver, hstep⟩ := Option.bind_eq_some_iff.mp hstep
  obtain ⟨handled, hhandle, hstep⟩ := Option.bind_eq_some_iff.mp hstep
  obtain ⟨server', flight'⟩ := handled
  cases Option.some.inj hstep
  have hc := h.tracks.lt hmessage
  have hput : ∀ put, message.flight = .checked put →
      wire.key message.request.url = some put.key :=
    fun put hflight => h.tracks.checked c message put hmessage hflight
  have hput' : ∀ put, flight' = .checked put → wire.key message.request.url = some put.key := by
    rintro put rfl
    exact CacheServer.handleMessage_checked hhandle
  by_cases ht : message.request.Targets wire address key
  · obtain ⟨haddress, hkey⟩ := ht
    rw [haddress] at hserver
    obtain ⟨op, hop⟩ := h.tracks.stages c message hmessage ⟨haddress, hkey⟩
    have hcalled := hop.called (CacheServer.handleMessage_open hhandle)
    have hstored : ∀ x v, server'.Remembers key v →
        (s.servers.set (wire.host message.request.url) server').get? address = some x →
          x.Remembers key v := by
      intro x v hv hx
      rw [haddress, Dict.get?_set_self] at hx
      exact Option.some.inj hx ▸ hv
    rcases CacheServer.handleMessage_takes (h.remembers server hserver) hkey hop.forwards
      hop.carries hhandle with ⟨put, hput₀, hcarries, hremembers⟩ |
        ⟨reply, written, hreply, hlossy, hremembers⟩
    · subst hput₀
      refine Or.inl ⟨?_, ?_, fun x hx => hstored x m.state hremembers hx⟩
      · simp only [point, hmessage, Option.bind_eq_bind, Option.bind_some]
        rw [if_pos (atNode_iff.mpr ⟨haddress, hkey⟩), haddress, hserver, Option.bind_some, hhandle]
      · refine h.tracks.set (Nat.le_refl _) hc (fun _ _ => rfl) hput' fun _ => ?_
        exact ⟨op, hop.forwards, hop.handler, hcarries, hcalled⟩
    · subst hreply
      refine Or.inr ⟨.effect c op (op.handler.clientReply reply),
        ⟨Function.update m.stage c (.taken (op.handler.clientReply reply)), written⟩, ?_,
        .effect hcalled hlossy, ?_, fun x hx => hstored x written hremembers hx⟩
      · simp only [point, hmessage, Option.bind_eq_bind, Option.bind_some]
        rw [if_pos (atNode_iff.mpr ⟨haddress, hkey⟩), haddress, hserver, Option.bind_some, hhandle]
        dsimp only
        rw [hop.forwards.operation, Option.map_some, hop.handler]
      · refine h.tracks.set (Nat.le_refl _) hc (fun j hj => Function.update_of_ne hj _ _) hput'
          fun _ => ?_
        exact ⟨op, hop.forwards, hop.handler, trivial, Function.update_self _ _ _⟩
  · refine Or.inl ⟨?_, ?_, ?_⟩
    · simp only [point, hmessage, Option.bind_eq_bind, Option.bind_some]
      rw [if_neg fun hw => ht (atNode_iff.mp hw)]
    · exact h.tracks.set (Nat.le_refl _) hc (fun _ _ => rfl) hput' fun htargets => absurd htargets ht
    · intro x hx
      dsimp only at hx
      rw [Dict.get?_set] at hx
      split at hx
      next haddress =>
        cases hx
        have hkey : wire.key message.request.url ≠ some key := fun hk => ht ⟨haddress.symm, hk⟩
        rw [← haddress] at hserver
        exact CacheServer.handleMessage_other (h.remembers server hserver) hkey hput hhandle
      next => exact h.remembers x hx

/-- An answer reaches the gateway. -/
theorem respond (h : Simulates wire address key s m) {c : Nat} {now : Time}
    (hstep : s.step _hash wire (.respond c now) = some s') :
    Agrees wire address key s' (s.point _hash wire (atNode wire address key) (.respond c now)) m := by
  obtain ⟨message, hmessage, hstep⟩ := Option.bind_eq_some_iff.mp hstep
  have hc := h.tracks.lt hmessage
  split at hstep
  next reply _ hanswered =>
    obtain ⟨gateway, _, hstep⟩ := Option.bind_eq_some_iff.mp hstep
    cases Option.some.inj hstep
    by_cases ht : message.request.Targets wire address key
    · obtain ⟨op, hop⟩ := h.tracks.stages c message hmessage ht
      refine Or.inr ⟨.ret c (message.call.handler.clientReply reply),
        ⟨Function.update m.stage c .answered, m.state⟩, ?_, .ret (hop.taken hanswered),
        h.tracks.erase hc (fun j hj => Function.update_of_ne hj _ _), h.remembers⟩
      simp only [point, hmessage, Option.bind_eq_bind, Option.bind_some]
      rw [if_pos (atNode_iff.mpr ht), hanswered]
      dsimp only
      rw [Gateway.reply_result, Handler.clientReply]
    · refine Or.inl ⟨?_, h.tracks.erase hc fun _ _ => rfl, h.remembers⟩
      simp only [point, hmessage, Option.bind_eq_bind, Option.bind_some]
      rw [if_neg fun hw => ht (atNode_iff.mp hw)]
  next => cases hstep

/-- A handler gives up waiting. -/
theorem fail (h : Simulates wire address key s m) {c : Nat} {now : Time} {e : RequestError}
    (hstep : s.step _hash wire (.fail c now e) = some s') : Simulates wire address key s' m := by
  obtain ⟨message, hmessage, hstep⟩ := Option.bind_eq_some_iff.mp hstep
  split at hstep
  next =>
    obtain ⟨gateway, _, hstep⟩ := Option.bind_eq_some_iff.mp hstep
    cases Option.some.inj hstep
    refine ⟨h.tracks.set (Nat.le_refl _) (h.tracks.lt hmessage) (fun _ _ => rfl) ?_
      fun ht => ?_, h.remembers⟩
    · intro put hput
      rcases message.giveUp_flight e with hflight | hflight
      · exact h.tracks.checked c message put hmessage (hflight.symm.trans hput)
      · rw [hflight] at hput
        cases hput
    · obtain ⟨op, hop⟩ := h.tracks.stages c message hmessage ht
      exact ⟨op, hop.given_up e⟩
  next => cases hstep

/-- A node that starts holds nothing. -/
theorem started (h : Simulates wire address key s m) {restarted : String} {config : NodeConfig}
    (hstep : s.step _hash wire (.start restarted config) = some s') :
    Simulates wire address key s' m := by
  rw [step] at hstep
  split at hstep
  next => cases hstep
  next server hserver =>
    cases Option.some.inj hstep
    refine ⟨h.tracks.lose restarted, fun x hx => ?_⟩
    dsimp only at hx
    rw [Dict.get?_set] at hx
    split at hx
    next =>
      cases hx
      obtain ⟨_, _, hholds⟩ := CacheServer.construct_holds hserver
      exact ⟨_, hholds, .of_missing rfl⟩
    next => exact h.remembers x hx

theorem purge (h : Simulates wire address key s m) {purged : String} {times : Nat → TimePoint}
    (hstep : s.step _hash wire (.purge purged times) = some s') :
    Simulates wire address key s' m := by
  obtain ⟨server, hserver, hstep⟩ := Option.bind_eq_some_iff.mp hstep
  obtain ⟨handled, hpurge, hstep⟩ := Option.bind_eq_some_iff.mp hstep
  cases Option.some.inj hstep
  refine ⟨h.tracks, fun x hx => ?_⟩
  dsimp only at hx
  rw [Dict.get?_set] at hx
  split at hx
  next haddress =>
    cases hx
    rw [← haddress] at hserver
    obtain ⟨store, hholds, hremembers⟩ := h.remembers server hserver
    exact ⟨_, CacheServer.handle_purge_store hholds hpurge, hremembers.purgeExpired times⟩
  next => exact h.remembers x hx

/-- Every step of the system agrees with the register. -/
theorem step (h : Simulates wire address key s m) {event : Event}
    (hstep : s.step _hash wire event = some s') :
    Agrees wire address key s' (s.point _hash wire (atNode wire address key) event) m := by
  cases event with
  | gateway event =>
    obtain ⟨gateway, _, rfl⟩ := step_gateway hstep
    exact h.connect gateway
  | handle c now => exact h.handle hstep
  | respond c now => exact h.respond hstep
  | fail c now e => exact Or.inl ⟨rfl, h.fail hstep⟩
  | start restarted config => exact Or.inl ⟨rfl, h.started hstep⟩
  | purge purged times => exact Or.inl ⟨rfl, h.purge hstep⟩

end Simulates

variable (_hash wire address key) in
/-- Every run of the cluster is linearizable at every key of every node: the answers of the
clients are those of a register that may forget, used by one client after the other. -/
theorem register_linearizable (gateway : Gateway) {events : List Event}
    (h : runs (step _hash wire) (init gateway) events = some s') :
    Linearizable Lossy none
      (clientHistory _hash wire (atNode wire address key) (init gateway) events) :=
  linearizable_runs (simulates_init gateway) (fun _ _ _ _ hm hstep => hm.step hstep) h

/-- A node starts; a client writes a key and reads it. -/
def writeThenRead : List Event :=
  [.start "h:1" CacheServer.oneSlot, .gateway (.putKey 1 "k" ⟨"v", none⟩ none), .handle 0 0,
    .handle 0 0, .respond 0 2, .gateway (.getKey 3 "k" none), .handle 1 1, .respond 1 4]

/-- Two calls and their two answers. -/
theorem register_write_then_read :
    (clientHistory (fun _ => 0) httpWire (atNode httpWire "h:1" (text "k"))
      (init Gateway.oneNode) writeThenRead).length = 4 ∧
    Linearizable Lossy none
      (clientHistory (fun _ => 0) httpWire (atNode httpWire "h:1" (text "k"))
        (init Gateway.oneNode) writeThenRead) := by
  refine ⟨by decide +kernel, ?_⟩
  obtain ⟨s', hrun⟩ := Option.isSome_iff_exists.mp
    (show (runs (step (fun _ => 0) httpWire) (init Gateway.oneNode) writeThenRead).isSome from
      by decide +kernel)
  exact register_linearizable (fun _ => 0) httpWire "h:1" (text "k") Gateway.oneNode hrun

end register

end ClusterSystem

end SelfHealingCache
