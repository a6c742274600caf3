import SelfHealingCache.CacheServer
import SelfHealingCache.LruAccounting
import SelfHealingCache.LruFreshness

namespace SelfHealingCache

/-- The values `get<int>()` converts. -/
def JsonValue.Numeric : JsonValue → Prop
  | .numberInteger _ | .numberFloat _ | .boolean _ => True
  | _ => False

/-- The body has a value and, if there is one, a TTL of the right types. -/
def AcceptedPut (body : Option Document) : Prop :=
  ∃ reqBody value, body = some reqBody ∧ reqBody.json.find "value" = some (.string value) ∧
    ∀ ttl, reqBody.json.find "ttl" = some ttl → ttl.Numeric

section answers

theorem putReply_success {config_ : NodeConfig} {key : Bytes} {existed : Bool} :
    (putReply config_ key existed).Success ↔ IsText key ∧ IsText config_.nodeId := by
  have hstatus : 200 ≤ (if existed then 200 else 201) ∧ (if existed then 200 else 201) < 300 := by
    cases existed <;> decide
  rw [putReply, respond_success hstatus]
  cases existed <;> simp [isText_text]

theorem deleteReply_success {key : Bytes} {removed : Bool} :
    (deleteReply key removed).Success ↔ removed = true ∧ IsText key := by
  cases removed with
  | false => simp [deleteReply, respond_failure]
  | true =>
    rw [deleteReply, if_pos rfl, respond_success (by decide)]
    simp [isText_text]

theorem loadReply_success (count : Nat) : (loadReply count).Success := by
  rw [loadReply, respond_success (by decide)]
  simp [isText_text]

theorem parsePut_failure {body : Option Document} {reply : HttpReply}
    (h : parsePut body = .error reply) : ¬reply.Success := by
  unfold parsePut at h
  split at h
  next =>
    cases h
    exact respond_failure _ (by decide)
  next =>
    split at h
    next =>
      split at h
      next =>
        cases h
        exact thrown_not_success
      next => cases h
    next =>
      cases h
      exact respond_failure _ (by decide)

end answers

section bodies

theorem getInt_isSome {j : JsonValue} : j.getInt.isSome = true ↔ j.Numeric := by
  cases j <;> simp [JsonValue.getInt, JsonValue.Numeric]

theorem valueInt_isSome {fields : List (Bytes × JsonValue)} {name : String} {d : Int32} :
    ((JsonValue.object fields).valueInt name d).isSome = true ↔
      ∀ found, (JsonValue.object fields).find name = some found → found.Numeric := by
  unfold JsonValue.valueInt
  dsimp only
  cases hf : (JsonValue.object fields).find name with
  | none => simp
  | some found => simp [getInt_isSome]

theorem parsePut_of_fields {reqBody : Document} {fields : Bytes × UInt32}
    (hc : reqBody.json.contains "value" = true) (hf : putFields reqBody.json = some fields) :
    parsePut (some reqBody) = .ok fields := by
  rw [parsePut, if_pos hc, hf]

theorem putFields_isSome {fields : List (Bytes × JsonValue)} :
    (putFields (.object fields)).isSome = true ↔
      (∃ value, (JsonValue.object fields).find "value" = some (.string value)) ∧
        ((JsonValue.object fields).valueInt "ttl" 0).isSome = true := by
  cases hv : (JsonValue.object fields).find "value" with
  | none => simp [putFields, JsonValue.index, hv, JsonValue.getString]
  | some found =>
    cases found with
    | string value =>
      cases ht : (JsonValue.object fields).valueInt "ttl" 0 <;>
        simp [putFields, JsonValue.index, hv, ht, JsonValue.getString]
    | _ => simp [putFields, JsonValue.index, hv, JsonValue.getString]

/-- The parser of a PUT takes exactly the accepted bodies. -/
theorem acceptedPut_iff {body : Option Document} :
    AcceptedPut body ↔ ∃ fields, parsePut body = .ok fields := by
  cases body with
  | none => simp [AcceptedPut, parsePut]
  | some reqBody =>
    obtain ⟨json, hvalid⟩ := reqBody
    cases json with
    | object fields =>
      have hfields := @putFields_isSome fields
      rw [valueInt_isSome] at hfields
      have haccepted : AcceptedPut (some ⟨.object fields, hvalid⟩) ↔
          (putFields (.object fields)).isSome = true := by
        rw [hfields, AcceptedPut]
        simp
      rw [haccepted]
      cases hp : putFields (.object fields) with
      | none => cases hc : (JsonValue.object fields).contains "value" <;> simp [parsePut, hp, hc]
      | some read =>
        rw [hp] at hfields
        obtain ⟨⟨value, hv⟩, _⟩ := hfields.mp rfl
        have hcontains : (JsonValue.object fields).contains "value" = true := by
          rw [JsonValue.contains, hv, Option.isSome_some]
        exact ⟨fun _ => ⟨read, parsePut_of_fields hcontains hp⟩, fun _ => rfl⟩
    | _ => simp [AcceptedPut, parsePut, JsonValue.find, JsonValue.contains]

end bodies

theorem counted_ne (n : UInt64) : n + 1 ≠ n := by
  intro h
  exact absurd (UInt64.add_eq_left.mp h) (by decide)

namespace LruStore

/-- A put is counted. -/
theorem put_metrics_ne (c : LruStore Bytes Bytes) (now : TimePoint) (key value : Bytes)
    (ttl : UInt32) : (c.put now key value ttl).metrics ≠ c.metrics := by
  have hputs : (c.put now key value ttl).metrics.totalPuts = c.metrics.totalPuts + 1 := by
    cases hf : c.find? key with
    | some e =>
      have hparts := congrArg (fun p => p.2.2.2.totalPuts) (put_update hf now value ttl)
      exact hparts
    | none =>
      have hparts := congrArg (fun p => p.2.2.2.totalPuts) (put_insert hf now value ttl)
      refine hparts.trans ?_
      dsimp only
      split <;> rfl
  intro h
  rw [h] at hputs
  exact counted_ne _ hputs.symm

/-- So is a remove that finds its key. -/
theorem remove_metrics_ne {c : LruStore Bytes Bytes} {key : Bytes}
    {e : CacheEntry Bytes Bytes} (hf : c.find? key = some e) :
    (c.remove key).1.metrics ≠ c.metrics := by
  have hdels : (c.remove key).1.metrics.totalDels = c.metrics.totalDels + 1 :=
    congrArg (fun p => p.2.2.2.totalDels) (remove_found hf).2
  intro h
  rw [h] at hdels
  exact counted_ne _ hdels.symm

end LruStore

theorem Refines.remove_missing {s : LRUCache Bytes Bytes} {c : LruStore Bytes Bytes}
    (h : Refines s c) {key : Bytes} (hf : c.find? key = none) : s.remove key = some (s, false) := by
  have hnone : s.map_.get? key = none := by
    by_contra hsome
    obtain ⟨a, ha⟩ := Option.ne_none_iff_exists'.mp hsome
    obtain ⟨e, he, hkey⟩ := h.mem_keys.mp (Dict.mem_keys_iff.mpr ⟨a, ha⟩)
    exact LruStore.find?_eq_none.mp hf e he hkey
  rw [LRUCache.remove, hnone]

namespace CacheServer

/-- A request without a success status leaves the entries, their deadlines, their order and
the metrics of the cache as they were. -/
def Atomic (server : CacheServer) (request : Request) : Prop :=
  ∃ server' reply, server.handle request = some (server', reply) ∧
    (¬reply.Success → ∀ c, Refines server.cache_ c → Refines server'.cache_ c)

/-- A request that changes nothing is atomic, another one if it is answered. -/
theorem atomic_iff {server : CacheServer} {c : LruStore Bytes Bytes} (h : server.Holds c)
    {request : Request} {c' : LruStore Bytes Bytes} {reply : HttpReply}
    (hserve : c.serve server.config_ request = (c', reply)) (hne : c'.metrics ≠ c.metrics) :
    server.Atomic request ↔ reply.Success := by
  obtain ⟨server', hhandle, _, h'⟩ := handle_holds h request
  rw [hserve] at hhandle h'
  constructor
  · intro ⟨_, _, hsome, himp⟩
    rw [hhandle] at hsome
    cases hsome
    by_contra hfail
    have hsame := himp hfail c h.refines
    exact hne (h'.refines.metrics_eq.symm.trans hsame.metrics_eq)
  · intro hs
    exact ⟨server', reply, hhandle, fun hfail => absurd hs hfail⟩

theorem atomic_of_unchanged {server : CacheServer} {request : Request} {reply : HttpReply}
    (h : server.handle request = some (server, reply)) : server.Atomic request :=
  ⟨server, reply, h, fun _ _ hc => hc⟩

/-- A PUT is atomic exactly when its body is refused or the key and the name of the node can
be written into the answer, a DELETE exactly when the key is absent or can be; a bulk load
always is. -/
theorem writes_atomic_iff {server : CacheServer} {c : LruStore Bytes Bytes} (h : server.Holds c) :
    (∀ checked now key body, server.Atomic (.put checked now key body) ↔
      ¬AcceptedPut body ∨ IsText key ∧ IsText server.config_.nodeId) ∧
    (∀ key, server.Atomic (.delete key) ↔
      server.cache_.entryFor key = none ∨ IsText key) ∧
    ∀ now body, server.Atomic (.bulkLoad now body) := by
  refine ⟨fun checked now key body => ?_, fun key => ?_, fun now body => ?_⟩
  · cases hparse : parsePut body with
    | error reply =>
      have hrefused : ¬AcceptedPut body := by
        rw [acceptedPut_iff, hparse]
        simp
      have hsame : server.handle (.put checked now key body) = some (server, reply) :=
        handle_put_refused hparse checked now key
      exact ⟨fun _ => Or.inl hrefused, fun _ => atomic_of_unchanged hsame⟩
    | ok fields =>
      have haccepted : AcceptedPut body := acceptedPut_iff.mpr ⟨fields, hparse⟩
      rw [atomic_iff h (LruStore.serve_put hparse) (c.put_metrics_ne now key _ _),
        putReply_success]
      simp [haccepted]
  · rw [h.refines.entryFor]
    cases hf : c.find? key with
    | none =>
      have hsame : server.handle (.delete key) = some (server, deleteReply key false) := by
        rw [handle, handleDelete, h.refines.remove_missing hf]
        rfl
      exact ⟨fun _ => Or.inl rfl, fun _ => atomic_of_unchanged hsame⟩
    | some e =>
      have hserve : c.serve server.config_ (.delete key) =
          ((c.remove key).1, deleteReply key true) := by
        rw [LruStore.serve, (LruStore.remove_found hf).1]
      rw [atomic_iff h hserve (LruStore.remove_metrics_ne hf), deleteReply_success]
      simp
  · cases hparse : parseLoad body with
    | error reply =>
      exact atomic_of_unchanged (handle_bulkLoad_refused hparse now)
    | ok entries =>
      obtain ⟨server', hhandle, _, _⟩ := handle_holds h (.bulkLoad now body)
      rw [LruStore.serve_bulkLoad hparse] at hhandle
      exact ⟨server', _, hhandle, fun hfail => absurd (loadReply_success _) hfail⟩

/-- A node with room for one entry. -/
def oneSlot : NodeConfig :=
  ⟨text "node-1", text "0.0.0.0", 8001, text "default", 1, 0⟩

/-- The body `{"value": "v"}`. -/
def valueBody : Document := ⟨.object [(text "value", .string (text "v"))], by simp [isText_text]⟩

/-- A PUT of a key that is not UTF-8 fails and is stored nevertheless. -/
theorem failed_put_stored : ∃ server server', construct oneSlot = .ok server ∧
    server.handle (.put 0 0 [255] (some valueBody)) = some (server', .thrown) ∧
    ¬HttpReply.thrown.Success ∧ server.cache_.entryFor [255] = none ∧
    server'.cache_.entryFor [255] = some ⟨[255], text "v", none⟩ ∧
    server.cache_.metrics_.totalPuts = 0 ∧ server'.cache_.metrics_.totalPuts = 1 :=
  ⟨_, _, rfl, by rfl, by decide, rfl, rfl, rfl, rfl⟩

/-- The rule on a fresh node. -/
theorem writes_atomic_iff_one_slot : ∃ server, construct oneSlot = .ok server ∧
    ¬server.Atomic (.put 0 0 [255] (some valueBody)) ∧
    server.Atomic (.put 0 0 (text "k") (some valueBody)) := by
  obtain ⟨server, hserver⟩ : ∃ server, construct oneSlot = .ok server := ⟨_, rfl⟩
  obtain ⟨_, hconfig, h⟩ := construct_holds hserver
  have haccepted : AcceptedPut (some valueBody) :=
    ⟨valueBody, text "v", rfl, rfl, by simp [valueBody, JsonValue.find, text_inj]⟩
  have hput := (writes_atomic_iff h).1
  refine ⟨server, hserver, ?_, ?_⟩
  · rw [hput]
    have hkey : ¬IsText [255] := by decide
    simp [haccepted, hkey]
  · rw [hput, hconfig]
    exact Or.inr ⟨isText_text "k", isText_text "node-1"⟩

end CacheServer

end SelfHealingCache
