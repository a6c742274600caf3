import SelfHealingCache.CacheTransfer
import SelfHealingCache.KeyPath
import SelfHealingCache.NodeWire

namespace SelfHealingCache

/-- What a TTL in seconds means for an entry stored at `now`; 0 means no expiry. -/
structure TtlKept (ttl : Int) (now : TimePoint) (e : CacheEntry Bytes Bytes) : Prop where
  zero : ttl = 0 → ∀ t, isExpired t e = false
  positive : 0 < ttl → ∀ t, isExpired t e = true ↔ now + ttl * 1000000000 ≤ t
  negative : ttl < 0 → ∀ t, now ≤ t → isExpired t e = true

theorem wire_ttl_toNat (ttl : Int) :
    ((Int32.ofInt ttl).toUInt32.toNat : Int) = ttl % 4294967296 := by
  have hbits : (Int32.ofInt ttl).toUInt32.toNat = (ttl % 4294967296).toNat := by
    change (Int32.ofInt ttl).toBitVec.toNat = _
    rw [Int32.toBitVec_ofInt, BitVec.toNat_ofInt]
    rfl
  rw [hbits]
  omega

/-- When an entry expires, by the seconds that count for it. -/
theorem put_expired_iff {now t : TimePoint} {defaultTtlS ttl : UInt32}
    {e : CacheEntry Bytes Bytes} (he : e.expiresAt = putExpiry now defaultTtlS ttl) :
    isExpired t e = true ↔ 0 < (effectiveTtl defaultTtlS ttl).toNat ∧
      now + (effectiveTtl defaultTtlS ttl).toNat * 1000000000 ≤ t := by
  rw [putExpiry_eq] at he
  unfold isExpired
  split at he
  next hpos => simp [he, hpos]
  next hzero => simp [he, hzero]

theorem ttlKept_seconds {ttl now : Int} {n : Nat} {e : CacheEntry Bytes Bytes}
    (h : ∀ t : Int, isExpired t e = true ↔ 0 < n ∧ now + n * 1000000000 ≤ t) :
    TtlKept ttl now e ↔ ttl = 0 ∧ n = 0 ∨ 0 < ttl ∧ (n : Int) = ttl := by
  have hlast := h (now + n * 1000000000)
  constructor
  · intro hkept
    rcases Int.lt_trichotomy ttl 0 with hneg | hzero | hpos
    · have hnow := (h now).mp (hkept.negative hneg now (Int.le_refl now))
      omega
    · have hnever := hkept.zero hzero (now + n * 1000000000)
      rw [hnever] at hlast
      have hn : ¬0 < n := fun hpos => Bool.false_ne_true (hlast.mpr ⟨hpos, Int.le_refl _⟩)
      omega
    · have hdeadline := (h _).mp ((hkept.positive hpos _).mpr (Int.le_refl (now + ttl * 1000000000)))
      have hlate : now + n * 1000000000 ≤ now + ttl * 1000000000 := hdeadline.2
      have hearly : now + ttl * 1000000000 ≤ now + n * 1000000000 :=
        (hkept.positive hpos _).mp (hlast.mpr ⟨hdeadline.1, Int.le_refl _⟩)
      omega
  · intro hor
    refine ⟨fun hzero t => ?_, fun hpos t => ?_, fun hneg => ?_⟩
    · have hn : n = 0 := by omega
      rw [← Bool.not_eq_true, h t, hn]
      omega
    · rw [h t]
      have hn : (n : Int) = ttl := by omega
      rw [hn]
      exact ⟨fun hboth => hboth.2, fun hle => ⟨by omega, hle⟩⟩
    · omega

/-- The TTL of a client keeps its meaning exactly when it is positive and fits into 32 bits, or
is 0 on a node without a default TTL. -/
theorem ttlKept_iff {ttl : Int} {now : TimePoint} {defaultTtlS : UInt32}
    {e : CacheEntry Bytes Bytes}
    (he : e.expiresAt = putExpiry now defaultTtlS (Int32.ofInt ttl).toUInt32) :
    TtlKept ttl now e ↔ ttl = 0 ∧ defaultTtlS = 0 ∨ 0 < ttl ∧ ttl < 4294967296 := by
  have hwire := wire_ttl_toNat ttl
  have heffective := effectiveTtl_toNat defaultTtlS (Int32.ofInt ttl).toUInt32
  have hdefault : defaultTtlS = 0 ↔ defaultTtlS.toNat = 0 := UInt32.toNat_inj.symm
  have hlt := UInt32.toNat_lt_size (effectiveTtl defaultTtlS (Int32.ofInt ttl).toUInt32)
  rw [ttlKept_seconds fun t => put_expired_iff he, hdefault]
  have hsize : UInt32.size = 4294967296 := rfl
  split at heffective <;> omega

namespace Gateway

/-- The body of a forwarded PUT. -/
theorem putKey_json {_hash : String → Nat} {g g' : Gateway} {t : Time} {key : String}
    {request : CachePutRequest} {xClientZone : Option String} {call : PendingCall}
    {http : HttpRequest}
    (h : g.putKey _hash t key request xClientZone = (g', .ok (call, http))) :
    http.json = some (.obj [("value", .str request.value), ("ttl", .int (request.ttl.getD 0))]) := by
  unfold putKey callPrimary at h
  dsimp only at h
  split at h
  next => cases h
  next =>
    split at h
    next =>
      unfold send callNodeStart at h
      split at h
      next => cases h
      next hstart =>
        split at hstart
        next => cases hstart
        next =>
          cases hstart
          cases h
          rfl
    next => cases h

end Gateway

/-- What the node reads from the body of a forwarded PUT. -/
theorem parsePut_forwarded (value : String) (ttl : Int) :
    parsePut (some (Json.obj [("value", .str value), ("ttl", .int ttl)]).document) =
      .ok (text value, (Int32.ofInt ttl).toUInt32) := by
  have hvalue : (Json.obj [("value", .str value), ("ttl", .int ttl)]).parsed.find "value" =
      some (.string (text value)) := by
    rw [Json.parsed_find]
    simp [Json.field, Json.parsed]
  have httl : (Json.obj [("value", .str value), ("ttl", .int ttl)]).parsed.valueInt "ttl" 0 =
      some (Int32.ofInt ttl) := by
    rw [Json.parsed_ttl_field]
    simp [Json.field, Json.getInt]
  have hindex : (Json.obj [("value", .str value), ("ttl", .int ttl)]).parsed.index "value" =
      some (.string (text value)) := by
    change some (((Json.obj [("value", .str value), ("ttl", .int ttl)]).parsed.find "value").getD
      .null) = _
    rw [hvalue, Option.getD_some]
  have hfields : putFields (Json.obj [("value", .str value), ("ttl", .int ttl)]).parsed =
      some (text value, (Int32.ofInt ttl).toUInt32) := by
    simp [putFields, hindex, httl, JsonValue.getString]
  have hcontains : (Json.obj [("value", .str value), ("ttl", .int ttl)]).parsed.contains "value" =
      true := by
    rw [JsonValue.contains, hvalue, Option.isSome_some]
  exact parsePut_of_fields hcontains hfields

/-- Over the whole way of a PUT, from the client to the entry stored on the node, the TTL keeps
its meaning exactly when it is positive and fits into 32 bits, or is 0 or missing and the node
has no default TTL. -/
theorem put_ttl_iff {_hash : String → Nat} {g g' : Gateway} {t : Time} {clientKey : String}
    {request : CachePutRequest} {xClientZone : Option String} {call : PendingCall}
    {http : HttpRequest} {body : Json} {server server' : CacheServer}
    {c : LruStore Bytes Bytes} {checked now : TimePoint} {key : Bytes} {reply : HttpReply}
    (hsent : g.putKey _hash t clientKey request xClientZone = (g', .ok (call, http)))
    (hbody : http.json = some body) (h : server.Holds c)
    (hnode : server.handlePut checked now key (some body.document) = some (server', reply)) :
    ∃ e, server'.cache_.entryFor key = some e ∧ e.value = text request.value ∧
      (TtlKept (request.ttl.getD 0) now e ↔
        request.ttl.getD 0 = 0 ∧ server.config_.defaultTtlS = 0 ∨
          0 < request.ttl.getD 0 ∧ request.ttl.getD 0 < 4294967296) := by
  rw [Gateway.putKey_json hsent] at hbody
  cases Option.some.inj hbody
  have hparse := parsePut_forwarded request.value (request.ttl.getD 0)
  obtain ⟨stored, hhandle, _, hstored⟩ := CacheServer.handle_holds h
    (.put checked now key (some (Json.obj [("value", .str request.value),
      ("ttl", .int (request.ttl.getD 0))]).document))
  rw [CacheServer.handle, hnode] at hhandle
  cases hhandle
  rw [LruStore.serve_put hparse] at hstored
  refine ⟨_, (hstored.refines.entryFor key).trans (LruStore.put_find?_self c now key _ _), rfl, ?_⟩
  rw [← h.defaultTtlS]
  exact ttlKept_iff rfl

/-- A PUT through a gateway with one node. -/
def samplePut (ttl : Option Int) : Gateway × Except HTTPException (PendingCall × HttpRequest) :=
  Gateway.oneNode.putKey (fun _ => 0) 1 "k" ⟨"v", ttl⟩ none

theorem sent_of_toOption {made : Gateway × Except HTTPException (PendingCall × HttpRequest)}
    (h : made.2.toOption.map (fun sent => sent.1.handler) = some .putKey) :
    ∃ call http, made = (made.1, .ok (call, http)) ∧ call.handler = .putKey := by
  obtain ⟨g, result⟩ := made
  cases result with
  | error e => cases h
  | ok sent => exact ⟨sent.1, sent.2, rfl, Option.some.inj h⟩

/-- A PUT that is answered 200 or 201 is acknowledged. -/
theorem put_acknowledged {g : Gateway} {t : Time} {call : PendingCall} {status : Int}
    {answer : Json} (hcall : call.handler = .putKey) (hstatus : status = 200 ∨ status = 201) :
    (g.reply t call (.response ⟨status, some answer⟩)).2 = .ok answer := by
  simp only [Gateway.reply, callNodeFinish, hcall, Gateway.putKeyResponse]
  rw [if_neg (not_not.mpr hstatus)]
  rfl

theorem put_ttl_iff_minute : ∃ server server' reply e,
    CacheServer.construct CacheServer.oneSlot = .ok server ∧
    server.handlePut 0 0 (text "k") (some (Json.obj [("value", .str "v"), ("ttl", .int 60)]).document) =
      some (server', reply) ∧
    server'.cache_.entryFor (text "k") = some e ∧ TtlKept 60 0 e := by
  have hmade : (samplePut (some 60)).2.toOption.map (fun sent => sent.1.handler) = some .putKey := by
    decide +kernel
  obtain ⟨call, http, hsent, _⟩ := sent_of_toOption hmade
  obtain ⟨server, hserver⟩ : ∃ server, CacheServer.construct CacheServer.oneSlot = .ok server :=
    ⟨_, rfl⟩
  obtain ⟨_, _, h⟩ := CacheServer.construct_holds hserver
  obtain ⟨server', hnode, _, _⟩ := CacheServer.handle_holds h (.put 0 0 (text "k")
    (some (Json.obj [("value", .str "v"), ("ttl", .int 60)]).document))
  obtain ⟨e, he, _, hkept⟩ := put_ttl_iff hsent (Gateway.putKey_json hsent) h hnode
  exact ⟨server, server', _, e, hserver, hnode, he, hkept.mpr (Or.inr (by decide))⟩

/-- A negative TTL is acknowledged, and the entry is readable for 136 years. -/
theorem negative_ttl_readable : ∃ call http server server' reply answer,
    samplePut (some (-1)) = ((samplePut (some (-1))).1, .ok (call, http)) ∧
    CacheServer.construct CacheServer.oneSlot = .ok server ∧
    server.handlePut 0 0 (text "k") (http.json.map Json.document) = some (server', reply) ∧
    ((samplePut (some (-1))).1.reply 2 call (.response ⟨reply.status, some .null⟩)).2 = .ok answer ∧
    server'.cache_.entryFor (text "k") = some ⟨text "k", text "v", some 4294967295000000000⟩ := by
  have hmade : (samplePut (some (-1))).2.toOption.map (fun sent => sent.1.handler) =
      some .putKey := by
    decide +kernel
  obtain ⟨call, http, hsent, hhandler⟩ := sent_of_toOption hmade
  obtain ⟨server, server', reply, hserver, hnode, hstatus, hentry⟩ :
      ∃ server server' reply, CacheServer.construct CacheServer.oneSlot = .ok server ∧
        server.handlePut 0 0 (text "k")
          (some (Json.obj [("value", .str "v"), ("ttl", .int (-1))]).document) =
            some (server', reply) ∧ reply.status = 201 ∧
        server'.cache_.entryFor (text "k") = some ⟨text "k", text "v", some 4294967295000000000⟩ :=
    ⟨_, _, _, rfl, rfl, rfl, rfl⟩
  refine ⟨call, http, server, server', reply, .null, hsent, hserver, ?_, ?_, hentry⟩
  · rw [Gateway.putKey_json hsent]
    exact hnode
  · exact put_acknowledged hhandler (Or.inr (by rw [hstatus]; rfl))

end SelfHealingCache
