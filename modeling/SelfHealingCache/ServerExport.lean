import SelfHealingCache.CacheWire
import SelfHealingCache.ServerAtomicity

namespace SelfHealingCache

/-- `set(data.get("keys", []))`, as a list; `none` where it raises. -/
def dataKeys (data : JsonValue) : Option (List String) :=
  match data with
  | .object _ =>
    match data.find "keys" with
    | none => some []
    | some (.array keys) => keys.mapM fun k => k.getString.bind readText
    | some _ => none
  | _ => none

/-- `_fetch_keys_from_node` on the answer of the node. -/
def fetchKeysFromNode (reply : HttpReply) : List String :=
  if reply.status = 200 then ((reply.content.bind fun data => dataKeys data.json).getD []) else []

/-- A PUT that is accepted has a key in UTF-8. -/
def Request.TextKey : Request → Prop
  | .put _ _ key body => AcceptedPut body → IsText key
  | _ => True

/-- All that the cache holds can be written into a JSON text. -/
def LruStore.Textual (c : LruStore Bytes Bytes) : Prop :=
  ∀ e ∈ c.entries, IsText e.key ∧ IsText e.value

section parsed

theorem valid_getString {j found : JsonValue} {s : Bytes} (h : j.valid = true) {name : String}
    (hindex : j.index name = some found) (hs : found.getString = some s) : IsText s := by
  have hvalid := JsonValue.valid_index h hindex
  rw [JsonValue.getString_eq_some.mp hs] at hvalid
  exact JsonValue.valid_string.mp hvalid

/-- The value of an accepted PUT has been parsed, so it is UTF-8. -/
theorem parsePut_text {body : Option Document} {value : Bytes} {ttl : UInt32}
    (h : parsePut body = .ok (value, ttl)) : IsText value := by
  cases body with
  | none => cases h
  | some reqBody =>
    cases hf : putFields reqBody.json with
    | none =>
      cases hc : reqBody.json.contains "value" <;> simp [parsePut, hf, hc] at h
    | some fields =>
      have hfields : fields = (value, ttl) := by
        cases hc : reqBody.json.contains "value" <;> simp [parsePut, hf, hc] at h
        exact h
      rw [hfields, putFields] at hf
      obtain ⟨found, hindex, hf⟩ := Option.bind_eq_some_iff.mp hf
      obtain ⟨s, hs, hf⟩ := Option.bind_eq_some_iff.mp hf
      obtain ⟨n, _, hf⟩ := Option.bind_eq_some_iff.mp hf
      cases Option.some.inj hf
      exact valid_getString reqBody.valid hindex hs

theorem loadEntry_text {e : JsonValue} (hv : e.valid = true) {key value : Bytes} {ttl : UInt32}
    (h : loadEntry e = some (key, value, ttl)) : IsText key ∧ IsText value := by
  rw [loadEntry] at h
  obtain ⟨foundKey, hkey, h⟩ := Option.bind_eq_some_iff.mp h
  obtain ⟨k, hk, h⟩ := Option.bind_eq_some_iff.mp h
  obtain ⟨foundValue, hvalue, h⟩ := Option.bind_eq_some_iff.mp h
  obtain ⟨v, hv', h⟩ := Option.bind_eq_some_iff.mp h
  obtain ⟨n, _, h⟩ := Option.bind_eq_some_iff.mp h
  cases Option.some.inj h
  exact ⟨valid_getString hv hkey hk, valid_getString hv hvalue hv'⟩

/-- So are the keys and values of a bulk load. -/
theorem parseLoad_text {body : Option Document} {entries : List (Bytes × Bytes × UInt32)}
    (h : parseLoad body = .ok entries) : ∀ e ∈ entries, IsText e.1 ∧ IsText e.2.1 := by
  cases body with
  | none => cases h
  | some req =>
    cases hl : loadEntries req.json with
    | none => simp [parseLoad, hl] at h
    | some loaded =>
      have hloaded : loaded = entries := by simpa [parseLoad, hl] using h
      rw [hloaded, loadEntries] at hl
      obtain ⟨found, hindex, hmap⟩ := Option.bind_eq_some_iff.mp hl
      have hfound := JsonValue.valid_index req.valid hindex
      intro e he
      obtain ⟨x, hx, hxe⟩ := mem_of_mapM hmap he
      exact loadEntry_text (JsonValue.valid_elements hfound hx) hxe

end parsed

namespace LruStore.Textual

variable {c : LruStore Bytes Bytes}

theorem subset {c' : LruStore Bytes Bytes} (h : c.Textual) (hsub : c'.entries ⊆ c.entries) :
    c'.Textual := fun e he => h e (hsub he)

theorem put (h : c.Textual) {key value : Bytes} (hkey : IsText key) (hvalue : IsText value)
    (now : TimePoint) (ttl : UInt32) : (c.put now key value ttl).Textual := by
  obtain ⟨others, hsub, _, hentries⟩ := put_entries c now key value ttl
  intro e he
  rw [hentries] at he
  rcases List.mem_cons.mp he with rfl | hmem
  · exact ⟨hkey, hvalue⟩
  · exact h e (hsub.subset hmem)

theorem bulkLoad (entries : List (Bytes × Bytes × UInt32)) {c : LruStore Bytes Bytes}
    (h : c.Textual) (hentries : ∀ e ∈ entries, IsText e.1 ∧ IsText e.2.1)
    (now : Nat → TimePoint) : (LruStore.bulkLoad now entries c).Textual := by
  induction entries generalizing c now with
  | nil => exact h
  | cons e entries ih =>
    obtain ⟨he, hrest⟩ := List.forall_mem_cons.mp hentries
    exact ih (h.put he.1 he.2 (now 0) e.2.2) hrest _

/-- What one request keeps. -/
theorem serve (h : c.Textual) (config_ : NodeConfig) {request : Request}
    (hrequest : request.TextKey) : (c.serve config_ request).1.Textual := by
  cases request with
  | get now key => exact h.subset (get_entries_subset c now key)
  | put checked now key body =>
    cases hparse : parsePut body with
    | error reply =>
      rw [LruStore.serve_put_refused hparse]
      exact h
    | ok fields =>
      rw [LruStore.serve_put hparse]
      exact h.put (hrequest (acceptedPut_iff.mpr ⟨fields, hparse⟩)) (parsePut_text hparse) now _
  | delete key =>
    refine h.subset ?_
    change (c.remove key).1.entries ⊆ c.entries
    rw [remove_entries]
    exact (without_sublist key c.entries).subset
  | bulkLoad now body =>
    cases hparse : parseLoad body with
    | error reply =>
      rw [LruStore.serve_bulkLoad_refused hparse]
      exact h
    | ok entries =>
      rw [LruStore.serve_bulkLoad hparse]
      exact Textual.bulkLoad entries h (parseLoad_text hparse) now
  | purgeExpired now => exact h.subset (unexpired_sublist now c.entries).subset

theorem serves (config_ : NodeConfig) (requests : List Request) {c : LruStore Bytes Bytes}
    (h : c.Textual) (hrequests : ∀ request ∈ requests, request.TextKey) :
    (c.serves config_ requests).Textual := by
  induction requests generalizing c with
  | nil => exact h
  | cons request requests ih =>
    obtain ⟨hrequest, hrest⟩ := List.forall_mem_cons.mp hrequests
    exact ih (h.serve config_ hrequest) hrest

end LruStore.Textual

section exports

theorem keysReply_valid {config_ : NodeConfig} {keys : List Bytes} :
    (keysReply config_ keys).Success ↔ IsText config_.nodeId ∧ ∀ k ∈ keys, IsText k := by
  rw [keysReply, respond_success (by decide)]
  simp [isText_text]

theorem snapshotEntry_valid {e : Bytes × Bytes × UInt32} :
    (snapshotEntry e).valid = true ↔ IsText e.1 ∧ IsText e.2.1 := by
  simp [snapshotEntry, isText_text]

theorem snapshotReply_valid {config_ : NodeConfig} {snap : List (Bytes × Bytes × UInt32)} :
    (snapshotReply config_ snap).Success ↔
      IsText config_.nodeId ∧ ∀ e ∈ snap, IsText e.1 ∧ IsText e.2.1 := by
  have hitems : (JsonValue.array (snap.map snapshotEntry)).valid = true ↔
      ∀ e ∈ snap, IsText e.1 ∧ IsText e.2.1 := by
    rw [JsonValue.valid_array, List.forall_mem_map]
    exact forall₂_congr fun _ _ => snapshotEntry_valid
  rw [snapshotReply, respond_success (by decide), JsonValue.valid_object]
  simp [-JsonValue.valid_array, hitems, isText_text]

theorem exists_texts {keys : List Bytes} (h : ∀ k ∈ keys, IsText k) :
    ∃ names : List String, names.map text = keys := by
  induction keys with
  | nil => exact ⟨[], rfl⟩
  | cons k keys ih =>
    obtain ⟨hk, hrest⟩ := List.forall_mem_cons.mp h
    obtain ⟨name, hname⟩ := isText_iff.mp hk
    obtain ⟨names, hnames⟩ := ih hrest
    exact ⟨name :: names, by rw [List.map_cons, hname, hnames]⟩

/-- The gateway reads the keys that the node writes. -/
theorem fetchKeys_reply {config_ : NodeConfig} {keys : List Bytes}
    (h : (keysReply config_ keys).Success) :
    (keysReply config_ keys).status = 200 ∧
      (fetchKeysFromNode (keysReply config_ keys)).map text = keys := by
  obtain ⟨names, rfl⟩ := exists_texts (keysReply_valid.mp h).2
  rw [keysReply, respond_success (by decide)] at h
  have hread : ((names.map text).map JsonValue.string).mapM
      (fun k => k.getString.bind readText) = some names := by
    rw [List.map_map]
    exact mapM_map_of_inverse fun name _ => readText_text name
  have hdata : dataKeys (.object [(text "node_id", .string config_.nodeId),
      (text "keys", .array ((names.map text).map .string))]) = some names := by
    simp only [dataKeys, JsonValue.find_cons]
    exact hread
  rw [keysReply, respond_valid h]
  refine ⟨rfl, ?_⟩
  rw [fetchKeysFromNode, if_pos rfl, Option.bind_some, hdata, Option.getD_some]

theorem load_snapshotEntry (e : Bytes × Bytes × UInt32) :
    loadEntry (snapshotEntry e) = some e := by
  obtain ⟨key, value, ttl⟩ := e
  simp [loadEntry, snapshotEntry, JsonValue.index, JsonValue.valueInt, JsonValue.find_cons,
    JsonValue.getString, JsonValue.getInt, int_roundtrip]

/-- A bulk load reads the entries that a snapshot writes. -/
theorem parseLoad_snapshot {config_ : NodeConfig} {snap : List (Bytes × Bytes × UInt32)}
    (h : (snapshotReply config_ snap).Success) :
    (snapshotReply config_ snap).status = 200 ∧
      parseLoad (snapshotReply config_ snap).content = .ok snap := by
  rw [snapshotReply, respond_success (by decide)] at h
  have hload : loadEntries (.object [(text "node_id", .string config_.nodeId),
      (text "entries", .array (snap.map snapshotEntry))]) = some snap := by
    simp only [loadEntries, JsonValue.index, JsonValue.find_cons]
    exact mapM_map_of_inverse fun e _ => load_snapshotEntry e
  rw [snapshotReply, respond_valid h]
  refine ⟨rfl, ?_⟩
  rw [parseLoad]
  dsimp only
  rw [hload]

end exports

namespace CacheServer

/-- `/keys` and `/snapshot` answer 200, and what is read from the answers is what the cache
holds unexpired. -/
structure Exported (server : CacheServer) (c : LruStore Bytes Bytes) (start : TimePoint)
    (now : Nat → TimePoint) : Prop where
  keys : ∃ reply reading, server.handleKeys now = some reply ∧ reply.status = 200 ∧
    (∀ k, ∃ i, reading k = now i) ∧
    ((fetchKeysFromNode reply).map text).Perm (c.keys reading)
  snapshot : ∃ reply, server.handleSnapshot start now = some reply ∧ reply.status = 200 ∧
    parseLoad reply.content = .ok (c.snapshot start now)

/-- A node that holds nothing but UTF-8 can be exported. -/
theorem exported_of_textual {server : CacheServer} {c : LruStore Bytes Bytes}
    (h : server.Holds c) (hid : IsText server.config_.nodeId) (htext : c.Textual)
    (start : TimePoint) (now : Nat → TimePoint) : server.Exported c start now where
  keys := by
    obtain ⟨reading, keys, hkeys, hreading, hperm⟩ := keys_refines h.refines now
    have hall : ∀ k ∈ keys, IsText k := by
      intro k hk
      obtain ⟨e, he, rfl⟩ := List.mem_map.mp (hperm.subset hk)
      exact (htext e (List.mem_filter.mp he).1).1
    obtain ⟨hstatus, hfetch⟩ := fetchKeys_reply (keysReply_valid.mpr ⟨hid, hall⟩)
    refine ⟨keysReply server.config_ keys, reading, ?_, hstatus, hreading, ?_⟩
    · rw [handleKeys, hkeys]
      rfl
    · rw [hfetch]
      exact hperm
  snapshot := by
    have hall : ∀ e ∈ c.snapshot start now, IsText e.1 ∧ IsText e.2.1 := by
      intro e he
      obtain ⟨entry, hentry, rfl⟩ := List.mem_map.mp he
      exact htext entry ((unexpired_sublist now c.entries).subset hentry)
    obtain ⟨hstatus, hload⟩ := parseLoad_snapshot (snapshotReply_valid.mpr ⟨hid, hall⟩)
    refine ⟨snapshotReply server.config_ (c.snapshot start now), ?_, hstatus, hload⟩
    rw [handleSnapshot, snapshot_refines h.refines]
    rfl

/-- As long as accepted PUTs have keys in UTF-8, the node can be exported at any time. -/
theorem always_exported {config : NodeConfig} {server₀ server : CacheServer}
    {requests : List Request} (hstart : construct config = .ok server₀)
    (hrun : server₀.run requests = some server) (hid : IsText config.nodeId)
    (hrequests : ∀ request ∈ requests, request.TextKey) :
    ∃ c, server.Holds c ∧ ∀ start now, server.Exported c start now := by
  obtain ⟨hcap, hconfig, h₀⟩ := construct_holds hstart
  obtain ⟨server', hrun', hconfig', h⟩ := run_holds requests h₀
  rw [hrun] at hrun'
  cases hrun'
  have hempty : (LruStore.init config.cacheCapacity config.defaultTtlS hcap :
      LruStore Bytes Bytes).Textual := fun e he => absurd he List.not_mem_nil
  have htext := hempty.serves server₀.config_ requests hrequests
  rw [← hconfig, ← hconfig'] at hid
  exact ⟨_, h, fun start now => exported_of_textual h hid htext start now⟩

theorem always_exported_one_slot : ∃ server₀ server c, construct oneSlot = .ok server₀ ∧
    server₀.run [.put 0 0 (text "k") (some valueBody)] = some server ∧
    server.Exported c 5 fun _ => 5 := by
  obtain ⟨server₀, hserver₀⟩ : ∃ server₀, construct oneSlot = .ok server₀ := ⟨_, rfl⟩
  obtain ⟨_, _, h₀⟩ := construct_holds hserver₀
  obtain ⟨server, hrun, _, _⟩ := run_holds [.put 0 0 (text "k") (some valueBody)] h₀
  obtain ⟨c, _, hexported⟩ := always_exported hserver₀ hrun (isText_text "node-1")
    (by simp [Request.TextKey, isText_text])
  exact ⟨server₀, server, c, hserver₀, hrun, hexported 5 fun _ => 5⟩

/-- One key that is not UTF-8 keeps all the others from being exported. -/
theorem export_blocked : ∃ server₀ server,
    construct { oneSlot with cacheCapacity := 2 } = .ok server₀ ∧
    server₀.run [.put 0 0 (text "k") (some valueBody), .put 0 0 [255] (some valueBody)] =
      some server ∧
    server.cache_.keys (fun _ => 0) = some [text "k", [255]] ∧
    server.handleKeys (fun _ => 0) = some .thrown ∧
    server.handleSnapshot 0 (fun _ => 0) = some .thrown :=
  ⟨_, _, rfl, rfl, rfl, rfl, rfl⟩

end CacheServer

end SelfHealingCache
