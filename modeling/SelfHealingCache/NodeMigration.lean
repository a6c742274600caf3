import SelfHealingCache.CacheTransfer
import SelfHealingCache.NodeWire

namespace SelfHealingCache

mutual

/-- `resp.json()`; truth values and floats, which no snapshot holds, are left out. -/
def readJson : JsonValue → Option Json
  | .null => some .null
  | .boolean _ => none
  | .numberInteger n => some (.int n)
  | .numberFloat _ => none
  | .string s => (readText s).map .str
  | .array items => (readItems items).map .arr
  | .object fields => (readFields fields).map .obj

def readItems : List JsonValue → Option (List Json)
  | [] => some []
  | j :: items => do
    let value ← readJson j
    let rest ← readItems items
    some (value :: rest)

def readFields : List (Bytes × JsonValue) → Option (List (String × Json))
  | [] => some []
  | (name, j) :: fields => do
    let name ← readText name
    let value ← readJson j
    let rest ← readFields fields
    some ((name, value) :: rest)

end

/-- `_migrate_keys` against the handlers of both nodes. Whatever raises is caught, and
counts as no key. -/
def migrateKeys (source target : CacheServer) (keysSet : List String) (start : TimePoint)
    (now now' : Nat → TimePoint) : Option (CacheServer × Nat) := do
  let snapResp ← source.handleSnapshot start now
  if snapResp.status = 200 then
    match (snapResp.content.bind fun data => readJson data.json).bind
        (bulkLoadRequest keysSet) with
    | none => some (target, 0)
    | some [] => some (target, 0)
    | some (e :: filtered) =>
      let body := (Json.obj [("entries", .arr (e :: filtered))]).document
      let (target', loadResp) ← target.handleBulkLoad now' (some body)
      some (target', if loadResp.status = 200 then filtered.length + 1 else 0)
  else some (target, 0)

theorem read_snapshotEntry (e : String × String × UInt32) :
    readJson (snapshotEntry (entryBytes e)) = some (entryJson e) := by
  simp [snapshotEntry, entryBytes, entryJson, readJson, readFields]

theorem read_snapshot_entries (snap : List (String × String × UInt32)) :
    readItems ((snap.map entryBytes).map snapshotEntry) = some (snap.map entryJson) := by
  induction snap with
  | nil => rfl
  | cons e snap ih =>
    rw [List.map_cons, List.map_cons, readItems, read_snapshotEntry, ih]
    rfl

/-- The gateway reads of a snapshot what the model over texts writes. -/
theorem read_snapshot (nodeId : String) (snap : List (String × String × UInt32)) :
    readJson (.object [(text "node_id", .string (text nodeId)),
      (text "entries", .array ((snap.map entryBytes).map snapshotEntry))]) =
        some (handleSnapshot nodeId snap) := by
  simp [-List.map_map, readJson, readFields, read_snapshot_entries, handleSnapshot]

/-- Entries in UTF-8 are those of texts. -/
theorem exists_entries {snap : List (Bytes × Bytes × UInt32)}
    (h : ∀ e ∈ snap, IsText e.1 ∧ IsText e.2.1) :
    ∃ texts : List (String × String × UInt32), snap = texts.map entryBytes := by
  induction snap with
  | nil => exact ⟨[], rfl⟩
  | cons e snap ih =>
    obtain ⟨⟨hkey, hvalue⟩, hrest⟩ := List.forall_mem_cons.mp h
    obtain ⟨key, hkey⟩ := isText_iff.mp hkey
    obtain ⟨value, hvalue⟩ := isText_iff.mp hvalue
    obtain ⟨texts, rfl⟩ := ih hrest
    refine ⟨(key, value, e.2.2) :: texts, ?_⟩
    rw [List.map_cons, entryBytes, hkey, hvalue]

theorem loadReply_status (count : Nat) : (loadReply count).status = 200 := by
  rw [loadReply, respond_valid (by simp [isText_text])]

namespace CacheServer

variable {source target : CacheServer} {c d : LruStore Bytes Bytes} {start : TimePoint}
  {now : Nat → TimePoint}

/-- A bulk load of the gateway is one of the cache. -/
theorem handle_forwarded (h : target.Holds d) (now' : Nat → TimePoint)
    (entries : List (String × String × UInt32)) :
    ∃ cache, LRUCache.bulkLoad now' (entries.map entryBytes) target.cache_ = some cache ∧
      target.handleBulkLoad now'
          (some (Json.obj [("entries", .arr (entries.map entryJson))]).document) =
        some ({ target with cache_ := cache }, loadReply entries.length) := by
  obtain ⟨cache, hload, _⟩ := bulkLoad_refines (entries.map entryBytes) h.refines now'
  refine ⟨cache, hload, ?_⟩
  rw [handleBulkLoad, parseLoad_forwarded]
  dsimp only
  rw [hload, List.length_map]
  rfl

/-- What a node in UTF-8 sends, filtered, is loaded by the other node. -/
theorem migrateKeys_texts (keysSet : List String) (now' : Nat → TimePoint)
    (hsource : source.Holds c) (htarget : target.Holds d)
    {nodeId : String} (hid : source.config_.nodeId = text nodeId)
    {snap : List (String × String × UInt32)}
    (hsnap : c.snapshot start now = snap.map entryBytes) :
    ∃ entries cache, transfer nodeId keysSet snap = some entries ∧
      LRUCache.bulkLoad now' (entries.map entryBytes) target.cache_ = some cache ∧
      migrateKeys source target keysSet start now now' =
        some ({ target with cache_ := cache }, entries.length) := by
  have hreply : source.handleSnapshot start now =
      some (snapshotReply source.config_ (snap.map entryBytes)) := by
    rw [handleSnapshot, snapshot_refines hsource.refines, hsnap]
    rfl
  have hvalid : (JsonValue.object [(text "node_id", .string (text nodeId)),
      (text "entries", .array ((snap.map entryBytes).map snapshotEntry))]).valid = true := by
    have htexts : (snapshotReply source.config_ (snap.map entryBytes)).Success := by
      refine snapshotReply_valid.mpr ⟨hid ▸ isText_text nodeId, ?_⟩
      intro e he
      obtain ⟨e', _, rfl⟩ := List.mem_map.mp he
      exact ⟨isText_text _, isText_text _⟩
    rw [snapshotReply, hid, respond_success (by decide)] at htexts
    exact htexts
  have hrequest := bulkLoadRequest_json keysSet nodeId snap
  obtain ⟨cache, hload, hhandle⟩ :=
    handle_forwarded htarget now' (snap.filter fun e => e.1 ∈ keysSet)
  refine ⟨_, cache, transfer_eq nodeId keysSet snap, hload, ?_⟩
  rw [migrateKeys, hreply]
  simp only [Option.bind_eq_bind, Option.bind_some]
  rw [snapshotReply, hid, respond_valid hvalid, if_pos rfl, Option.bind_some, read_snapshot,
    Option.bind_some, hrequest]
  cases hfiltered : snap.filter fun e => e.1 ∈ keysSet with
  | nil =>
    -- nothing to move: no request is sent
    rw [hfiltered] at hload
    cases Option.some.inj hload
    rfl
  | cons e filtered =>
    rw [hfiltered, List.map_cons] at hhandle
    rw [List.map_cons]
    dsimp only
    rw [hhandle, Option.bind_some, if_pos (loadReply_status _), List.length_map]
    rfl

/-- A snapshot that cannot be written moves nothing. -/
theorem migrateKeys_blocked {keysSet : List String} {now' : Nat → TimePoint}
    (hsource : source.Holds c)
    (h : ¬(IsText source.config_.nodeId ∧
      ∀ e ∈ c.snapshot start now, IsText e.1 ∧ IsText e.2.1)) :
    migrateKeys source target keysSet start now now' = some (target, 0) := by
  have hthrown : source.handleSnapshot start now = some .thrown := by
    rw [handleSnapshot, snapshot_refines hsource.refines]
    refine congrArg some (respond_invalid ?_)
    rw [← snapshotReply_valid, snapshotReply, respond_success (by decide)] at h
    exact h
  rw [migrateKeys, hthrown]
  rfl

/-- Between two running nodes a batch goes the way of `transfer`, or, when the snapshot
holds anything that is not UTF-8, does not move at all. -/
theorem migrate_keys_exact {sourceConfig targetConfig : NodeConfig}
    {source₀ source target₀ target : CacheServer} {sourceRequests targetRequests : List Request}
    (hsource₀ : construct sourceConfig = .ok source₀)
    (hsource : source₀.run sourceRequests = some source)
    (htarget₀ : construct targetConfig = .ok target₀)
    (htarget : target₀.run targetRequests = some target) (keysSet : List String)
    (start : TimePoint) (now now' : Nat → TimePoint) :
    ∃ snap, source.cache_.snapshot start now = some snap ∧
      ((IsText sourceConfig.nodeId ∧ ∀ e ∈ snap, IsText e.1 ∧ IsText e.2.1) →
        ∃ nodeId texts entries cache, sourceConfig.nodeId = text nodeId ∧
          snap = texts.map entryBytes ∧ transfer nodeId keysSet texts = some entries ∧
          entries = texts.filter (fun e => e.1 ∈ keysSet) ∧
          LRUCache.bulkLoad now' (entries.map entryBytes) target.cache_ = some cache ∧
          migrateKeys source target keysSet start now now' =
            some ({ target with cache_ := cache }, entries.length)) ∧
      (¬(IsText sourceConfig.nodeId ∧ ∀ e ∈ snap, IsText e.1 ∧ IsText e.2.1) →
        migrateKeys source target keysSet start now now' = some (target, 0)) := by
  obtain ⟨_, hconfig, hs₀⟩ := construct_holds hsource₀
  obtain ⟨_, hrun, hconfig', hs⟩ := run_holds sourceRequests hs₀
  rw [hsource] at hrun
  cases hrun
  obtain ⟨_, _, ht₀⟩ := construct_holds htarget₀
  obtain ⟨_, hrun', _, ht⟩ := run_holds targetRequests ht₀
  rw [htarget] at hrun'
  cases hrun'
  have hid : source.config_.nodeId = sourceConfig.nodeId := by rw [hconfig', hconfig]
  refine ⟨_, snapshot_refines hs.refines start now, ?_, ?_⟩
  · intro h
    obtain ⟨htext, htexts⟩ := h
    obtain ⟨nodeId, hnode⟩ := isText_iff.mp htext
    obtain ⟨texts, hsnap⟩ := exists_entries htexts
    obtain ⟨entries, cache, htransfer, hload, hmigrate⟩ :=
      migrateKeys_texts keysSet now' hs ht (hid.trans hnode.symm) hsnap
    have hfiltered := Option.some.inj (htransfer.symm.trans (transfer_eq nodeId keysSet texts))
    exact ⟨nodeId, texts, entries, cache, hnode.symm, hsnap, htransfer, hfiltered, hload, hmigrate⟩
  · intro hblocked
    rw [← hid] at hblocked
    exact migrateKeys_blocked hs hblocked

/-- The one entry of a node moves. -/
theorem migrate_keys_exact_one_slot : ∃ source₀ source texts entries cache,
    construct oneSlot = .ok source₀ ∧
    source₀.run [.put 0 0 (text "k") (some valueBody)] = some source ∧
    [(text "k", text "v", 0)] = texts.map entryBytes ∧
    transfer "node-1" ["k"] texts = some entries ∧
    LRUCache.bulkLoad (fun _ => 6) (entries.map entryBytes) source₀.cache_ = some cache ∧
    migrateKeys source source₀ ["k"] 5 (fun _ => 5) (fun _ => 6) =
      some ({ source₀ with cache_ := cache }, entries.length) := by
  obtain ⟨source₀, source, hstart, hrun, hsnapshot⟩ : ∃ source₀ source,
      construct oneSlot = .ok source₀ ∧
      source₀.run [.put 0 0 (text "k") (some valueBody)] = some source ∧
      source.cache_.snapshot 5 (fun _ => 5) = some [(text "k", text "v", 0)] :=
    ⟨_, _, rfl, rfl, rfl⟩
  obtain ⟨snap, hsnap, hmoved, _⟩ :=
    migrate_keys_exact hstart hrun hstart (show source₀.run [] = some source₀ from rfl) ["k"] 5
      (fun _ => 5) fun _ => 6
  rw [hsnapshot] at hsnap
  cases Option.some.inj hsnap
  have htexts : IsText oneSlot.nodeId ∧ ∀ e ∈ [(text "k", text "v", (0 : UInt32))],
      IsText e.1 ∧ IsText e.2.1 := by
    refine ⟨isText_text "node-1", ?_⟩
    intro e he
    rw [List.mem_singleton.mp he]
    exact ⟨isText_text "k", isText_text "v"⟩
  obtain ⟨nodeId, texts, entries, cache, hid, hentries, htransfer, _, hload, hmigrate⟩ :=
    hmoved htexts
  cases text_inj.mp hid
  exact ⟨source₀, source, texts, entries, cache, hstart, hrun, hentries, htransfer, hload, hmigrate⟩

end CacheServer

end SelfHealingCache
