import SelfHealingCache.LruCache

namespace SelfHealingCache

/-- The JSON values the cache server builds and reads. -/
inductive Json
  | null
  | int (n : Int)
  | str (s : String)
  | arr (items : List Json)
  | obj (fields : List (String × Json))

namespace Json

/-- `j[name]` on the objects received. -/
def field (name : String) : Json → Option Json
  | .obj fields => (fields.find? fun p => p.1 = name).map Prod.snd
  | _ => none

/-- What a range-for over a value visits: nothing for `null`, a scalar itself. -/
def elements : Json → List Json
  | .null => []
  | .arr items => items
  | .obj fields => fields.map Prod.snd
  | j => [j]

/-- `get<std::string>()`; another type throws. -/
def getString : Json → Option String
  | .str s => some s
  | _ => none

/-- `get<int>()`: integers are cut to 32 bits; another type throws. -/
def getInt : Json → Option Int32
  | .int n => some (Int32.ofInt n)
  | _ => none

end Json

/-- The JSON object of one snapshot entry. -/
def entryJson (e : String × String × UInt32) : Json :=
  .obj [("key", .str e.1), ("value", .str e.2.1), ("ttl", .int e.2.2.toNat)]

def handleSnapshot (nodeId : String) (snap : List (String × String × UInt32)) : Json :=
  .obj [("node_id", .str nodeId), ("entries", .arr (snap.map entryJson))]

/-- The request of `_migrate_keys`: the entries of the snapshot with a wanted key.
An entry without a key raises, an answer without entries counts as empty. -/
def bulkLoadRequest (keysSet : List String) (snapshot : Json) : Option (List Json) :=
  match snapshot.field "entries" with
  | none => some []
  | some (.arr entries) =>
    entries.foldr (fun e rest => do
      let filtered ← rest
      let key ← e.field "key"
      let name ← key.getString
      some (if name ∈ keysSet then e :: filtered else filtered)) (some [])
  | some _ => none

/-- The entry `handle_bulk_load` reads from one element; `none` where it throws. -/
def readEntry (e : Json) : Option (String × String × UInt32) := do
  let key ← e.field "key"
  let key ← key.getString
  let value ← e.field "value"
  let value ← value.getString
  let ttl ← match e.field "ttl" with
    | none => some 0
    | some ttl => ttl.getInt
  some (key, value, ttl.toUInt32)

/-- The parsing loop of `handle_bulk_load`; a missing field is read as `null`. -/
def readEntries (req : Json) : Option (List (String × String × UInt32)) :=
  ((req.field "entries").getD .null).elements.mapM readEntry

theorem int_roundtrip (n : UInt32) : (Int32.ofInt n.toNat).toUInt32 = n := by
  apply UInt32.toBitVec_inj.mp
  simp

theorem readEntry_json (e : String × String × UInt32) : readEntry (entryJson e) = some e := by
  obtain ⟨key, value, ttl⟩ := e
  simp [readEntry, entryJson, Json.field, Json.getString, Json.getInt, int_roundtrip]

/-- A list of entries survives the way through JSON. -/
theorem readEntries_json (entries : List (String × String × UInt32)) :
    readEntries (.obj [("entries", .arr (entries.map entryJson))]) = some entries := by
  have hmap : (entries.map entryJson).mapM readEntry = some entries := by
    induction entries with
    | nil => rfl
    | cons e entries ih => simp [readEntry_json, ih]
  simpa [readEntries, Json.field, Json.elements] using hmap

/-- The gateway forwards exactly the snapshot entries with a wanted key. -/
theorem bulkLoadRequest_json (keysSet : List String) (nodeId : String)
    (snap : List (String × String × UInt32)) :
    bulkLoadRequest keysSet (handleSnapshot nodeId snap) =
      some ((snap.filter fun e => e.1 ∈ keysSet).map entryJson) := by
  have hfold : ∀ es : List (String × String × UInt32),
      (es.map entryJson).foldr (fun e rest => do
        let filtered ← rest
        let key ← e.field "key"
        let name ← key.getString
        some (if name ∈ keysSet then e :: filtered else filtered)) (some []) =
      some ((es.filter fun e => e.1 ∈ keysSet).map entryJson) := by
    intro es
    induction es with
    | nil => rfl
    | cons e es ih =>
      rw [List.map_cons, List.foldr_cons, ih]
      by_cases hk : e.1 ∈ keysSet <;>
        simp [entryJson, Json.field, Json.getString, hk]
  exact hfold snap

end SelfHealingCache
