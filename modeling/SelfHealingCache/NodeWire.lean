import SelfHealingCache.Gateway
import SelfHealingCache.ServerExport

namespace SelfHealingCache

namespace Json

mutual

/-- What `json::parse` makes of a body that `httpx` writes. An integer that does not fit
into 64 bits becomes a float. -/
def parsed : Json → JsonValue
  | .null => .null
  | .int n => if -2 ^ 63 ≤ n ∧ n < 2 ^ 64 then .numberInteger n else .numberFloat n
  | .str s => .string (text s)
  | .arr items => .array (parsedItems items)
  | .obj fields => .object (parsedFields fields)

def parsedItems : List Json → List JsonValue
  | [] => []
  | j :: items => j.parsed :: parsedItems items

def parsedFields : List (String × Json) → List (Bytes × JsonValue)
  | [] => []
  | (name, j) :: fields => (text name, j.parsed) :: parsedFields fields

end

mutual

theorem parsed_valid : ∀ j : Json, j.parsed.valid = true
  | .null => rfl
  | .int n => by
    unfold parsed
    split <;> rfl
  | .str s => JsonValue.valid_string.mpr (isText_text s)
  | .arr items => items_valid items
  | .obj fields => fields_valid fields

theorem items_valid : ∀ items : List Json, JsonValue.validItems (parsedItems items) = true
  | [] => rfl
  | j :: items => Bool.and_eq_true_iff.mpr ⟨j.parsed_valid, items_valid items⟩

theorem fields_valid : ∀ fields : List (String × Json),
    JsonValue.validFields (parsedFields fields) = true
  | [] => rfl
  | (name, j) :: fields => by
    have hname : decide (IsText (text name)) = true := decide_eq_true (isText_text name)
    simp [parsedFields, JsonValue.validFields, hname, j.parsed_valid, fields_valid fields]

end

/-- The body of a request, as the node receives it. -/
def document (j : Json) : Document := ⟨j.parsed, j.parsed_valid⟩

theorem parsedItems_eq (items : List Json) : parsedItems items = items.map parsed := by
  induction items with
  | nil => rfl
  | cons j items ih => rw [parsedItems, List.map_cons, ih]

theorem parsed_find (fields : List (String × Json)) (name : String) :
    (obj fields).parsed.find name = ((obj fields).field name).map parsed := by
  change (JsonValue.object (parsedFields fields)).find name = _
  induction fields with
  | nil => rfl
  | cons p fields ih =>
    rw [parsedFields, JsonValue.find_cons]
    by_cases h : p.1 = name
    · simp [field, h]
    · rw [if_neg h, ih]
      simp [field, h]

/-- Both models cut a number to the same 32 bits. -/
theorem parsed_getInt (j : Json) : j.parsed.getInt = j.getInt := by
  cases j with
  | int n =>
    rw [parsed]
    split
    · rfl
    · simp [JsonValue.getInt, getInt]
  | _ => rfl

theorem parsed_ttl_field (fields : List (String × Json)) :
    (obj fields).parsed.valueInt "ttl" 0 =
      match (obj fields).field "ttl" with
      | none => some 0
      | some ttl => ttl.getInt := by
  have hvalue : (obj fields).parsed.valueInt "ttl" 0 =
      ((obj fields).parsed.find "ttl").elim (some 0) JsonValue.getInt := by
    cases hf : (JsonValue.object (parsedFields fields)).find "ttl" <;>
      simp [parsed, JsonValue.valueInt, hf]
  rw [hvalue, parsed_find]
  cases (obj fields).field "ttl" with
  | none => rfl
  | some ttl => exact ttl.parsed_getInt

end Json

/-- An entry of a transfer as the node stores it. -/
def entryBytes (e : String × String × UInt32) : Bytes × Bytes × UInt32 :=
  (text e.1, text e.2.1, e.2.2)

/-- What a snapshot writes is the text that the model over texts writes. -/
theorem snapshotEntry_parsed (e : String × String × UInt32) :
    snapshotEntry (entryBytes e) = (entryJson e).parsed := by
  have hlt : e.2.2.toNat < 4294967296 := UInt32.toNat_lt_size e.2.2
  have hsmall : -2 ^ 63 ≤ (e.2.2.toNat : Int) ∧ (e.2.2.toNat : Int) < 2 ^ 64 := by omega
  rw [snapshotEntry, entryBytes, entryJson]
  simp only [Json.parsed, Json.parsedFields]
  rw [if_pos hsmall]

/-- A bulk load of the gateway reaches the cache as the entries that the gateway forwards. -/
theorem parseLoad_forwarded (entries : List (String × String × UInt32)) :
    parseLoad (some (Json.obj [("entries", .arr (entries.map entryJson))]).document) =
      .ok (entries.map entryBytes) := by
  have hload : loadEntries (Json.obj [("entries", .arr (entries.map entryJson))]).parsed =
      some (entries.map entryBytes) := by
    have hindex : (Json.obj [("entries", .arr (entries.map entryJson))]).parsed.index "entries" =
        some (.array (entries.map fun e => (entryJson e).parsed)) := by
      simp [Json.parsed, Json.parsedFields, Json.parsedItems_eq, JsonValue.index,
        JsonValue.find_cons]
    have hentries : entries.map (fun e => (entryJson e).parsed) =
        (entries.map entryBytes).map snapshotEntry := by
      rw [List.map_map]
      exact List.map_congr_left fun e _ => (snapshotEntry_parsed e).symm
    rw [loadEntries, hindex, hentries]
    exact mapM_map_of_inverse fun e _ => load_snapshotEntry e
  rw [parseLoad]
  dsimp only [Json.document]
  rw [hload]

end SelfHealingCache
