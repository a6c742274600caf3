import SelfHealingCache.PercentEncoding
import Mathlib.Data.Rat.Floor

namespace SelfHealingCache

/-- A C++ `std::string`. -/
abbrev Bytes := List UInt8

/-- The bytes of a text. -/
def text (s : String) : Bytes := utf8 s.toList

/-- The bytes are valid UTF-8. -/
def IsText (b : Bytes) : Prop := b.toByteArray.IsValidUTF8

instance (b : Bytes) : Decidable (IsText b) := inferInstanceAs (Decidable b.toByteArray.IsValidUTF8)

/-- A decoder that refuses invalid UTF-8. -/
def readText (b : Bytes) : Option String := String.fromUTF8? b.toByteArray

/-- The values of `nlohmann::json`. -/
inductive JsonValue
  | null
  | boolean (b : Bool)
  | numberInteger (n : Int)
  | numberFloat (x : ℚ)
  | string (s : Bytes)
  | array (items : List JsonValue)
  | object (fields : List (Bytes × JsonValue))

namespace JsonValue

mutual

/-- All strings in the value are valid UTF-8. -/
def valid : JsonValue → Bool
  | .null | .boolean _ | .numberInteger _ | .numberFloat _ => true
  | .string s => IsText s
  | .array items => validItems items
  | .object fields => validFields fields

def validItems : List JsonValue → Bool
  | [] => true
  | j :: items => j.valid && validItems items

def validFields : List (Bytes × JsonValue) → Bool
  | [] => true
  | (name, j) :: fields => decide (IsText name) && j.valid && validFields fields

end

/-- `find`. -/
def find (j : JsonValue) (name : String) : Option JsonValue :=
  match j with
  | .object fields => (fields.find? fun p => p.1 = text name).map Prod.snd
  | _ => none

def contains (j : JsonValue) (name : String) : Bool := (j.find name).isSome

/-- `j[name]` on a value that may be changed: a missing field is created as `null`, and
`null` is made an object first; on another value it throws. -/
def index (j : JsonValue) (name : String) : Option JsonValue :=
  match j with
  | .null => some .null
  | .object _ => some ((j.find name).getD .null)
  | _ => none

/-- What a range-for visits: nothing for `null`, another scalar itself. -/
def elements : JsonValue → List JsonValue
  | .null => []
  | .array items => items
  | .object fields => fields.map Prod.snd
  | j => [j]

/-- `get<std::string>()`. -/
def getString : JsonValue → Option Bytes
  | .string s => some s
  | _ => none

/-- `get<int>()`; a float outside the range of `int` is cut like an integer. -/
def getInt : JsonValue → Option Int32
  | .numberInteger n => some (Int32.ofInt n)
  | .numberFloat x => some (Int32.ofInt (x.num.tdiv x.den))
  | .boolean b => some (if b then 1 else 0)
  | _ => none

/-- `value(name, default_value)` for an `int`. -/
def valueInt (j : JsonValue) (name : String) (defaultValue : Int32) : Option Int32 :=
  match j with
  | .object _ =>
    match j.find name with
    | none => some defaultValue
    | some found => found.getInt
  | _ => none

end JsonValue

/-- A JSON text: what `parse` returns and `dump` writes, all of it valid UTF-8. -/
structure Document where
  json : JsonValue
  valid : json.valid = true

/-- `dump()`; invalid UTF-8 throws. -/
def JsonValue.dump (j : JsonValue) : Option Document :=
  if h : j.valid = true then some ⟨j, h⟩ else none

section lists

variable {α β : Type}

/-- What a loop that may fail collects comes from the elements visited. -/
theorem mem_of_mapM {f : α → Option β} {xs : List α} {ys : List β} (h : xs.mapM f = some ys)
    {y : β} (hy : y ∈ ys) : ∃ x ∈ xs, f x = some y := by
  induction xs generalizing ys with
  | nil =>
    cases Option.some.inj h
    cases hy
  | cons x xs ih =>
    rw [List.mapM_cons] at h
    obtain ⟨z, hz, h⟩ := Option.bind_eq_some_iff.mp h
    obtain ⟨zs, hzs, h⟩ := Option.bind_eq_some_iff.mp h
    cases Option.some.inj h
    rcases List.mem_cons.mp hy with rfl | hmem
    · exact ⟨x, List.mem_cons_self, hz⟩
    · obtain ⟨x', hx', hf⟩ := ih hzs hmem
      exact ⟨x', List.mem_cons_of_mem x hx', hf⟩

/-- A decoder that inverts an encoder on some elements does so on lists of them. -/
theorem mapM_map_of_inverse {f : β → Option α} {g : α → β} {xs : List α}
    (h : ∀ x ∈ xs, f (g x) = some x) : (xs.map g).mapM f = some xs := by
  induction xs with
  | nil => rfl
  | cons x xs ih =>
    obtain ⟨hx, hxs⟩ := List.forall_mem_cons.mp h
    simp [hx, ih hxs]

end lists

section texts

theorem text_bytes (s : String) : (text s).toByteArray = s.toByteArray := String.utf8Encode_toList

theorem text_inj {s t : String} : text s = text t ↔ s = t :=
  ⟨fun h => utf8_injective h, congrArg text⟩

theorem isText_text (s : String) : IsText (text s) := ⟨s.toList, rfl⟩

/-- The decoder inverts the encoder and accepts nothing else. -/
theorem readText_eq_some {b : Bytes} {s : String} : readText b = some s ↔ text s = b := by
  unfold readText String.fromUTF8?
  rw [← List.toByteArray_inj, text_bytes]
  constructor
  · intro h
    obtain ⟨hvalid, hs⟩ := Option.dite_none_right_eq_some.mp h
    cases Option.some.inj hs
    rfl
  · intro h
    have hvalid : b.toByteArray.IsValidUTF8 := h ▸ s.isValidUTF8
    rw [dif_pos hvalid]
    refine congrArg some (String.toByteArray_inj.mp ?_)
    exact h.symm

@[simp] theorem readText_text (s : String) : readText (text s) = some s :=
  readText_eq_some.mpr rfl

theorem isText_iff {b : Bytes} : IsText b ↔ ∃ s, text s = b := by
  constructor
  · intro h
    have hvalid : b.toByteArray.IsValidUTF8 := h
    have hread : (readText b).isSome = true := by simp [readText, String.fromUTF8?, hvalid]
    obtain ⟨s, hs⟩ := Option.isSome_iff_exists.mp hread
    exact ⟨s, readText_eq_some.mp hs⟩
  · intro ⟨s, hs⟩
    exact hs ▸ isText_text s

end texts

namespace JsonValue

@[simp] theorem valid_null : null.valid = true := rfl

@[simp] theorem valid_integer (n : Int) : (numberInteger n).valid = true := rfl

@[simp] theorem valid_string {s : Bytes} : (string s).valid = true ↔ IsText s :=
  decide_eq_true_iff

@[simp] theorem valid_array {items : List JsonValue} :
    (array items).valid = true ↔ ∀ j ∈ items, j.valid = true := by
  change validItems items = true ↔ _
  induction items with
  | nil => simp [validItems]
  | cons j items ih => simp [validItems, ih]

@[simp] theorem valid_object {fields : List (Bytes × JsonValue)} :
    (object fields).valid = true ↔ ∀ p ∈ fields, IsText p.1 ∧ p.2.valid = true := by
  change validFields fields = true ↔ _
  induction fields with
  | nil => simp [validFields]
  | cons p fields ih => simp [validFields, ih]

/-- What is found in a valid value is valid. -/
theorem valid_find {j found : JsonValue} {name : String} (h : j.valid = true)
    (hf : j.find name = some found) : found.valid = true := by
  cases j with
  | object fields =>
    obtain ⟨p, hp, rfl⟩ := Option.map_eq_some_iff.mp hf
    exact (valid_object.mp h p (List.mem_of_find?_eq_some hp)).2
  | _ => cases hf

theorem valid_index {j found : JsonValue} {name : String} (h : j.valid = true)
    (hf : j.index name = some found) : found.valid = true := by
  cases j with
  | null =>
    cases Option.some.inj hf
    rfl
  | object fields =>
    cases Option.some.inj hf
    cases hfind : (object fields).find name with
    | none => rfl
    | some x => exact valid_find h hfind
  | _ => cases hf

theorem valid_elements {j x : JsonValue} (h : j.valid = true) (hx : x ∈ j.elements) :
    x.valid = true := by
  cases j with
  | null => cases hx
  | array items => exact valid_array.mp h x hx
  | object fields =>
    obtain ⟨p, hp, rfl⟩ := List.mem_map.mp hx
    exact (valid_object.mp h p hp).2
  | _ =>
    cases List.mem_singleton.mp hx
    exact h

theorem getString_eq_some {j : JsonValue} {s : Bytes} :
    j.getString = some s ↔ j = string s := by
  cases j <;> simp [getString]

theorem dump_of_valid {j : JsonValue} (h : j.valid = true) : j.dump = some ⟨j, h⟩ := dif_pos h

theorem dump_of_invalid {j : JsonValue} (h : ¬j.valid = true) : j.dump = none := dif_neg h

/-- Looking up one of the fields written. -/
theorem find_cons (name name' : String) (j : JsonValue) (fields : List (Bytes × JsonValue)) :
    (object ((text name, j) :: fields)).find name' =
      if name = name' then some j else (object fields).find name' := by
  by_cases h : name = name'
  · simp [find, h]
  · simp [find, h, text_inj]

end JsonValue

end SelfHealingCache
