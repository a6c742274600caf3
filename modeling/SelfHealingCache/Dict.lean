import Mathlib.Data.List.Nodup
import Mathlib.Data.List.Perm.Basic
import Mathlib.Tactic.Common

namespace SelfHealingCache

/-- An insertion-ordered map with unique keys: assignment to a present key
keeps its position, assignment to a new key appends it. -/
@[ext] structure Dict (κ ν : Type) where
  items : List (κ × ν)
  nodup : (items.map Prod.fst).Nodup

namespace Dict

variable {κ ν : Type}

instance : EmptyCollection (Dict κ ν) := ⟨⟨[], List.nodup_nil⟩⟩

def keys (d : Dict κ ν) : List κ := d.items.map Prod.fst

def values (d : Dict κ ν) : List ν := d.items.map Prod.snd

def size (d : Dict κ ν) : Nat := d.items.length

theorem keys_nodup (d : Dict κ ν) : d.keys.Nodup := d.nodup

theorem items_nodup (d : Dict κ ν) : d.items.Nodup := List.Nodup.of_map Prod.fst d.nodup

@[simp] theorem items_empty : (∅ : Dict κ ν).items = [] := rfl

@[simp] theorem keys_empty : (∅ : Dict κ ν).keys = [] := rfl

variable [DecidableEq κ]

def get? (d : Dict κ ν) (k : κ) : Option ν :=
  (d.items.find? fun p => p.1 = k).map Prod.snd

/-- The assignment loop over the raw items. -/
def assign (k : κ) (v : ν) : List (κ × ν) → List (κ × ν)
  | [] => [(k, v)]
  | p :: ps => if p.1 = k then (k, v) :: ps else p :: assign k v ps

theorem mem_keys_assign {k x : κ} {v : ν} (ps : List (κ × ν)) :
    x ∈ (assign k v ps).map Prod.fst ↔ x = k ∨ x ∈ ps.map Prod.fst := by
  induction ps with
  | nil => simp [assign]
  | cons p ps ih =>
    by_cases hp : p.1 = k
    · rw [assign, if_pos hp, List.map_cons, List.map_cons, List.mem_cons, List.mem_cons, hp]
      exact ⟨fun hx => hx.elim Or.inl (Or.inr ∘ Or.inr), fun hx => hx.elim Or.inl id⟩
    · rw [assign, if_neg hp, List.map_cons, List.map_cons, List.mem_cons, List.mem_cons, ih]
      exact or_left_comm

theorem assign_nodup {k : κ} {v : ν} {ps : List (κ × ν)} (h : (ps.map Prod.fst).Nodup) :
    ((assign k v ps).map Prod.fst).Nodup := by
  induction ps with
  | nil => simp [assign]
  | cons p ps ih =>
    have hp := List.nodup_cons.mp h
    by_cases he : p.1 = k
    · rw [assign, if_pos he]
      simpa [← he] using h
    · rw [assign, if_neg he, List.map_cons, List.nodup_cons, mem_keys_assign]
      exact ⟨fun hm => hm.elim he hp.1, ih hp.2⟩

def set (d : Dict κ ν) (k : κ) (v : ν) : Dict κ ν :=
  ⟨assign k v d.items, assign_nodup d.nodup⟩

def erase (d : Dict κ ν) (k : κ) : Dict κ ν :=
  ⟨d.items.filter fun p => p.1 ≠ k, d.nodup.sublist (List.filter_sublist.map _)⟩

theorem get?_eq_some {d : Dict κ ν} {k : κ} {v : ν} : d.get? k = some v ↔ (k, v) ∈ d.items := by
  constructor
  · intro h
    obtain ⟨p, hp, hv⟩ := Option.map_eq_some_iff.mp h
    have hk : p.1 = k := by simpa using List.find?_some hp
    exact hk ▸ hv ▸ List.mem_of_find?_eq_some hp
  · intro h
    have hs : (d.items.find? fun p => p.1 = k).isSome :=
      List.find?_isSome.mpr ⟨(k, v), h, by simp⟩
    obtain ⟨p, hp⟩ := Option.isSome_iff_exists.mp hs
    have hk : p.1 = k := by simpa using List.find?_some hp
    have he := List.inj_on_of_nodup_map d.nodup (List.mem_of_find?_eq_some hp) h hk
    simp [get?, hp, he]

theorem mem_keys_iff {d : Dict κ ν} {k : κ} : k ∈ d.keys ↔ ∃ v, d.get? k = some v := by
  constructor
  · intro h
    obtain ⟨p, hp, rfl⟩ := List.mem_map.mp h
    exact ⟨p.2, get?_eq_some.mpr hp⟩
  · rintro ⟨v, h⟩
    exact List.mem_map_of_mem (get?_eq_some.mp h)

theorem get?_eq_none {d : Dict κ ν} {k : κ} : d.get? k = none ↔ k ∉ d.keys := by
  rw [mem_keys_iff, Option.eq_none_iff_forall_ne_some]
  exact ⟨fun h ⟨v, hv⟩ => h v hv, fun h v hv => h ⟨v, hv⟩⟩

theorem mem_values_iff {d : Dict κ ν} {v : ν} : v ∈ d.values ↔ ∃ k, d.get? k = some v := by
  constructor
  · intro h
    obtain ⟨p, hp, rfl⟩ := List.mem_map.mp h
    exact ⟨p.1, get?_eq_some.mpr hp⟩
  · rintro ⟨k, h⟩
    exact List.mem_map_of_mem (f := Prod.snd) (get?_eq_some.mp h)

@[simp] theorem get?_empty (k : κ) : (∅ : Dict κ ν).get? k = none := rfl

theorem mem_assign {k : κ} {v : ν} {ps : List (κ × ν)} (h : (ps.map Prod.fst).Nodup)
    {q : κ × ν} : q ∈ assign k v ps ↔ q = (k, v) ∨ q ∈ ps ∧ q.1 ≠ k := by
  induction ps with
  | nil => simp [assign]
  | cons p ps ih =>
    have hp := List.nodup_cons.mp h
    by_cases he : p.1 = k
    · have hne : ∀ r ∈ ps, r.1 ≠ k := fun r hr hk =>
        hp.1 (List.mem_map.mpr ⟨r, hr, hk.trans he.symm⟩)
      rw [assign, if_pos he, List.mem_cons]
      constructor
      · rintro (rfl | hm)
        · exact Or.inl rfl
        · exact Or.inr ⟨List.mem_cons_of_mem p hm, hne q hm⟩
      · rintro (rfl | ⟨hm, hk⟩)
        · exact Or.inl rfl
        · rcases List.mem_cons.mp hm with rfl | hm
          · exact absurd he hk
          · exact Or.inr hm
    · rw [assign, if_neg he, List.mem_cons, ih hp.2]
      constructor
      · rintro (rfl | rfl | ⟨hm, hk⟩)
        · exact Or.inr ⟨by simp, he⟩
        · exact Or.inl rfl
        · exact Or.inr ⟨List.mem_cons_of_mem p hm, hk⟩
      · rintro (rfl | ⟨hm, hk⟩)
        · exact Or.inr (Or.inl rfl)
        · rcases List.mem_cons.mp hm with rfl | hm
          · exact Or.inl rfl
          · exact Or.inr (Or.inr ⟨hm, hk⟩)

theorem get?_set (d : Dict κ ν) (k x : κ) (v : ν) :
    (d.set k v).get? x = if x = k then some v else d.get? x := by
  apply Option.ext
  intro w
  rw [get?_eq_some]
  change (x, w) ∈ assign k v d.items ↔ _
  rw [mem_assign d.nodup]
  by_cases hx : x = k
  · simp [hx, eq_comm]
  · simp [hx, get?_eq_some]

@[simp] theorem get?_set_self (d : Dict κ ν) (k : κ) (v : ν) : (d.set k v).get? k = some v := by
  simp [get?_set]

theorem get?_erase (d : Dict κ ν) (k x : κ) :
    (d.erase k).get? x = if x = k then none else d.get? x := by
  apply Option.ext
  intro w
  rw [get?_eq_some]
  change (x, w) ∈ d.items.filter _ ↔ _
  by_cases hx : x = k
  · simp [hx]
  · simp [hx, get?_eq_some]

theorem get?_foldl_erase (ks : List κ) (d : Dict κ ν) (x : κ) :
    (ks.foldl erase d).get? x = if x ∈ ks then none else d.get? x := by
  induction ks generalizing d with
  | nil => simp
  | cons k ks ih =>
    rw [List.foldl_cons, ih, get?_erase]
    by_cases hx : x = k
    · simp [hx]
    · simp [hx]

/-- `d[k] = f(d[k])` for every key. -/
def updateAll (f : ν → ν) (d : Dict κ ν) : Dict κ ν where
  items := d.items.map fun p => (p.1, f p.2)
  nodup := by
    rw [List.map_map]
    exact d.nodup

theorem get?_updateAll (f : ν → ν) (d : Dict κ ν) (k : κ) :
    (d.updateAll f).get? k = (d.get? k).map f := by
  apply Option.ext
  intro v
  rw [get?_eq_some, Option.map_eq_some_iff]
  constructor
  · intro h
    obtain ⟨p, hp, heq⟩ := List.mem_map.mp h
    cases heq
    exact ⟨p.2, get?_eq_some.mpr hp, rfl⟩
  · rintro ⟨w, hw, rfl⟩
    exact List.mem_map.mpr ⟨(k, w), get?_eq_some.mp hw, rfl⟩

theorem mem_items_erase {d : Dict κ ν} {k : κ} {p : κ × ν} :
    p ∈ (d.erase k).items ↔ p ∈ d.items ∧ p.1 ≠ k := by
  change p ∈ d.items.filter _ ↔ _
  rw [List.mem_filter, decide_eq_true_eq]

/-- Storing at a key leaves the rest. -/
theorem items_set_perm (d : Dict κ ν) (k : κ) (v : ν) :
    (d.set k v).items.Perm ((k, v) :: (d.erase k).items) := by
  have hfresh : (k, v) ∉ (d.erase k).items := fun h => (mem_items_erase.mp h).2 rfl
  refine (List.perm_ext_iff_of_nodup (items_nodup _)
    (List.nodup_cons.mpr ⟨hfresh, items_nodup _⟩)).mpr fun p => ?_
  rw [List.mem_cons, mem_items_erase]
  exact mem_assign d.nodup

/-- A key with a value, and the rest. -/
theorem items_perm_of_get? {d : Dict κ ν} {k : κ} {v : ν} (h : d.get? k = some v) :
    d.items.Perm ((k, v) :: (d.erase k).items) := by
  have hfresh : (k, v) ∉ (d.erase k).items := fun hm => (mem_items_erase.mp hm).2 rfl
  refine (List.perm_ext_iff_of_nodup (items_nodup _)
    (List.nodup_cons.mpr ⟨hfresh, items_nodup _⟩)).mpr fun p => ?_
  rw [List.mem_cons, mem_items_erase]
  by_cases hp : p.1 = k
  · constructor
    · intro hm
      have hget : d.get? k = some p.2 := get?_eq_some.mpr (hp ▸ hm)
      rw [h] at hget
      exact Or.inl (Prod.ext hp (Option.some.inj hget).symm)
    · intro hor
      rcases hor with rfl | ⟨_, hne⟩
      · exact get?_eq_some.mp h
      · exact absurd hp hne
  · constructor
    · exact fun hm => Or.inr ⟨hm, hp⟩
    · intro hor
      rcases hor with rfl | ⟨hm, _⟩
      · exact absurd rfl hp
      · exact hm

theorem erase_of_get?_none {d : Dict κ ν} {k : κ} (h : d.get? k = none) :
    (d.erase k).items = d.items := by
  refine List.filter_eq_self.mpr fun p hp => ?_
  have hne : p.1 ≠ k := fun heq => get?_eq_none.mp h (heq ▸ List.mem_map_of_mem hp)
  exact decide_eq_true hne

/-- `if k not in d: d[k] = fresh`, then `d[k]`. -/
def getOrCreate (d : Dict κ ν) (k : κ) (fresh : ν) : Dict κ ν × ν :=
  match d.get? k with
  | some v => (d, v)
  | none => (d.set k fresh, fresh)

theorem getOrCreate_snd (d : Dict κ ν) (k : κ) (fresh : ν) :
    (d.getOrCreate k fresh).2 = (d.get? k).getD fresh := by
  unfold getOrCreate
  split
  next v h => rw [h, Option.getD_some]
  next h => rw [h, Option.getD_none]

/-- Storing at the key looked up hides whether it was created. -/
theorem get?_set_getOrCreate (d : Dict κ ν) (k x : κ) (fresh v : ν) :
    ((d.getOrCreate k fresh).1.set k v).get? x = if x = k then some v else d.get? x := by
  rw [get?_set]
  by_cases hx : x = k
  · rw [if_pos hx, if_pos hx]
  · rw [if_neg hx, if_neg hx]
    unfold getOrCreate
    split
    next => rfl
    next => rw [get?_set, if_neg hx]

end Dict

end SelfHealingCache
