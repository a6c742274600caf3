import SelfHealingCache.CacheTransfer

namespace SelfHealingCache

variable {κ ν : Type} [DecidableEq κ]

/-- Keys and values from the most recently used entry on, which `head_.next` points to. -/
def LRUCache.recencyLoop : Nat → Memory κ ν → Option Ptr → Option (List (κ × ν))
  | 0, _, _ => none
  | fuel + 1, m, curr =>
    if curr = some .tail then some []
    else do
      let entry ← m.entry curr
      let links ← m.load curr
      let result ← recencyLoop fuel m links.next
      some ((entry.key, entry.value) :: result)

def LRUCache.recency (c : LRUCache κ ν) : Option (List (κ × ν)) :=
  recencyLoop (c.memory.nextAddr + 1) c.memory c.memory.head_.next

/-- Keys and values by recency. -/
def LruStore.recency (c : LruStore κ ν) : List (κ × ν) :=
  c.entries.map fun e => (e.key, e.value)

theorem recencyLoop_spec (rest : List (Nat × CacheEntry κ ν))
    {kept : List (Nat × CacheEntry κ ν)} {m : Memory κ ν} {map_ : Dict κ Nat}
    (h : Represents m map_ (kept ++ rest)) {fuel : Nat} (hfuel : rest.length < fuel) :
    LRUCache.recencyLoop fuel m (some (firstPtr (rest.map Prod.fst))) =
      some (rest.map fun p => (p.2.key, p.2.value)) := by
  induction rest generalizing kept fuel with
  | nil =>
    obtain ⟨fuel, rfl⟩ : ∃ n, fuel = n + 1 := ⟨fuel - 1, by simp at hfuel; omega⟩
    simp [LRUCache.recencyLoop]
  | cons p rest ih =>
    obtain ⟨a, e⟩ := p
    obtain ⟨fuel, rfl⟩ : ∃ n, fuel = n + 1 := ⟨fuel - 1, by simp at hfuel; omega⟩
    have hfuel' : rest.length < fuel := by simpa using hfuel
    have hentry := h.entry_eq
    have hshape := h.shape
    rw [List.map_append, List.map_cons] at hshape
    have hvalid : m.Valid (.node a) := Memory.valid_node_iff.mpr (hshape.allocated a (by simp))
    have hload := Memory.load_spec hvalid
    rw [hshape.node_next] at hload
    have hrep : Represents m map_ ((kept ++ [(a, e)]) ++ rest) := by simpa using h
    have hrest := ih hrep hfuel'
    simp [LRUCache.recencyLoop, hentry, hload, hrest]

theorem recency_refines {s : LRUCache κ ν} {c : LruStore κ ν} (h : Refines s c) :
    s.recency = some c.recency := by
  obtain ⟨nodes, hrep, hparts⟩ := h
  have hentries := (LruStore.parts_eq.mp hparts).2.2.1
  have hloop := recencyLoop_spec nodes (by simpa using hrep : Represents _ _ ([] ++ nodes))
    (Nat.lt_succ_of_le hrep.length_le_nextAddr)
  rw [LRUCache.recency, hrep.shape.first_node, hloop, LruStore.recency, hentries, List.map_map]
  rfl

/-- What lies beyond the window need not be kept. -/
theorem take_append_take {α : Type} (xs ys : List α) (n : Nat) :
    (xs ++ ys.take n).take n = (xs ++ ys).take n := by
  rw [List.take_append, List.take_append, List.take_take]
  congr 2
  omega

/-- A list of distinct elements ends like it begins only when it has at most one. -/
theorem take_reverse_eq_iff {α : Type} {xs : List α} (h : xs.Nodup) {n : Nat} (hn : 0 < n) :
    xs.reverse.take n = xs.take n ↔ xs.length ≤ 1 := by
  constructor
  · intro heq
    by_contra hlong
    have hfirst : (xs.reverse.take n)[0]? = (xs.take n)[0]? := by rw [heq]
    rw [List.getElem?_take_of_lt hn, List.getElem?_take_of_lt hn,
      List.getElem?_reverse (by omega)] at hfirst
    have hlast : xs.length - 1 - 0 < xs.length := by omega
    have hsame := (List.getElem?_inj hlast h).mp hfirst
    omega
  · intro hshort
    have hrev : xs.reverse = xs := by
      cases xs with
      | nil => rfl
      | cons x xs =>
        have hnil : xs = [] := List.length_eq_zero_iff.mp (by simpa using hshort)
        rw [hnil, List.reverse_singleton]
    rw [hrev]

namespace LruStore

/-- The put of a new key goes to the front and pushes out what no longer fits. -/
theorem put_new_entries {c : LruStore κ ν} {key : κ} (h : c.find? key = none) (now : TimePoint)
    (value : ν) (ttl : UInt32) :
    (c.put now key value ttl).entries =
      ((⟨key, value, putExpiry now c.defaultTtlS ttl⟩ : CacheEntry κ ν) ::
        c.entries).take c.capacity := by
  have hentries := put_insert_entries h now value ttl
  have hpos := c.capacity_pos
  have hle := c.length_le
  obtain ⟨room, hroom⟩ : ∃ room, c.capacity = room + 1 := ⟨c.capacity - 1, by omega⟩
  rw [hentries, hroom, List.take_succ_cons, makeRoom]
  by_cases hfull : c.capacity ≤ c.entries.length
  · have hlast : c.entries.length - 1 = room := by omega
    rw [if_pos hfull, List.dropLast_eq_take, hlast]
  · rw [if_neg hfull, List.take_of_length_le (by omega)]

/-- A load of distinct new keys ends up in front, the last one loaded first. -/
theorem bulkLoad_recency (entries : List (κ × ν × UInt32)) {c : LruStore κ ν}
    (hn : (entries.map Prod.fst).Nodup) (hnew : ∀ p ∈ entries, c.find? p.1 = none)
    (now : Nat → TimePoint) :
    (bulkLoad now entries c).recency =
      ((entries.map fun p => (p.1, p.2.1)).reverse ++ c.recency).take c.capacity := by
  induction entries generalizing c now with
  | nil =>
    have hle : c.recency.length ≤ c.capacity := by
      rw [recency, List.length_map]
      exact c.length_le
    rw [bulkLoad, List.map_nil, List.reverse_nil, List.nil_append, List.take_of_length_le hle]
  | cons p entries ih =>
    obtain ⟨key, value, ttl⟩ := p
    obtain ⟨hfresh, hn⟩ := List.nodup_cons.mp hn
    have hput := put_new_entries (hnew _ List.mem_cons_self) (now 0) value ttl
    have hcap : (c.put (now 0) key value ttl).capacity = c.capacity :=
      (put_sameConfig c (now 0) key value ttl).1
    have hnew' : ∀ p ∈ entries, (c.put (now 0) key value ttl).find? p.1 = none := by
      intro p hp
      apply find?_eq_none.mpr
      intro e he hkey
      have hne : key ≠ p.1 := by
        intro hkey'
        exact hfresh (List.mem_map.mpr ⟨p, hp, hkey'.symm⟩)
      have hold := put_entries_other c (now 0) value ttl hne e he hkey
      exact find?_eq_none.mp (hnew p (List.mem_cons_of_mem _ hp)) e hold hkey
    rw [bulkLoad, ih hn hnew', hcap, recency, hput, List.map_take, take_append_take]
    simp [recency]

omit [DecidableEq κ] in
/-- Without deadlines a snapshot shows every entry, most recent first. -/
theorem snapshot_recency {c : LruStore κ ν} (h : ∀ e ∈ c.entries, e.expiresAt = none)
    (start : TimePoint) (now : Nat → TimePoint) :
    ((c.snapshot start now).map fun p => (p.1, p.2.1)) = c.recency := by
  have hall : ∀ (entries : List (CacheEntry κ ν)) now,
      (∀ e ∈ entries, e.expiresAt = none) → unexpired now entries = entries := by
    intro entries
    induction entries with
    | nil => exact fun _ _ => rfl
    | cons e entries ih =>
      intro now hnone
      have hkept : isExpired (now 0) e = false := by
        rw [isExpired, hnone e List.mem_cons_self]
      rw [unexpired, hkept, if_neg Bool.false_ne_true,
        ih _ fun x hx => hnone x (List.mem_cons_of_mem _ hx)]
  rw [snapshot, hall c.entries now h, recency, List.map_map]
  rfl

omit [DecidableEq κ] in
theorem recency_nodup (c : LruStore κ ν) : c.recency.Nodup := by
  apply List.Nodup.of_map Prod.fst
  rw [recency, List.map_map]
  exact c.keys_nodup

theorem recency_eq_nil {c : LruStore κ ν} (h : ∀ key, c.find? key = none) : c.recency = [] := by
  rw [recency, List.map_eq_nil_iff, List.eq_nil_iff_forall_not_mem]
  intro e he
  exact find?_eq_none.mp (h e.key) e he rfl

/-- A snapshot loaded into an empty store. -/
theorem migrated_recency {c c' : LruStore κ ν} (hnone : ∀ e ∈ c.entries, e.expiresAt = none)
    (hmissing : ∀ key, c'.find? key = none) (start : TimePoint) (now now' : Nat → TimePoint) :
    (bulkLoad now' (c.snapshot start now) c').recency = c.recency.reverse.take c'.capacity := by
  have hloaded := bulkLoad_recency (c.snapshot start now) (c.snapshot_keys_nodup start now)
    (fun p _ => hmissing p.1) now'
  rw [snapshot_recency hnone, recency_eq_nil hmissing, List.append_nil] at hloaded
  exact hloaded

end LruStore

namespace LRUCache

/-- A snapshot loaded into an empty cache keeps the recency order, cut off at the capacity, exactly
if the source holds at most one entry: the load replays the entries from the most recently used
one on, which reverses their order. -/
theorem migrated_recency_iff (sourceCapacity targetCapacity : Nat)
    (sourceTtlS targetTtlS : UInt32) {source₀ source target₀ target target' : LRUCache κ ν}
    {sourceOps targetOps : List (Op κ ν)} {sourceHistory targetHistory : List (Happening κ ν)}
    {start : TimePoint} {now now' : Nat → TimePoint} {snap : List (κ × ν × UInt32)}
    (hsource₀ : construct sourceCapacity sourceTtlS = .ok source₀)
    (hsource : source₀.run sourceOps = some (source, sourceHistory))
    (htarget₀ : construct targetCapacity targetTtlS = .ok target₀)
    (htarget : target₀.run targetOps = some (target, targetHistory))
    (hlasting : ∀ key e, source.entryFor key = some e → e.expiresAt = none)
    (hempty : target.map_.keys = [])
    (hsnap : source.snapshot start now = some snap)
    (hload : bulkLoad now' snap target = some target') :
    ∃ before after, source.recency = some before ∧ target'.recency = some after ∧
      after = before.reverse.take targetCapacity ∧
      (after = before.take targetCapacity ↔ before.length ≤ 1) := by
  obtain ⟨hcap, hinit⟩ := construct_ok hsource₀
  obtain ⟨_, hrun, hs⟩ := run_refines hinit sourceOps
  rw [hsource] at hrun
  cases hrun
  obtain ⟨hcap', hinit'⟩ := construct_ok htarget₀
  obtain ⟨_, hrun', ht⟩ := run_refines hinit' targetOps
  rw [htarget] at hrun'
  cases hrun'
  have hconfig := LruStore.run_sameConfig (LruStore.init targetCapacity targetTtlS hcap') targetOps
  generalize ((LruStore.init sourceCapacity sourceTtlS hcap).run sourceOps).1 = c at hs
  generalize ((LruStore.init targetCapacity targetTtlS hcap').run targetOps).1 = c' at ht hconfig
  rw [snapshot_refines hs] at hsnap
  cases Option.some.inj hsnap
  obtain ⟨_, hload', ht'⟩ := bulkLoad_refines (c.snapshot start now) ht now'
  rw [hload] at hload'
  cases Option.some.inj hload'
  have hnone : ∀ e ∈ c.entries, e.expiresAt = none := by
    intro e he
    refine hlasting e.key e ?_
    rw [hs.entryFor]
    exact LruStore.find?_eq_some.mpr ⟨he, rfl⟩
  have hmissing : ∀ key, c'.find? key = none := by
    intro key
    rw [← ht.entryFor, entryFor, Dict.get?_eq_none.mpr (by rw [hempty]; exact List.not_mem_nil),
      Option.bind_none]
  have hloaded := LruStore.migrated_recency hnone hmissing start now now'
  rw [hconfig.1] at hloaded
  refine ⟨_, _, recency_refines hs, recency_refines ht', hloaded, ?_⟩
  rw [hloaded]
  exact take_reverse_eq_iff c.recency_nodup hcap'

/-- Of two entries the target with room for one keeps the least recently used. -/
theorem migration_keeps_oldest : ∃ (source₀ source target₀ target' : LRUCache String String)
    (snap : List (String × String × UInt32)), construct 2 0 = .ok source₀ ∧
    source₀.run [.put 0 "a" "x" 0, .put 1 "b" "y" 0] =
      some (source, [.put 0 "a" "x" 0, .put 1 "b" "y" 0]) ∧
    construct 1 0 = .ok target₀ ∧ source.snapshot 2 (fun _ => 2) = some snap ∧
    bulkLoad (fun _ => 3) snap target₀ = some target' ∧
    source.recency = some [("b", "y"), ("a", "x")] ∧ target'.recency = some [("a", "x")] :=
  ⟨_, _, _, _, _, rfl, rfl, rfl, rfl, rfl, rfl, rfl⟩

theorem migrated_recency_two : ∃ (source₀ source target target' : LRUCache String String)
    (history : List (Happening String String)) (snap : List (String × String × UInt32)),
    construct 2 0 = .ok source₀ ∧
    source₀.run [.put 0 "a" "x" 0, .put 1 "b" "y" 0] = some (source, history) ∧
    construct 2 0 = .ok target ∧ source.snapshot 2 (fun _ => 2) = some snap ∧
    bulkLoad (fun _ => 3) snap target = some target' ∧
    ∃ before after, source.recency = some before ∧ target'.recency = some after ∧
      after = before.reverse.take 2 ∧ (after = before.take 2 ↔ before.length ≤ 1) := by
  obtain ⟨source₀, hsource₀, hinit⟩ :=
    refines_construct (κ := String) (ν := String) 0 (show 0 < 2 by decide)
  obtain ⟨source, hsource, hs⟩ := run_refines hinit [.put 0 "a" "x" 0, .put 1 "b" "y" 0]
  obtain ⟨target', hload, _⟩ := bulkLoad_refines
    ((LruStore.init (κ := String) (ν := String) 2 0 (by decide)).run
      [.put 0 "a" "x" 0, .put 1 "b" "y" 0] |>.1.snapshot 2 fun _ => 2) hinit fun _ => 3
  have hlasting : ∀ key e, source.entryFor key = some e → e.expiresAt = none := by
    intro key e he
    rw [hs.entryFor] at he
    have hm := (LruStore.find?_eq_some.mp he).1
    have hentries : ((LruStore.init (κ := String) (ν := String) 2 0 (by decide)).run
        [.put 0 "a" "x" 0, .put 1 "b" "y" 0]).1.entries = [⟨"b", "y", none⟩, ⟨"a", "x", none⟩] := rfl
    rw [hentries] at hm
    simp only [List.mem_cons, List.not_mem_nil, or_false] at hm
    rcases hm with rfl | rfl <;> rfl
  have hempty : source₀.map_.keys = [] := by
    cases hsource₀
    rfl
  have hsnap := snapshot_refines hs 2 fun _ => 2
  exact ⟨source₀, source, source₀, target', _, _, hsource₀, hsource, hsource₀, hsnap, hload,
    migrated_recency_iff 2 2 0 0 hsource₀ hsource hsource₀
      (show source₀.run [] = some (source₀, []) from rfl) hlasting hempty hsnap hload⟩

end LRUCache

end SelfHealingCache
