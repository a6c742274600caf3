import SelfHealingCache.LruRefinement

namespace SelfHealingCache

variable {κ ν : Type} [DecidableEq κ]

namespace LRUCache

/-- The representation invariant, `visited` being the nodes between the sentinels. -/
structure WellFormed (s : LRUCache κ ν) (visited : List Nat) : Prop where
  forward : (Ptr.head :: (visited.map .node ++ [.tail])).IsChain fun p q =>
    s.memory.nextOf p = some q
  mirror : ∀ p ∈ Ptr.head :: (visited.map .node ++ [.tail]),
    ∀ q ∈ Ptr.head :: (visited.map .node ++ [.tail]),
      s.memory.nextOf p = some q ↔ s.memory.prevOf q = some p
  distinct : visited.Nodup
  allocated : ∀ a ∈ visited, s.memory.entryOf a ≠ none
  keys_distinct : ∀ a ∈ visited, ∀ b ∈ visited, ∀ e e', s.memory.entryOf a = some e →
    s.memory.entryOf b = some e' → e.key = e'.key → a = b
  domain : ∀ k, k ∈ s.map_.keys ↔ ∃ a ∈ visited, ∃ e, s.memory.entryOf a = some e ∧ e.key = k
  index : ∀ k a, s.map_.get? k = some a →
    a ∈ visited ∧ ∃ e, s.memory.entryOf a = some e ∧ e.key = k
  size_le : s.map_.size ≤ s.capacity_

end LRUCache

theorem Refines.wellFormed {s : LRUCache κ ν} {c : LruStore κ ν} (h : Refines s c) :
    ∃ visited, s.WellFormed visited := by
  obtain ⟨nodes, hrep, hparts⟩ := h
  obtain ⟨hcap, _, hentries, _⟩ := LruStore.parts_eq.mp hparts
  have hread : ∀ a ∈ nodes.map Prod.fst, ∀ e, s.memory.entryOf a = some e → (a, e) ∈ nodes := by
    intro a ha e he
    obtain ⟨p, hp, rfl⟩ := List.mem_map.mp ha
    have hcell := hrep.cells p hp
    rw [he] at hcell
    cases Option.some.inj hcell
    exact hp
  refine ⟨nodes.map Prod.fst, ?_, hrep.shape.mirror, hrep.shape.nodup, hrep.shape.allocated,
    ?_, ?_, ?_, ?_⟩
  · exact hrep.shape.linked.imp fun p q hpq => hpq.1
  · intro a ha b hb e e' he he' hkey
    have heq := List.inj_on_of_nodup_map hrep.keys_nodup (hread a ha e he) (hread b hb e' he') hkey
    exact congrArg Prod.fst heq
  · intro k
    rw [Dict.mem_keys_iff]
    constructor
    · intro hk
      obtain ⟨a, ha⟩ := hk
      obtain ⟨e, he, hkey⟩ := (hrep.index k a).mp ha
      exact ⟨a, List.mem_map_of_mem he, e, hrep.cells _ he, hkey⟩
    · intro hk
      obtain ⟨a, ha, e, he, hkey⟩ := hk
      exact ⟨a, (hrep.index k a).mpr ⟨e, hread a ha e he, hkey⟩⟩
  · intro k a ha
    obtain ⟨e, he, hkey⟩ := (hrep.index k a).mp ha
    exact ⟨List.mem_map_of_mem he, e, hrep.cells _ he, hkey⟩
  · have hlen := c.length_le
    rw [hentries, List.length_map, hcap] at hlen
    rw [hrep.size_eq]
    exact hlen

namespace LruStore

/-- Capacity and default TTL never change. -/
def SameConfig (c c' : LruStore κ ν) : Prop :=
  c'.capacity = c.capacity ∧ c'.defaultTtlS = c.defaultTtlS

omit [DecidableEq κ] in
theorem SameConfig.trans {c c' c'' : LruStore κ ν} (h : SameConfig c c') (h' : SameConfig c' c'') :
    SameConfig c c'' := ⟨h'.1.trans h.1, h'.2.trans h.2⟩

omit [DecidableEq κ] in
theorem sameConfig_of_parts {c c' : LruStore κ ν} {entries : List (CacheEntry κ ν)}
    {metrics : CacheMetrics} (h : c'.parts = (c.capacity, c.defaultTtlS, entries, metrics)) :
    SameConfig c c' := ⟨congrArg Prod.fst h, congrArg (fun p => p.2.1) h⟩

theorem get_sameConfig (c : LruStore κ ν) (now : TimePoint) (key : κ) :
    SameConfig c (c.get now key).1 := by
  cases h : c.find? key with
  | none => exact sameConfig_of_parts (get_missing h now).2
  | some e =>
    cases hexp : isExpired now e with
    | true => exact sameConfig_of_parts (get_expired h hexp).2
    | false => exact sameConfig_of_parts (get_hit h hexp).2

theorem put_sameConfig (c : LruStore κ ν) (now : TimePoint) (key : κ) (value : ν)
    (ttlSeconds : UInt32) : SameConfig c (c.put now key value ttlSeconds) := by
  cases h : c.find? key with
  | none => exact sameConfig_of_parts (put_insert h now value ttlSeconds)
  | some e => exact sameConfig_of_parts (put_update h now value ttlSeconds)

theorem remove_sameConfig (c : LruStore κ ν) (key : κ) : SameConfig c (c.remove key).1 := by
  cases h : c.find? key with
  | none =>
    rw [remove_missing h]
    exact ⟨rfl, rfl⟩
  | some e => exact sameConfig_of_parts (remove_found h).2

omit [DecidableEq κ] in
theorem purgeExpired_sameConfig (c : LruStore κ ν) (now : Nat → TimePoint) :
    SameConfig c (c.purgeExpired now).1 := ⟨rfl, rfl⟩

theorem bulkLoad_sameConfig (entries : List (κ × ν × UInt32)) (now : Nat → TimePoint)
    (c : LruStore κ ν) : SameConfig c (bulkLoad now entries c) := by
  induction entries generalizing now c with
  | nil => exact ⟨rfl, rfl⟩
  | cons entry entries ih =>
    obtain ⟨key, value, ttl⟩ := entry
    exact (put_sameConfig c (now 0) key value ttl).trans (ih _ _)

theorem step_sameConfig (s : LruStore κ ν × List (Happening κ ν)) (op : Op κ ν) :
    SameConfig s.1 (step s op).1 := by
  cases op with
  | get now key => exact get_sameConfig s.1 now key
  | put now key value ttlSeconds => exact put_sameConfig s.1 now key value ttlSeconds
  | remove key => exact remove_sameConfig s.1 key
  | purgeExpired now => exact purgeExpired_sameConfig s.1 now
  | bulkLoad now entries => exact bulkLoad_sameConfig entries now s.1
  | clear => exact ⟨rfl, rfl⟩

theorem run_sameConfig (c : LruStore κ ν) (ops : List (Op κ ν)) : SameConfig c (c.run ops).1 := by
  have hstep : ∀ (s : LruStore κ ν × List (Happening κ ν)) (op : Op κ ν),
      SameConfig c s.1 → SameConfig c (step s op).1 :=
    fun s op hs => hs.trans (step_sameConfig s op)
  have hstart : SameConfig c ((c, []) : LruStore κ ν × List (Happening κ ν)).1 := ⟨rfl, rfl⟩
  exact foldl_invariant hstep ops hstart

end LruStore

namespace LRUCache

/-- After every sequence of calls the list and the map agree, and no call has
followed a null or dangling pointer. -/
theorem representation_invariant (capacity : Nat) (defaultTtlS : UInt32) (hcap : 0 < capacity)
    (ops : List (Op κ ν)) : ∃ start s history,
      construct capacity defaultTtlS = .ok start ∧ start.run ops = some (s, history) ∧
      s.capacity_ = capacity ∧ ∃ visited, s.WellFormed visited := by
  obtain ⟨start, hstart, hrefines⟩ := refines_construct (κ := κ) (ν := ν) defaultTtlS hcap
  obtain ⟨s, hrun, hs⟩ := run_refines hrefines ops
  have hconfig := LruStore.run_sameConfig (LruStore.init capacity defaultTtlS hcap) ops
  obtain ⟨nodes, _, hparts⟩ := id hs
  have hcapacity := congrArg Prod.fst hparts
  exact ⟨start, s, _, hstart, hrun, hcapacity.symm.trans hconfig.1, hs.wellFormed⟩

theorem representation_invariant_small : ∃ start s history,
    construct (κ := Nat) (ν := Nat) 1 0 = .ok start ∧
    start.run [.put 0 1 5 0, .put 1 2 6 3, .get 4 2, .purgeExpired fun _ => 9] =
      some (s, history) ∧
    s.capacity_ = 1 ∧ ∃ visited, s.WellFormed visited :=
  representation_invariant 1 0 (by decide) _

end LRUCache

end SelfHealingCache
