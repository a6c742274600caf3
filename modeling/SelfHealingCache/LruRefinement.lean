import SelfHealingCache.LruNodes
import SelfHealingCache.LruStore

namespace SelfHealingCache

variable {κ ν : Type} [DecidableEq κ]

/-- The pointer structure holds the entries of the store in the same order. -/
def Refines (s : LRUCache κ ν) (c : LruStore κ ν) : Prop :=
  ∃ nodes, Represents s.memory s.map_ nodes ∧
    c.parts = (s.capacity_, s.defaultTtlS_, nodes.map Prod.snd, s.metrics_)

theorem refines_construct {capacity : Nat} (defaultTtlS : UInt32) (h : 0 < capacity) :
    ∃ s : LRUCache κ ν, LRUCache.construct capacity defaultTtlS = .ok s ∧
      Refines s (LruStore.init capacity defaultTtlS h) := by
  refine ⟨_, if_neg (by omega), [], represents_init, rfl⟩

theorem construct_ok {capacity : Nat} {defaultTtlS : UInt32} {s : LRUCache κ ν}
    (hs : LRUCache.construct capacity defaultTtlS = .ok s) :
    ∃ h : 0 < capacity, Refines s (LruStore.init capacity defaultTtlS h) := by
  have hcap : 0 < capacity := by
    by_contra hzero
    have h0 : capacity = 0 := by omega
    rw [LRUCache.construct, if_pos h0] at hs
    cases hs
  obtain ⟨s', hs', hrefines⟩ := refines_construct (κ := κ) (ν := ν) defaultTtlS hcap
  rw [hs] at hs'
  cases hs'
  exact ⟨hcap, hrefines⟩

namespace Represents

variable {m : Memory κ ν} {map_ : Dict κ Nat} {nodes before after : List (Nat × CacheEntry κ ν)}
  {c : LruStore κ ν} {a : Nat} {e : CacheEntry κ ν}

theorem store_missing (h : Represents m map_ nodes) (hc : c.entries = nodes.map Prod.snd) {key : κ}
    (hk : map_.get? key = none) : c.find? key = none := by
  apply LruStore.find?_eq_none.mpr
  intro e he
  rw [hc] at he
  obtain ⟨p, hp, rfl⟩ := List.mem_map.mp he
  exact h.missing hk p hp

theorem store_found (h : Represents m map_ (before ++ (a, e) :: after))
    (hc : c.entries = (before ++ (a, e) :: after).map Prod.snd) :
    c.find? e.key = some e ∧ without e.key c.entries = (before ++ after).map Prod.snd := by
  have hother : ∀ x ∈ before.map Prod.snd ++ after.map Prod.snd, x.key ≠ e.key := by
    intro x hx
    rw [← List.map_append] at hx
    obtain ⟨p, hp, rfl⟩ := List.mem_map.mp hx
    exact h.other_key p hp
  have hsplit := without_split hother
  refine ⟨LruStore.find?_eq_some.mpr ⟨by simp [hc], rfl⟩, ?_⟩
  rw [hc, List.map_append, List.map_cons, hsplit, List.map_append]

/-- Reading the entry of a listed node. -/
theorem entry_eq (h : Represents m map_ (before ++ (a, e) :: after)) :
    m.entry (some (.node a)) = some e := h.cells (a, e) (by simp)

end Represents

theorem Refines.mem_keys {s : LRUCache κ ν} {c : LruStore κ ν} (h : Refines s c) {key : κ} :
    key ∈ s.map_.keys ↔ ∃ e ∈ c.entries, e.key = key := by
  obtain ⟨nodes, hrep, hparts⟩ := h
  have hentries := (LruStore.parts_eq.mp hparts).2.2.1
  rw [Dict.mem_keys_iff, hentries]
  constructor
  · intro ⟨a, ha⟩
    obtain ⟨e, he, hkey⟩ := (hrep.index key a).mp ha
    exact ⟨e, List.mem_map_of_mem he, hkey⟩
  · intro ⟨e, he, hkey⟩
    obtain ⟨p, hp, rfl⟩ := List.mem_map.mp he
    exact ⟨p.1, (hrep.index key p.1).mpr ⟨p.2, hp, hkey⟩⟩

theorem get_refines {s : LRUCache κ ν} {c : LruStore κ ν} (h : Refines s c) (now : TimePoint)
    (key : κ) : ∃ s', s.get now key = some (s', (c.get now key).2) ∧
      Refines s' (c.get now key).1 := by
  obtain ⟨nodes, hrep, hparts⟩ := h
  obtain ⟨hcap, httl, hentries, hmetrics⟩ := LruStore.parts_eq.mp hparts
  cases hk : s.map_.get? key with
  | none =>
    obtain ⟨hres, hget⟩ := LruStore.get_missing (hrep.store_missing hentries hk) now
    refine ⟨{ s with metrics_ := s.metrics_.addMiss }, ?_, nodes, hrep, ?_⟩
    · rw [LRUCache.get, hk, hres]
    · rw [hget, hcap, httl, hentries, hmetrics]
  | some a =>
    obtain ⟨before, e, after, rfl, rfl⟩ := hrep.found hk
    obtain ⟨hfind, hwithout⟩ := hrep.store_found hentries
    have hentry := hrep.entry_eq
    cases hexp : isExpired now e with
    | true =>
      obtain ⟨hres, hget⟩ := LruStore.get_expired hfind hexp
      obtain ⟨m₁, m₂, h₁, h₂, hrep', _⟩ := hrep.unlink
      refine ⟨{ s with
        memory := m₂
        map_ := s.map_.erase e.key
        metrics_ := s.metrics_.addMiss.addExpiration }, ?_, before ++ after, hrep', ?_⟩
      · simp [LRUCache.get, hk, hentry, hexp, h₁, h₂, hres]
      · rw [hget, hcap, httl, hwithout, hmetrics]
    | false =>
      obtain ⟨hres, hget⟩ := LruStore.get_hit hfind hexp
      obtain ⟨m₁, m₂, h₁, h₂, hrep', _⟩ := hrep.refresh
      have hentry' : m₂.entry (some (.node a)) = some e := hrep'.cells (a, e) (by simp)
      refine ⟨{ s with memory := m₂, metrics_ := s.metrics_.addHit }, ?_,
        (a, e) :: (before ++ after), hrep', ?_⟩
      · simp [LRUCache.get, hk, hentry, hexp, h₁, h₂, hentry', hres]
      · rw [hget, hcap, httl, hwithout, hmetrics, List.map_cons]

theorem remove_refines {s : LRUCache κ ν} {c : LruStore κ ν} (h : Refines s c) (key : κ) :
    ∃ s', s.remove key = some (s', (c.remove key).2) ∧ Refines s' (c.remove key).1 := by
  obtain ⟨nodes, hrep, hparts⟩ := h
  obtain ⟨hcap, httl, hentries, hmetrics⟩ := LruStore.parts_eq.mp hparts
  cases hk : s.map_.get? key with
  | none =>
    rw [LruStore.remove_missing (hrep.store_missing hentries hk)]
    exact ⟨s, by rw [LRUCache.remove, hk], nodes, hrep, hparts⟩
  | some a =>
    obtain ⟨before, e, after, rfl, rfl⟩ := hrep.found hk
    obtain ⟨hfind, hwithout⟩ := hrep.store_found hentries
    obtain ⟨hres, hremove⟩ := LruStore.remove_found hfind
    obtain ⟨m₁, m₂, h₁, h₂, hrep', _⟩ := hrep.unlink
    refine ⟨{ s with
      memory := m₂
      map_ := s.map_.erase e.key
      metrics_ := s.metrics_.addDel }, ?_, before ++ after, hrep', ?_⟩
    · simp [LRUCache.remove, hk, h₁, h₂, hres]
    · rw [hremove, hcap, httl, hwithout, hmetrics]

/-- `evict_lru` on a non-empty cache frees the node in front of `tail_`. -/
theorem evictLru_spec {s : LRUCache κ ν} {nodes : List (Nat × CacheEntry κ ν)} {a : Nat}
    {e : CacheEntry κ ν} (h : Represents s.memory s.map_ (nodes ++ [(a, e)])) :
    ∃ s', s.evictLru = some s' ∧ Represents s'.memory s'.map_ nodes ∧
      s'.capacity_ = s.capacity_ ∧ s'.defaultTtlS_ = s.defaultTtlS_ ∧
      s'.metrics_ = s.metrics_.addEviction := by
  have hlast : s.memory.tail_.prev = some (.node a) := by
    have hprev := h.shape.tail_prev
    simpa [Memory.prevOf, Memory.links] using hprev
  have hentry := h.entry_eq
  obtain ⟨m₁, m₂, h₁, h₂, hrep, _⟩ := h.unlink
  rw [List.append_nil] at hrep
  refine ⟨{ s with
    memory := m₂
    map_ := s.map_.erase e.key
    metrics_ := s.metrics_.addEviction }, ?_, hrep, rfl, rfl, rfl⟩
  simp [LRUCache.evictLru, hlast, hentry, h₁, h₂]

/-- The cache once there is room for a new node. -/
theorem room_spec {s : LRUCache κ ν} {c : LruStore κ ν} {nodes : List (Nat × CacheEntry κ ν)}
    (hrep : Represents s.memory s.map_ nodes)
    (hparts : c.parts = (s.capacity_, s.defaultTtlS_, nodes.map Prod.snd, s.metrics_)) :
    ∃ (s₁ : LRUCache κ ν) (nodes₁ : List (Nat × CacheEntry κ ν)),
      (if s.capacity_ ≤ s.map_.size then s.evictLru else some s) = some s₁ ∧
      Represents s₁.memory s₁.map_ nodes₁ ∧ nodes₁.Sublist nodes ∧
      c.makeRoom = nodes₁.map Prod.snd ∧ s₁.capacity_ = s.capacity_ ∧
      s₁.defaultTtlS_ = s.defaultTtlS_ ∧
      s₁.metrics_ = if c.capacity ≤ c.entries.length then c.metrics.addEviction
        else c.metrics := by
  obtain ⟨hcap, httl, hentries, hmetrics⟩ := LruStore.parts_eq.mp hparts
  have hlength : c.entries.length = nodes.length := by rw [hentries, List.length_map]
  have hsize := hrep.size_eq
  by_cases hfull : s.capacity_ ≤ s.map_.size
  · have hfull' : c.capacity ≤ c.entries.length := by omega
    have hpos := c.capacity_pos
    have hne : nodes ≠ [] := by
      rintro rfl
      have hzero : (([] : List (Nat × CacheEntry κ ν))).length = 0 := rfl
      omega
    obtain ⟨last, hlast⟩ : ∃ p, nodes = nodes.dropLast ++ [p] :=
      ⟨_, (List.dropLast_append_getLast hne).symm⟩
    rw [hlast] at hrep
    obtain ⟨s₁, hevict, hrep₁, hcap₁, httl₁, hmetrics₁⟩ := evictLru_spec hrep
    refine ⟨s₁, nodes.dropLast, ?_, hrep₁, List.dropLast_sublist nodes, ?_, hcap₁, httl₁, ?_⟩
    · rw [if_pos hfull, hevict]
    · rw [LruStore.makeRoom, if_pos hfull', hentries, List.map_dropLast]
    · rw [if_pos hfull', hmetrics₁, hmetrics]
  · have hfull' : ¬c.capacity ≤ c.entries.length := by omega
    refine ⟨s, nodes, if_neg hfull, hrep, List.Sublist.refl nodes, ?_, rfl, rfl, ?_⟩
    · rw [LruStore.makeRoom, if_neg hfull', hentries]
    · rw [if_neg hfull', hmetrics]

theorem put_refines {s : LRUCache κ ν} {c : LruStore κ ν} (h : Refines s c) (now : TimePoint)
    (key : κ) (value : ν) (ttlSeconds : UInt32) :
    ∃ s', s.put now key value ttlSeconds = some s' ∧
      Refines s' (c.put now key value ttlSeconds) := by
  obtain ⟨nodes, hrep, hparts⟩ := h
  obtain ⟨hcap, httl, hentries, hmetrics⟩ := LruStore.parts_eq.mp hparts
  cases hk : s.map_.get? key with
  | some a =>
    obtain ⟨before, e, after, rfl, rfl⟩ := hrep.found hk
    obtain ⟨hfind, hwithout⟩ := hrep.store_found hentries
    have hput := LruStore.put_update hfind now value ttlSeconds
    obtain ⟨m₁, h₁, hrep₁, _⟩ := hrep.overwrite value (putExpiry now s.defaultTtlS_ ttlSeconds)
    obtain ⟨m₂, m₃, h₂, h₃, hrep₃, _⟩ := hrep₁.refresh
    refine ⟨{ s with memory := m₃, metrics_ := s.metrics_.addPut }, ?_, _, hrep₃, ?_⟩
    · simp [LRUCache.put, hk, h₁, h₂, h₃]
    · rw [hput, hcap, httl, hwithout, hmetrics, List.map_cons]
  | none =>
    have hfind := hrep.store_missing hentries hk
    have hput := LruStore.put_insert hfind now value ttlSeconds
    obtain ⟨s₁, nodes₁, hroom, hrep₁, hsub, hentries₁, hcap₁, httl₁, hmetrics₁⟩ :=
      room_spec hrep hparts
    have hfresh : ∀ p ∈ nodes₁, p.2.key ≠ key := fun p hp => hrep.missing hk p (hsub.subset hp)
    obtain ⟨m', hattach, hrep', _⟩ := hrep₁.insert
      (e := ⟨key, value, putExpiry now s.defaultTtlS_ ttlSeconds⟩) hfresh
    refine ⟨{ s₁ with
      memory := m'
      map_ := s₁.map_.set key s₁.memory.nextAddr
      metrics_ := s₁.metrics_.addPut }, ?_, _, hrep', ?_⟩
    · by_cases hfull : s.capacity_ ≤ s.map_.size
      · rw [if_pos hfull] at hroom
        simp [LRUCache.put, hk, hfull, hroom, hattach]
      · rw [if_neg hfull] at hroom
        cases Option.some.inj hroom
        simp [LRUCache.put, hk, hfull, hattach]
    · rw [hput, hentries₁, List.map_cons]
      simp only [hcap, httl, hcap₁, httl₁, hmetrics₁]

theorem bulkLoad_refines (entries : List (κ × ν × UInt32)) {s : LRUCache κ ν} {c : LruStore κ ν}
    (h : Refines s c) (now : Nat → TimePoint) :
    ∃ s', LRUCache.bulkLoad now entries s = some s' ∧
      Refines s' (LruStore.bulkLoad now entries c) := by
  induction entries generalizing s c now with
  | nil => exact ⟨s, rfl, h⟩
  | cons entry entries ih =>
    obtain ⟨key, value, ttl⟩ := entry
    obtain ⟨s₁, hput, h₁⟩ := put_refines h (now 0) key value ttl
    obtain ⟨s₂, hload, h₂⟩ := ih h₁ (fun i => now (i + 1))
    refine ⟨s₂, ?_, h₂⟩
    rw [LRUCache.bulkLoad, hput]
    exact hload

/-- The traversal frees the expired nodes among `rest` and keeps the others in
place behind the nodes it has passed. -/
theorem purgeLoop_spec (rest : List (Nat × CacheEntry κ ν)) {kept : List (Nat × CacheEntry κ ν)}
    {s : LRUCache κ ν} (h : Represents s.memory s.map_ (kept ++ rest)) (now : Nat → TimePoint)
    {fuel : Nat} (hfuel : rest.length < fuel) (count : Nat) :
    ∃ s' nodes, LRUCache.purgeLoop fuel now s (some (firstPtr (rest.map Prod.fst))) count =
        some (s', count + expiredCount now (rest.map Prod.snd)) ∧
      Represents s'.memory s'.map_ nodes ∧
      nodes.map Prod.snd = kept.map Prod.snd ++ unexpired now (rest.map Prod.snd) ∧
      s'.capacity_ = s.capacity_ ∧ s'.defaultTtlS_ = s.defaultTtlS_ ∧
      s'.metrics_ = Nat.iterate CacheMetrics.addExpiration
        (expiredCount now (rest.map Prod.snd)) s.metrics_ := by
  induction rest generalizing kept s now fuel count with
  | nil =>
    obtain ⟨fuel, rfl⟩ : ∃ n, fuel = n + 1 := ⟨fuel - 1, by simp at hfuel; omega⟩
    refine ⟨s, kept, ?_, ?_, ?_, rfl, rfl, rfl⟩
    · simp [LRUCache.purgeLoop, expiredCount]
    · simpa using h
    · simp [unexpired]
  | cons p rest ih =>
    obtain ⟨a, e⟩ := p
    obtain ⟨fuel, rfl⟩ : ∃ n, fuel = n + 1 := ⟨fuel - 1, by simp at hfuel; omega⟩
    have hfuel' : rest.length < fuel := by simpa using hfuel
    have hentry := h.entry_eq
    have hshape := h.shape
    rw [List.map_append, List.map_cons] at hshape
    have hnext := hshape.node_next
    have hvalid : s.memory.Valid (.node a) := Memory.valid_node_iff.mpr (hshape.allocated a (by simp))
    have hload := Memory.load_spec hvalid
    rw [hnext] at hload
    cases hexp : isExpired (now 0) e with
    | true =>
      obtain ⟨m₁, m₂, h₁, h₂, hrep, _⟩ := h.unlink
      let s₁ : LRUCache κ ν := { s with
        memory := m₂
        map_ := s.map_.erase e.key
        metrics_ := s.metrics_.addExpiration }
      obtain ⟨s', nodes, hrun, hrep', hnodes, hcap, httl, hmetrics⟩ :=
        ih (s := s₁) hrep (fun i => now (i + 1)) hfuel' (count + 1)
      have hstep : LRUCache.purgeLoop (fuel + 1) now s (some (.node a)) count =
          LRUCache.purgeLoop fuel (fun i => now (i + 1)) s₁
            (some (firstPtr (rest.map Prod.fst))) (count + 1) := by
        simp [LRUCache.purgeLoop, hload, hentry, hexp, h₁, h₂, s₁]
      refine ⟨s', nodes, ?_, hrep', ?_, hcap, httl, ?_⟩
      · have hcount : expiredCount now (e :: rest.map Prod.snd) =
            expiredCount (fun i => now (i + 1)) (rest.map Prod.snd) + 1 := by
          simp [expiredCount, hexp]
        rw [List.map_cons, List.map_cons, firstPtr_cons, hstep, hrun, hcount]
        simp only [Nat.add_assoc, Nat.add_comm 1]
      · simpa [unexpired, hexp] using hnodes
      · simpa [expiredCount, hexp] using hmetrics
    | false =>
      have hrep : Represents s.memory s.map_ ((kept ++ [(a, e)]) ++ rest) := by simpa using h
      obtain ⟨s', nodes, hrun, hrep', hnodes, hcap, httl, hmetrics⟩ :=
        ih hrep (fun i => now (i + 1)) hfuel' count
      have hstep : LRUCache.purgeLoop (fuel + 1) now s (some (.node a)) count =
          LRUCache.purgeLoop fuel (fun i => now (i + 1)) s
            (some (firstPtr (rest.map Prod.fst))) count := by
        simp [LRUCache.purgeLoop, hload, hentry, hexp]
      refine ⟨s', nodes, ?_, hrep', ?_, hcap, httl, ?_⟩
      · have hcount : expiredCount now (e :: rest.map Prod.snd) =
            expiredCount (fun i => now (i + 1)) (rest.map Prod.snd) := by
          simp [expiredCount, hexp]
        rw [List.map_cons, List.map_cons, firstPtr_cons, hstep, hrun, hcount]
      · simpa [unexpired, hexp] using hnodes
      · simpa [expiredCount, hexp] using hmetrics

theorem purgeExpired_refines {s : LRUCache κ ν} {c : LruStore κ ν} (h : Refines s c)
    (now : Nat → TimePoint) : ∃ s', s.purgeExpired now = some (s', (c.purgeExpired now).2) ∧
      Refines s' (c.purgeExpired now).1 := by
  obtain ⟨nodes, hrep, hparts⟩ := h
  obtain ⟨hcap, httl, hentries, hmetrics⟩ := LruStore.parts_eq.mp hparts
  have hfuel : nodes.length < s.memory.nextAddr + 1 :=
    Nat.lt_succ_of_le hrep.length_le_nextAddr
  obtain ⟨s', nodes', hrun, hrep', hnodes, hcap', httl', hmetrics'⟩ :=
    purgeLoop_spec nodes (by simpa using hrep : Represents _ _ ([] ++ nodes)) now hfuel 0
  refine ⟨s', ?_, nodes', hrep', ?_⟩
  · have hcount : (c.purgeExpired now).2 = expiredCount now (nodes.map Prod.snd) := by
      rw [← hentries]
      rfl
    rw [LRUCache.purgeExpired, hrep.shape.first_node, hrun, hcount, Nat.zero_add]
  · show (c.capacity, c.defaultTtlS, unexpired now c.entries,
      Nat.iterate CacheMetrics.addExpiration (expiredCount now c.entries) c.metrics) = _
    rw [hcap, httl, hentries, hmetrics, hnodes, hcap', httl', hmetrics', List.map_nil,
      List.nil_append]

omit [DecidableEq κ] in
/-- The traversal of `clear` frees the nodes it visits and touches nothing else. -/
theorem clearLoop_spec (ps : List Nat) {m : Memory κ ν}
    (hchain : (ps.map Ptr.node ++ [Ptr.tail]).IsChain fun p q => m.nextOf p = some q)
    (hnodup : ps.Nodup) (halloc : ∀ a ∈ ps, m.entryOf a ≠ none) {fuel : Nat}
    (hfuel : ps.length < fuel) :
    ∃ m', LRUCache.clearLoop fuel m (some (firstPtr ps)) = some m' ∧
      (∀ a, m'.entryOf a = if a ∈ ps then none else m.entryOf a) ∧
      ∀ p, p ∉ ps.map Ptr.node → m'.links p = m.links p := by
  induction ps generalizing m fuel with
  | nil =>
    obtain ⟨fuel, rfl⟩ : ∃ n, fuel = n + 1 := ⟨fuel - 1, by simp at hfuel; omega⟩
    exact ⟨m, by simp [LRUCache.clearLoop], by simp, fun p _ => rfl⟩
  | cons a ps ih =>
    obtain ⟨fuel, rfl⟩ : ∃ n, fuel = n + 1 := ⟨fuel - 1, by simp at hfuel; omega⟩
    have hfuel' : ps.length < fuel := by simpa using hfuel
    obtain ⟨l, hl⟩ := map_node_append_tail ps
    obtain ⟨ha, hnodup'⟩ := List.nodup_cons.mp hnodup
    rw [List.map_cons, List.cons_append, hl] at hchain
    obtain ⟨hnext, hchain'⟩ := List.isChain_cons_cons.mp hchain
    rw [← hl] at hchain'
    have hcell := halloc a (by simp)
    have hload := Memory.load_spec (Memory.valid_node_iff.mpr hcell)
    rw [hnext] at hload
    obtain ⟨m₁, hdelete, hentries, hlinks, _⟩ := Memory.delete_spec hcell
    have hkept : ∀ p ∈ ps.map Ptr.node ++ [Ptr.tail], m₁.nextOf p = m.nextOf p := by
      intro p hp
      have hne : p ≠ .node a := by
        rintro rfl
        exact ha (by simpa using hp)
      rw [Memory.nextOf, hlinks p hne, Memory.nextOf]
    have hchain₁ : (ps.map Ptr.node ++ [Ptr.tail]).IsChain fun p q => m₁.nextOf p = some q := by
      refine hchain'.imp_of_mem_imp fun p q hp _ hpq => ?_
      rw [hkept p hp]
      exact hpq
    have halloc₁ : ∀ b ∈ ps, m₁.entryOf b ≠ none := by
      intro b hb
      have hba : b ≠ a := fun heq => ha (heq ▸ hb)
      rw [hentries, Function.update_of_ne hba]
      exact halloc b (List.mem_cons_of_mem a hb)
    obtain ⟨m', hrun, hcells, hlinks'⟩ := ih hchain₁ hnodup' halloc₁ hfuel'
    refine ⟨m', ?_, ?_, ?_⟩
    · have hstep : LRUCache.clearLoop (fuel + 1) m (some (.node a)) =
          LRUCache.clearLoop fuel m₁ (some (firstPtr ps)) := by
        simp [LRUCache.clearLoop, hload, hdelete]
      rw [firstPtr_cons, hstep, hrun]
    · intro b
      rw [hcells b, hentries]
      by_cases hba : b = a
      · subst hba
        simp
      · simp [hba]
    · intro p hp
      rw [List.map_cons, List.mem_cons, not_or] at hp
      rw [hlinks' p hp.2, hlinks p hp.1]

theorem clear_refines {s : LRUCache κ ν} {c : LruStore κ ν} (h : Refines s c) :
    ∃ s', s.clear = some s' ∧ Refines s' c.clear := by
  obtain ⟨nodes, hrep, hparts⟩ := h
  obtain ⟨hcap, httl, hentries, hmetrics⟩ := LruStore.parts_eq.mp hparts
  have hfuel : (nodes.map Prod.fst).length < s.memory.nextAddr + 1 := by
    rw [List.length_map]
    exact Nat.lt_succ_of_le hrep.length_le_nextAddr
  have hchain : ((nodes.map Prod.fst).map Ptr.node ++ [Ptr.tail]).IsChain
      fun p q => s.memory.nextOf p = some q := by
    have hlinked := hrep.shape.linked.imp fun p q hpq => hpq.1
    exact hlinked.tail
  obtain ⟨m₁, hloop, hcells, hlinks⟩ :=
    clearLoop_spec _ hchain hrep.shape.nodup hrep.shape.allocated hfuel
  have hempty : ∀ a, m₁.entryOf a = none := by
    intro a
    rw [hcells a]
    split
    next => rfl
    next ha => exact not_not.mp fun hne => ha (hrep.owned a hne)
  have hhead : m₁.links .head = s.memory.links .head := hlinks .head (by simp)
  have htail : m₁.links .tail = s.memory.links .tail := hlinks .tail (by simp)
  obtain ⟨m₂, h₂, hsame₂, hnext₂, hprev₂⟩ := Memory.storeNext_spec (m := m₁) (p := .head)
    (by simp [Memory.Valid, Memory.links]) (some .tail)
  obtain ⟨m₃, h₃, hsame₃, hnext₃, hprev₃⟩ := Memory.storePrev_spec (m := m₂) (p := .tail)
    (by simp [Memory.Valid, Memory.links]) (some .head)
  have hrep₃ : Represents m₃ (∅ : Dict κ Nat) [] := by
    refine ⟨⟨?_, List.nodup_nil, by simp, ?_, ?_⟩, by simp, List.nodup_nil, ?_, ?_⟩
    · refine List.isChain_cons_cons.mpr ⟨⟨?_, ?_⟩, List.isChain_singleton _⟩
      · rw [hnext₃, hnext₂, Function.update_self]
      · rw [hprev₃, Function.update_self]
    · rw [hprev₃, Function.update_of_ne (by simp), hprev₂, Memory.prevOf, hhead]
      exact hrep.shape.head_prev
    · rw [hnext₃, hnext₂, Function.update_of_ne (by simp), Memory.nextOf, htail]
      exact hrep.shape.tail_next
    · intro k a
      simp [Dict.get?]
    · intro a ha
      rw [hsame₃.entries, hsame₂.entries, hempty a] at ha
      exact absurd rfl ha
  refine ⟨{ s with memory := m₃, map_ := ∅ }, ?_, [], hrep₃, ?_⟩
  · simp [LRUCache.clear, hrep.shape.first_node, hloop, h₂, h₃]
  · show (c.capacity, c.defaultTtlS, [], c.metrics) = _
    rw [hcap, httl, hmetrics, List.map_nil]

theorem snapshotLoop_spec (rest : List (Nat × CacheEntry κ ν))
    {kept : List (Nat × CacheEntry κ ν)} {m : Memory κ ν} {map_ : Dict κ Nat}
    (h : Represents m map_ (kept ++ rest)) (start : TimePoint) (now : Nat → TimePoint) {fuel : Nat}
    (hfuel : rest.length < fuel) :
    LRUCache.snapshotLoop start fuel now m (some (firstPtr (rest.map Prod.fst))) =
      some ((unexpired now (rest.map Prod.snd)).map fun e =>
        (e.key, e.value, remainingTtl start e)) := by
  induction rest generalizing kept now fuel with
  | nil =>
    obtain ⟨fuel, rfl⟩ : ∃ n, fuel = n + 1 := ⟨fuel - 1, by simp at hfuel; omega⟩
    simp [LRUCache.snapshotLoop, unexpired]
  | cons p rest ih =>
    obtain ⟨a, e⟩ := p
    obtain ⟨fuel, rfl⟩ : ∃ n, fuel = n + 1 := ⟨fuel - 1, by simp at hfuel; omega⟩
    have hfuel' : rest.length < fuel := by simpa using hfuel
    have hentry := h.entry_eq
    have hshape := h.shape
    rw [List.map_append, List.map_cons] at hshape
    have hvalid : m.Valid (.node a) := Memory.valid_node_iff.mpr (hshape.allocated a (by simp))
    have hload := Memory.load_spec hvalid
    rw [hshape.node_next] at hload
    have hrep : Represents m map_ ((kept ++ [(a, e)]) ++ rest) := by simpa using h
    have hrest := ih hrep (fun i => now (i + 1)) hfuel'
    cases hexp : isExpired (now 0) e <;>
      simp [LRUCache.snapshotLoop, hentry, hload, hrest, unexpired, hexp]

theorem snapshot_refines {s : LRUCache κ ν} {c : LruStore κ ν} (h : Refines s c)
    (start : TimePoint) (now : Nat → TimePoint) :
    s.snapshot start now = some (c.snapshot start now) := by
  obtain ⟨nodes, hrep, hparts⟩ := h
  have hentries := (LruStore.parts_eq.mp hparts).2.2.1
  rw [LRUCache.snapshot, hrep.shape.first_node, LruStore.snapshot, hentries]
  exact snapshotLoop_spec nodes (by simpa using hrep : Represents _ _ ([] ++ nodes)) start now
    (Nat.lt_succ_of_le hrep.length_le_nextAddr)

theorem contains_refines {s : LRUCache κ ν} {c : LruStore κ ν} (h : Refines s c) (now : TimePoint)
    (key : κ) : s.contains now key = some (c.contains now key) := by
  obtain ⟨nodes, hrep, hparts⟩ := h
  have hentries := (LruStore.parts_eq.mp hparts).2.2.1
  cases hk : s.map_.get? key with
  | none => rw [LRUCache.contains, hk, LruStore.contains, hrep.store_missing hentries hk]
  | some a =>
    obtain ⟨before, e, after, rfl, rfl⟩ := hrep.found hk
    obtain ⟨hfind, _⟩ := hrep.store_found hentries
    simp [LRUCache.contains, hk, hrep.entry_eq, LruStore.contains, hfind]

/-- `keys` reads the clock in the order of the map. -/
theorem keysLoop_spec (m : Memory κ ν) (items : List (κ × Nat)) (hkeys : (items.map Prod.fst).Nodup)
    (hcells : ∀ p ∈ items, ∃ e, m.entryOf p.2 = some e ∧ e.key = p.1) (now : Nat → TimePoint) :
    ∃ (reading : κ → TimePoint) (result : List κ), LRUCache.keysLoop m now items = some result ∧
      (∀ k, ∃ i, reading k = now i) ∧ result.Nodup ∧
      ∀ k, k ∈ result ↔ ∃ p ∈ items, p.1 = k ∧ ∃ e, m.entryOf p.2 = some e ∧
        isExpired (reading k) e = false := by
  induction items generalizing now with
  | nil => exact ⟨fun _ => now 0, [], rfl, fun _ => ⟨0, rfl⟩, List.nodup_nil, by simp⟩
  | cons p items ih =>
    obtain ⟨key, node⟩ := p
    obtain ⟨hfresh, hkeys'⟩ := List.nodup_cons.mp hkeys
    obtain ⟨reading, result, hloop, hread, hnodup, hmem⟩ :=
      ih hkeys' (fun p hp => hcells p (List.mem_cons_of_mem _ hp)) (fun i => now (i + 1))
    obtain ⟨e, he, hek⟩ := hcells (key, node) (by simp)
    have hentry : m.entry (some (.node node)) = some e := he
    have hne : ∀ p ∈ items, p.1 ≠ key := by
      intro p hp heq
      exact hfresh (List.mem_map.mpr ⟨p, hp, heq⟩)
    have hnotin : key ∉ result := by
      intro hk
      obtain ⟨p, hp, hpk, _⟩ := (hmem key).mp hk
      exact hne p hp hpk
    let reading' : κ → TimePoint := Function.update reading key (now 0)
    let result' : List κ := if isExpired (now 0) e then result else key :: result
    refine ⟨reading', result', ?_, ?_, ?_, ?_⟩
    · simp [LRUCache.keysLoop, hentry, hloop, result']
    · intro k
      by_cases hk : k = key
      · exact ⟨0, by simp [reading', hk]⟩
      · obtain ⟨i, hi⟩ := hread k
        exact ⟨i + 1, by simp [reading', hk, hi]⟩
    · show (if isExpired (now 0) e then result else key :: result).Nodup
      split
      · exact hnodup
      · exact List.nodup_cons.mpr ⟨hnotin, hnodup⟩
    · intro k
      have hitems : k ∈ result' ↔ (k = key ∧ isExpired (now 0) e = false) ∨ k ∈ result := by
        show k ∈ (if isExpired (now 0) e then result else key :: result) ↔ _
        cases hexp : isExpired (now 0) e <;> simp
      rw [hitems]
      by_cases hk : k = key
      · subst hk
        have hself : reading' k = now 0 := Function.update_self ..
        rw [hself]
        constructor
        · rintro (⟨_, hexp⟩ | hin)
          · exact ⟨(k, node), List.mem_cons_self, rfl, e, he, hexp⟩
          · exact absurd hin hnotin
        · rintro ⟨p, hp, hpk, e', he', hexp⟩
          rcases List.mem_cons.mp hp with rfl | hp
          · rw [he] at he'
            cases Option.some.inj he'
            exact .inl ⟨rfl, hexp⟩
          · exact absurd hpk (hne p hp)
      · simp only [hk, false_and, false_or, hmem k, reading', Function.update_of_ne hk]
        constructor
        · rintro ⟨p, hp, hrest⟩
          exact ⟨p, List.mem_cons_of_mem _ hp, hrest⟩
        · rintro ⟨p, hp, hpk, hrest⟩
          rcases List.mem_cons.mp hp with rfl | hp
          · exact absurd hpk.symm hk
          · exact ⟨p, hp, hpk, hrest⟩

theorem keys_refines {s : LRUCache κ ν} {c : LruStore κ ν} (h : Refines s c)
    (now : Nat → TimePoint) : ∃ (reading : κ → TimePoint) (result : List κ),
      s.keys now = some result ∧ (∀ k, ∃ i, reading k = now i) ∧
      result.Perm (c.keys reading) := by
  obtain ⟨nodes, hrep, hparts⟩ := h
  have hentries := (LruStore.parts_eq.mp hparts).2.2.1
  have hitem : ∀ p ∈ s.map_.items, ∃ e, (p.2, e) ∈ nodes ∧ e.key = p.1 :=
    fun p hp => (hrep.index p.1 p.2).mp (Dict.get?_eq_some.mpr hp)
  obtain ⟨reading, result, hloop, hread, hnodup, hmem⟩ :=
    keysLoop_spec s.memory s.map_.items s.map_.nodup (fun p hp => by
      obtain ⟨e, he, hkey⟩ := hitem p hp
      exact ⟨e, hrep.cells _ he, hkey⟩) now
  refine ⟨reading, result, hloop, hread, ?_⟩
  have hkeys : (c.keys reading).Nodup :=
    c.keys_nodup.sublist (List.filter_sublist.map CacheEntry.key)
  refine (List.perm_ext_iff_of_nodup hnodup hkeys).mpr fun k => ?_
  rw [hmem k, LruStore.keys, List.mem_map, hentries]
  constructor
  · rintro ⟨p, hp, rfl, e, he, hexp⟩
    obtain ⟨e', he', hkey⟩ := hitem p hp
    have heq : e' = e := by
      have hcell := hrep.cells _ he'
      rw [he] at hcell
      exact (Option.some.inj hcell).symm
    subst heq
    refine ⟨e', List.mem_filter.mpr ⟨List.mem_map_of_mem he', ?_⟩, hkey⟩
    simp [hkey, hexp]
  · rintro ⟨e, he, rfl⟩
    obtain ⟨he, hexp⟩ := List.mem_filter.mp he
    obtain ⟨p, hp, rfl⟩ := List.mem_map.mp he
    have hget := (hrep.index p.2.key p.1).mpr ⟨p.2, hp, rfl⟩
    exact ⟨(p.2.key, p.1), Dict.get?_eq_some.mp hget, rfl, p.2, hrep.cells p hp, by simpa using hexp⟩

/-- Every call succeeds, records the same and leads to related states again. -/
theorem step_refines {s : LRUCache κ ν} {c : LruStore κ ν} (h : Refines s c)
    (history : List (Happening κ ν)) (op : Op κ ν) :
    ∃ s', LRUCache.step (s, history) op = some (s', (LruStore.step (c, history) op).2) ∧
      Refines s' (LruStore.step (c, history) op).1 := by
  cases op with
  | get now key =>
    obtain ⟨s', hget, h'⟩ := get_refines h now key
    exact ⟨s', by simp [LRUCache.step, hget, LruStore.step], h'⟩
  | put now key value ttlSeconds =>
    obtain ⟨s', hput, h'⟩ := put_refines h now key value ttlSeconds
    exact ⟨s', by simp [LRUCache.step, hput, LruStore.step], h'⟩
  | remove key =>
    obtain ⟨s', hremove, h'⟩ := remove_refines h key
    exact ⟨s', by simp [LRUCache.step, hremove, LruStore.step], h'⟩
  | purgeExpired now =>
    obtain ⟨s', hpurge, h'⟩ := purgeExpired_refines h now
    exact ⟨s', by simp [LRUCache.step, hpurge, LruStore.step], h'⟩
  | bulkLoad now entries =>
    obtain ⟨s', hload, h'⟩ := bulkLoad_refines entries h now
    exact ⟨s', by simp [LRUCache.step, hload, LruStore.step], h'⟩
  | clear =>
    obtain ⟨s', hclear, h'⟩ := clear_refines h
    exact ⟨s', by simp [LRUCache.step, hclear, LruStore.step], h'⟩

/-- A run of the pointer structure never fails and computes what the store does. -/
theorem run_refines {s : LRUCache κ ν} {c : LruStore κ ν} (h : Refines s c) (ops : List (Op κ ν)) :
    ∃ s', s.run ops = some (s', (c.run ops).2) ∧ Refines s' (c.run ops).1 := by
  induction ops using List.reverseRecOn with
  | nil => exact ⟨s, rfl, h⟩
  | append_singleton past op ih =>
    obtain ⟨mid, hrun, hmid⟩ := ih
    obtain ⟨s', hstep, h'⟩ := step_refines hmid (c.run past).2 op
    have hsnoc : c.run (past ++ [op]) = LruStore.step (c.run past) op := by
      rw [LruStore.run, List.foldl_append]
      rfl
    rw [hsnoc]
    exact ⟨s', runs_snoc_eq_some.mpr ⟨_, hrun, hstep⟩, h'⟩

end SelfHealingCache
