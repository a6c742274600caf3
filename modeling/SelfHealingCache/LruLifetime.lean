import SelfHealingCache.LruAllocation

namespace SelfHealingCache

variable {κ ν : Type} [DecidableEq κ]

/-- The put's insertion into `map_` throws, should it come that far. -/
def Attempt.mapFails : Attempt κ ν → Bool
  | .call _ => false
  | .put fails _ _ _ _ => fails .mapNode

/-- The number of nodes not freed yet. -/
def Memory.allocated (m : Memory κ ν) : Nat :=
  (List.range m.nextAddr).countP fun a => (m.cells a).isSome

/-- The destructor. -/
def LRUCache.destruct (c : LRUCache κ ν) : Option (Memory κ ν) :=
  clearLoop (c.memory.nextAddr + 1) c.memory c.memory.head_.next

theorem Dict.size_le_erase (d : Dict κ ν) (k : κ) : d.size ≤ (d.erase k).size + 1 := by
  cases hk : d.get? k with
  | some v =>
    have hperm := (Dict.items_perm_of_get? hk).length_eq
    rw [List.length_cons] at hperm
    exact hperm.le
  | none =>
    rw [size, size, Dict.erase_of_get?_none hk]
    omega

theorem Dict.size_set_of_none {d : Dict κ ν} {k : κ} (hk : d.get? k = none) (v : ν) :
    (d.set k v).size = d.size + 1 := by
  have hperm := (Dict.items_set_perm d k v).length_eq
  rw [List.length_cons, Dict.erase_of_get?_none hk] at hperm
  exact hperm

namespace Shape

variable {m : Memory κ ν} {ps qs : List Nat} {a : Nat}

omit [DecidableEq κ] in
theorem lt_nextAddr (h : Shape m ps) (ha : a ∈ ps) : a < m.nextAddr := by
  by_contra hge
  have hcell := h.allocated a ha
  rw [Memory.entryOf, m.unused a (by omega)] at hcell
  exact hcell rfl

omit [DecidableEq κ] in
theorem length_le_nextAddr (h : Shape m ps) : ps.length ≤ m.nextAddr := by
  have hsub := List.subperm_of_subset h.nodup fun a ha => List.mem_range.mpr (h.lt_nextAddr ha)
  simpa using hsub.length_le

end Shape

/-- From `head_` to `tail_` the list visits all nodes not freed yet, and the map sends a key only to
nodes with this key. Unlike in `Represents` a node may be missing from the map. -/
structure Owned (m : Memory κ ν) (map_ : Dict κ Nat) (ps : List Nat) : Prop where
  shape : Shape m ps
  index : ∀ k a, map_.get? k = some a → ∃ e, m.entryOf a = some e ∧ e.key = k
  owned : ∀ a, m.entryOf a ≠ none → a ∈ ps

theorem owned_init : Owned (Memory.init : Memory κ ν) ∅ [] :=
  ⟨shape_init, fun k a hk => absurd hk (by simp), fun a ha => absurd rfl ha⟩

namespace Owned

variable {m : Memory κ ν} {map_ : Dict κ Nat} {ps qs : List Nat} {a : Nat} {e : CacheEntry κ ν}

theorem found (h : Owned m map_ ps) {k : κ} (hk : map_.get? k = some a) :
    ∃ before after e, ps = before ++ a :: after ∧ m.entryOf a = some e ∧ e.key = k := by
  obtain ⟨e, he, hkey⟩ := h.index k a hk
  obtain ⟨before, after, hsplit⟩ := List.append_of_mem (h.owned a (by simp [he]))
  exact ⟨before, after, e, hsplit, he, hkey⟩

theorem size_eq_zero (h : Owned m map_ []) : map_.size = 0 := by
  refine List.length_eq_zero_iff.mpr (List.eq_nil_iff_forall_not_mem.mpr fun p hp => ?_)
  obtain ⟨e, he, _⟩ := h.index p.1 p.2 (Dict.get?_eq_some.mpr hp)
  exact List.not_mem_nil (h.owned p.2 (by simp [he]))

theorem notMem (h : Owned m map_ (ps ++ a :: qs)) : a ∉ ps ++ qs :=
  (List.nodup_cons.mp (List.nodup_middle.mp h.shape.nodup)).1

theorem allocated_eq (h : Owned m map_ ps) : m.allocated = ps.length := by
  have hperm : ((List.range m.nextAddr).filter fun a => (m.cells a).isSome).Perm ps := by
    refine (List.perm_ext_iff_of_nodup (List.nodup_range.filter _) h.shape.nodup).mpr fun a => ?_
    rw [List.mem_filter, List.mem_range]
    constructor
    · intro ha
      exact h.owned a (by simpa [Memory.entryOf, Option.isSome_iff_ne_none] using ha.2)
    · intro ha
      have hcell := h.shape.allocated a ha
      exact ⟨h.shape.lt_nextAddr ha, by
        simpa [Memory.entryOf, Option.isSome_iff_ne_none] using hcell⟩
  rw [Memory.allocated, List.countP_eq_length_filter]
  exact hperm.length_eq

/-- Taking a node out of the list, freeing it and erasing its key; an orphan's key may be that of
another node. -/
theorem unlink (h : Owned m map_ (ps ++ a :: qs)) (he : m.entryOf a = some e) :
    ∃ m₁ m₂, m.detach (some (.node a)) = some m₁ ∧ m₁.delete (some (.node a)) = some m₂ ∧
      Owned m₂ (map_.erase e.key) (ps ++ qs) := by
  obtain ⟨m₁, h₁, hsame, hshape⟩ := h.shape.detach
  have hcell : m₁.entryOf a = some e := by rw [hsame.entries, he]
  obtain ⟨m₂, h₂, hentries, hlinks, _⟩ := Memory.delete_spec (m := m₁) (a := a) (by simp [hcell])
  have hfresh := h.notMem
  refine ⟨m₁, m₂, h₁, h₂, ?_, ?_, ?_⟩
  · apply hshape.congr
    intro p hp
    apply hlinks
    rintro rfl
    exact hfresh (by simpa using hp)
  · intro k b hget
    rw [Dict.get?_erase] at hget
    split at hget
    next => cases hget
    next hk =>
      obtain ⟨e', he', hkey⟩ := h.index k b hget
      have hba : b ≠ a := by
        rintro rfl
        rw [he] at he'
        cases Option.some.inj he'
        exact hk hkey.symm
      exact ⟨e', by rw [hentries, Function.update_of_ne hba, hsame.entries, he'], hkey⟩
  · intro b hb
    have hba : b ≠ a := by
      rintro rfl
      rw [hentries, Function.update_self] at hb
      exact hb rfl
    rw [hentries, Function.update_of_ne hba, hsame.entries] at hb
    have hmem := h.owned b hb
    simp only [List.mem_append, List.mem_cons] at hmem ⊢
    rcases hmem with hm | hm | hm
    · exact .inl hm
    · exact absurd hm hba
    · exact .inr hm

/-- Moving a node to the front. -/
theorem refresh (h : Owned m map_ (ps ++ a :: qs)) :
    ∃ m₁ m₂, m.detach (some (.node a)) = some m₁ ∧ m₁.attachFront (some (.node a)) = some m₂ ∧
      Owned m₂ map_ (a :: (ps ++ qs)) ∧ m₂.entryOf = m.entryOf := by
  obtain ⟨m₁, h₁, hsame, hshape⟩ := h.shape.detach
  have hcell : m₁.entryOf a ≠ none := by
    rw [hsame.entries]
    exact h.shape.allocated a (by simp)
  obtain ⟨m₂, h₂, hsame₂, hshape₂⟩ := hshape.attachFront h.notMem hcell
  have hentries : m₂.entryOf = m.entryOf := hsame₂.entries.trans hsame.entries
  refine ⟨m₁, m₂, h₁, h₂, ⟨hshape₂, ?_, ?_⟩, hentries⟩
  · intro k b hk
    rw [hentries]
    exact h.index k b hk
  · intro b hb
    rw [hentries] at hb
    exact List.perm_middle.mem_iff.mp (h.owned b hb)

/-- Overwriting value and deadline of a node in place. -/
theorem overwrite (h : Owned m map_ ps) (he : m.entryOf a = some e) (value : ν)
    (expiry : Option TimePoint) :
    ∃ m', m.storeEntry a value expiry = some m' ∧ Owned m' map_ ps := by
  obtain ⟨m', hm, hentries, hlinks, _⟩ := Memory.storeEntry_spec he value expiry
  refine ⟨m', hm, h.shape.congr fun p _ => congrFun hlinks p, ?_, ?_⟩
  · intro k b hk
    obtain ⟨e', he', hkey⟩ := h.index k b hk
    by_cases hba : b = a
    · subst hba
      rw [he] at he'
      cases Option.some.inj he'
      exact ⟨{ e with value := value, expiresAt := expiry }, by rw [hentries, Function.update_self],
        hkey⟩
    · exact ⟨e', by rw [hentries, Function.update_of_ne hba, he'], hkey⟩
  · intro b hb
    apply h.owned
    rw [hentries] at hb
    by_cases hba : b = a
    · simp [hba, he]
    · rwa [Function.update_of_ne hba] at hb

/-- Putting a new node in front. -/
theorem push (h : Owned m map_ ps) (e : CacheEntry κ ν) :
    ∃ m', (m.newNode e).attachFront (some (.node m.nextAddr)) = some m' ∧
      Owned m' map_ (m.nextAddr :: ps) ∧ m'.entryOf m.nextAddr = some e := by
  obtain ⟨hentries, hlinks, _⟩ := Memory.newNode_spec m e
  have hfree : m.entryOf m.nextAddr = none := by
    rw [Memory.entryOf, m.unused m.nextAddr (Nat.le_refl _), Option.map_none]
  have hfresh : m.nextAddr ∉ ps := fun hm => h.shape.allocated _ hm hfree
  have hshape : Shape (m.newNode e) ps := by
    apply h.shape.congr
    intro p hp
    apply hlinks
    rintro rfl
    exact hfresh (by simpa using hp)
  obtain ⟨m', hm, hsame, hshape'⟩ := hshape.attachFront hfresh (by
    rw [hentries, Function.update_self]
    simp)
  refine ⟨m', hm, ⟨hshape', ?_, ?_⟩, by rw [hsame.entries, hentries, Function.update_self]⟩
  · intro k b hk
    obtain ⟨e', he', hkey⟩ := h.index k b hk
    have hb : b ≠ m.nextAddr := by
      rintro rfl
      rw [hfree] at he'
      cases he'
    exact ⟨e', by rw [hsame.entries, hentries, Function.update_of_ne hb, he'], hkey⟩
  · intro b hb
    rw [hsame.entries, hentries] at hb
    by_cases hba : b = m.nextAddr
    · simp [hba]
    · rw [Function.update_of_ne hba] at hb
      exact List.mem_cons_of_mem _ (h.owned b hb)

theorem set (h : Owned m map_ ps) (he : m.entryOf a = some e) :
    Owned m (map_.set e.key a) ps := by
  refine ⟨h.shape, fun k b hk => ?_, h.owned⟩
  rw [Dict.get?_set] at hk
  split at hk
  next hkey =>
    cases Option.some.inj hk
    exact ⟨e, he, hkey.symm⟩
  next => exact h.index k b hk

/-- The walk of the destructor and of `clear` frees every node. -/
theorem freed (h : Owned m map_ ps) :
    ∃ m', LRUCache.clearLoop (m.nextAddr + 1) m m.head_.next = some m' ∧
      (∀ a, m'.entryOf a = none) ∧ m'.links .head = m.links .head ∧
      m'.links .tail = m.links .tail := by
  have hchain : (ps.map Ptr.node ++ [Ptr.tail]).IsChain fun p q => m.nextOf p = some q := by
    have hlinked := h.shape.linked.imp fun p q hpq => hpq.1
    exact hlinked.tail
  obtain ⟨m', hloop, hcells, hlinks⟩ := clearLoop_spec ps hchain h.shape.nodup h.shape.allocated
    (Nat.lt_succ_of_le h.shape.length_le_nextAddr)
  refine ⟨m', by rw [h.shape.first_node, hloop], fun a => ?_, hlinks _ (by simp),
    hlinks _ (by simp)⟩
  rw [hcells a]
  split
  next => rfl
  next ha => exact not_not.mp fun hne => ha (h.owned a hne)

end Owned

/-- The pointers are sound, and besides the keyed nodes there are at most `orphans` others. -/
def Sturdy (capacity orphans : Nat) (s : LRUCache κ ν) : Prop :=
  s.capacity_ = capacity ∧ ∃ ps, Owned s.memory s.map_ ps ∧ ps.length ≤ s.map_.size + orphans ∧
    ps.length ≤ capacity + orphans

namespace Sturdy

variable {s : LRUCache κ ν} {capacity orphans : Nat}

theorem weaken (h : Sturdy capacity orphans s) {more : Nat} (hle : orphans ≤ more) :
    Sturdy capacity more s := by
  obtain ⟨hcap, ps, howned, hsize, hbound⟩ := h
  exact ⟨hcap, ps, howned, by omega, by omega⟩

omit [DecidableEq κ] in
theorem length_unlinked {ps qs : List Nat} {a n : Nat} (h : (ps ++ a :: qs).length ≤ n) :
    (ps ++ qs).length < n := by
  simp only [List.length_append, List.length_cons] at h ⊢
  omega

/-- One node less, and at most one key. -/
theorem size_unlinked {ps qs : List Nat} {a : Nat} {d : Dict κ Nat}
    (h : (ps ++ a :: qs).length ≤ d.size + orphans) (key : κ) :
    (ps ++ qs).length ≤ (d.erase key).size + orphans := by
  have hlt := length_unlinked h
  have herase := d.size_le_erase key
  omega

theorem get (h : Sturdy capacity orphans s) (now : TimePoint) (key : κ) :
    ∃ s' result, s.get now key = some (s', result) ∧ Sturdy capacity orphans s' := by
  obtain ⟨hcap, ps, howned, hsize, hbound⟩ := h
  cases hk : s.map_.get? key with
  | none =>
    exact ⟨{ s with metrics_ := s.metrics_.addMiss }, none, by rw [LRUCache.get, hk],
      hcap, ps, howned, hsize, hbound⟩
  | some a =>
    obtain ⟨before, after, e, rfl, he, rfl⟩ := howned.found hk
    have hentry : s.memory.entry (some (.node a)) = some e := he
    cases hexp : isExpired now e with
    | true =>
      obtain ⟨m₁, m₂, h₁, h₂, howned'⟩ := howned.unlink he
      refine ⟨{ s with
        memory := m₂
        map_ := s.map_.erase e.key
        metrics_ := s.metrics_.addMiss.addExpiration }, none, ?_, hcap, _, howned',
        size_unlinked hsize _, (length_unlinked hbound).le⟩
      simp [LRUCache.get, hk, hentry, hexp, h₁, h₂]
    | false =>
      obtain ⟨m₁, m₂, h₁, h₂, howned', hentries⟩ := howned.refresh
      have hentry₂ : m₂.entry (some (.node a)) = some e := by
        show m₂.entryOf a = some e
        rw [hentries, he]
      refine ⟨{ s with memory := m₂, metrics_ := s.metrics_.addHit }, some e.value, ?_, hcap, _,
        howned', ?_, ?_⟩
      · simp [LRUCache.get, hk, hentry, hexp, h₁, h₂, hentry₂]
      · rw [← List.perm_middle.length_eq]
        exact hsize
      · rw [← List.perm_middle.length_eq]
        exact hbound

theorem remove (h : Sturdy capacity orphans s) (key : κ) :
    ∃ s' removed, s.remove key = some (s', removed) ∧ Sturdy capacity orphans s' := by
  obtain ⟨hcap, ps, howned, hsize, hbound⟩ := h
  cases hk : s.map_.get? key with
  | none => exact ⟨s, false, by rw [LRUCache.remove, hk], hcap, ps, howned, hsize, hbound⟩
  | some a =>
    obtain ⟨before, after, e, rfl, he, rfl⟩ := howned.found hk
    obtain ⟨m₁, m₂, h₁, h₂, howned'⟩ := howned.unlink he
    refine ⟨{ s with
      memory := m₂
      map_ := s.map_.erase e.key
      metrics_ := s.metrics_.addDel }, true, ?_, hcap, _, howned', size_unlinked hsize _,
      (length_unlinked hbound).le⟩
    simp [LRUCache.remove, hk, h₁, h₂]

/-- After the eviction there is room for a node. -/
theorem room (h : Sturdy capacity orphans s) (hpos : 0 < capacity) :
    ∃ s₁ ps, (if s.capacity_ ≤ s.map_.size then s.evictLru else some s) = some s₁ ∧
      s₁.capacity_ = capacity ∧ Owned s₁.memory s₁.map_ ps ∧
      ps.length ≤ s₁.map_.size + orphans ∧ ps.length < capacity + orphans ∧
      ∀ k, s.map_.get? k = none → s₁.map_.get? k = none := by
  obtain ⟨hcap, ps, howned, hsize, hbound⟩ := h
  by_cases hfull : s.capacity_ ≤ s.map_.size
  · have hne : ps ≠ [] := by
      rintro rfl
      have hempty := howned.size_eq_zero
      omega
    obtain ⟨before, a, rfl⟩ : ∃ before a, ps = before ++ [a] :=
      ⟨_, _, (List.dropLast_append_getLast hne).symm⟩
    obtain ⟨e, he⟩ := Option.ne_none_iff_exists'.mp (howned.shape.allocated a (by simp))
    have hlast : s.memory.tail_.prev = some (.node a) := by
      have hprev := howned.shape.tail_prev
      simpa [Memory.prevOf, Memory.links] using hprev
    have hentry : s.memory.entry (some (.node a)) = some e := he
    obtain ⟨m₁, m₂, h₁, h₂, howned'⟩ := howned.unlink he
    refine ⟨{ s with
      memory := m₂
      map_ := s.map_.erase e.key
      metrics_ := s.metrics_.addEviction }, before ++ [], ?_, hcap, howned',
      size_unlinked hsize _, length_unlinked hbound, ?_⟩
    · rw [if_pos hfull]
      simp [LRUCache.evictLru, hlast, hentry, h₁, h₂]
    · intro k hk
      show (s.map_.erase e.key).get? k = none
      rw [Dict.get?_erase, hk, ite_self]
  · exact ⟨s, ps, if_neg hfull, hcap, howned, hsize, by omega, fun k hk => hk⟩

/-- Only an insertion into the map that throws leaves an orphan. -/
theorem putFailing (h : Sturdy capacity orphans s) (hpos : 0 < capacity)
    (fails : Allocation → Bool) (now : TimePoint) (key : κ) (value : ν) (ttlSeconds : UInt32) :
    ∃ s' returned, s.putFailing fails now key value ttlSeconds = some (s', returned) ∧
      Sturdy capacity (orphans + (fails .mapNode).toNat) s' := by
  cases hk : s.map_.get? key with
  | some a =>
    cases hcopy : fails .valueCopy with
    | true =>
      refine ⟨s, false, ?_, h.weaken (by omega)⟩
      rw [LRUCache.putFailing, hk]
      exact if_pos hcopy
    | false =>
      obtain ⟨hcap, ps, howned, hsize, hbound⟩ := h
      obtain ⟨before, after, e, rfl, he, rfl⟩ := howned.found hk
      obtain ⟨m₁, h₁, howned₁⟩ :=
        howned.overwrite he value (putExpiry now s.defaultTtlS_ ttlSeconds)
      obtain ⟨m₂, m₃, h₂, h₃, howned₃, _⟩ := howned₁.refresh
      have hkept : Sturdy capacity orphans
          { s with memory := m₃, metrics_ := s.metrics_.addPut } :=
        ⟨hcap, _, howned₃, List.perm_middle.length_eq ▸ hsize,
          List.perm_middle.length_eq ▸ hbound⟩
      refine ⟨_, true, ?_, hkept.weaken (by omega)⟩
      simp [LRUCache.putFailing, hk, hcopy, h₁, h₂, h₃]
  | none =>
    obtain ⟨s₁, ps, hroom, hcap, howned, hsize, hbound, hmissing⟩ := h.room hpos
    have hput : s.putFailing fails now key value ttlSeconds =
        s₁.insertFailing fails ⟨key, value, putExpiry now s.defaultTtlS_ ttlSeconds⟩ := by
      rw [LRUCache.putFailing, hk]
      dsimp only
      rw [hroom, Option.bind_some]
    rw [hput, LRUCache.insertFailing]
    have hkept : Sturdy capacity orphans s₁ := ⟨hcap, ps, howned, hsize, hbound.le⟩
    cases hentry : fails .entryCopy with
    | true => exact ⟨s₁, false, if_pos rfl, hkept.weaken (by omega)⟩
    | false =>
      cases hnode : fails .listNode with
      | true => exact ⟨s₁, false, by simp, hkept.weaken (by omega)⟩
      | false =>
        obtain ⟨m', hm, howned', hstored⟩ :=
          howned.push ⟨key, value, putExpiry now s.defaultTtlS_ ttlSeconds⟩
        cases hmap : fails .mapNode with
        | true =>
          refine ⟨{ s₁ with memory := m' }, false, by simp [hm], hcap, _, howned', ?_, ?_⟩
          · rw [List.length_cons, Bool.toNat_true, ← Nat.add_assoc]
            exact Nat.succ_le_succ hsize
          · rw [List.length_cons, Bool.toNat_true]
            omega
        | false =>
          refine ⟨{ s₁ with
            memory := m'
            map_ := s₁.map_.set key s₁.memory.nextAddr
            metrics_ := s₁.metrics_.addPut }, true, by simp [hm], hcap, _, howned'.set hstored,
            ?_, ?_⟩
          · show _ ≤ (s₁.map_.set key s₁.memory.nextAddr).size + _
            rw [Dict.size_set_of_none (hmissing key hk), List.length_cons]
            omega
          · rw [List.length_cons]
            omega

theorem put (h : Sturdy capacity orphans s) (hpos : 0 < capacity) (now : TimePoint) (key : κ)
    (value : ν) (ttlSeconds : UInt32) :
    ∃ s', s.put now key value ttlSeconds = some s' ∧ Sturdy capacity orphans s' := by
  obtain ⟨s', returned, hput, h'⟩ := h.putFailing hpos (fun _ => false) now key value ttlSeconds
  rw [LRUCache.putFailing_none] at hput
  obtain ⟨s'', hput', heq⟩ := Option.map_eq_some_iff.mp hput
  cases heq
  exact ⟨s', hput', h'⟩

theorem bulkLoad (entries : List (κ × ν × UInt32)) (h : Sturdy capacity orphans s)
    (hpos : 0 < capacity) (now : Nat → TimePoint) :
    ∃ s', LRUCache.bulkLoad now entries s = some s' ∧ Sturdy capacity orphans s' := by
  induction entries generalizing s now with
  | nil => exact ⟨s, rfl, h⟩
  | cons entry entries ih =>
    obtain ⟨key, value, ttl⟩ := entry
    obtain ⟨s₁, hput, h₁⟩ := h.put hpos (now 0) key value ttl
    obtain ⟨s', hload, h'⟩ := ih h₁ fun i => now (i + 1)
    exact ⟨s', by simp [LRUCache.bulkLoad, hput, hload], h'⟩

/-- The traversal is induced on the nodes still to visit. -/
theorem purgeLoop (rest : List Nat) {kept : List Nat} (now : Nat → TimePoint)
    (howned : Owned s.memory s.map_ (kept ++ rest)) (hcap : s.capacity_ = capacity)
    (hsize : (kept ++ rest).length ≤ s.map_.size + orphans)
    (hbound : (kept ++ rest).length ≤ capacity + orphans) {fuel : Nat} (hfuel : rest.length < fuel)
    (count : Nat) :
    ∃ s' n, LRUCache.purgeLoop fuel now s (some (firstPtr rest)) count = some (s', n) ∧
      Sturdy capacity orphans s' := by
  induction rest generalizing kept s now fuel count with
  | nil =>
    obtain ⟨fuel, rfl⟩ : ∃ n, fuel = n + 1 := ⟨fuel - 1, by simp at hfuel; omega⟩
    exact ⟨s, count, by simp [LRUCache.purgeLoop], hcap, _, howned, hsize, hbound⟩
  | cons a rest ih =>
    obtain ⟨fuel, rfl⟩ : ∃ n, fuel = n + 1 := ⟨fuel - 1, by simp at hfuel; omega⟩
    have hfuel' : rest.length < fuel := by simpa using hfuel
    have hcell := howned.shape.allocated a (by simp)
    obtain ⟨e, he⟩ := Option.ne_none_iff_exists'.mp hcell
    have hentry : s.memory.entry (some (.node a)) = some e := he
    have hload := Memory.load_spec (Memory.valid_node_iff.mpr hcell)
    rw [howned.shape.node_next] at hload
    cases hexp : isExpired (now 0) e with
    | true =>
      obtain ⟨m₁, m₂, h₁, h₂, howned'⟩ := howned.unlink he
      let s₁ : LRUCache κ ν := { s with
        memory := m₂
        map_ := s.map_.erase e.key
        metrics_ := s.metrics_.addExpiration }
      obtain ⟨s', n, hrun, h'⟩ := ih (s := s₁) (fun i => now (i + 1)) howned' hcap
        (size_unlinked hsize _) (length_unlinked hbound).le hfuel' (count + 1)
      refine ⟨s', n, ?_, h'⟩
      rw [← hrun]
      simp [LRUCache.purgeLoop, hload, hentry, hexp, h₁, h₂, s₁]
    | false =>
      have howned' : Owned s.memory s.map_ (kept ++ [a] ++ rest) := by simpa using howned
      obtain ⟨s', n, hrun, h'⟩ := ih (fun i => now (i + 1)) howned' hcap
        (by simpa using hsize) (by simpa using hbound) hfuel' count
      refine ⟨s', n, ?_, h'⟩
      rw [← hrun]
      simp [LRUCache.purgeLoop, hload, hentry, hexp]

theorem purgeExpired (h : Sturdy capacity orphans s) (now : Nat → TimePoint) :
    ∃ s' n, s.purgeExpired now = some (s', n) ∧ Sturdy capacity orphans s' := by
  obtain ⟨hcap, ps, howned, hsize, hbound⟩ := h
  have howned' : Owned s.memory s.map_ ([] ++ ps) := howned
  rw [LRUCache.purgeExpired, howned.shape.first_node]
  exact purgeLoop ps now howned' hcap hsize hbound
    (Nat.lt_succ_of_le howned.shape.length_le_nextAddr) 0

theorem clear (h : Sturdy capacity orphans s) :
    ∃ s', s.clear = some s' ∧ Sturdy capacity orphans s' := by
  obtain ⟨hcap, ps, howned, _, _⟩ := h
  obtain ⟨m₁, hloop, hempty, hhead, htail⟩ := howned.freed
  obtain ⟨m₂, h₂, hsame₂, hnext₂, hprev₂⟩ := Memory.storeNext_spec (m := m₁) (p := .head)
    (by simp [Memory.Valid, Memory.links]) (some .tail)
  obtain ⟨m₃, h₃, hsame₃, hnext₃, hprev₃⟩ := Memory.storePrev_spec (m := m₂) (p := .tail)
    (by simp [Memory.Valid, Memory.links]) (some .head)
  refine ⟨{ s with memory := m₃, map_ := ∅ }, by simp [LRUCache.clear, hloop, h₂, h₃], hcap, [],
    ⟨⟨?_, List.nodup_nil, by simp, ?_, ?_⟩, ?_, ?_⟩, by simp, by simp⟩
  · refine List.isChain_cons_cons.mpr ⟨⟨?_, ?_⟩, List.isChain_singleton _⟩
    · rw [hnext₃, hnext₂, Function.update_self]
    · rw [hprev₃, Function.update_self]
  · rw [hprev₃, Function.update_of_ne (by simp), hprev₂, Memory.prevOf, hhead]
    exact howned.shape.head_prev
  · rw [hnext₃, hnext₂, Function.update_of_ne (by simp), Memory.nextOf, htail]
    exact howned.shape.tail_next
  · intro k a hk
    cases hk
  · intro a ha
    rw [hsame₃.entries, hsame₂.entries, hempty a] at ha
    exact absurd rfl ha

theorem step (h : Sturdy capacity orphans s) (hpos : 0 < capacity)
    (history : List (Happening κ ν)) (op : Op κ ν) :
    ∃ s' history', LRUCache.step (s, history) op = some (s', history') ∧
      Sturdy capacity orphans s' := by
  cases op with
  | get now key =>
    obtain ⟨s', result, hget, h'⟩ := h.get now key
    exact ⟨s', _, by simp only [LRUCache.step, hget]; rfl, h'⟩
  | put now key value ttlSeconds =>
    obtain ⟨s', hput, h'⟩ := h.put hpos now key value ttlSeconds
    exact ⟨s', _, by simp only [LRUCache.step, hput]; rfl, h'⟩
  | remove key =>
    obtain ⟨s', removed, hremove, h'⟩ := h.remove key
    exact ⟨s', _, by simp only [LRUCache.step, hremove]; rfl, h'⟩
  | purgeExpired now =>
    obtain ⟨s', n, hpurge, h'⟩ := h.purgeExpired now
    exact ⟨s', _, by simp only [LRUCache.step, hpurge]; rfl, h'⟩
  | bulkLoad now entries =>
    obtain ⟨s', hload, h'⟩ := bulkLoad entries h hpos now
    exact ⟨s', _, by simp only [LRUCache.step, hload]; rfl, h'⟩
  | clear =>
    obtain ⟨s', hclear, h'⟩ := h.clear
    exact ⟨s', _, by simp only [LRUCache.step, hclear]; rfl, h'⟩

theorem attempt (h : Sturdy capacity orphans s) (hpos : 0 < capacity)
    (history : List (Happening κ ν)) (a : Attempt κ ν) :
    ∃ s' history', LRUCache.attempt (s, history) a = some (s', history') ∧
      Sturdy capacity (orphans + a.mapFails.toNat) s' := by
  cases a with
  | call op => exact h.step hpos history op
  | put fails now key value ttlSeconds =>
    obtain ⟨s', returned, hput, h'⟩ := h.putFailing hpos fails now key value ttlSeconds
    exact ⟨s', _, by simp only [LRUCache.attempt, hput]; rfl, h'⟩

theorem attempts (h : Sturdy capacity 0 s) (hpos : 0 < capacity) (as : List (Attempt κ ν)) :
    ∃ s' history, s.attempts as = some (s', history) ∧
      Sturdy capacity (as.countP Attempt.mapFails) s' := by
  induction as using List.reverseRecOn with
  | nil => exact ⟨s, [], rfl, h⟩
  | append_singleton past a ih =>
    obtain ⟨mid, history, hrun, hmid⟩ := ih
    obtain ⟨s', history', hstep, h'⟩ := hmid.attempt hpos history a
    refine ⟨s', history', runs_snoc_eq_some.mpr ⟨_, hrun, hstep⟩, ?_⟩
    rw [List.countP_append, List.countP_singleton]
    cases ha : a.mapFails with
    | false => simpa [ha] using h'
    | true => simpa [ha] using h'

theorem contains (h : Sturdy capacity orphans s) (now : TimePoint) (key : κ) :
    ∃ result, s.contains now key = some result := by
  obtain ⟨_, ps, howned, _, _⟩ := h
  cases hk : s.map_.get? key with
  | none => exact ⟨false, by rw [LRUCache.contains, hk]⟩
  | some a =>
    obtain ⟨e, he, _⟩ := howned.index key a hk
    have hentry : s.memory.entry (some (.node a)) = some e := he
    exact ⟨!isExpired now e, by simp [LRUCache.contains, hk, hentry]⟩

theorem keys (h : Sturdy capacity orphans s) (now : Nat → TimePoint) :
    ∃ result, s.keys now = some result := by
  obtain ⟨_, ps, howned, _, _⟩ := h
  obtain ⟨_, result, hloop, _⟩ := keysLoop_spec s.memory s.map_.items s.map_.nodup
    (fun p hp => howned.index p.1 p.2 (Dict.get?_eq_some.mpr hp)) now
  exact ⟨result, hloop⟩

omit [DecidableEq κ] in
theorem snapshotLoop (start : TimePoint) (rest : List Nat) {kept : List Nat} {m : Memory κ ν}
    (h : Shape m (kept ++ rest)) (now : Nat → TimePoint) {fuel : Nat} (hfuel : rest.length < fuel) :
    ∃ result, LRUCache.snapshotLoop start fuel now m (some (firstPtr rest)) = some result := by
  induction rest generalizing kept now fuel with
  | nil =>
    obtain ⟨fuel, rfl⟩ : ∃ n, fuel = n + 1 := ⟨fuel - 1, by simp at hfuel; omega⟩
    exact ⟨[], by simp [LRUCache.snapshotLoop]⟩
  | cons a rest ih =>
    obtain ⟨fuel, rfl⟩ : ∃ n, fuel = n + 1 := ⟨fuel - 1, by simp at hfuel; omega⟩
    have hcell := h.allocated a (by simp)
    obtain ⟨e, he⟩ := Option.ne_none_iff_exists'.mp hcell
    have hentry : m.entry (some (.node a)) = some e := he
    have hload := Memory.load_spec (Memory.valid_node_iff.mpr hcell)
    rw [h.node_next] at hload
    have h' : Shape m (kept ++ [a] ++ rest) := by simpa using h
    have hfuel' : rest.length < fuel := by simpa using hfuel
    obtain ⟨result, hrest⟩ := ih h' (fun i => now (i + 1)) hfuel'
    exact ⟨if isExpired (now 0) e then result
      else (e.key, e.value, remainingTtl start e) :: result, by
        simp [LRUCache.snapshotLoop, hentry, hload, hrest]⟩

theorem snapshot (h : Sturdy capacity orphans s) (start : TimePoint) (now : Nat → TimePoint) :
    ∃ result, s.snapshot start now = some result := by
  obtain ⟨_, ps, howned, _, _⟩ := h
  have hshape : Shape s.memory ([] ++ ps) := howned.shape
  rw [LRUCache.snapshot, howned.shape.first_node]
  exact snapshotLoop start ps hshape now
    (Nat.lt_succ_of_le howned.shape.length_le_nextAddr)

theorem destruct (h : Sturdy capacity orphans s) :
    ∃ m, s.destruct = some m ∧ ∀ a, m.cells a = none := by
  obtain ⟨_, ps, howned, _, _⟩ := h
  obtain ⟨m, hloop, hempty, _⟩ := howned.freed
  exact ⟨m, hloop, fun a => Option.map_eq_none_iff.mp (hempty a)⟩

end Sturdy

namespace LRUCache

/-- Whatever allocations fail in a run, every call and the destructor return without a null or
dangling pointer or a node freed twice, all nodes are freed in the end, and until then there are
at most `capacity` of them and one for each insertion into the map that threw. -/
theorem lifetime_memory_safe (capacity : Nat) (defaultTtlS : UInt32) {start : LRUCache κ ν}
    (hstart : construct capacity defaultTtlS = .ok start) (as : List (Attempt κ ν)) :
    ∃ s history, start.attempts as = some (s, history) ∧
      s.memory.allocated ≤ capacity + as.countP Attempt.mapFails ∧
      (∀ now key, ∃ result, s.contains now key = some result) ∧
      (∀ now, ∃ result, s.keys now = some result) ∧
      (∀ start now, ∃ result, s.snapshot start now = some result) ∧
      ∃ m, s.destruct = some m ∧ ∀ a, m.cells a = none := by
  obtain ⟨hpos, _⟩ := construct_ok hstart
  have hinit : Sturdy capacity 0 start := by
    rw [construct, if_neg hpos.ne'] at hstart
    cases hstart
    exact ⟨rfl, [], owned_init, by simp, by simp⟩
  obtain ⟨s, history, hrun, h⟩ := hinit.attempts hpos as
  refine ⟨s, history, hrun, ?_, h.contains, h.keys, h.snapshot, h.destruct⟩
  obtain ⟨_, ps, howned, _, hbound⟩ := h
  rw [howned.allocated_eq]
  exact hbound

/-- The orphan of a failed put takes a place of its own until it is evicted. -/
theorem lifetime_memory_safe_orphan : ∃ start : LRUCache String String,
    construct 1 0 = .ok start ∧ ∃ s history,
      start.attempts [.put (fun a => a = .mapNode) 0 "a" "x" 0, .call (.put 1 "a" "y" 0)] =
        some (s, history) ∧ s.memory.allocated = 2 ∧
      ∃ m, s.destruct = some m ∧ ∀ a, m.cells a = none := by
  refine ⟨_, rfl, ?_⟩
  obtain ⟨s, history, hrun, _, _, _, _, hdestruct⟩ := lifetime_memory_safe 1 0 rfl
    [Attempt.put (fun a => a = .mapNode) 0 "a" "x" 0, .call (.put 1 "a" "y" 0)]
  refine ⟨s, history, hrun, ?_, hdestruct⟩
  cases hrun
  rfl

end LRUCache

end SelfHealingCache
