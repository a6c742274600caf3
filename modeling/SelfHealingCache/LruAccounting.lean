import SelfHealingCache.LruRefinement
import SelfHealingCache.LruInvariant

namespace SelfHealingCache

variable {κ ν : Type} [DecidableEq κ]

/-- What an observer of the calls counts: the gets, the puts (those of a bulk
load one by one), the removes that returned true, the puts that inserted a new
key and the entries dropped by clear. -/
structure Tally where
  gets : Nat := 0
  puts : Nat := 0
  removals : Nat := 0
  inserted : Nat := 0
  cleared : Nat := 0

def Tally.addPut (t : Tally) (present : Bool) : Tally :=
  { t with puts := t.puts + 1, inserted := if present then t.inserted else t.inserted + 1 }

def Tally.addRemove (t : Tally) (removed : Bool) : Tally :=
  { t with removals := if removed then t.removals + 1 else t.removals }

namespace LRUCache

def countedPut (s : LRUCache κ ν × Tally) (now : TimePoint) (key : κ) (value : ν)
    (ttlSeconds : UInt32) : Option (LRUCache κ ν × Tally) := do
  let c ← s.1.put now key value ttlSeconds
  some (c, s.2.addPut (s.1.map_.get? key).isSome)

def countedLoad : (Nat → TimePoint) → List (κ × ν × UInt32) → LRUCache κ ν × Tally →
    Option (LRUCache κ ν × Tally)
  | _, [], s => some s
  | now, (key, value, ttl) :: entries, s => do
    let s ← countedPut s (now 0) key value ttl
    countedLoad (fun i => now (i + 1)) entries s

/-- One call, counted. -/
def countedStep (s : LRUCache κ ν × Tally) : Op κ ν → Option (LRUCache κ ν × Tally)
  | .get now key => do
    let (c, _) ← s.1.get now key
    some (c, { s.2 with gets := s.2.gets + 1 })
  | .put now key value ttlSeconds => countedPut s now key value ttlSeconds
  | .remove key => do
    let (c, removed) ← s.1.remove key
    some (c, s.2.addRemove removed)
  | .purgeExpired now => do
    let (c, _) ← s.1.purgeExpired now
    some (c, s.2)
  | .bulkLoad now entries => countedLoad now entries s
  | .clear => do
    let c ← s.1.clear
    some (c, { s.2 with cleared := s.2.cleared + s.1.map_.size })

def countedRun (c : LRUCache κ ν) (ops : List (Op κ ν)) : Option (LRUCache κ ν × Tally) :=
  runs countedStep (c, {}) ops

end LRUCache

namespace LruStore

def countedPut (s : LruStore κ ν × Tally) (now : TimePoint) (key : κ) (value : ν)
    (ttlSeconds : UInt32) : LruStore κ ν × Tally :=
  (s.1.put now key value ttlSeconds, s.2.addPut (s.1.find? key).isSome)

def countedLoad : (Nat → TimePoint) → List (κ × ν × UInt32) → LruStore κ ν × Tally →
    LruStore κ ν × Tally
  | _, [], s => s
  | now, (key, value, ttl) :: entries, s =>
    countedLoad (fun i => now (i + 1)) entries (countedPut s (now 0) key value ttl)

def countedStep (s : LruStore κ ν × Tally) : Op κ ν → LruStore κ ν × Tally
  | .get now key => ((s.1.get now key).1, { s.2 with gets := s.2.gets + 1 })
  | .put now key value ttlSeconds => countedPut s now key value ttlSeconds
  | .remove key => ((s.1.remove key).1, s.2.addRemove (s.1.remove key).2)
  | .purgeExpired now => ((s.1.purgeExpired now).1, s.2)
  | .bulkLoad now entries => countedLoad now entries s
  | .clear => (s.1.clear, { s.2 with cleared := s.2.cleared + s.1.entries.length })

/-- Every entry that was inserted is still there or left through one counted exit. -/
structure Balanced (c : LruStore κ ν) (t : Tally) : Prop where
  reads : c.metrics.hits + c.metrics.misses = UInt64.ofNat t.gets
  puts : c.metrics.totalPuts = UInt64.ofNat t.puts
  dels : c.metrics.totalDels = UInt64.ofNat t.removals
  flow : UInt64.ofNat t.inserted = UInt64.ofNat c.entries.length + c.metrics.evictions +
    c.metrics.expirations + c.metrics.totalDels + UInt64.ofNat t.cleared

theorem length_without {c : LruStore κ ν} {key : κ} {e : CacheEntry κ ν}
    (h : c.find? key = some e) : c.entries.length = (without key c.entries).length + 1 := by
  obtain ⟨he, hkey⟩ := find?_eq_some.mp h
  obtain ⟨before, after, hsplit⟩ := List.append_of_mem he
  have hnodup := c.keys_nodup
  rw [hsplit, List.map_append, List.map_cons, List.nodup_middle] at hnodup
  have hne : ∀ x ∈ before ++ after, x.key ≠ e.key := by
    intro x hx heq
    have hm := List.mem_map_of_mem (f := CacheEntry.key) hx
    rw [heq, List.map_append] at hm
    exact (List.nodup_cons.mp hnodup).1 hm
  rw [← hkey, hsplit, without_split hne, List.length_append, List.length_append,
    List.length_cons]
  omega

omit [DecidableEq κ] in
theorem length_unexpired (now : Nat → TimePoint) (entries : List (CacheEntry κ ν)) :
    entries.length = (unexpired now entries).length + expiredCount now entries := by
  induction entries generalizing now with
  | nil => rfl
  | cons e entries ih =>
    have hrest := ih fun i => now (i + 1)
    unfold unexpired expiredCount
    split
    · rw [List.length_cons]
      omega
    · rw [List.length_cons, List.length_cons]
      omega

theorem iterate_addExpiration (n : Nat) (m : CacheMetrics) :
    Nat.iterate CacheMetrics.addExpiration n m =
      { m with expirations := m.expirations + UInt64.ofNat n } := by
  induction n generalizing m with
  | zero => simp
  | succ n ih =>
    rw [Function.iterate_succ_apply, ih, CacheMetrics.addExpiration, UInt64.ofNat_add]
    congr 1
    grind

omit [DecidableEq κ] in
theorem balanced_of_parts {c : LruStore κ ν} {t : Tally} {capacity : Nat} {ttl : UInt32}
    {entries : List (CacheEntry κ ν)} {m : CacheMetrics}
    (h : c.parts = (capacity, ttl, entries, m))
    (hreads : m.hits + m.misses = UInt64.ofNat t.gets)
    (hputs : m.totalPuts = UInt64.ofNat t.puts)
    (hdels : m.totalDels = UInt64.ofNat t.removals)
    (hflow : UInt64.ofNat t.inserted = UInt64.ofNat entries.length + m.evictions +
      m.expirations + m.totalDels + UInt64.ofNat t.cleared) : Balanced c t := by
  obtain ⟨_, _, rfl, rfl⟩ := LruStore.parts_eq.mp h
  exact ⟨hreads, hputs, hdels, hflow⟩

theorem Balanced.get {c : LruStore κ ν} {t : Tally} (h : Balanced c t) (now : TimePoint)
    (key : κ) : Balanced (c.get now key).1 { t with gets := t.gets + 1 } := by
  obtain ⟨hreads, hputs, hdels, hflow⟩ := h
  cases hf : c.find? key with
  | none =>
    refine balanced_of_parts (get_missing hf now).2 ?_ hputs hdels hflow
    simp only [CacheMetrics.addMiss, UInt64.ofNat_add]
    grind
  | some e =>
    have hlen := length_without hf
    rw [hlen, UInt64.ofNat_add] at hflow
    cases hexp : isExpired now e with
    | true =>
      refine balanced_of_parts (get_expired hf hexp).2 ?_ hputs hdels ?_
      · simp only [CacheMetrics.addMiss, CacheMetrics.addExpiration, UInt64.ofNat_add]
        grind
      · simp only [CacheMetrics.addMiss, CacheMetrics.addExpiration]
        grind
    | false =>
      refine balanced_of_parts (get_hit hf hexp).2 ?_ hputs hdels ?_
      · simp only [CacheMetrics.addHit, UInt64.ofNat_add]
        grind
      · rw [List.length_cons, UInt64.ofNat_add]
        exact hflow

theorem Balanced.put {c : LruStore κ ν} {t : Tally} (h : Balanced c t) (now : TimePoint)
    (key : κ) (value : ν) (ttlSeconds : UInt32) :
    Balanced (countedPut (c, t) now key value ttlSeconds).1
      (countedPut (c, t) now key value ttlSeconds).2 := by
  obtain ⟨hreads, hputs, hdels, hflow⟩ := h
  have hputs' : c.metrics.totalPuts + 1 = UInt64.ofNat (t.puts + 1) := by
    rw [UInt64.ofNat_add, hputs]
    rfl
  cases hf : c.find? key with
  | some e =>
    -- an update replaces the entry of the key
    have hlen := length_without hf
    rw [hlen] at hflow
    have hparts := put_update hf now value ttlSeconds
    rw [countedPut, hf]
    exact balanced_of_parts hparts hreads hputs' hdels hflow
  | none =>
    have hparts := put_insert hf now value ttlSeconds
    rw [countedPut, hf]
    by_cases hfull : c.capacity ≤ c.entries.length
    · -- the evicted entry makes room for the inserted one
      have hpos := c.capacity_pos
      have hroom : c.entries.length = c.makeRoom.length + 1 := by
        rw [makeRoom, if_pos hfull, List.length_dropLast]
        omega
      rw [if_pos hfull] at hparts
      rw [hroom, UInt64.ofNat_add] at hflow
      refine balanced_of_parts hparts hreads hputs' hdels ?_
      simp only [Tally.addPut, Option.isSome_none, Bool.false_eq_true, ↓reduceIte,
        CacheMetrics.addEviction, CacheMetrics.addPut, List.length_cons, UInt64.ofNat_add]
      grind
    · have hroom : c.makeRoom = c.entries := by rw [makeRoom, if_neg hfull]
      rw [if_neg hfull, hroom] at hparts
      refine balanced_of_parts hparts hreads hputs' hdels ?_
      simp only [Tally.addPut, Option.isSome_none, Bool.false_eq_true, ↓reduceIte,
        CacheMetrics.addPut, List.length_cons, UInt64.ofNat_add]
      grind

theorem Balanced.load (entries : List (κ × ν × UInt32)) {s : LruStore κ ν × Tally}
    (h : Balanced s.1 s.2) (now : Nat → TimePoint) :
    Balanced (countedLoad now entries s).1 (countedLoad now entries s).2 := by
  induction entries generalizing now s with
  | nil => exact h
  | cons entry entries ih =>
    obtain ⟨key, value, ttl⟩ := entry
    exact ih (h.put (now 0) key value ttl) _

theorem Balanced.remove {c : LruStore κ ν} {t : Tally} (h : Balanced c t) (key : κ) :
    Balanced (c.remove key).1 (t.addRemove (c.remove key).2) := by
  cases hf : c.find? key with
  | none =>
    rw [remove_missing hf]
    exact h
  | some e =>
    obtain ⟨hreads, hputs, hdels, hflow⟩ := h
    obtain ⟨htrue, hparts⟩ := remove_found hf
    have hlen := length_without hf
    rw [hlen, UInt64.ofNat_add] at hflow
    rw [htrue]
    refine balanced_of_parts hparts hreads hputs ?_ ?_
    · simp only [Tally.addRemove, CacheMetrics.addDel, ↓reduceIte, UInt64.ofNat_add, hdels]
      rfl
    · simp only [Tally.addRemove, CacheMetrics.addDel]
      grind

omit [DecidableEq κ] in
theorem Balanced.purgeExpired {c : LruStore κ ν} {t : Tally} (h : Balanced c t)
    (now : Nat → TimePoint) : Balanced (c.purgeExpired now).1 t := by
  obtain ⟨hreads, hputs, hdels, hflow⟩ := h
  have hlen := length_unexpired now c.entries
  have hparts : (c.purgeExpired now).1.parts = (c.capacity, c.defaultTtlS,
      unexpired now c.entries, { c.metrics with
        expirations := c.metrics.expirations + UInt64.ofNat (expiredCount now c.entries) }) := by
    rw [← iterate_addExpiration]
    rfl
  rw [hlen, UInt64.ofNat_add] at hflow
  refine balanced_of_parts hparts hreads hputs hdels ?_
  dsimp only
  grind

theorem Balanced.step {s : LruStore κ ν × Tally} (h : Balanced s.1 s.2) (op : Op κ ν) :
    Balanced (countedStep s op).1 (countedStep s op).2 := by
  cases op with
  | get now key => exact h.get now key
  | put now key value ttlSeconds => exact h.put now key value ttlSeconds
  | remove key => exact h.remove key
  | purgeExpired now => exact h.purgeExpired now
  | bulkLoad now entries => exact Balanced.load entries h now
  | clear =>
    obtain ⟨hreads, hputs, hdels, hflow⟩ := h
    have hparts : s.1.clear.parts = (s.1.capacity, s.1.defaultTtlS, [], s.1.metrics) := rfl
    refine balanced_of_parts hparts hreads hputs hdels ?_
    simp only [countedStep, List.length_nil, UInt64.ofNat_add]
    grind

def countedRun (c : LruStore κ ν) (ops : List (Op κ ν)) : LruStore κ ν × Tally :=
  ops.foldl countedStep (c, {})

omit [DecidableEq κ] in
theorem balanced_init {capacity : Nat} (defaultTtlS : UInt32) (h : 0 < capacity) :
    Balanced (init capacity defaultTtlS h : LruStore κ ν) {} := by
  constructor <;> rfl

theorem countedRun_balanced {c : LruStore κ ν} (h : Balanced c {}) (ops : List (Op κ ν)) :
    Balanced (c.countedRun ops).1 (c.countedRun ops).2 :=
  foldl_invariant (I := fun s : LruStore κ ν × Tally => Balanced s.1 s.2)
    (fun _ op hs => hs.step op) ops h

end LruStore

theorem Refines.isSome_get? {s : LRUCache κ ν} {c : LruStore κ ν} (h : Refines s c) (key : κ) :
    (s.map_.get? key).isSome = (c.find? key).isSome := by
  have hfind : (∃ e ∈ c.entries, e.key = key) ↔ ∃ e, c.find? key = some e :=
    exists_congr fun e => LruStore.find?_eq_some.symm
  rw [Bool.eq_iff_iff, Option.isSome_iff_exists, Option.isSome_iff_exists, ← Dict.mem_keys_iff,
    h.mem_keys, hfind]

theorem Refines.size_eq {s : LRUCache κ ν} {c : LruStore κ ν} (h : Refines s c) :
    s.map_.size = c.entries.length := by
  obtain ⟨nodes, hrep, hparts⟩ := h
  have hentries := (LruStore.parts_eq.mp hparts).2.2.1
  rw [hrep.size_eq, hentries, List.length_map]

theorem Refines.metrics_eq {s : LRUCache κ ν} {c : LruStore κ ν} (h : Refines s c) :
    s.metrics_ = c.metrics := by
  obtain ⟨nodes, _, hparts⟩ := h
  exact (LruStore.parts_eq.mp hparts).2.2.2.symm

theorem countedPut_refines {s : LRUCache κ ν} {c : LruStore κ ν} (h : Refines s c) (t : Tally)
    (now : TimePoint) (key : κ) (value : ν) (ttlSeconds : UInt32) :
    ∃ s', LRUCache.countedPut (s, t) now key value ttlSeconds =
        some (s', (LruStore.countedPut (c, t) now key value ttlSeconds).2) ∧
      Refines s' (LruStore.countedPut (c, t) now key value ttlSeconds).1 := by
  obtain ⟨s', hput, h'⟩ := put_refines h now key value ttlSeconds
  exact ⟨s', by simp [LRUCache.countedPut, LruStore.countedPut, hput, h.isSome_get?], h'⟩

theorem countedLoad_refines (entries : List (κ × ν × UInt32)) {s : LRUCache κ ν}
    {c : LruStore κ ν} (h : Refines s c) (t : Tally) (now : Nat → TimePoint) :
    ∃ s', LRUCache.countedLoad now entries (s, t) =
        some (s', (LruStore.countedLoad now entries (c, t)).2) ∧
      Refines s' (LruStore.countedLoad now entries (c, t)).1 := by
  induction entries generalizing now s c t with
  | nil => exact ⟨s, rfl, h⟩
  | cons entry entries ih =>
    obtain ⟨key, value, ttl⟩ := entry
    obtain ⟨mid, hput, hmid⟩ := countedPut_refines h t (now 0) key value ttl
    obtain ⟨s', hload, h'⟩ := ih hmid _ fun i => now (i + 1)
    exact ⟨s', by rw [LRUCache.countedLoad, hput]; exact hload, h'⟩

theorem countedStep_refines {s : LRUCache κ ν} {c : LruStore κ ν} (h : Refines s c) (t : Tally)
    (op : Op κ ν) :
    ∃ s', LRUCache.countedStep (s, t) op = some (s', (LruStore.countedStep (c, t) op).2) ∧
      Refines s' (LruStore.countedStep (c, t) op).1 := by
  cases op with
  | get now key =>
    obtain ⟨s', hget, h'⟩ := get_refines h now key
    exact ⟨s', by simp [LRUCache.countedStep, hget, LruStore.countedStep], h'⟩
  | put now key value ttlSeconds => exact countedPut_refines h t now key value ttlSeconds
  | remove key =>
    obtain ⟨s', hremove, h'⟩ := remove_refines h key
    exact ⟨s', by simp [LRUCache.countedStep, hremove, LruStore.countedStep], h'⟩
  | purgeExpired now =>
    obtain ⟨s', hpurge, h'⟩ := purgeExpired_refines h now
    exact ⟨s', by simp [LRUCache.countedStep, hpurge, LruStore.countedStep], h'⟩
  | bulkLoad now entries => exact countedLoad_refines entries h t now
  | clear =>
    obtain ⟨s', hclear, h'⟩ := clear_refines h
    exact ⟨s', by simp [LRUCache.countedStep, hclear, LruStore.countedStep, h.size_eq], h'⟩

theorem countedRun_refines {s : LRUCache κ ν} {c : LruStore κ ν} (h : Refines s c)
    (ops : List (Op κ ν)) :
    ∃ s', s.countedRun ops = some (s', (c.countedRun ops).2) ∧
      Refines s' (c.countedRun ops).1 := by
  induction ops using List.reverseRecOn with
  | nil => exact ⟨s, rfl, h⟩
  | append_singleton past op ih =>
    obtain ⟨mid, hrun, hmid⟩ := ih
    obtain ⟨s', hstep, h'⟩ := countedStep_refines hmid (c.countedRun past).2 op
    have hsnoc : c.countedRun (past ++ [op]) =
        LruStore.countedStep (c.countedRun past) op := by
      rw [LruStore.countedRun, List.foldl_append]
      rfl
    rw [hsnoc]
    exact ⟨s', runs_snoc_eq_some.mpr ⟨_, hrun, hstep⟩, h'⟩

namespace LRUCache

theorem countedLoad_fst (entries : List (κ × ν × UInt32)) (now : Nat → TimePoint)
    (s : LRUCache κ ν × Tally) :
    (countedLoad now entries s).map Prod.fst = bulkLoad now entries s.1 := by
  induction entries generalizing now s with
  | nil => rfl
  | cons entry entries ih =>
    obtain ⟨key, value, ttl⟩ := entry
    unfold countedLoad countedPut bulkLoad
    cases s.1.put (now 0) key value ttl with
    | none => rfl
    | some c => exact ih _ _

/-- Counting a call does not change what it does. -/
theorem countedStep_fst (c : LRUCache κ ν) (t : Tally) (history : List (Happening κ ν))
    (op : Op κ ν) :
    (countedStep (c, t) op).map Prod.fst = (step (c, history) op).map Prod.fst := by
  cases op with
  | get now key => cases h : c.get now key <;> simp [countedStep, step, h]
  | put now key value ttlSeconds =>
    cases h : c.put now key value ttlSeconds <;> simp [countedStep, countedPut, step, h]
  | remove key => cases h : c.remove key <;> simp [countedStep, step, h]
  | purgeExpired now => cases h : c.purgeExpired now <;> simp [countedStep, step, h]
  | bulkLoad now entries =>
    have hload := countedLoad_fst entries now (c, t)
    cases h : bulkLoad now entries c <;> simp [countedStep, step, h, hload]
  | clear => cases h : c.clear <;> simp [countedStep, step, h]

theorem countedRun_fst (c : LRUCache κ ν) (ops : List (Op κ ν)) :
    (c.countedRun ops).map Prod.fst = (c.run ops).map Prod.fst := by
  induction ops using List.reverseRecOn with
  | nil => rfl
  | append_singleton past op ih =>
    unfold countedRun run at ih ⊢
    rw [runs_append, runs_append]
    cases hc : runs countedStep (c, {}) past with
    | none =>
      rw [hc, Option.map_none, eq_comm, Option.map_eq_none_iff] at ih
      rw [ih]
      rfl
    | some p =>
      obtain ⟨mid, t⟩ := p
      rw [hc, Option.map_some, eq_comm, Option.map_eq_some_iff] at ih
      obtain ⟨⟨mid', history⟩, hrun, rfl⟩ := ih
      have hstep := countedStep_fst mid' t history op
      rw [hrun]
      simpa [runs_cons] using hstep

end LRUCache

/-- Every entry that enters the cache leaves through exactly one counted exit,
and the calls are counted without a miss or a double count. -/
theorem accounting_balances {capacity : Nat} {defaultTtlS : UInt32} {s : LRUCache κ ν}
    (hs : LRUCache.construct capacity defaultTtlS = .ok s) (ops : List (Op κ ν)) :
    ∃ s' t, s.countedRun ops = some (s', t) ∧ (s.run ops).map Prod.fst = some s' ∧
      s'.metrics_.hits + s'.metrics_.misses = UInt64.ofNat t.gets ∧
      s'.metrics_.totalPuts = UInt64.ofNat t.puts ∧
      s'.metrics_.totalDels = UInt64.ofNat t.removals ∧
      UInt64.ofNat t.inserted = UInt64.ofNat s'.map_.size + s'.metrics_.evictions +
        s'.metrics_.expirations + s'.metrics_.totalDels + UInt64.ofNat t.cleared := by
  obtain ⟨hcap, hinit⟩ := construct_ok hs
  obtain ⟨s', hrun, h'⟩ := countedRun_refines hinit ops
  have hb := LruStore.countedRun_balanced (LruStore.balanced_init defaultTtlS hcap) ops
  obtain ⟨hreads, hputs, hdels, hflow⟩ := hb
  rw [← h'.metrics_eq] at hreads hputs hdels hflow
  rw [← h'.size_eq] at hflow
  have hsame := LRUCache.countedRun_fst s ops
  rw [hrun] at hsame
  exact ⟨s', _, hrun, hsame.symm, hreads, hputs, hdels, hflow⟩

/-- One slot: the second key evicts the first, expires, and is dropped by a get. -/
theorem accounting_balances_one_slot :
    ∃ (s s' : LRUCache String String) (t : Tally), LRUCache.construct 1 0 = .ok s ∧
      s.countedRun [.put 0 "a" "x" 0, .bulkLoad (fun _ => 0) [("b", "y", 1)],
        .get 1000000000 "b"] = some (s', t) ∧
      UInt64.ofNat t.inserted = UInt64.ofNat s'.map_.size + s'.metrics_.evictions +
        s'.metrics_.expirations + s'.metrics_.totalDels + UInt64.ofNat t.cleared := by
  have hs : LRUCache.construct (κ := String) (ν := String) 1 0 =
      .ok ⟨1, 0, Memory.init, ∅, {}⟩ := rfl
  obtain ⟨s', t, hrun, _, _, _, _, hflow⟩ := accounting_balances hs
    [.put 0 "a" "x" 0, .bulkLoad (fun _ => 0) [("b", "y", 1)], .get 1000000000 "b"]
  exact ⟨_, s', t, hs, hrun, hflow⟩

end SelfHealingCache
