import SelfHealingCache.LruCache

namespace SelfHealingCache

/-- What the cache is for: at most `capacity` entries with distinct keys, the
most recently used one first. -/
structure LruStore (κ ν : Type) where
  capacity : Nat
  defaultTtlS : UInt32
  entries : List (CacheEntry κ ν)
  metrics : CacheMetrics
  capacity_pos : 0 < capacity
  keys_nodup : (entries.map CacheEntry.key).Nodup
  length_le : entries.length ≤ capacity

variable {κ ν : Type}

/-- The entries without the one of `key`. -/
def without [DecidableEq κ] (key : κ) (entries : List (CacheEntry κ ν)) : List (CacheEntry κ ν) :=
  entries.filter fun e => e.key ≠ key

/-- The entries a traversal with the readings `now` keeps. -/
def unexpired : (Nat → TimePoint) → List (CacheEntry κ ν) → List (CacheEntry κ ν)
  | _, [] => []
  | now, e :: entries =>
    if isExpired (now 0) e then unexpired (fun i => now (i + 1)) entries
    else e :: unexpired (fun i => now (i + 1)) entries

/-- How many entries such a traversal drops. -/
def expiredCount : (Nat → TimePoint) → List (CacheEntry κ ν) → Nat
  | _, [] => 0
  | now, e :: entries =>
    if isExpired (now 0) e then expiredCount (fun i => now (i + 1)) entries + 1
    else expiredCount (fun i => now (i + 1)) entries

theorem without_sublist [DecidableEq κ] (key : κ) (entries : List (CacheEntry κ ν)) :
    (without key entries).Sublist entries := List.filter_sublist

theorem unexpired_sublist (now : Nat → TimePoint) (entries : List (CacheEntry κ ν)) :
    (unexpired now entries).Sublist entries := by
  induction entries generalizing now with
  | nil => exact List.Sublist.refl []
  | cons e entries ih =>
    unfold unexpired
    split
    · exact (ih _).cons e
    · exact (ih _).cons_cons e

theorem mem_without [DecidableEq κ] {key : κ} {entries : List (CacheEntry κ ν)} {e : CacheEntry κ ν} :
    e ∈ without key entries ↔ e ∈ entries ∧ e.key ≠ key := by simp [without]

theorem without_eq_self [DecidableEq κ] {key : κ} {entries : List (CacheEntry κ ν)}
    (h : ∀ e ∈ entries, e.key ≠ key) : without key entries = entries :=
  List.filter_eq_self.mpr fun e he => by simpa using h e he

theorem without_split [DecidableEq κ] {before after : List (CacheEntry κ ν)} {e : CacheEntry κ ν}
    (h : ∀ x ∈ before ++ after, x.key ≠ e.key) :
    without e.key (before ++ e :: after) = before ++ after := by
  have hb : without e.key before = before :=
    without_eq_self fun x hx => h x (List.mem_append_left _ hx)
  have ha : without e.key after = after :=
    without_eq_self fun x hx => h x (List.mem_append_right _ hx)
  unfold without at hb ha ⊢
  rw [List.filter_append, List.filter_cons_of_neg (by simp), hb, ha]

namespace LruStore

def init (capacity : Nat) (defaultTtlS : UInt32) (h : 0 < capacity) : LruStore κ ν where
  capacity := capacity
  defaultTtlS := defaultTtlS
  entries := []
  metrics := {}
  capacity_pos := h
  keys_nodup := List.nodup_nil
  length_le := Nat.zero_le capacity

/-- The data of a store, without the proofs. -/
def parts (c : LruStore κ ν) : Nat × UInt32 × List (CacheEntry κ ν) × CacheMetrics :=
  (c.capacity, c.defaultTtlS, c.entries, c.metrics)

theorem parts_eq {c : LruStore κ ν} {capacity : Nat} {defaultTtlS : UInt32}
    {entries : List (CacheEntry κ ν)} {metrics : CacheMetrics} :
    c.parts = (capacity, defaultTtlS, entries, metrics) ↔ c.capacity = capacity ∧
      c.defaultTtlS = defaultTtlS ∧ c.entries = entries ∧ c.metrics = metrics := by
  simp only [parts, Prod.mk.injEq]

/-- Dropping entries. -/
def restrict (c : LruStore κ ν) (entries : List (CacheEntry κ ν))
    (h : entries.Sublist c.entries) (metrics : CacheMetrics) : LruStore κ ν where
  capacity := c.capacity
  defaultTtlS := c.defaultTtlS
  entries := entries
  metrics := metrics
  capacity_pos := c.capacity_pos
  keys_nodup := c.keys_nodup.sublist (h.map CacheEntry.key)
  length_le := Nat.le_trans h.length_le c.length_le

/-- Putting an entry in front of those of other keys. -/
def push (c : LruStore κ ν) (e : CacheEntry κ ν) (others : List (CacheEntry κ ν))
    (h : others.Sublist c.entries) (hkey : ∀ x ∈ others, x.key ≠ e.key)
    (hlen : others.length < c.capacity) (metrics : CacheMetrics) : LruStore κ ν where
  capacity := c.capacity
  defaultTtlS := c.defaultTtlS
  entries := e :: others
  metrics := metrics
  capacity_pos := c.capacity_pos
  keys_nodup := by
    refine List.nodup_cons.mpr ⟨?_, c.keys_nodup.sublist (h.map CacheEntry.key)⟩
    intro hm
    obtain ⟨x, hx, hxe⟩ := List.mem_map.mp hm
    exact hkey x hx hxe
  length_le := Nat.succ_le_of_lt hlen

/-- The other entries when room for one more is needed. -/
def makeRoom (c : LruStore κ ν) : List (CacheEntry κ ν) :=
  if c.capacity ≤ c.entries.length then c.entries.dropLast else c.entries

theorem makeRoom_sublist (c : LruStore κ ν) : c.makeRoom.Sublist c.entries := by
  unfold makeRoom
  split
  · exact List.dropLast_sublist _
  · exact List.Sublist.refl _

theorem makeRoom_length_lt (c : LruStore κ ν) : c.makeRoom.length < c.capacity := by
  have hpos := c.capacity_pos
  have hle := c.length_le
  unfold makeRoom
  split
  · rw [List.length_dropLast]
    omega
  · omega

variable [DecidableEq κ]

/-- The entry held for a key, expired or not. -/
def find? (c : LruStore κ ν) (key : κ) : Option (CacheEntry κ ν) :=
  c.entries.find? fun e => e.key = key

theorem find?_eq_some {c : LruStore κ ν} {key : κ} {e : CacheEntry κ ν} :
    c.find? key = some e ↔ e ∈ c.entries ∧ e.key = key := by
  constructor
  · intro h
    exact ⟨List.mem_of_find?_eq_some h, by simpa using List.find?_some h⟩
  · rintro ⟨he, hkey⟩
    cases hf : c.find? key with
    | none =>
      have hne := List.find?_eq_none.mp hf e he
      simp [hkey] at hne
    | some e' =>
      have he' := List.mem_of_find?_eq_some hf
      have hkey' : e'.key = key := by simpa using List.find?_some hf
      have hinj := List.inj_on_of_nodup_map c.keys_nodup he' he (hkey'.trans hkey.symm)
      rw [hinj]

theorem find?_eq_none {c : LruStore κ ν} {key : κ} :
    c.find? key = none ↔ ∀ e ∈ c.entries, e.key ≠ key := by
  simp [find?]

theorem without_length_lt {c : LruStore κ ν} {key : κ} {e : CacheEntry κ ν}
    (h : c.find? key = some e) : (without key c.entries).length < c.capacity := by
  obtain ⟨he, hkey⟩ := find?_eq_some.mp h
  have hlt : (without key c.entries).length < c.entries.length := by
    refine List.length_filter_lt_length_iff_exists.mpr ⟨e, he, by simp [hkey]⟩
  exact Nat.lt_of_lt_of_le hlt c.length_le

def get (c : LruStore κ ν) (now : TimePoint) (key : κ) : LruStore κ ν × Option ν :=
  match h : c.find? key with
  | none => (c.restrict c.entries (List.Sublist.refl _) c.metrics.addMiss, none)
  | some e =>
    if isExpired now e then
      (c.restrict (without key c.entries) (without_sublist key _)
        c.metrics.addMiss.addExpiration, none)
    else
      (c.push e (without key c.entries) (without_sublist key _)
        (fun x hx => by
          rw [(find?_eq_some.mp h).2]
          exact (mem_without.mp hx).2)
        (without_length_lt h) c.metrics.addHit, some e.value)

def put (c : LruStore κ ν) (now : TimePoint) (key : κ) (value : ν) (ttlSeconds : UInt32) :
    LruStore κ ν :=
  let expiry := putExpiry now c.defaultTtlS ttlSeconds
  match h : c.find? key with
  | some _ =>
    c.push ⟨key, value, expiry⟩ (without key c.entries) (without_sublist key _)
      (fun _ hx => (mem_without.mp hx).2) (without_length_lt h) c.metrics.addPut
  | none =>
    c.push ⟨key, value, expiry⟩ c.makeRoom c.makeRoom_sublist
      (fun x hx => find?_eq_none.mp h x (c.makeRoom_sublist.subset hx)) c.makeRoom_length_lt
      (if c.capacity ≤ c.entries.length then c.metrics.addEviction else c.metrics).addPut

def remove (c : LruStore κ ν) (key : κ) : LruStore κ ν × Bool :=
  match c.find? key with
  | none => (c, false)
  | some _ =>
    (c.restrict (without key c.entries) (without_sublist key _) c.metrics.addDel, true)

def purgeExpired (c : LruStore κ ν) (now : Nat → TimePoint) : LruStore κ ν × Nat :=
  (c.restrict (unexpired now c.entries) (unexpired_sublist now _)
    (Nat.iterate CacheMetrics.addExpiration (expiredCount now c.entries) c.metrics),
    expiredCount now c.entries)

def bulkLoad : (Nat → TimePoint) → List (κ × ν × UInt32) → LruStore κ ν → LruStore κ ν
  | _, [], c => c
  | now, (key, value, ttl) :: entries, c =>
    bulkLoad (fun i => now (i + 1)) entries (c.put (now 0) key value ttl)

def clear (c : LruStore κ ν) : LruStore κ ν := c.restrict [] (List.nil_sublist _) c.metrics

def snapshot (c : LruStore κ ν) (start : TimePoint) (now : Nat → TimePoint) :
    List (κ × ν × UInt32) :=
  (unexpired now c.entries).map fun e => (e.key, e.value, remainingTtl start e)

/-- The unexpired keys, `now key` being the reading made for `key`. -/
def keys (c : LruStore κ ν) (now : κ → TimePoint) : List κ :=
  (c.entries.filter fun e => !isExpired (now e.key) e).map CacheEntry.key

def contains (c : LruStore κ ν) (now : TimePoint) (key : κ) : Bool :=
  match c.find? key with
  | none => false
  | some e => !isExpired now e

def step (s : LruStore κ ν × List (Happening κ ν)) :
    Op κ ν → LruStore κ ν × List (Happening κ ν)
  | .get now key =>
    ((s.1.get now key).1, s.2 ++ if (s.1.get now key).2.isSome then [.hit key] else [])
  | .put now key value ttlSeconds =>
    (s.1.put now key value ttlSeconds, s.2 ++ [.put now key value ttlSeconds])
  | .remove key => ((s.1.remove key).1, s.2 ++ [.remove key])
  | .purgeExpired now => ((s.1.purgeExpired now).1, s.2)
  | .bulkLoad now entries => (bulkLoad now entries s.1, s.2 ++ loadPuts now entries)
  | .clear => (s.1.clear, s.2 ++ [.clear])

def run (c : LruStore κ ν) (ops : List (Op κ ν)) : LruStore κ ν × List (Happening κ ν) :=
  ops.foldl step (c, [])

theorem get_missing {c : LruStore κ ν} {key : κ} (h : c.find? key = none) (now : TimePoint) :
    (c.get now key).2 = none ∧
      (c.get now key).1.parts = (c.capacity, c.defaultTtlS, c.entries, c.metrics.addMiss) := by
  unfold get
  split
  next => exact ⟨rfl, rfl⟩
  next e he => rw [h] at he; cases he

theorem get_expired {c : LruStore κ ν} {key : κ} {e : CacheEntry κ ν} {now : TimePoint}
    (h : c.find? key = some e) (hexp : isExpired now e = true) :
    (c.get now key).2 = none ∧
      (c.get now key).1.parts = (c.capacity, c.defaultTtlS, without key c.entries,
        c.metrics.addMiss.addExpiration) := by
  unfold get
  split
  next hn => rw [h] at hn; cases hn
  next e' he =>
    rw [h] at he
    cases he
    rw [if_pos hexp]
    exact ⟨rfl, rfl⟩

theorem get_hit {c : LruStore κ ν} {key : κ} {e : CacheEntry κ ν} {now : TimePoint}
    (h : c.find? key = some e) (hexp : isExpired now e = false) :
    (c.get now key).2 = some e.value ∧
      (c.get now key).1.parts = (c.capacity, c.defaultTtlS, e :: without key c.entries,
        c.metrics.addHit) := by
  unfold get
  split
  next hn => rw [h] at hn; cases hn
  next e' he =>
    rw [h] at he
    cases he
    rw [if_neg (by simp [hexp])]
    exact ⟨rfl, rfl⟩

theorem put_update {c : LruStore κ ν} {key : κ} {e : CacheEntry κ ν} (h : c.find? key = some e)
    (now : TimePoint) (value : ν) (ttlSeconds : UInt32) :
    (c.put now key value ttlSeconds).parts = (c.capacity, c.defaultTtlS,
      ⟨key, value, putExpiry now c.defaultTtlS ttlSeconds⟩ :: without key c.entries,
      c.metrics.addPut) := by
  unfold put
  dsimp only
  split
  next => rfl
  next hn => rw [h] at hn; cases hn

theorem put_insert {c : LruStore κ ν} {key : κ} (h : c.find? key = none)
    (now : TimePoint) (value : ν) (ttlSeconds : UInt32) :
    (c.put now key value ttlSeconds).parts = (c.capacity, c.defaultTtlS,
      ⟨key, value, putExpiry now c.defaultTtlS ttlSeconds⟩ :: c.makeRoom,
      (if c.capacity ≤ c.entries.length then c.metrics.addEviction else c.metrics).addPut) := by
  unfold put
  dsimp only
  split
  next e he => rw [h] at he; cases he
  next => rfl

theorem put_update_entries {c : LruStore κ ν} {key : κ} {e : CacheEntry κ ν}
    (h : c.find? key = some e) (now : TimePoint) (value : ν) (ttlSeconds : UInt32) :
    (c.put now key value ttlSeconds).entries =
      ⟨key, value, putExpiry now c.defaultTtlS ttlSeconds⟩ :: without key c.entries :=
  (parts_eq.mp (put_update h now value ttlSeconds)).2.2.1

theorem put_insert_entries {c : LruStore κ ν} {key : κ} (h : c.find? key = none)
    (now : TimePoint) (value : ν) (ttlSeconds : UInt32) :
    (c.put now key value ttlSeconds).entries =
      ⟨key, value, putExpiry now c.defaultTtlS ttlSeconds⟩ :: c.makeRoom :=
  (parts_eq.mp (put_insert h now value ttlSeconds)).2.2.1

theorem remove_missing {c : LruStore κ ν} {key : κ} (h : c.find? key = none) :
    c.remove key = (c, false) := by
  rw [remove, h]

theorem remove_found {c : LruStore κ ν} {key : κ} {e : CacheEntry κ ν} (h : c.find? key = some e) :
    (c.remove key).2 = true ∧ (c.remove key).1.parts =
      (c.capacity, c.defaultTtlS, without key c.entries, c.metrics.addDel) := by
  rw [remove, h]
  exact ⟨rfl, rfl⟩

end LruStore

end SelfHealingCache
