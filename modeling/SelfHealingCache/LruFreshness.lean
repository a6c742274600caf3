import SelfHealingCache.LruHistory

namespace SelfHealingCache

variable {κ ν : Type} [DecidableEq κ]

namespace LruStore

/-- The entries a put leaves besides its own are older entries of other keys. -/
theorem put_entries (c : LruStore κ ν) (now : TimePoint) (key : κ) (value : ν)
    (ttlSeconds : UInt32) : ∃ others : List (CacheEntry κ ν), others.Sublist c.entries ∧
      (∀ e ∈ others, e.key ≠ key) ∧ (c.put now key value ttlSeconds).entries =
        ⟨key, value, putExpiry now c.defaultTtlS ttlSeconds⟩ :: others := by
  cases hf : c.find? key with
  | none =>
    have hsub := c.makeRoom_sublist
    refine ⟨c.makeRoom, hsub, ?_, put_insert_entries hf now value ttlSeconds⟩
    intro e he
    exact find?_eq_none.mp hf e (hsub.subset he)
  | some e =>
    refine ⟨without key c.entries, without_sublist key _, ?_,
      put_update_entries hf now value ttlSeconds⟩
    intro x hx
    exact (mem_without.mp hx).2

theorem hit_entries {c : LruStore κ ν} {now : TimePoint} {key : κ} {e : CacheEntry κ ν}
    (hf : c.find? key = some e) (hexp : isExpired now e = false) :
    (c.get now key).1.entries = e :: without key c.entries :=
  (parts_eq.mp (get_hit hf hexp).2).2.2.1

theorem expired_entries {c : LruStore κ ν} {now : TimePoint} {key : κ} {e : CacheEntry κ ν}
    (hf : c.find? key = some e) (hexp : isExpired now e = true) :
    (c.get now key).1.entries = without key c.entries :=
  (parts_eq.mp (get_expired hf hexp).2).2.2.1

theorem missed_entries {c : LruStore κ ν} {key : κ} (hf : c.find? key = none) (now : TimePoint) :
    (c.get now key).1.entries = c.entries :=
  (parts_eq.mp (get_missing hf now).2).2.2.1

theorem remove_entries (c : LruStore κ ν) (key : κ) :
    (c.remove key).1.entries = without key c.entries := by
  cases hf : c.find? key with
  | none => rw [remove_missing hf, without_eq_self (find?_eq_none.mp hf)]
  | some e => exact (parts_eq.mp (remove_found hf).2).2.2.1

theorem get_entries_subset (c : LruStore κ ν) (now : TimePoint) (key : κ) :
    (c.get now key).1.entries ⊆ c.entries := by
  cases hf : c.find? key with
  | none => rw [missed_entries hf]; exact List.Subset.refl _
  | some e =>
    cases hexp : isExpired now e with
    | true => rw [expired_entries hf hexp]; exact (without_sublist key _).subset
    | false =>
      rw [hit_entries hf hexp]
      exact List.cons_subset.mpr ⟨(find?_eq_some.mp hf).1, (without_sublist key _).subset⟩

/-- The value and the deadline of every entry are those its key was last put with. -/
def Stored (c : LruStore κ ν) (history : List (Happening κ ν)) : Prop :=
  ∀ e ∈ c.entries, ∃ now ttl, lastPut e.key history = some (now, e.value, ttl) ∧
    e.expiresAt = putExpiry now c.defaultTtlS ttl

theorem Stored.subset {c c' : LruStore κ ν} {history : List (Happening κ ν)} (h : c.Stored history)
    (hconfig : SameConfig c c') (hsub : c'.entries ⊆ c.entries) : c'.Stored history := by
  intro e he
  obtain ⟨now, ttl, hlast, hexp⟩ := h e (hsub he)
  refine ⟨now, ttl, hlast, ?_⟩
  rw [hconfig.2]
  exact hexp

theorem stored_invariant : HistoryInvariant (κ := κ) (ν := ν) (fun _ => True) Stored where
  missed := fun c history now key _ h =>
    h.subset (get_sameConfig c now key) (get_entries_subset c now key)
  expired := fun c history now key e _ _ _ h =>
    h.subset (get_sameConfig c now key) (get_entries_subset c now key)
  hit := by
    intro c history now key e _ _ _ h x hx
    rw [lastPut_hit]
    exact h.subset (get_sameConfig c now key) (get_entries_subset c now key) x hx
  put := by
    intro c history now key value ttl _ h x hx
    obtain ⟨others, hsub, hne, hentries⟩ := put_entries c now key value ttl
    have hconfig := put_sameConfig c now key value ttl
    rw [hentries] at hx
    rcases List.mem_cons.mp hx with rfl | hx
    · exact ⟨now, ttl, by simp, by rw [hconfig.2]⟩
    · obtain ⟨t, s, hlast, hexp⟩ := h x (hsub.subset hx)
      refine ⟨t, s, ?_, ?_⟩
      · rw [lastPut_put, if_neg (Ne.symm (hne x hx)), hlast]
      · rw [hconfig.2, hexp]
  remove := by
    intro c history key h x hx
    have hx' := hx
    rw [remove_entries] at hx'
    obtain ⟨hmem, hne⟩ := mem_without.mp hx'
    rw [lastPut_remove, if_neg (Ne.symm hne)]
    have hsub : (c.remove key).1.entries ⊆ c.entries := by
      rw [remove_entries]
      exact (without_sublist key _).subset
    exact h.subset (remove_sameConfig c key) hsub x hx
  purgeExpired := fun c history now _ h =>
    h.subset ⟨rfl, rfl⟩ (unexpired_sublist now c.entries).subset
  clear := by
    intro c history _ x hx
    cases hx

theorem stored_run (c : LruStore κ ν) (hc : c.entries = []) (ops : List (Op κ ν)) :
    (c.run ops).1.Stored (c.run ops).2 := by
  apply stored_invariant.run
  · intro op _
    cases op <;> simp [Op.Reads]
  · intro e he
    rw [hc] at he
    cases he

/-- A store whose entry of `key` is one of `c` either lost it or still holds it. -/
theorem find?_of_entries {c c' : LruStore κ ν} {key : κ}
    (hsub : ∀ e ∈ c'.entries, e.key = key → e ∈ c.entries) :
    c'.find? key = none ∨ c'.find? key = c.find? key := by
  cases hf : c'.find? key with
  | none => exact .inl rfl
  | some e =>
    obtain ⟨he, hkey⟩ := find?_eq_some.mp hf
    exact .inr (find?_eq_some.mpr ⟨hsub e he hkey, hkey⟩).symm

theorem put_entries_other (c : LruStore κ ν) (now : TimePoint) {k key : κ} (value : ν)
    (ttl : UInt32) (hk : k ≠ key) :
    ∀ e ∈ (c.put now k value ttl).entries, e.key = key → e ∈ c.entries := by
  intro e he hkey
  obtain ⟨others, hsub, _, hentries⟩ := put_entries c now k value ttl
  rw [hentries] at he
  rcases List.mem_cons.mp he with rfl | he
  · exact absurd hkey hk
  · exact hsub.subset he

theorem bulkLoad_entries_other (entries : List (κ × ν × UInt32)) {key : κ}
    (hk : key ∉ entries.map Prod.fst) (now : Nat → TimePoint) (c : LruStore κ ν) :
    ∀ e ∈ (bulkLoad now entries c).entries, e.key = key → e ∈ c.entries := by
  induction entries generalizing now c with
  | nil => exact fun e he _ => he
  | cons entry entries ih =>
    obtain ⟨k, value, ttl⟩ := entry
    rw [List.map_cons, List.mem_cons, not_or] at hk
    intro e he hkey
    have hmid := ih hk.2 (fun i => now (i + 1)) (c.put (now 0) k value ttl) e he hkey
    exact put_entries_other c (now 0) value ttl (Ne.symm hk.1) e hmid hkey

/-- A call that does not write a key either drops its entry or leaves it as it is. -/
theorem step_find? (c : LruStore κ ν) (history : List (Happening κ ν)) (op : Op κ ν) (key : κ)
    (hop : ¬op.Writes key) : (step (c, history) op).1.find? key = none ∨
      (step (c, history) op).1.find? key = c.find? key := by
  apply find?_of_entries
  cases op with
  | get now k => exact fun e he _ => get_entries_subset c now k he
  | put now k value ttl => exact put_entries_other c now value ttl hop
  | remove k =>
    intro e he _
    have he' : e ∈ (c.remove k).1.entries := he
    rw [remove_entries] at he'
    exact (mem_without.mp he').1
  | purgeExpired now => exact fun e he _ => (unexpired_sublist now c.entries).subset he
  | bulkLoad now entries => exact bulkLoad_entries_other entries hop now c
  | clear => exact absurd trivial hop

theorem put_find?_self (c : LruStore κ ν) (now : TimePoint) (key : κ) (value : ν) (ttl : UInt32) :
    (c.put now key value ttl).find? key =
      some ⟨key, value, putExpiry now c.defaultTtlS ttl⟩ := by
  obtain ⟨others, _, _, hentries⟩ := put_entries c now key value ttl
  exact find?_eq_some.mpr ⟨by simp [hentries], rfl⟩

/-- What a bulk load of distinct keys leaves of an entry is what its own put stored. -/
theorem bulkLoad_find? (entries : List (κ × ν × UInt32)) (hn : (entries.map Prod.fst).Nodup)
    (now : Nat → TimePoint) (c : LruStore κ ν) {i : Nat} {key : κ} {value : ν} {ttl : UInt32}
    (hi : entries[i]? = some (key, value, ttl)) {e : CacheEntry κ ν}
    (he : (bulkLoad now entries c).find? key = some e) :
    e = ⟨key, value, putExpiry (now i) c.defaultTtlS ttl⟩ := by
  induction entries generalizing i now c with
  | nil => simp at hi
  | cons entry entries ih =>
    obtain ⟨hfresh, hn'⟩ := List.nodup_cons.mp hn
    obtain ⟨k, v, s⟩ := entry
    cases i with
    | zero =>
      cases Option.some.inj hi
      have hput := put_find?_self c (now 0) key value ttl
      have hload := find?_of_entries (bulkLoad_entries_other entries hfresh
        (fun i => now (i + 1)) (c.put (now 0) key value ttl))
      have he' : (bulkLoad (fun i => now (i + 1)) entries (c.put (now 0) key value ttl)).find? key =
          some e := he
      rw [he', hput] at hload
      simpa using hload
    | succ i =>
      have hmid := ih hn' (fun i => now (i + 1)) (c.put (now 0) k v s) hi he
      rw [(put_sameConfig c (now 0) k v s).2] at hmid
      exact hmid

end LruStore

namespace LRUCache

/-- The entry indexed for a key. -/
def entryFor (s : LRUCache κ ν) (key : κ) : Option (CacheEntry κ ν) :=
  (s.map_.get? key).bind s.memory.entryOf

end LRUCache

theorem Refines.entryFor {s : LRUCache κ ν} {c : LruStore κ ν} (h : Refines s c) (key : κ) :
    s.entryFor key = c.find? key := by
  obtain ⟨nodes, hrep, hparts⟩ := h
  have hentries := (LruStore.parts_eq.mp hparts).2.2.1
  cases hk : s.map_.get? key with
  | none => rw [LRUCache.entryFor, hk, hrep.store_missing hentries hk, Option.bind_none]
  | some a =>
    obtain ⟨before, e, after, rfl, rfl⟩ := hrep.found hk
    rw [LRUCache.entryFor, hk, (hrep.store_found hentries).1, Option.bind_some]
    exact hrep.cells (a, e) (by simp)

omit [DecidableEq κ] in
theorem putExpiry_unexpired {now t : TimePoint} {defaultTtlS ttl : UInt32}
    {e : CacheEntry κ ν} (he : e.expiresAt = putExpiry now defaultTtlS ttl) :
    isExpired t e = false ↔ effectiveTtl defaultTtlS ttl = 0 ∨
      t < now + seconds (effectiveTtl defaultTtlS ttl) := by
  unfold isExpired
  rw [he, putExpiry]
  by_cases hpos : 0 < effectiveTtl defaultTtlS ttl
  · rw [if_pos hpos]
    have hne : effectiveTtl defaultTtlS ttl ≠ 0 := fun h0 => by simp [h0] at hpos
    simp [hne]
  · rw [if_neg hpos]
    have hzero : effectiveTtl defaultTtlS ttl = 0 := by
      apply UInt32.toNat_inj.mp
      have hle : ¬(0 : UInt32).toNat < (effectiveTtl defaultTtlS ttl).toNat := hpos
      have h0 : (0 : UInt32).toNat = 0 := rfl
      omega
    simp [hzero]

theorem LruStore.get_some {c : LruStore κ ν} {now : TimePoint} {key : κ} {value : ν}
    (hres : (c.get now key).2 = some value) :
    ∃ e, c.find? key = some e ∧ isExpired now e = false ∧ e.value = value := by
  cases hf : c.find? key with
  | none =>
    rw [(LruStore.get_missing hf now).1] at hres
    cases hres
  | some e =>
    cases hexp : isExpired now e with
    | true =>
      rw [(LruStore.get_expired hf hexp).1] at hres
      cases hres
    | false =>
      rw [(LruStore.get_hit hf hexp).1] at hres
      exact ⟨e, rfl, hexp, Option.some.inj hres⟩

namespace LRUCache

/-- What a read returns is what its key was last put with, before the deadline of
that put; calls that do not write the key never change the entry it will read. -/
theorem read_freshness (capacity : Nat) (defaultTtlS : UInt32) {start s : LRUCache κ ν}
    {ops : List (Op κ ν)} {history : List (Happening κ ν)}
    (hstart : construct capacity defaultTtlS = .ok start)
    (hrun : start.run ops = some (s, history)) :
    (∀ t key value s', s.get t key = some (s', some value) →
      ∃ before t₀ ttl after, history = before ++ .put t₀ key value ttl :: after ∧
        (∀ x ∈ after, ¬x.Overwrites key) ∧
        (effectiveTtl defaultTtlS ttl = 0 ∨
          t < t₀ + seconds (effectiveTtl defaultTtlS ttl))) ∧
    ∀ op s' history', step (s, history) op = some (s', history') → ∀ key, ¬op.Writes key →
      s'.entryFor key = none ∨ s'.entryFor key = s.entryFor key := by
  obtain ⟨hcap, hinit⟩ := construct_ok hstart
  obtain ⟨s', hrun', hs⟩ := run_refines hinit ops
  rw [hrun] at hrun'
  cases hrun'
  have hstored := LruStore.stored_run (LruStore.init capacity defaultTtlS hcap) rfl ops
  have hconfig := LruStore.run_sameConfig (LruStore.init capacity defaultTtlS hcap) ops
  constructor
  · intro t key value s' hget
    obtain ⟨s'', hget', _⟩ := get_refines hs t key
    rw [hget] at hget'
    have hread := congrArg Prod.snd (Option.some.inj hget')
    obtain ⟨e, hf, hexp, rfl⟩ := LruStore.get_some hread.symm
    obtain ⟨he, rfl⟩ := LruStore.find?_eq_some.mp hf
    obtain ⟨t₀, ttl, hlast, hdeadline⟩ := hstored e he
    obtain ⟨before, after, hhistory, hafter⟩ := lastPut_split hlast
    rw [hconfig.2] at hdeadline
    exact ⟨before, t₀, ttl, after, hhistory, hafter, (putExpiry_unexpired hdeadline).mp hexp⟩
  · intro op s' history' hstep key hop
    obtain ⟨s'', hstep', hs'⟩ := step_refines hs _ op
    rw [hstep] at hstep'
    cases hstep'
    rw [hs'.entryFor, hs.entryFor]
    exact LruStore.step_find? _ _ op key hop

theorem read_freshness_updated : ∃ (start s : LRUCache Nat Nat)
    (history : List (Happening Nat Nat)), construct 1 0 = .ok start ∧
    start.run [.put 0 7 10 0, .put 1 7 20 5] = some (s, history) ∧
    (∀ t key value s', s.get t key = some (s', some value) →
      ∃ before t₀ ttl after, history = before ++ .put t₀ key value ttl :: after ∧
        (∀ x ∈ after, ¬x.Overwrites key) ∧
        (effectiveTtl 0 ttl = 0 ∨ t < t₀ + seconds (effectiveTtl 0 ttl))) ∧
    ∀ op s' history', step (s, history) op = some (s', history') → ∀ key, ¬op.Writes key →
      s'.entryFor key = none ∨ s'.entryFor key = s.entryFor key :=
  ⟨_, _, _, rfl, rfl, read_freshness 1 0 rfl
    (show run _ [.put 0 7 10 0, .put 1 7 20 5] = some (_, _) from rfl)⟩

end LRUCache

end SelfHealingCache
