import SelfHealingCache.LruContents
import SelfHealingCache.LruRefinement

namespace SelfHealingCache

/-- The calls of a cache, each made at one instant. -/
inductive Call (κ ν : Type)
  | get (key : κ)
  | contains (key : κ)
  | keys
  | snapshot
  | remove (key : κ)
  | put (key : κ) (value : ν) (ttlSeconds : UInt32)
  | bulkLoad (entries : List (κ × ν × UInt32))
  | purgeExpired
  | clear

/-- What a caller sees; the keys come in no particular order. -/
inductive Answer (κ ν : Type)
  | value (value : Option ν)
  | flag (flag : Bool)
  | keys (keys : Finset κ)
  | entries (entries : List (κ × ν × UInt32))

variable {κ ν : Type} [DecidableEq κ]

namespace LRUCache

/-- A call at the instant `t`, with its answer. -/
def perform (s : LRUCache κ ν) (t : TimePoint) :
    Call κ ν → Option (LRUCache κ ν × List (Answer κ ν))
  | .get key => do
    let (c, result) ← s.get t key
    some (c, [.value result])
  | .contains key => do
    let present ← s.contains t key
    some (s, [.flag present])
  | .keys => do
    let found ← s.keys fun _ => t
    some (s, [.keys found.toFinset])
  | .snapshot => do
    let entries ← s.snapshot t fun _ => t
    some (s, [.entries entries])
  | .remove key => do
    let (c, removed) ← s.remove key
    some (c, [.flag removed])
  | .put key value ttlSeconds => do
    let c ← s.put t key value ttlSeconds
    some (c, [])
  | .bulkLoad entries => do
    let c ← bulkLoad (fun _ => t) entries s
    some (c, [])
  | .purgeExpired => do
    let (c, _) ← s.purgeExpired fun _ => t
    some (c, [])
  | .clear => do
    let c ← s.clear
    some (c, [])

def performs : LRUCache κ ν → List (TimePoint × Call κ ν) →
    Option (LRUCache κ ν × List (Answer κ ν))
  | s, [] => some (s, [])
  | s, (t, call) :: calls => do
    let (s, answer) ← s.perform t call
    let (s, answers) ← performs s calls
    some (s, answer ++ answers)

end LRUCache

namespace LruStore

def perform (c : LruStore κ ν) (t : TimePoint) : Call κ ν → LruStore κ ν × List (Answer κ ν)
  | .get key => ((c.get t key).1, [.value (c.get t key).2])
  | .contains key => (c, [.flag (c.contains t key)])
  | .keys => (c, [.keys (c.keys fun _ => t).toFinset])
  | .snapshot => (c, [.entries (c.snapshot t fun _ => t)])
  | .remove key => ((c.remove key).1, [.flag (c.remove key).2])
  | .put key value ttlSeconds => (c.put t key value ttlSeconds, [])
  | .bulkLoad entries => (bulkLoad (fun _ => t) entries c, [])
  | .purgeExpired => ((c.purgeExpired fun _ => t).1, [])
  | .clear => (c.clear, [])

def performs : LruStore κ ν → List (TimePoint × Call κ ν) → LruStore κ ν × List (Answer κ ν)
  | c, [] => (c, [])
  | c, (t, call) :: calls =>
    ((performs (c.perform t call).1 calls).1,
      (c.perform t call).2 ++ (performs (c.perform t call).1 calls).2)

end LruStore

theorem perform_refines {s : LRUCache κ ν} {c : LruStore κ ν} (h : Refines s c) (t : TimePoint)
    (call : Call κ ν) :
    ∃ s', s.perform t call = some (s', (c.perform t call).2) ∧ Refines s' (c.perform t call).1 := by
  cases call with
  | get key =>
    obtain ⟨s', hget, h'⟩ := get_refines h t key
    exact ⟨s', by simp [LRUCache.perform, hget, LruStore.perform], h'⟩
  | contains key =>
    have hcontains := contains_refines h t key
    exact ⟨s, by simp [LRUCache.perform, hcontains, LruStore.perform], h⟩
  | keys =>
    obtain ⟨reading, found, hkeys, hread, hperm⟩ := keys_refines h fun _ => t
    have hconst : reading = fun _ => t := by
      funext k
      obtain ⟨_, hk⟩ := hread k
      exact hk
    rw [hconst] at hperm
    have hset : found.toFinset = (c.keys fun _ => t).toFinset := by
      ext k
      rw [List.mem_toFinset, List.mem_toFinset, hperm.mem_iff]
    exact ⟨s, by simp [LRUCache.perform, hkeys, LruStore.perform, hset], h⟩
  | snapshot =>
    have hsnap := snapshot_refines h t fun _ => t
    exact ⟨s, by simp [LRUCache.perform, hsnap, LruStore.perform], h⟩
  | remove key =>
    obtain ⟨s', hremove, h'⟩ := remove_refines h key
    exact ⟨s', by simp [LRUCache.perform, hremove, LruStore.perform], h'⟩
  | put key value ttlSeconds =>
    obtain ⟨s', hput, h'⟩ := put_refines h t key value ttlSeconds
    exact ⟨s', by simp [LRUCache.perform, hput, LruStore.perform], h'⟩
  | bulkLoad entries =>
    obtain ⟨s', hload, h'⟩ := bulkLoad_refines entries h fun _ => t
    exact ⟨s', by simp [LRUCache.perform, hload, LruStore.perform], h'⟩
  | purgeExpired =>
    obtain ⟨s', hpurge, h'⟩ := purgeExpired_refines h fun _ => t
    exact ⟨s', by simp [LRUCache.perform, hpurge, LruStore.perform], h'⟩
  | clear =>
    obtain ⟨s', hclear, h'⟩ := clear_refines h
    exact ⟨s', by simp [LRUCache.perform, hclear, LruStore.perform], h'⟩

theorem performs_refines (calls : List (TimePoint × Call κ ν)) {s : LRUCache κ ν}
    {c : LruStore κ ν} (h : Refines s c) :
    ∃ s', s.performs calls = some (s', (c.performs calls).2) ∧ Refines s' (c.performs calls).1 := by
  induction calls generalizing s c with
  | nil => exact ⟨s, rfl, h⟩
  | cons call calls ih =>
    obtain ⟨t, call⟩ := call
    obtain ⟨mid, hcall, hmid⟩ := perform_refines h t call
    obtain ⟨s', hcalls, h'⟩ := ih hmid
    exact ⟨s', by simp [LRUCache.performs, hcall, hcalls, LruStore.performs], h'⟩

/-- The entries not expired at an instant. -/
def fresh (t : TimePoint) (entries : List (CacheEntry κ ν)) : List (CacheEntry κ ν) :=
  entries.filter fun e => !isExpired t e

/-- The cache with expired entries as they should be: never there. A put makes room
only when unexpired entries fill the cache. -/
def idealPut (capacity : Nat) (entry : CacheEntry κ ν) (entries : List (CacheEntry κ ν)) :
    List (CacheEntry κ ν) :=
  entry :: (if entries.any fun e => e.key = entry.key then without entry.key entries
    else if capacity ≤ entries.length then entries.dropLast else entries)

section ideal

variable (capacity : Nat) (defaultTtlS : UInt32)

def idealLoad (t : TimePoint) (loaded : List (κ × ν × UInt32)) (entries : List (CacheEntry κ ν)) :
    List (CacheEntry κ ν) :=
  loaded.foldl (fun entries e =>
    idealPut capacity ⟨e.1, e.2.1, putExpiry t defaultTtlS e.2.2⟩ entries) entries

def idealPerform (t : TimePoint) (entries : List (CacheEntry κ ν)) :
    Call κ ν → List (CacheEntry κ ν) × List (Answer κ ν)
  | .get key =>
    match entries.find? fun e => e.key = key with
    | none => (entries, [.value none])
    | some e => (e :: without key entries, [.value (some e.value)])
  | .contains key => (entries, [.flag (entries.any fun e => e.key = key)])
  | .keys => (entries, [.keys (entries.map CacheEntry.key).toFinset])
  | .snapshot => (entries, [.entries (entries.map fun e => (e.key, e.value, remainingTtl t e))])
  | .remove key => (without key entries, [.flag (entries.any fun e => e.key = key)])
  | .put key value ttlSeconds =>
    (idealPut capacity ⟨key, value, putExpiry t defaultTtlS ttlSeconds⟩ entries, [])
  | .bulkLoad loaded => (idealLoad capacity defaultTtlS t loaded entries, [])
  | .purgeExpired => (entries, [])
  | .clear => ([], [])

end ideal

/-- Purges inserted anywhere. -/
inductive Padded : List (TimePoint × Call κ ν) → List (TimePoint × Call κ ν) → Prop
  | nil : Padded [] []
  | keep (call : TimePoint × Call κ ν) {calls padded : List (TimePoint × Call κ ν)} :
    Padded calls padded → Padded (call :: calls) (call :: padded)
  | purge (t : TimePoint) {calls padded : List (TimePoint × Call κ ν)} :
    Padded calls padded → Padded calls ((t, .purgeExpired) :: padded)

omit [DecidableEq κ] in
theorem fresh_fresh {t t' : TimePoint} (h : t ≤ t') (entries : List (CacheEntry κ ν)) :
    fresh t' (fresh t entries) = fresh t' entries := by
  unfold fresh
  rw [List.filter_filter]
  apply List.filter_congr
  intro e _
  cases hexp : isExpired t' e with
  | true => rfl
  | false => simp [not_expired_before h hexp]

namespace LruStore

/-- No expired entry stands in the way of a put: it needs no room, or none is there, or
the entry to be evicted is expired itself. -/
def PutUnhindered (t : TimePoint) (c : LruStore κ ν) (key : κ) : Prop :=
  c.find? key = none → c.capacity ≤ c.entries.length →
    (∀ e ∈ c.entries, isExpired t e = false) ∨
      ∃ e, c.entries.getLast? = some e ∧ isExpired t e = true

def LoadUnhindered (t : TimePoint) : LruStore κ ν → List (κ × ν × UInt32) → Prop
  | _, [] => True
  | c, (key, value, ttl) :: entries =>
    PutUnhindered t c key ∧ LoadUnhindered t (c.put t key value ttl) entries

def Unhindered (t : TimePoint) (c : LruStore κ ν) : Call κ ν → Prop
  | .put key _ _ => PutUnhindered t c key
  | .bulkLoad entries => LoadUnhindered t c entries
  | _ => True

/-- Every put of the run is unhindered where it is made. -/
def UnhinderedRun : LruStore κ ν → List (TimePoint × Call κ ν) → Prop
  | _, [] => True
  | c, (t, call) :: calls => Unhindered t c call ∧ UnhinderedRun (c.perform t call).1 calls

omit [DecidableEq κ] in
theorem purge_fresh (c : LruStore κ ν) (t : TimePoint) :
    (c.purgeExpired fun _ => t).1.entries = fresh t c.entries := unexpired_const t c.entries

theorem find?_fresh (c : LruStore κ ν) (t : TimePoint) (key : κ) :
    ((fresh t c.entries).find? fun e => e.key = key) =
      (c.find? key).filter fun e => !isExpired t e := by
  have hpurged : ((fresh t c.entries).find? fun e => e.key = key) =
      (c.purgeExpired fun _ => t).1.find? key := by rw [find?, purge_fresh]
  apply Option.ext
  intro e
  rw [hpurged, find?_eq_some, purge_fresh, Option.filter_eq_some_iff, find?_eq_some, fresh,
    List.mem_filter]
  exact and_right_comm

theorem any_fresh (c : LruStore κ ν) (t : TimePoint) (key : κ) :
    ((fresh t c.entries).any fun e => e.key = key) =
      ((c.find? key).filter fun e => !isExpired t e).isSome := by
  rw [← find?_fresh, List.isSome_find?]

theorem contains_fresh (c : LruStore κ ν) (t : TimePoint) (key : κ) :
    c.contains t key = (fresh t c.entries).any fun e => e.key = key := by
  rw [any_fresh, contains]
  cases hf : c.find? key with
  | none => rfl
  | some e => cases hexp : isExpired t e <;> simp [hexp]

/-- A remove reports what `contains` would, exactly when it names no expired entry. -/
theorem remove_contains_iff (c : LruStore κ ν) (t : TimePoint) (key : κ) :
    (c.remove key).2 = c.contains t key ↔ ∀ e, c.find? key = some e → isExpired t e = false := by
  rw [remove_removed, contains]
  cases hf : c.find? key with
  | none => simp
  | some e => cases hexp : isExpired t e <;> simp [hexp]

theorem fresh_without (t : TimePoint) (key : κ) (entries : List (CacheEntry κ ν)) :
    fresh t (without key entries) = without key (fresh t entries) := by
  unfold fresh without
  rw [List.filter_filter, List.filter_filter]
  apply List.filter_congr
  intro e _
  exact Bool.and_comm _ _

/-- Whoever is not found unexpired is not among the fresh entries. -/
theorem without_fresh {c : LruStore κ ν} {t : TimePoint} {key : κ}
    (h : ∀ e, c.find? key = some e → isExpired t e = true) :
    without key (fresh t c.entries) = fresh t c.entries := by
  apply without_eq_self
  intro e he hkey
  obtain ⟨hm, hexp⟩ := List.mem_filter.mp he
  have hexpired := h e (find?_eq_some.mpr ⟨hm, hkey⟩)
  simp [hexpired] at hexp

theorem fresh_length_lt {c : LruStore κ ν} {t : TimePoint} {key : κ} {e : CacheEntry κ ν}
    (hf : c.find? key = some e) (hexp : isExpired t e = true) :
    (fresh t c.entries).length < c.capacity := by
  have hlt : (fresh t c.entries).length < c.entries.length := by
    refine List.length_filter_lt_length_iff_exists.mpr ⟨e, (find?_eq_some.mp hf).1, ?_⟩
    simp [hexp]
  have hle := c.length_le
  omega

/-- What an unhindered put leaves of the other entries. -/
theorem fresh_makeRoom {c : LruStore κ ν} {t : TimePoint} {key : κ}
    (h : PutUnhindered t c key) (hf : c.find? key = none) :
    fresh t c.makeRoom = if c.capacity ≤ (fresh t c.entries).length then
      (fresh t c.entries).dropLast else fresh t c.entries := by
  have hle : (fresh t c.entries).length ≤ c.entries.length := List.length_filter_le _ _
  by_cases hfull : c.capacity ≤ c.entries.length
  · rw [makeRoom, if_pos hfull]
    rcases h hf hfull with hall | ⟨e, hlast, hexp⟩
    · have hsame : ∀ l : List (CacheEntry κ ν), l.Sublist c.entries → fresh t l = l := by
        intro l hl
        apply List.filter_eq_self.mpr
        intro e he
        simp [hall e (hl.subset he)]
      rw [hsame _ (List.Sublist.refl _), hsame _ (List.dropLast_sublist _), if_pos hfull]
    · obtain ⟨init, hinit⟩ := List.getLast?_eq_some_iff.mp hlast
      have hdrop : fresh t c.entries = fresh t init := by
        rw [hinit, fresh, List.filter_append]
        simp [fresh, hexp]
      have hlen : (fresh t init).length ≤ init.length := List.length_filter_le _ _
      have hcap := c.length_le
      rw [hinit, List.length_append, List.length_singleton] at hcap
      rw [hdrop, if_neg (by omega), hinit, List.dropLast_concat]
  · rw [makeRoom, if_neg hfull, if_neg (by omega)]

theorem put_fresh {c : LruStore κ ν} {t : TimePoint} {key : κ} (h : PutUnhindered t c key)
    (value : ν) (ttl : UInt32) :
    fresh t (c.put t key value ttl).entries =
      idealPut c.capacity ⟨key, value, putExpiry t c.defaultTtlS ttl⟩ (fresh t c.entries) := by
  have hnew := new_entry_fresh t c.defaultTtlS ttl key value
  have hcons : ∀ others : List (CacheEntry κ ν),
      fresh t (⟨key, value, putExpiry t c.defaultTtlS ttl⟩ :: others) =
        ⟨key, value, putExpiry t c.defaultTtlS ttl⟩ :: fresh t others := by
    intro others
    rw [fresh, List.filter_cons_of_pos (by simp [hnew])]
    rfl
  unfold idealPut
  rw [any_fresh]
  cases hf : c.find? key with
  | none =>
    have hentries := put_insert_entries hf t value ttl
    rw [hentries, hcons, fresh_makeRoom h hf]
    simp
  | some e =>
    have hentries := put_update_entries hf t value ttl
    rw [hentries, hcons, fresh_without]
    cases hexp : isExpired t e with
    | false => simp [hexp]
    | true =>
      -- the expired entry counts for the capacity but not among the fresh ones
      have hlt := fresh_length_lt hf hexp
      have hgone : without key (fresh t c.entries) = fresh t c.entries :=
        without_fresh fun x hx => by
          rw [hf] at hx
          exact Option.some.inj hx ▸ hexp
      simp [hexp, hgone, hlt]

theorem load_fresh (loaded : List (κ × ν × UInt32)) {c : LruStore κ ν} {t : TimePoint}
    (h : LoadUnhindered t c loaded) :
    fresh t (bulkLoad (fun _ => t) loaded c).entries =
      idealLoad c.capacity c.defaultTtlS t loaded (fresh t c.entries) := by
  induction loaded generalizing c with
  | nil => rfl
  | cons entry loaded ih =>
    obtain ⟨key, value, ttl⟩ := entry
    obtain ⟨hcap, httl⟩ := put_sameConfig c t key value ttl
    rw [bulkLoad, ih h.2, put_fresh h.1, hcap, httl]
    rfl

/-- An unhindered call does to the unexpired entries what the ideal cache does. -/
theorem perform_fresh {c : LruStore κ ν} {t : TimePoint} {call : Call κ ν}
    (h : Unhindered t c call) :
    fresh t (c.perform t call).1.entries =
      (idealPerform c.capacity c.defaultTtlS t (fresh t c.entries) call).1 := by
  cases call with
  | get key =>
    have hfind := find?_fresh c t key
    cases hf : c.find? key with
    | none =>
      rw [hf, Option.filter_none] at hfind
      simp [perform, idealPerform, hfind, missed_entries hf]
    | some e =>
      cases hexp : isExpired t e with
      | true =>
        have hgone : without key (fresh t c.entries) = fresh t c.entries :=
          without_fresh fun x hx => by
            rw [hf] at hx
            exact Option.some.inj hx ▸ hexp
        rw [hf, Option.filter_some_neg (by simp [hexp])] at hfind
        simp [perform, idealPerform, hfind, expired_entries hf hexp, fresh_without, hgone]
      | false =>
        have hcons : fresh t (e :: without key c.entries) =
            e :: fresh t (without key c.entries) := by
          rw [fresh, List.filter_cons_of_pos (by simp [hexp])]
          rfl
        rw [hf, Option.filter_some_pos (by simp [hexp])] at hfind
        simp [perform, idealPerform, hfind, hit_entries hf hexp, hcons, fresh_without]
  | remove key => rw [perform, idealPerform, remove_entries, fresh_without]
  | put key value ttl => rw [perform, idealPerform, put_fresh h]
  | bulkLoad loaded => rw [perform, idealPerform, load_fresh loaded h]
  | purgeExpired => rw [perform, idealPerform, purge_fresh, fresh_fresh (Int.le_refl t)]
  | _ => rfl

/-- The answers depend on the unexpired entries alone, but for a remove that names an
expired entry. -/
theorem perform_answer {c : LruStore κ ν} {t : TimePoint} {call : Call κ ν}
    (h : ∀ key, call = .remove key → ∀ e, c.find? key = some e → isExpired t e = false) :
    (c.perform t call).2 =
      (idealPerform c.capacity c.defaultTtlS t (fresh t c.entries) call).2 := by
  cases call with
  | get key =>
    have hfind := find?_fresh c t key
    cases hf : c.find? key with
    | none =>
      rw [hf, Option.filter_none] at hfind
      simp [perform, idealPerform, hfind, (get_missing hf t).1]
    | some e =>
      cases hexp : isExpired t e with
      | true =>
        rw [hf, Option.filter_some_neg (by simp [hexp])] at hfind
        simp [perform, idealPerform, hfind, (get_expired hf hexp).1]
      | false =>
        rw [hf, Option.filter_some_pos (by simp [hexp])] at hfind
        simp [perform, idealPerform, hfind, (get_hit hf hexp).1]
  | contains key => rw [perform, idealPerform, contains_fresh]
  | keys => rfl
  | snapshot =>
    rw [perform, idealPerform, snapshot, unexpired_const]
    rfl
  | remove key =>
    have hflag := (remove_contains_iff c t key).mpr (h key rfl)
    rw [perform, idealPerform, hflag, contains_fresh]
  | _ => rfl

theorem perform_sameConfig (c : LruStore κ ν) (t : TimePoint) (call : Call κ ν) :
    SameConfig c (c.perform t call).1 := by
  cases call with
  | get key => exact get_sameConfig c t key
  | remove key => exact remove_sameConfig c key
  | put key value ttl => exact put_sameConfig c t key value ttl
  | bulkLoad loaded => exact bulkLoad_sameConfig loaded _ c
  | _ => exact ⟨rfl, rfl⟩

/-- What a purged cache holds beside entries of the other one are expired entries at its end. -/
def Trails (t : TimePoint) (purged entries : List (CacheEntry κ ν)) : Prop :=
  ∃ kept stale, purged = kept ++ stale ∧ kept.Sublist entries ∧
    ∀ e ∈ stale, isExpired t e = true

omit [DecidableEq κ] in
theorem trails_refl (t : TimePoint) (entries : List (CacheEntry κ ν)) :
    Trails t entries entries :=
  ⟨entries, [], (List.append_nil entries).symm, List.Sublist.refl _, by simp⟩

omit [DecidableEq κ] in
theorem Trails.mono {t u : TimePoint} {purged entries : List (CacheEntry κ ν)}
    (h : Trails t purged entries) (hu : t ≤ u) : Trails u purged entries := by
  obtain ⟨kept, stale, hp, hkept, hstale⟩ := h
  refine ⟨kept, stale, hp, hkept, ?_⟩
  intro e he
  by_contra hexp
  have hbefore := not_expired_before hu (Bool.eq_false_iff.mpr hexp)
  rw [hstale e he] at hbefore
  cases hbefore

omit [DecidableEq κ] in
/-- What both caches drop, and what only the purged one drops. -/
theorem Trails.filter {t : TimePoint} {purged entries : List (CacheEntry κ ν)}
    (h : Trails t purged entries) (p : CacheEntry κ ν → Bool) :
    Trails t (purged.filter p) (entries.filter p) ∧ Trails t (purged.filter p) entries := by
  obtain ⟨kept, stale, rfl, hkept, hstale⟩ := h
  have hs : ∀ e ∈ stale.filter p, isExpired t e = true := fun e he =>
    hstale e (List.mem_of_mem_filter he)
  have hp := List.filter_append (p := p) kept stale
  exact ⟨⟨_, _, hp, hkept.filter p, hs⟩, ⟨_, _, hp, List.filter_sublist.trans hkept, hs⟩⟩

omit [DecidableEq κ] in
theorem Trails.take {t : TimePoint} {purged entries : List (CacheEntry κ ν)}
    (h : Trails t purged entries) (n : Nat) : Trails t (purged.take n) entries := by
  obtain ⟨kept, stale, rfl, hkept, hstale⟩ := h
  exact ⟨_, _, List.take_append, (List.take_sublist _ _).trans hkept,
    fun e he => hstale e (List.mem_of_mem_take he)⟩

omit [DecidableEq κ] in
theorem Trails.cons {t : TimePoint} {purged entries : List (CacheEntry κ ν)}
    (h : Trails t purged entries) (e : CacheEntry κ ν) : Trails t (e :: purged) (e :: entries) := by
  obtain ⟨kept, stale, rfl, hkept, hstale⟩ := h
  exact ⟨e :: kept, stale, rfl, hkept.cons_cons e, hstale⟩

omit [DecidableEq κ] in
/-- The other cache evicts an expired entry. -/
theorem Trails.dropLast {t : TimePoint} {purged entries : List (CacheEntry κ ν)}
    {e : CacheEntry κ ν} (h : Trails t purged entries) (hlast : entries.getLast? = some e)
    (hexp : isExpired t e = true) : Trails t purged entries.dropLast := by
  obtain ⟨kept, stale, rfl, hkept, hstale⟩ := h
  obtain ⟨init, rfl⟩ := List.getLast?_eq_some_iff.mp hlast
  rw [List.dropLast_concat]
  obtain ⟨kept₁, kept₂, rfl, h₁, h₂⟩ := List.sublist_append_iff.mp hkept
  refine ⟨kept₁, kept₂ ++ stale, List.append_assoc _ _ _, h₁, ?_⟩
  intro x hx
  rcases List.mem_append.mp hx with hx | hx
  · rw [List.mem_singleton.mp (h₂.subset hx)]
    exact hexp
  · exact hstale x hx

/-- Two caches of one configuration that hold the same unexpired entries, the second what
is left of the first after more purges. -/
structure Purged (t : TimePoint) (c d : LruStore κ ν) : Prop where
  config : SameConfig c d
  trails : Trails t d.entries c.entries
  same : fresh t d.entries = fresh t c.entries

omit [DecidableEq κ] in
/-- A purged cache that is full has an expired entry at its end, or holds what the other
one does. -/
theorem Purged.full {t : TimePoint} {c d : LruStore κ ν} (h : Purged t c d)
    (hfull : d.capacity ≤ d.entries.length) :
    (∃ e, d.entries.getLast? = some e ∧ isExpired t e = true) ∨ d.entries = c.entries := by
  obtain ⟨kept, stale, hd, hkept, hstale⟩ := h.trails
  rcases List.eq_nil_or_concat stale with rfl | ⟨init, e, rfl⟩
  · right
    rw [List.append_nil] at hd
    rw [hd]
    apply hkept.eq_of_length_le
    have hle := c.length_le
    have hcap := h.config.1
    rw [hd] at hfull
    omega
  · refine Or.inl ⟨e, ?_, hstale e (by simp)⟩
    rw [hd, List.concat_eq_append, ← List.append_assoc]
    exact List.getLast?_concat

theorem Purged.put_unhindered {t : TimePoint} {c d : LruStore κ ν} {key : κ}
    (h : Purged t c d) (hput : PutUnhindered t c key) : PutUnhindered t d key := by
  intro hf hfull
  rcases h.full hfull with hlast | heq
  · exact Or.inr hlast
  · have hfind : c.find? key = none := by
      rw [find?, ← heq]
      exact hf
    rw [heq]
    refine hput hfind ?_
    rw [← heq, ← h.config.1]
    exact hfull

theorem put_others (c : LruStore κ ν) (t : TimePoint) (key : κ) (value : ν) (ttl : UInt32) :
    ∃ n, (c.put t key value ttl).entries =
      ⟨key, value, putExpiry t c.defaultTtlS ttl⟩ :: (without key c.entries).take n := by
  cases hf : c.find? key with
  | some e =>
    refine ⟨(without key c.entries).length, ?_⟩
    rw [List.take_length]
    exact put_update_entries hf t value ttl
  | none =>
    have hself : without key c.entries = c.entries := without_eq_self (find?_eq_none.mp hf)
    have hput := put_insert_entries hf t value ttl
    rw [hself, hput]
    by_cases hfull : c.capacity ≤ c.entries.length
    · exact ⟨c.entries.length - 1, by rw [makeRoom, if_pos hfull, List.dropLast_eq_take]⟩
    · exact ⟨c.entries.length, by rw [makeRoom, if_neg hfull, List.take_length]⟩

theorem Purged.put_trails {t : TimePoint} {c d : LruStore κ ν} {key : κ} (h : Purged t c d)
    (hput : PutUnhindered t c key) (value : ν) (ttl : UInt32) :
    Trails t (d.put t key value ttl).entries (c.put t key value ttl).entries := by
  obtain ⟨n, hd⟩ := put_others d t key value ttl
  rw [h.config.2] at hd
  obtain ⟨hboth, hone⟩ := h.trails.filter fun e => e.key ≠ key
  cases hf : c.find? key with
  | some e =>
    rw [put_update_entries hf, hd]
    exact (hboth.take n).cons _
  | none =>
    by_cases hfull : c.capacity ≤ c.entries.length
    · rcases hput hf hfull with hall | ⟨e, hlast, hexp⟩
      · -- nothing has expired: the two caches hold the same
        have hself : fresh t c.entries = c.entries :=
          List.filter_eq_self.mpr fun e he => by simp [hall e he]
        have hsub : c.entries.Sublist d.entries := by
          rw [← hself, ← h.same]
          exact List.filter_sublist
        have heq : c.entries = d.entries := by
          apply hsub.eq_of_length_le
          have hle := d.length_le
          have hcap := h.config.1
          omega
        have hfd : d.find? key = none := by
          rw [find?, ← heq]
          exact hf
        rw [put_insert_entries hf, put_insert_entries hfd, h.config.2, makeRoom, makeRoom,
          h.config.1, heq]
        exact trails_refl t _
      · rw [put_insert_entries hf, hd, makeRoom, if_pos hfull]
        exact ((hone.dropLast hlast hexp).take n).cons _
    · rw [put_insert_entries hf, hd, makeRoom, if_neg hfull]
      exact (hone.take n).cons _

omit [DecidableEq κ] in
theorem SameConfig.both {c d c' d' : LruStore κ ν} (h : SameConfig c d) (hc : SameConfig c c')
    (hd : SameConfig d d') : SameConfig c' d' :=
  ⟨by rw [hd.1, h.1, hc.1], by rw [hd.2, h.2, hc.2]⟩

/-- An unhindered put keeps the two caches alike, and the purged one does not hinder it. -/
theorem Purged.put {t : TimePoint} {c d : LruStore κ ν} {key : κ} (h : Purged t c d)
    (hput : PutUnhindered t c key) (value : ν) (ttl : UInt32) :
    Purged t (c.put t key value ttl) (d.put t key value ttl) where
  config := h.config.both (put_sameConfig c t key value ttl) (put_sameConfig d t key value ttl)
  trails := h.put_trails hput value ttl
  same := by
    rw [put_fresh hput, put_fresh (h.put_unhindered hput), h.same, h.config.1, h.config.2]

theorem Purged.load {t : TimePoint} (loaded : List (κ × ν × UInt32)) {c d : LruStore κ ν}
    (h : Purged t c d) (hload : LoadUnhindered t c loaded) :
    LoadUnhindered t d loaded ∧
      Purged t (bulkLoad (fun _ => t) loaded c) (bulkLoad (fun _ => t) loaded d) := by
  induction loaded generalizing c d with
  | nil => exact ⟨trivial, h⟩
  | cons entry loaded ih =>
    obtain ⟨key, value, ttl⟩ := entry
    obtain ⟨hrest, hloaded⟩ := ih (h.put hload.1 value ttl) hload.2
    exact ⟨⟨h.put_unhindered hload.1, hrest⟩, hloaded⟩

theorem get_others (c : LruStore κ ν) (t : TimePoint) (key : κ) :
    (c.get t key).1.entries = ((fresh t c.entries).find? fun e => e.key = key).toList ++
      without key c.entries := by
  rw [find?_fresh]
  cases hf : c.find? key with
  | none => simp [missed_entries hf, without_eq_self (find?_eq_none.mp hf)]
  | some e =>
    cases hexp : isExpired t e with
    | true => simp [expired_entries hf hexp, hexp]
    | false =>
      rw [hit_entries hf hexp, Option.filter_some_pos (by simp [hexp])]
      rfl

theorem Purged.perform {t : TimePoint} {c d : LruStore κ ν} {call : Call κ ν}
    (h : Purged t c d) (hcall : Unhindered t c call) :
    Unhindered t d call ∧ Purged t (c.perform t call).1 (d.perform t call).1 := by
  have hkeep : Unhindered t d call →
      Trails t (d.perform t call).1.entries (c.perform t call).1.entries →
      Unhindered t d call ∧ Purged t (c.perform t call).1 (d.perform t call).1 := by
    intro hd htrails
    have hconfig := h.config.both (perform_sameConfig c t call) (perform_sameConfig d t call)
    refine ⟨hd, hconfig, htrails, ?_⟩
    rw [perform_fresh hcall, perform_fresh hd, h.same, h.config.1, h.config.2]
  cases call with
  | get key =>
    apply hkeep trivial
    rw [LruStore.perform, LruStore.perform, get_others, get_others, h.same]
    cases (fresh t c.entries).find? fun e => e.key = key with
    | none => exact (h.trails.filter _).1
    | some e => exact (h.trails.filter _).1.cons e
  | remove key =>
    apply hkeep trivial
    rw [LruStore.perform, LruStore.perform, remove_entries, remove_entries]
    exact (h.trails.filter _).1
  | put key value ttl =>
    exact hkeep (h.put_unhindered hcall) (h.put_trails hcall value ttl)
  | bulkLoad loaded => exact h.load loaded hcall
  | purgeExpired =>
    apply hkeep trivial
    rw [LruStore.perform, LruStore.perform, purge_fresh, purge_fresh]
    exact (h.trails.filter _).1
  | clear => exact hkeep trivial (trails_refl t [])
  | contains key => exact hkeep trivial h.trails
  | keys => exact hkeep trivial h.trails
  | snapshot => exact hkeep trivial h.trails

omit [DecidableEq κ] in
/-- A purge of the second cache alone. -/
theorem Purged.purge {t : TimePoint} {c d : LruStore κ ν} (h : Purged t c d) :
    Purged t c (d.purgeExpired fun _ => t).1 where
  config := h.config
  trails := by
    rw [purge_fresh]
    exact (h.trails.filter _).2
  same := by rw [purge_fresh, fresh_fresh (Int.le_refl t), h.same]

omit [DecidableEq κ] in
theorem Purged.mono {t u : TimePoint} {c d : LruStore κ ν} (h : Purged t c d) (hu : t ≤ u) :
    Purged u c d where
  config := h.config
  trails := h.trails.mono hu
  same := by rw [← fresh_fresh hu d.entries, h.same, fresh_fresh hu]

/-- Purges inserted into an unhindered run leave the two caches alike. -/
theorem Purged.performs {calls padded : List (TimePoint × Call κ ν)} (hpad : Padded calls padded)
    (hsorted : padded.Pairwise fun a b => a.1 ≤ b.1) {t u : TimePoint} (htu : t ≤ u)
    (ht : ∀ call ∈ padded, t ≤ call.1) (hu : ∀ call ∈ padded, call.1 ≤ u) {c d : LruStore κ ν}
    (h : Purged t c d) (hcalls : c.UnhinderedRun calls) :
    Purged u (c.performs calls).1 (d.performs padded).1 := by
  induction hpad generalizing t c d with
  | nil => exact h.mono htu
  | keep call _ ih =>
    have hs := List.pairwise_cons.mp hsorted
    obtain ⟨_, hafter⟩ := (h.mono (ht _ List.mem_cons_self)).perform hcalls.1
    exact ih hs.2 (hu _ List.mem_cons_self) hs.1 (fun x hx => hu x (List.mem_cons_of_mem _ hx))
      hafter hcalls.2
  | purge v _ ih =>
    have hs := List.pairwise_cons.mp hsorted
    exact ih hs.2 (hu _ List.mem_cons_self) hs.1 (fun x hx => hu x (List.mem_cons_of_mem _ hx))
      (h.mono (ht _ List.mem_cons_self)).purge hcalls

omit [DecidableEq κ] in
theorem purged_refl (t : TimePoint) (c : LruStore κ ν) : Purged t c c where
  config := ⟨rfl, rfl⟩
  trails := trails_refl t c.entries
  same := rfl

theorem purged_padded {calls padded : List (TimePoint × Call κ ν)} (hpad : Padded calls padded)
    (hsorted : padded.Pairwise fun a b => a.1 ≤ b.1) {u : TimePoint}
    (hu : ∀ call ∈ padded, call.1 ≤ u) {c : LruStore κ ν} (hcalls : c.UnhinderedRun calls) :
    Purged u (c.performs calls).1 (c.performs padded).1 := by
  cases padded with
  | nil => exact (purged_refl u c).performs hpad hsorted (Int.le_refl u) (by simp) hu hcalls
  | cons first rest =>
    refine (purged_refl first.1 c).performs hpad hsorted (hu _ List.mem_cons_self) ?_ hu hcalls
    intro call hcall
    rcases List.mem_cons.mp hcall with rfl | hcall
    · exact Int.le_refl _
    · exact (List.pairwise_cons.mp hsorted).1 call hcall

end LruStore

/-- As long as no put of the run evicts an unexpired entry while an expired one is there,
purges inserted anywhere are not noticed by the next call, unless that is a remove that
names an expired entry. -/
theorem purges_invisible {s : LRUCache κ ν} {c : LruStore κ ν} (h : Refines s c)
    {calls padded : List (TimePoint × Call κ ν)} (hpad : Padded calls padded)
    (hsorted : padded.Pairwise fun a b => a.1 ≤ b.1) (hcalls : c.UnhinderedRun calls) :
    ∃ s₁ answers₁ s₂ answers₂, s.performs calls = some (s₁, answers₁) ∧
      s.performs padded = some (s₂, answers₂) ∧
      ∀ t, (∀ call ∈ padded, call.1 ≤ t) → ∀ next : Call κ ν,
        (∀ key, next = .remove key → ∀ e, s₁.entryFor key = some e ∨ s₂.entryFor key = some e →
          isExpired t e = false) →
        ∃ answer s₁' s₂', s₁.perform t next = some (s₁', answer) ∧
          s₂.perform t next = some (s₂', answer) := by
  obtain ⟨s₁, hrun₁, h₁⟩ := performs_refines calls h
  obtain ⟨s₂, hrun₂, h₂⟩ := performs_refines padded h
  refine ⟨s₁, _, s₂, _, hrun₁, hrun₂, ?_⟩
  intro t ht next hnext
  obtain ⟨⟨hcap, httl⟩, _, hsame⟩ := LruStore.purged_padded hpad hsorted ht hcalls
  have hanswer₁ : ((c.performs calls).1.perform t next).2 = _ :=
    LruStore.perform_answer fun key hkey e he =>
      hnext key hkey e (Or.inl ((h₁.entryFor key).trans he))
  have hanswer₂ : ((c.performs padded).1.perform t next).2 = _ :=
    LruStore.perform_answer fun key hkey e he =>
      hnext key hkey e (Or.inr ((h₂.entryFor key).trans he))
  rw [hcap, httl, hsame, ← hanswer₁] at hanswer₂
  obtain ⟨s₁', hstep₁, _⟩ := perform_refines h₁ t next
  obtain ⟨s₂', hstep₂, _⟩ := perform_refines h₂ t next
  exact ⟨_, s₁', s₂', hstep₁, hanswer₂ ▸ hstep₂⟩

/-- Two slots; `a` expires, and its slot goes to `c`. -/
def expiring : List (TimePoint × Call String String) :=
  [(0, .put "a" "x" 1), (0, .put "b" "y" 0), (1000000000, .get "b"), (1000000000, .put "c" "z" 0)]

def expiringPurged : List (TimePoint × Call String String) :=
  [(0, .put "a" "x" 1), (0, .put "b" "y" 0), (1000000000, .purgeExpired), (1000000000, .get "b"),
    (1000000000, .put "c" "z" 0)]

theorem purges_invisible_expiring : ∃ (s s₁ s₂ : LRUCache String String)
    (answers₁ answers₂ : List (Answer String String)), LRUCache.construct 2 0 = .ok s ∧
      s.performs expiring = some (s₁, answers₁) ∧
      s.performs expiringPurged = some (s₂, answers₂) ∧
      ∃ answer s₁' s₂', s₁.perform 1000000000 .snapshot = some (s₁', answer) ∧
        s₂.perform 1000000000 .snapshot = some (s₂', answer) := by
  obtain ⟨s, hs, h⟩ := refines_construct (κ := String) (ν := String) 0 (show 0 < 2 by decide)
  have hpad : Padded expiring expiringPurged :=
    .keep _ (.keep _ (.purge _ (.keep _ (.keep _ .nil))))
  have hsorted : expiringPurged.Pairwise fun a b => a.1 ≤ b.1 := by
    simp [expiringPurged]
  have hcalls : (LruStore.init 2 0 (show 0 < 2 by decide)).UnhinderedRun expiring := by
    refine ⟨?_, ?_, trivial, ?_, trivial⟩
    · intro _ hfull
      exact absurd hfull (by decide)
    · intro _ hfull
      exact absurd hfull (by decide)
    · intro _ _
      exact Or.inr ⟨⟨"a", "x", some 1000000000⟩, rfl, rfl⟩
  obtain ⟨s₁, answers₁, s₂, answers₂, h₁, h₂, hnext⟩ :=
    purges_invisible h hpad hsorted hcalls
  have ht : ∀ call ∈ expiringPurged, call.1 ≤ 1000000000 := by simp [expiringPurged]
  exact ⟨s, s₁, s₂, answers₁, answers₂, hs, h₁, h₂, hnext 1000000000 ht .snapshot (by simp)⟩

/-- A remove that names an expired entry, and a put that evicts an unexpired one while
an expired one is there, let a purge be noticed. -/
theorem purge_changes_answers :
    (∃ s s₁ s₂ : LRUCache String String, LRUCache.construct 1 0 = .ok s ∧
      s.performs [(0, .put "a" "x" 1), (1000000000, .remove "a")] = some (s₁, [.flag true]) ∧
      s.performs [(0, .put "a" "x" 1), (1000000000, .purgeExpired), (1000000000, .remove "a")] =
        some (s₂, [.flag false])) ∧
    ∃ s s₁ s₂ : LRUCache String String, LRUCache.construct 2 0 = .ok s ∧
      s.performs [(0, .put "b" "y" 0), (0, .put "a" "x" 1), (1000000000, .put "c" "z" 0),
        (1000000000, .contains "b")] = some (s₁, [.flag false]) ∧
      s.performs [(0, .put "b" "y" 0), (0, .put "a" "x" 1), (1000000000, .purgeExpired),
        (1000000000, .put "c" "z" 0), (1000000000, .contains "b")] = some (s₂, [.flag true]) :=
  ⟨⟨_, _, _, rfl, rfl, rfl⟩, _, _, _, rfl, rfl, rfl⟩

end SelfHealingCache
