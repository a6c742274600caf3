import SelfHealingCache.CacheTransfer
import SelfHealingCache.LruContents
import SelfHealingCache.LruRetention

namespace SelfHealingCache

variable {κ ν : Type} [DecidableEq κ]

namespace LruStore

theorem contains_eq_live (c : LruStore κ ν) (t : TimePoint) (key : κ) :
    c.contains t key = (c.live t key).isSome := by
  unfold contains live
  cases c.find? key with
  | none => rfl
  | some e => cases hexp : isExpired t e <;> simp [hexp]

omit [DecidableEq κ] in
theorem keys_nodup_at (c : LruStore κ ν) (now : κ → TimePoint) : (c.keys now).Nodup :=
  c.keys_nodup.sublist (List.filter_sublist.map CacheEntry.key)

/-- The entry behind a triple of a snapshot is the one a read at this instant finds. -/
theorem snapshot_entry {c : LruStore κ ν} {t : TimePoint} {key : κ} {value : ν} {ttl : UInt32}
    (h : (key, value, ttl) ∈ c.snapshot t fun _ => t) :
    c.live t key = some value ∧ ∃ e, c.find? key = some e ∧ remainingTtl t e = ttl := by
  obtain ⟨e, hf, _, httl⟩ := mem_snapshot h
  exact ⟨mem_snapshot_iff.mp ⟨ttl, h⟩, e, hf, httl⟩

omit [DecidableEq κ] in
/-- A snapshot lists the entries by last touch, most recent first. -/
theorem Ordered.snapshot {c : LruStore κ ν} {history : List (Happening κ ν)}
    (h : c.Ordered history) (start : TimePoint) (now : Nat → TimePoint) :
    ((c.snapshot start now).map Prod.fst).Pairwise fun newer older =>
      TouchedAfter history older newer := by
  have hkeys : (c.snapshot start now).map Prod.fst =
      (unexpired now c.entries).map CacheEntry.key := by simp [LruStore.snapshot]
  rw [hkeys, List.pairwise_map]
  exact h.order.sublist (unexpired_sublist now c.entries)

end LruStore

omit [DecidableEq κ] in
/-- The time left is reported in whole seconds, short of the deadline by less than one. -/
theorem remainingTtl_bounds {t : TimePoint} {e : CacheEntry κ ν} (hpos : 0 < remainingTtl t e)
    (hle : ∀ d, e.expiresAt = some d → d - t ≤ 4294967295 * 1000000000) :
    ∃ d, e.expiresAt = some d ∧ t + seconds (remainingTtl t e) ≤ d ∧
      d < t + seconds (remainingTtl t e) + 1000000000 := by
  cases hd : e.expiresAt with
  | none =>
    have hzero : remainingTtl t e = 0 := by simp [remainingTtl, hd]
    rw [hzero] at hpos
    exact absurd hpos (by decide)
  | some d =>
    have hrem := remainingTtl_toNat hd (hle d hd)
    have hnat : 0 < (remainingTtl t e).toNat := by simpa [UInt32.lt_iff_toNat_lt] using hpos
    have hseconds : seconds (remainingTtl t e) = (d - t) / 1000000000 * 1000000000 := by
      unfold seconds
      omega
    have hrounded : ∀ t d left : Int, left = (d - t) / 1000000000 * 1000000000 →
        t + left ≤ d ∧ d < t + left + 1000000000 := by
      intro t d left hleft
      omega
    exact ⟨d, rfl, hrounded t d _ hseconds⟩

namespace LRUCache

/-- What the four read paths show of a key at one instant: `listed` is the answer of `keys`,
`shown` the one of `snapshot`. -/
structure Agree (s : LRUCache κ ν) (t : TimePoint) (listed : List κ)
    (shown : List (κ × ν × UInt32)) (key : κ) : Prop where
  contained : (∃ s' value, s.get t key = some (s', some value)) ↔ s.contains t key = some true
  listed_iff : s.contains t key = some true ↔ key ∈ listed
  shown_iff : key ∈ listed ↔ ∃ value ttl, (key, value, ttl) ∈ shown
  once : ∀ s' value, s.get t key = some (s', some value) →
    listed.count key = 1 ∧ (shown.map Prod.fst).count key = 1
  same : ∀ s' value, s.get t key = some (s', some value) →
    ∀ value' ttl, (key, value', ttl) ∈ shown → value' = value ∧
      (0 < ttl → ∃ e deadline, s.entryFor key = some e ∧ e.expiresAt = some deadline ∧
        t + seconds ttl ≤ deadline ∧ deadline < t + seconds ttl + 1000000000)

theorem get_live {s : LRUCache κ ν} {c : LruStore κ ν} (h : Refines s c) {t : TimePoint} {key : κ}
    {value : ν} :
    (∃ s', s.get t key = some (s', some value)) ↔ c.live t key = some value := by
  obtain ⟨s', hget, _⟩ := get_refines h t key
  rw [hget, LruStore.get_value]
  simp

theorem agree_of_refines {s : LRUCache κ ν} {c : LruStore κ ν} (h : Refines s c) {t : TimePoint}
    (hwithin : c.WithinTtl t []) {listed : List κ} (hlisted : listed.Perm (c.keys fun _ => t))
    (key : κ) : s.Agree t listed (c.snapshot t fun _ => t) key := by
  have hcontains := contains_refines h t key
  have hmem : key ∈ listed ↔ ∃ value, c.live t key = some value := by
    rw [hlisted.mem_iff, LruStore.mem_keys]
  refine
    { contained := ?_
      listed_iff := ?_
      shown_iff := ?_
      once := ?_
      same := ?_ }
  · rw [hcontains, LruStore.contains_eq_live, exists_comm]
    simp only [get_live h, Option.some.injEq, Option.isSome_iff_exists]
  · rw [hcontains, hmem, LruStore.contains_eq_live]
    simp only [Option.some.injEq, Option.isSome_iff_exists]
  · rw [hmem]
    simp only [LruStore.mem_snapshot_iff]
  · intro s' value hget
    have hlive := (get_live h).mp ⟨s', hget⟩
    have hin : key ∈ listed := hmem.mpr ⟨value, hlive⟩
    obtain ⟨ttl, hshown⟩ := LruStore.mem_snapshot_iff.mpr hlive
    have hnodup : listed.Nodup := hlisted.nodup_iff.mpr (c.keys_nodup_at _)
    refine ⟨List.count_eq_one_of_mem hnodup hin, ?_⟩
    exact List.count_eq_one_of_mem (c.snapshot_keys_nodup _ _) (List.mem_map_of_mem hshown)
  · intro s' value hget value' ttl hshown
    have hlive := (get_live h).mp ⟨s', hget⟩
    obtain ⟨hlive', e, hf, httl⟩ := LruStore.snapshot_entry hshown
    rw [hlive] at hlive'
    refine ⟨(Option.some.inj hlive').symm, fun hpos => ?_⟩
    rw [← httl] at hpos ⊢
    obtain ⟨deadline, hd, hlow, hhigh⟩ :=
      remainingTtl_bounds hpos (hwithin e (LruStore.find?_eq_some.mp hf).1)
    exact ⟨e, deadline, by rw [h.entryFor, hf], hd, hlow, hhigh⟩

/-- Whatever calls a cache has seen, its read paths agree on every key at any later instant, and
a snapshot lists the entries by last touch. -/
theorem observers_agree (capacity : Nat) (defaultTtlS : UInt32) {start s : LRUCache κ ν}
    {ops : List (Op κ ν)} {history : List (Happening κ ν)}
    (hstart : construct capacity defaultTtlS = .ok start)
    (hrun : start.run ops = some (s, history)) {t : TimePoint}
    (hclock : ∀ op ∈ ops, op.Reads fun r => r ≤ t) :
    ∃ listed shown, s.keys (fun _ => t) = some listed ∧ s.snapshot t (fun _ => t) = some shown ∧
      (∀ key, s.Agree t listed shown key) ∧
      (shown.map Prod.fst).Pairwise fun newer older => TouchedAfter history older newer := by
  obtain ⟨hcap, hinit⟩ := construct_ok hstart
  obtain ⟨s', hrun', hs⟩ := run_refines hinit ops
  rw [hrun] at hrun'
  cases hrun'
  obtain ⟨reading, listed, hkeys, hreading, hperm⟩ := keys_refines hs fun _ => t
  have hinstant : reading = fun _ => t := by
    funext k
    obtain ⟨_, hk⟩ := hreading k
    exact hk
  rw [hinstant] at hperm
  have hwithin := LruStore.withinTtl_run (LruStore.init capacity defaultTtlS hcap) rfl hclock
  have hordered := LruStore.ordered_run (LruStore.init capacity defaultTtlS hcap) rfl ops
  exact ⟨listed, _, hkeys, snapshot_refines hs t fun _ => t, agree_of_refines hs hwithin hperm,
    hordered.snapshot t fun _ => t⟩

/-- Half a second before its deadline a key is still shown by all four read paths. -/
theorem observers_agree_two_keys : ∃ (start s : LRUCache Nat Nat) (history : List (Happening Nat Nat))
    (listed : List Nat) (shown : List (Nat × Nat × UInt32)), construct 2 0 = .ok start ∧
    start.run [.put 0 1 10 1, .put 1 2 20 5] = some (s, history) ∧
    s.keys (fun _ => 500000000) = some listed ∧
    s.snapshot 500000000 (fun _ => 500000000) = some shown ∧ s.Agree 500000000 listed shown 1 ∧
    s.contains 500000000 1 = some true := by
  have hclock : ∀ op ∈ [Op.put 0 1 10 1, Op.put 1 2 20 5],
      op.Reads fun r => r ≤ (500000000 : TimePoint) := by
    simp [Op.Reads]
  obtain ⟨listed, shown, hkeys, hsnapshot, hagree, _⟩ := observers_agree 2 0
    (show construct (κ := Nat) (ν := Nat) 2 0 = .ok _ from rfl)
    (show run _ [.put 0 1 10 1, .put 1 2 20 5] = some (_, _) from rfl) hclock
  exact ⟨_, _, _, listed, shown, rfl, rfl, hkeys, hsnapshot, hagree 1, rfl⟩

end LRUCache

end SelfHealingCache
