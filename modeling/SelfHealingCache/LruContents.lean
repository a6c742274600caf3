import Mathlib.Data.Finset.Card
import Mathlib.Data.Finset.Dedup
import SelfHealingCache.LruFreshness

namespace SelfHealingCache

variable {κ ν : Type} [DecidableEq κ]

namespace LruStore

/-- The value a read at `t` would return. -/
def live (c : LruStore κ ν) (t : TimePoint) (key : κ) : Option ν :=
  (c.find? key).bind fun e => if isExpired t e then none else some e.value

theorem get_value (c : LruStore κ ν) (t : TimePoint) (key : κ) : (c.get t key).2 = c.live t key := by
  cases hf : c.find? key with
  | none => simp [live, hf, (get_missing hf t).1]
  | some e =>
    cases hexp : isExpired t e with
    | true => simp [live, hf, hexp, (get_expired hf hexp).1]
    | false => simp [live, hf, hexp, (get_hit hf hexp).1]

theorem live_eq_some {c : LruStore κ ν} {t : TimePoint} {key : κ} {value : ν} :
    c.live t key = some value ↔
      ∃ e, c.find? key = some e ∧ isExpired t e = false ∧ e.value = value := by
  cases hf : c.find? key with
  | none => simp [live, hf]
  | some e => cases hexp : isExpired t e <;> simp [live, hf, hexp]

/-- Time only takes entries away. -/
theorem live_earlier {c : LruStore κ ν} {t t' : TimePoint} (h : t ≤ t') {key : κ} {value : ν}
    (hl : c.live t' key = some value) : c.live t key = some value := by
  obtain ⟨e, hf, hexp, hvalue⟩ := live_eq_some.mp hl
  exact live_eq_some.mpr ⟨e, hf, not_expired_before h hexp, hvalue⟩

theorem live_congr {c c' : LruStore κ ν} {key : κ} (h : c'.find? key = c.find? key)
    (t : TimePoint) : c'.live t key = c.live t key := by rw [live, h, live]

theorem mem_keys {c : LruStore κ ν} {t : TimePoint} {key : κ} :
    key ∈ c.keys (fun _ => t) ↔ ∃ value, c.live t key = some value := by
  unfold keys
  rw [List.mem_map]
  constructor
  · intro ⟨e, he, hkey⟩
    obtain ⟨hmem, hexp⟩ := List.mem_filter.mp he
    exact ⟨e.value, live_eq_some.mpr
      ⟨e, find?_eq_some.mpr ⟨hmem, hkey⟩, by simpa using hexp, rfl⟩⟩
  · intro ⟨value, hl⟩
    obtain ⟨e, hf, hexp, _⟩ := live_eq_some.mp hl
    obtain ⟨hmem, hkey⟩ := find?_eq_some.mp hf
    exact ⟨e, List.mem_filter.mpr ⟨hmem, by simp [hexp]⟩, hkey⟩

omit [DecidableEq κ] in
theorem unexpired_const (t : TimePoint) (entries : List (CacheEntry κ ν)) :
    unexpired (fun _ => t) entries = entries.filter fun e => !isExpired t e := by
  induction entries with
  | nil => rfl
  | cons e entries ih => cases hexp : isExpired t e <;> simp [unexpired, hexp, ih]

/-- A snapshot taken at one instant holds exactly the live keys. -/
theorem mem_snapshot_iff {c : LruStore κ ν} {t : TimePoint} {key : κ} {value : ν} :
    (∃ ttl, (key, value, ttl) ∈ c.snapshot t fun _ => t) ↔ c.live t key = some value := by
  unfold snapshot
  rw [unexpired_const]
  constructor
  · intro ⟨ttl, h⟩
    obtain ⟨e, he, heq⟩ := List.mem_map.mp h
    obtain ⟨hmem, hexp⟩ := List.mem_filter.mp he
    simp only [Prod.mk.injEq] at heq
    exact live_eq_some.mpr
      ⟨e, find?_eq_some.mpr ⟨hmem, heq.1⟩, by simpa using hexp, heq.2.1⟩
  · intro hl
    obtain ⟨e, hf, hexp, rfl⟩ := live_eq_some.mp hl
    obtain ⟨hmem, rfl⟩ := find?_eq_some.mp hf
    exact ⟨remainingTtl t e,
      List.mem_map.mpr ⟨e, List.mem_filter.mpr ⟨hmem, by simp [hexp]⟩, rfl⟩⟩

theorem remove_find? (c : LruStore κ ν) (key k : κ) :
    (c.remove key).1.find? k = if k = key then none else c.find? k := by
  have hentries := remove_entries c key
  split
  next hk =>
    subst hk
    apply find?_eq_none.mpr
    intro e he
    rw [hentries] at he
    exact (mem_without.mp he).2
  next hk =>
    cases hf : c.find? k with
    | none =>
      apply find?_eq_none.mpr
      intro e he
      rw [hentries] at he
      exact find?_eq_none.mp hf e (mem_without.mp he).1
    | some e =>
      obtain ⟨he, hkey⟩ := find?_eq_some.mp hf
      refine find?_eq_some.mpr ⟨?_, hkey⟩
      rw [hentries]
      exact mem_without.mpr ⟨he, fun heq => hk (hkey.symm.trans heq)⟩

/-- `remove` reports whether the key was there, expired or not. -/
theorem remove_removed (c : LruStore κ ν) (key : κ) :
    (c.remove key).2 = (c.find? key).isSome := by
  cases hf : c.find? key with
  | none => rw [remove_missing hf]; rfl
  | some e => rw [(remove_found hf).1]; rfl

theorem put_live_other {c : LruStore κ ν} {now : TimePoint} {k key : κ} {value : ν} {ttl : UInt32}
    (hk : k ≠ key) {t : TimePoint} {v : ν} (h : (c.put now k value ttl).live t key = some v) :
    c.live t key = some v := by
  obtain ⟨e, hf, hexp, hvalue⟩ := live_eq_some.mp h
  obtain ⟨he, hkey⟩ := find?_eq_some.mp hf
  have hbefore := put_entries_other c now value ttl hk e he hkey
  exact live_eq_some.mpr ⟨e, find?_eq_some.mpr ⟨hbefore, hkey⟩, hexp, hvalue⟩

omit [DecidableEq κ] in
theorem new_entry_fresh (t : TimePoint) (defaultTtlS ttl : UInt32) (key : κ) (value : ν) :
    isExpired t (⟨key, value, putExpiry t defaultTtlS ttl⟩ : CacheEntry κ ν) = false := by
  rw [putExpiry_unexpired rfl]
  by_cases h : effectiveTtl defaultTtlS ttl = 0
  · exact Or.inl h
  · right
    have hpos : 0 < (effectiveTtl defaultTtlS ttl).toNat := by
      by_contra hzero
      exact h (UInt32.toNat_inj.mp (by rw [UInt32.toNat_zero]; omega))
    have hseconds : 0 < seconds (effectiveTtl defaultTtlS ttl) := by
      unfold seconds
      omega
    exact Int.lt_add_of_pos_right t hseconds

/-- What is put is live. -/
theorem put_live (c : LruStore κ ν) (now : TimePoint) (key : κ) (value : ν) (ttl : UInt32) :
    (c.put now key value ttl).live now key = some value :=
  live_eq_some.mpr
    ⟨_, put_find?_self c now key value ttl, new_entry_fresh now c.defaultTtlS ttl key value, rfl⟩

theorem put_live_self {c : LruStore κ ν} {now : TimePoint} {key : κ} {value : ν} {ttl : UInt32}
    {t : TimePoint} {v : ν} (h : (c.put now key value ttl).live t key = some v) : v = value := by
  obtain ⟨e, hf, _, rfl⟩ := live_eq_some.mp h
  rw [put_find?_self] at hf
  cases Option.some.inj hf
  rfl

theorem remove_live {c : LruStore κ ν} {k key : κ} {t : TimePoint} {v : ν}
    (h : (c.remove k).1.live t key = some v) : key ≠ k ∧ c.live t key = some v := by
  obtain ⟨e, hf, hexp, hvalue⟩ := live_eq_some.mp h
  rw [remove_find?] at hf
  split at hf
  next => cases hf
  next hk => exact ⟨hk, live_eq_some.mpr ⟨e, hf, hexp, hvalue⟩⟩

/-- All keys in the store belong to `keys`, which fits into it. -/
def Fits (c : LruStore κ ν) (keys : Finset κ) : Prop :=
  (∀ e ∈ c.entries, e.key ∈ keys) ∧ keys.card ≤ c.capacity

instance (c : LruStore κ ν) (keys : Finset κ) : Decidable (c.Fits keys) := by
  unfold Fits
  infer_instance

theorem Fits.makeRoom {c : LruStore κ ν} {keys : Finset κ} (h : c.Fits keys) {key : κ}
    (hkey : key ∈ keys) (hf : c.find? key = none) : c.makeRoom = c.entries := by
  have hnodup : (key :: c.entries.map CacheEntry.key).Nodup := by
    refine List.nodup_cons.mpr ⟨?_, c.keys_nodup⟩
    intro hm
    obtain ⟨e, he, hek⟩ := List.mem_map.mp hm
    exact find?_eq_none.mp hf e he hek
  have hsub : (key :: c.entries.map CacheEntry.key).toFinset ⊆ keys := by
    intro k hk
    rcases List.mem_cons.mp (List.mem_toFinset.mp hk) with rfl | hk
    · exact hkey
    · obtain ⟨e, he, rfl⟩ := List.mem_map.mp hk
      exact h.1 e he
  have hcard := Finset.card_le_card hsub
  rw [List.toFinset_card_of_nodup hnodup, List.length_cons, List.length_map] at hcard
  have hcap := h.2
  unfold LruStore.makeRoom
  rw [if_neg (by omega)]

theorem Fits.put {c : LruStore κ ν} {keys : Finset κ} (h : c.Fits keys) {key : κ}
    (hkey : key ∈ keys) (now : TimePoint) (value : ν) (ttl : UInt32) :
    (c.put now key value ttl).Fits keys := by
  obtain ⟨others, hsub, _, hentries⟩ := put_entries c now key value ttl
  refine ⟨?_, ?_⟩
  · intro e he
    rw [hentries] at he
    rcases List.mem_cons.mp he with rfl | he
    · exact hkey
    · exact h.1 e (hsub.subset he)
  · rw [(put_sameConfig c now key value ttl).1]
    exact h.2

theorem Fits.remove {c : LruStore κ ν} {keys : Finset κ} (h : c.Fits keys) (key : κ) :
    (c.remove key).1.Fits keys := by
  refine ⟨?_, ?_⟩
  · intro e he
    rw [remove_entries] at he
    exact h.1 e (mem_without.mp he).1
  · rw [(remove_sameConfig c key).1]
    exact h.2

/-- With room for its key a put leaves the other keys alone. -/
theorem Fits.put_find? {c : LruStore κ ν} {keys : Finset κ} (h : c.Fits keys) {key : κ}
    (hkey : key ∈ keys) (now : TimePoint) (value : ν) (ttl : UInt32) {k : κ} (hk : k ≠ key) :
    (c.put now key value ttl).find? k = c.find? k := by
  have hkept : ∀ e ∈ c.entries, e.key = k → e ∈ (c.put now key value ttl).entries := by
    intro e he hek
    cases hf : c.find? key with
    | none =>
      have hentries := put_insert_entries hf now value ttl
      rw [hentries, h.makeRoom hkey hf]
      exact List.mem_cons_of_mem _ he
    | some x =>
      have hentries := put_update_entries hf now value ttl
      rw [hentries]
      exact List.mem_cons_of_mem _ (mem_without.mpr ⟨he, fun heq => hk (hek.symm.trans heq)⟩)
  cases hf : c.find? k with
  | some e =>
    obtain ⟨he, hek⟩ := find?_eq_some.mp hf
    exact find?_eq_some.mpr ⟨hkept e he hek, hek⟩
  | none =>
    apply find?_eq_none.mpr
    intro e he hek
    exact find?_eq_none.mp hf e (put_entries_other c now value ttl (Ne.symm hk) e he hek) hek

end LruStore

end SelfHealingCache
