import SelfHealingCache.CacheWire
import SelfHealingCache.LruFreshness

namespace SelfHealingCache

/-- The way of a snapshot to the entries another node loads: `/snapshot`, the
filter of the gateway, `/bulk-load`. -/
def transfer (nodeId : String) (keysSet : List String) (snap : List (String × String × UInt32)) :
    Option (List (String × String × UInt32)) := do
  let filtered ← bulkLoadRequest keysSet (handleSnapshot nodeId snap)
  readEntries (.obj [("entries", .arr filtered)])

theorem transfer_eq (nodeId : String) (keysSet : List String)
    (snap : List (String × String × UInt32)) :
    transfer nodeId keysSet snap = some (snap.filter fun e => e.1 ∈ keysSet) := by
  rw [transfer, bulkLoadRequest_json]
  exact readEntries_json _

variable {κ ν : Type}

/-- The entry `e'` stored at `t'` expires no later than `e`, snapshot at `t`, does,
shifted by the time in between. -/
def DeadlineKept (t t' : TimePoint) (e e' : CacheEntry κ ν) : Prop :=
  match e.expiresAt, e'.expiresAt with
  | none, none => True
  | none, some _ => False
  | some _, none => False
  | some d, some d' => d' ≤ d + (t' - t)

instance (t t' : TimePoint) (e e' : CacheEntry κ ν) : Decidable (DeadlineKept t t' e e') := by
  unfold DeadlineKept
  split <;> infer_instance

variable [DecidableEq κ]

namespace LruStore

/-- No deadline is further away than a TTL can be long. -/
def WithinTtl (t : TimePoint) (c : LruStore κ ν) (_ : List (Happening κ ν)) : Prop :=
  ∀ e ∈ c.entries, ∀ d, e.expiresAt = some d → d - t ≤ 4294967295 * 1000000000

theorem putExpiry_within {t now : TimePoint} (hnow : now ≤ t) (defaultTtlS ttl : UInt32) {d : Int}
    (hd : putExpiry now defaultTtlS ttl = some d) : d - t ≤ 4294967295 * 1000000000 := by
  unfold putExpiry at hd
  split at hd
  next =>
    have hlt := (effectiveTtl defaultTtlS ttl).toNat_lt
    have hpast := Int.sub_nonneg_of_le hnow
    cases Option.some.inj hd
    unfold seconds
    omega
  next => cases hd

theorem withinTtl_invariant (t : TimePoint) :
    HistoryInvariant (κ := κ) (ν := ν) (fun r => r ≤ t) (WithinTtl t) where
  missed := fun c _ now key _ h e he => h e (get_entries_subset c now key he)
  expired := fun c _ now key _ _ _ _ h e he => h e (get_entries_subset c now key he)
  hit := fun c _ now key _ _ _ _ h e he => h e (get_entries_subset c now key he)
  put := by
    intro c history now key value ttl hnow h e he d hd
    obtain ⟨others, hsub, _, hentries⟩ := put_entries c now key value ttl
    rw [hentries] at he
    rcases List.mem_cons.mp he with rfl | he
    · exact putExpiry_within hnow c.defaultTtlS ttl hd
    · exact h e (hsub.subset he) d hd
  remove := by
    intro c history key h e he
    rw [remove_entries] at he
    exact h e (mem_without.mp he).1
  purgeExpired := fun c _ now _ h e he => h e ((unexpired_sublist now c.entries).subset he)
  clear := by
    intro c history _ e he
    cases he

theorem withinTtl_run (c : LruStore κ ν) (hc : c.entries = []) {t : TimePoint}
    {ops : List (Op κ ν)} (hops : ∀ op ∈ ops, op.Reads fun r => r ≤ t) :
    (c.run ops).1.WithinTtl t (c.run ops).2 := by
  apply (withinTtl_invariant t).run hops
  intro e he
  rw [hc] at he
  cases he

omit [DecidableEq κ] in
theorem snapshot_keys_nodup (c : LruStore κ ν) (start : TimePoint) (now : Nat → TimePoint) :
    ((c.snapshot start now).map Prod.fst).Nodup := by
  have hkeys : (c.snapshot start now).map Prod.fst =
      (unexpired now c.entries).map CacheEntry.key := by simp [snapshot]
  rw [hkeys]
  exact c.keys_nodup.sublist ((unexpired_sublist now c.entries).map _)

/-- A snapshot reports value and remaining time of the entry the key has. -/
theorem mem_snapshot {c : LruStore κ ν} {start : TimePoint} {now : Nat → TimePoint} {key : κ}
    {value : ν} {ttl : UInt32} (h : (key, value, ttl) ∈ c.snapshot start now) :
    ∃ e, c.find? key = some e ∧ e.value = value ∧ remainingTtl start e = ttl := by
  obtain ⟨e, he, heq⟩ := List.mem_map.mp h
  simp only [Prod.mk.injEq] at heq
  obtain ⟨hkey, hvalue, httl⟩ := heq
  have hmem := (unexpired_sublist now c.entries).subset he
  exact ⟨e, find?_eq_some.mpr ⟨hmem, hkey⟩, hvalue, httl⟩

end LruStore

/-- `duration_cast` rounds towards zero, which only differs below zero. -/
theorem whole_seconds (n : Int) : max 0 (n.tdiv 1000000000) = max 0 (n / 1000000000) := by
  rcases Int.le_total 0 n with h | h
  · rw [Int.tdiv_eq_ediv_of_nonneg h]
  · have hneg : 0 ≤ (-n).tdiv 1000000000 := Int.tdiv_nonneg (by omega) (by omega)
    rw [Int.neg_tdiv] at hneg
    omega

omit [DecidableEq κ] in
/-- Whole seconds survive, a fraction is lost. -/
theorem remainingTtl_toNat {t : TimePoint} {e : CacheEntry κ ν} {d : Int}
    (hd : e.expiresAt = some d) (hle : d - t ≤ 4294967295 * 1000000000) :
    ((remainingTtl t e).toNat : Int) = max 0 ((d - t) / 1000000000) := by
  have hwhole := whole_seconds (d - t)
  unfold remainingTtl
  rw [hd]
  dsimp only
  split
  next hpos =>
    have hlt : ((d - t).tdiv 1000000000).toNat < 2 ^ 32 := by omega
    rw [UInt32.toNat_ofNat_of_lt' hlt]
    omega
  next hpos =>
    have hzero : ((0 : UInt32).toNat : Int) = 0 := rfl
    rw [hzero]
    omega

omit [DecidableEq κ] in
theorem effectiveTtl_toNat (defaultTtlS ttl : UInt32) :
    (effectiveTtl defaultTtlS ttl).toNat = if 0 < ttl.toNat then ttl.toNat
      else defaultTtlS.toNat := by
  unfold effectiveTtl
  by_cases h : 0 < ttl
  · have hn : 0 < ttl.toNat := h
    rw [if_pos h, if_pos hn]
  · have hn : ¬0 < ttl.toNat := h
    rw [if_neg h, if_neg hn]

omit [DecidableEq κ] in
theorem putExpiry_eq (now : TimePoint) (defaultTtlS ttl : UInt32) :
    putExpiry now defaultTtlS ttl =
      if 0 < (effectiveTtl defaultTtlS ttl).toNat then
        some (now + (effectiveTtl defaultTtlS ttl).toNat * 1000000000)
      else none := rfl

theorem shifted_le {t d r : Int} (t' : Int) : t' + r ≤ d + (t' - t) ↔ r ≤ d - t := by omega

omit [DecidableEq κ] in
/-- Storing the reported remaining time keeps the deadline exactly when there is a
whole second left, or nothing to keep and no default to pick up. -/
theorem deadlineKept_iff {t t' : TimePoint} {e : CacheEntry κ ν} {key : κ} {value : ν}
    {defaultTtlS : UInt32}
    (hle : ∀ d, e.expiresAt = some d → d - t ≤ 4294967295 * 1000000000) :
    DeadlineKept t t' e ⟨key, value, putExpiry t' defaultTtlS (remainingTtl t e)⟩ ↔
      (e.expiresAt = none → defaultTtlS = 0) ∧
        ∀ d, e.expiresAt = some d → (1000000000 : Int) ≤ d - t := by
  have hzero : defaultTtlS = 0 ↔ defaultTtlS.toNat = 0 := by
    rw [← UInt32.toNat_inj]
    rfl
  rw [putExpiry_eq, effectiveTtl_toNat]
  cases hd : e.expiresAt with
  | none =>
    have hrem : (remainingTtl t e).toNat = 0 := by
      rw [remainingTtl, hd]
      rfl
    rw [hrem, hzero]
    by_cases hdef : 0 < defaultTtlS.toNat
    · have hne : defaultTtlS.toNat ≠ 0 := by omega
      simp [DeadlineKept, hd, hdef, hne]
    · have heq : defaultTtlS.toNat = 0 := by omega
      simp [DeadlineKept, hd, heq]
  | some d =>
    have hrem := remainingTtl_toNat hd (hle d hd)
    by_cases hsec : (1000000000 : Int) ≤ d - t
    · have hpos : 0 < (remainingTtl t e).toNat := by omega
      have hshort : ((remainingTtl t e).toNat : Int) * 1000000000 ≤ d - t := by omega
      have hkept := (shifted_le t').mpr hshort
      simpa [DeadlineKept, hd, hpos, hsec] using hkept
    · have hpos : ¬0 < (remainingTtl t e).toNat := by omega
      by_cases hdef : 0 < defaultTtlS.toNat
      · have hlong : ¬(defaultTtlS.toNat : Int) * 1000000000 ≤ d - t := by omega
        have hlate := mt (shifted_le t').mp hlong
        simpa [DeadlineKept, hd, hpos, hdef, hsec] using hlate
      · simp [DeadlineKept, hd, hpos, hdef, hsec]

theorem LruStore.transferred_deadline_iff {c c' : LruStore String String} {t : TimePoint}
    (hc : c.WithinTtl t []) {now now' : Nat → TimePoint} {keysSet : List String} {i : Nat}
    {key value : String} {ttl : UInt32}
    (hi : ((c.snapshot t now).filter fun e => e.1 ∈ keysSet)[i]? = some (key, value, ttl))
    {e e' : CacheEntry String String} (he : c.find? key = some e)
    (he' : (LruStore.bulkLoad now' ((c.snapshot t now).filter fun e => e.1 ∈ keysSet) c').find?
      key = some e') :
    DeadlineKept t (now' i) e e' ↔ (e.expiresAt = none → c'.defaultTtlS = 0) ∧
      ∀ d, e.expiresAt = some d → (1000000000 : Int) ≤ d - t := by
  have hsub : ((c.snapshot t now).filter fun e => e.1 ∈ keysSet).Sublist (c.snapshot t now) :=
    List.filter_sublist
  have hnodup := (c.snapshot_keys_nodup t now).sublist (hsub.map Prod.fst)
  have hstored := bulkLoad_find? _ hnodup now' c' hi he'
  have hmem := hsub.subset (List.mem_of_getElem? hi)
  obtain ⟨e₀, hfind, _, hremaining⟩ := mem_snapshot hmem
  rw [he] at hfind
  cases Option.some.inj hfind
  rw [hstored, ← hremaining]
  exact deadlineKept_iff (hc e (find?_eq_some.mp he).1)

namespace LRUCache

/-- An entry migrated through `/snapshot` and `/bulk-load` keeps its deadline
exactly when it has none and the target adds none by default, or when at least a
whole second of it is left. -/
theorem migrated_deadline_iff {sourceCapacity targetCapacity : Nat}
    {sourceTtlS targetTtlS : UInt32} {source₀ target₀ source target target' : LRUCache String String}
    {sourceOps targetOps : List (Op String String)}
    {sourceHistory targetHistory : List (Happening String String)}
    (hsource₀ : construct sourceCapacity sourceTtlS = .ok source₀)
    (hsource : source₀.run sourceOps = some (source, sourceHistory))
    (htarget₀ : construct targetCapacity targetTtlS = .ok target₀)
    (htarget : target₀.run targetOps = some (target, targetHistory))
    {t : TimePoint} (hclock : ∀ op ∈ sourceOps, op.Reads fun r => r ≤ t)
    {now now' : Nat → TimePoint} {snap entries : List (String × String × UInt32)}
    {nodeId : String} {keysSet : List String}
    (hsnap : source.snapshot t now = some snap)
    (hwire : transfer nodeId keysSet snap = some entries)
    (hload : bulkLoad now' entries target = some target')
    {i : Nat} {key value : String} {ttl : UInt32} (hi : entries[i]? = some (key, value, ttl))
    {e e' : CacheEntry String String} (he : source.entryFor key = some e)
    (he' : target'.entryFor key = some e') :
    DeadlineKept t (now' i) e e' ↔ (e.expiresAt = none → targetTtlS = 0) ∧
      ∀ d, e.expiresAt = some d → (1000000000 : Int) ≤ d - t := by
  obtain ⟨hcap, hinit⟩ := construct_ok hsource₀
  obtain ⟨_, hrun, hs⟩ := run_refines hinit sourceOps
  rw [hsource] at hrun
  cases hrun
  obtain ⟨hcap', hinit'⟩ := construct_ok htarget₀
  obtain ⟨_, hrun', ht⟩ := run_refines hinit' targetOps
  rw [htarget] at hrun'
  cases hrun'
  rw [snapshot_refines hs] at hsnap
  cases Option.some.inj hsnap
  rw [transfer_eq] at hwire
  cases Option.some.inj hwire
  obtain ⟨_, hload', ht'⟩ := bulkLoad_refines _ ht now'
  rw [hload] at hload'
  cases Option.some.inj hload'
  rw [hs.entryFor] at he
  rw [ht'.entryFor] at he'
  have hwithin := LruStore.withinTtl_run (LruStore.init sourceCapacity sourceTtlS hcap) rfl hclock
  have hconfig := LruStore.run_sameConfig (LruStore.init targetCapacity targetTtlS hcap') targetOps
  have hkept := LruStore.transferred_deadline_iff hwithin hi he he'
  rw [hconfig.2] at hkept
  exact hkept

/-- Half a second before its deadline the entry is reported with 0 seconds left,
and stored without any deadline. -/
theorem last_second_becomes_immortal : ∃ source₀ source target snap entries target' e e',
    construct 1 0 = .ok source₀ ∧
    source₀.run [.put 0 "k" "v" 1] = some (source, [.put 0 "k" "v" 1]) ∧
    construct 1 0 = .ok target ∧ source.snapshot 500000000 (fun _ => 500000000) = some snap ∧
    transfer "node-1" ["k"] snap = some entries ∧ entries[0]? = some ("k", "v", 0) ∧
    bulkLoad (fun _ => 600000000) entries target = some target' ∧
    source.entryFor "k" = some e ∧ target'.entryFor "k" = some e' ∧
    e.expiresAt = some 1000000000 ∧ e'.expiresAt = none ∧
    ¬DeadlineKept 500000000 600000000 e e' := by
  refine ⟨_, _, _, _, _, _, _, _, rfl, rfl, rfl, rfl, rfl, rfl, rfl, rfl, rfl, rfl, rfl, ?_⟩
  decide

/-- An entry with two and a half seconds left is stored with two. -/
theorem migrated_deadline_iff_two_seconds : ∃ (source₀ source target₀ target' : LRUCache String String)
    (e e' : CacheEntry String String) (snap entries : List (String × String × UInt32)),
    construct 1 0 = .ok source₀ ∧
    source₀.run [.put 0 "k" "v" 3] = some (source, [.put 0 "k" "v" 3]) ∧
    construct 1 5 = .ok target₀ ∧ source.snapshot 500000000 (fun _ => 500000000) = some snap ∧
    transfer "node-1" ["k"] snap = some entries ∧
    bulkLoad (fun _ => 600000000) entries target₀ = some target' ∧
    source.entryFor "k" = some e ∧ target'.entryFor "k" = some e' ∧
    e'.expiresAt = some 2600000000 ∧
    (DeadlineKept 500000000 600000000 e e' ↔ (e.expiresAt = none → (5 : UInt32) = 0) ∧
      ∀ d, e.expiresAt = some d → (1000000000 : Int) ≤ d - 500000000) := by
  refine ⟨_, _, _, _, _, _, _, _, rfl, rfl, rfl, rfl, rfl, rfl, rfl, rfl, rfl, ?_⟩
  have hclock : ∀ op ∈ [Op.put 0 "k" "v" 3], op.Reads fun r => r ≤ 500000000 := by
    simp [Op.Reads]
  exact migrated_deadline_iff (show construct 1 0 = .ok _ from rfl)
    (show run _ [.put 0 "k" "v" 3] = some (_, _) from rfl) (show construct 1 5 = .ok _ from rfl)
    (show run _ [] = some (_, _) from rfl) hclock
    (show snapshot _ 500000000 (fun _ => 500000000) = some _ from rfl)
    (show transfer "node-1" ["k"] _ = some _ from rfl)
    (show bulkLoad (fun _ => 600000000) _ _ = some _ from rfl)
    (show [_][0]? = some ("k", "v", 2) from rfl) rfl rfl

end LRUCache

end SelfHealingCache
