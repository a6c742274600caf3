import SelfHealingCache.Rebalancer

namespace SelfHealingCache

variable {_hash : String → Nat}

/-- The keys with a new owner, grouped by it, each with its old owner. -/
theorem planKeys_migrations (oldRing newRing : HashRing) (order : List String) :
    (planKeys _hash oldRing newRing order).1 =
      Dict.group (fun k => newRing.getNode _hash k) (fun k => (k, oldRing.getNode _hash k))
        (order.filter fun k => oldRing.getNode _hash k ≠ newRing.getNode _hash k) := by
  have hfold : ∀ (order : List String) s, (order.foldl (planKey _hash oldRing newRing) s).1 =
      (order.filter fun k => oldRing.getNode _hash k ≠ newRing.getNode _hash k).foldl
        (fun d k => d.appendTo (newRing.getNode _hash k) (k, oldRing.getNode _hash k)) s.1 := by
    intro order
    induction order with
    | nil => exact fun _ => rfl
    | cons k order ih =>
      intro s
      rw [List.foldl_cons, ih]
      by_cases hk : oldRing.getNode _hash k = newRing.getNode _hash k
      · simp [planKey, hk]
      · simp [planKey, hk]
  exact hfold order (∅, ∅)

theorem mem_tasks_of {d : Dict (Option String) (List (String × Option String))} {m : Migration} :
    m ∈ migrationTasks d ↔ ∃ keysAndOwners, d.get? m.newOwner = some keysAndOwners ∧
      (byOldOwner keysAndOwners).get? m.oldOwner = some m.keys := by
  unfold migrationTasks
  rw [List.mem_flatMap]
  constructor
  · intro ⟨p, hp, hm⟩
    obtain ⟨g, hg, rfl⟩ := List.mem_map.mp hm
    exact ⟨p.2, Dict.get?_eq_some.mpr hp, Dict.get?_eq_some.mpr hg⟩
  · intro ⟨keysAndOwners, hd, hg⟩
    exact ⟨_, Dict.get?_eq_some.mp hd, List.mem_map.mpr ⟨_, Dict.get?_eq_some.mp hg, rfl⟩⟩

/-- The tasks of a rebalance: one for each pair of different owners between which
some key moves, with all these keys. -/
theorem mem_migrationTasks {oldRing newRing : HashRing} {order : List String} {m : Migration} :
    m ∈ migrationTasks (planKeys _hash oldRing newRing order).1 ↔ m.keys ≠ [] ∧
      m.keys = order.filter fun k => oldRing.getNode _hash k = m.oldOwner ∧
        newRing.getNode _hash k = m.newOwner ∧ m.oldOwner ≠ m.newOwner := by
  have hgroups : ∀ keysAndOwners, keysAndOwners = (((order.filter fun k =>
        oldRing.getNode _hash k ≠ newRing.getNode _hash k).filter fun k =>
          newRing.getNode _hash k = m.newOwner).map fun k => (k, oldRing.getNode _hash k)) →
      ((keysAndOwners.filter fun p => p.2 = m.oldOwner).map Prod.fst) = order.filter fun k =>
        oldRing.getNode _hash k = m.oldOwner ∧ newRing.getNode _hash k = m.newOwner ∧
          m.oldOwner ≠ m.newOwner := by
    intro keysAndOwners hkeys
    rw [hkeys, List.filter_map, List.map_map, List.filter_filter, List.filter_filter]
    have hid : (Prod.fst ∘ fun k => (k, oldRing.getNode _hash k)) = id := rfl
    rw [hid, List.map_id]
    apply List.filter_congr
    intro k _
    simp only [Function.comp, decide_eq_decide, ne_eq, Bool.and_eq_decide, decide_eq_true_eq]
    grind
  rw [mem_tasks_of, planKeys_migrations]
  constructor
  · intro ⟨keysAndOwners, hd, hg⟩
    obtain ⟨hne, hkeys⟩ := (Dict.get?_group _ _ _).mp hg
    obtain ⟨_, hall⟩ := (Dict.get?_group _ _ _).mp hd
    exact ⟨hne, hkeys.trans (hgroups _ hall)⟩
  · intro ⟨hne, hkeys⟩
    have hgroup := hgroups _ rfl
    refine ⟨_, (Dict.get?_group _ _ _).mpr ⟨?_, rfl⟩,
      (Dict.get?_group _ _ _).mpr ⟨hne, hkeys.trans hgroup.symm⟩⟩
    intro hnil
    rw [hnil] at hgroup
    exact hne (hkeys.trans hgroup.symm)

/-- No two tasks have the same owners. -/
theorem migrationTasks_owners_nodup (d : Dict (Option String) (List (String × Option String))) :
    ((migrationTasks d).map fun m => (m.newOwner, m.oldOwner)).Nodup := by
  unfold migrationTasks
  rw [List.map_flatMap, List.nodup_flatMap]
  constructor
  · intro p _
    have hn := (byOldOwner p.2).nodup
    rw [List.map_map]
    refine List.Nodup.of_map Prod.snd ?_
    rw [List.map_map]
    exact hn
  · have hn := d.nodup
    refine (List.pairwise_map.mp hn).imp ?_
    intro p q hne o hp hq
    obtain ⟨m, hm, rfl⟩ := List.mem_map.mp hp
    obtain ⟨m', hm', heq⟩ := List.mem_map.mp hq
    obtain ⟨_, _, rfl⟩ := List.mem_map.mp hm
    obtain ⟨_, _, rfl⟩ := List.mem_map.mp hm'
    exact hne (congrArg Prod.fst heq).symm

section tasks

variable {oldRing newRing : HashRing} {order : List String} {m m' : Migration} {k : String}

theorem Migration.owners (hm : m ∈ migrationTasks (planKeys _hash oldRing newRing order).1)
    (hk : k ∈ m.keys) : oldRing.getNode _hash k = m.oldOwner ∧
      newRing.getNode _hash k = m.newOwner ∧ m.oldOwner ≠ m.newOwner := by
  rw [(mem_migrationTasks.mp hm).2] at hk
  simpa using (List.mem_filter.mp hk).2

/-- A key is in one task at most. -/
theorem tasks_disjoint {i j : Nat} {p p' : Progress} {tasks : List (Migration × Progress)}
    (htasks : tasks.map Prod.fst = migrationTasks (planKeys _hash oldRing newRing order).1)
    (hi : tasks[i]? = some (m, p)) (hj : tasks[j]? = some (m', p')) (hk : k ∈ m.keys)
    (hk' : k ∈ m'.keys) : i = j := by
  have hmi : (migrationTasks (planKeys _hash oldRing newRing order).1)[i]? = some m := by
    rw [← htasks, List.getElem?_map, hi]
    rfl
  have hmj : (migrationTasks (planKeys _hash oldRing newRing order).1)[j]? = some m' := by
    rw [← htasks, List.getElem?_map, hj]
    rfl
  obtain ⟨hold, hnew, _⟩ := Migration.owners (List.mem_of_getElem? hmi) hk
  obtain ⟨hold', hnew', _⟩ := Migration.owners (List.mem_of_getElem? hmj) hk'
  have hn := migrationTasks_owners_nodup (planKeys _hash oldRing newRing order).1
  obtain ⟨hlt, _⟩ := List.getElem?_eq_some_iff.mp hmi
  refine (List.getElem?_inj (by simpa using hlt) hn).mp ?_
  rw [List.getElem?_map, List.getElem?_map, hmi, hmj]
  simp [← hold, ← hnew, ← hold', ← hnew']

/-- The task that has a key, wherever it is met. -/
theorem task_unique {i : Nat} {p p' : Progress} {tasks : List (Migration × Progress)}
    (htasks : tasks.map Prod.fst = migrationTasks (planKeys _hash oldRing newRing order).1)
    (hi : tasks[i]? = some (m, p)) (hm' : (m', p') ∈ tasks) (hk : k ∈ m.keys) (hk' : k ∈ m'.keys) :
    (m', p') = (m, p) := by
  obtain ⟨j, hj⟩ := List.mem_iff_getElem?.mp hm'
  have hij := tasks_disjoint htasks hi hj hk hk'
  subst hij
  rw [hi] at hj
  exact (Option.some.inj hj).symm

theorem task_mem_plan {p : Progress} {tasks : List (Migration × Progress)}
    (htasks : tasks.map Prod.fst = migrationTasks (planKeys _hash oldRing newRing order).1)
    (hm : (m, p) ∈ tasks) : m ∈ migrationTasks (planKeys _hash oldRing newRing order).1 := by
  rw [← htasks]
  exact List.mem_map_of_mem (f := Prod.fst) hm

/-- A key that moves is in the task of its owners. -/
theorem exists_task (hk : k ∈ order)
    (hmoves : oldRing.getNode _hash k ≠ newRing.getNode _hash k) :
    ∃ m ∈ migrationTasks (planKeys _hash oldRing newRing order).1, k ∈ m.keys ∧
      m.oldOwner = oldRing.getNode _hash k ∧ m.newOwner = newRing.getNode _hash k := by
  have hmem : k ∈ order.filter fun x => oldRing.getNode _hash x = oldRing.getNode _hash k ∧
      newRing.getNode _hash x = newRing.getNode _hash k ∧
        oldRing.getNode _hash k ≠ newRing.getNode _hash k := by
    simp [hk, hmoves]
  refine ⟨⟨oldRing.getNode _hash k, newRing.getNode _hash k, _⟩,
    mem_migrationTasks.mpr ⟨?_, rfl⟩, hmem, rfl, rfl⟩
  exact List.ne_nil_of_mem hmem

theorem task_keys_mem (hm : m ∈ migrationTasks (planKeys _hash oldRing newRing order).1)
    (hk : k ∈ m.keys) : k ∈ order := by
  rw [(mem_migrationTasks.mp hm).2] at hk
  exact (List.mem_filter.mp hk).1

theorem task_keys_nodup (hm : m ∈ migrationTasks (planKeys _hash oldRing newRing order).1)
    (horder : order.Nodup) : m.keys.Nodup := by
  rw [(mem_migrationTasks.mp hm).2]
  exact horder.filter _

end tasks

theorem planned_migrations (migrations : List Migration) :
    (migrations.map fun m => (m, Progress.snapshotting)).map Prod.fst = migrations := by
  rw [List.map_map]
  exact List.map_id _

/-- Replacing a task leaves the migrations and the other tasks. -/
theorem set_task_migrations {tasks : List (Migration × Progress)} {i : Nat} {m : Migration}
    {p : Progress} (h : tasks[i]? = some (m, p)) (p' : Progress) :
    (tasks.set i (m, p')).map Prod.fst = tasks.map Prod.fst := by
  apply List.ext_getElem?
  intro j
  rw [List.getElem?_map, List.getElem?_map, List.getElem?_set]
  by_cases hj : i = j
  · subst hj
    obtain ⟨hlt, heq⟩ := List.getElem?_eq_some_iff.mp h
    simp [hlt, heq]
  · simp [hj]

theorem mem_set_task {tasks : List (Migration × Progress)} {i : Nat} {x y : Migration × Progress}
    (hi : tasks[i]? = some x) (hy : y ∈ tasks) (hne : y ≠ x) (z : Migration × Progress) :
    y ∈ tasks.set i z := by
  obtain ⟨j, hj⟩ := List.mem_iff_getElem?.mp hy
  refine List.mem_iff_getElem?.mpr ⟨j, ?_⟩
  rw [List.getElem?_set_ne, hj]
  intro heq
  subst heq
  rw [hi] at hj
  exact hne (Option.some.inj hj).symm

theorem mem_set_self {tasks : List (Migration × Progress)} {i : Nat} {x : Migration × Progress}
    (hi : tasks[i]? = some x) (z : Migration × Progress) : z ∈ tasks.set i z := by
  obtain ⟨hlt, _⟩ := List.getElem?_eq_some_iff.mp hi
  exact List.mem_set hlt z

namespace World

theorem migrated_counts {tasks : List (Migration × Progress)} {counts : List Nat}
    (h : migrated tasks = some counts) : tasks.map Prod.snd = counts.map .returned := by
  induction tasks generalizing counts with
  | nil =>
    cases Option.some.inj h
    rfl
  | cons t tasks ih =>
    unfold migrated at h
    rw [List.mapM_cons] at h
    obtain ⟨n, hn, h⟩ := Option.bind_eq_some_iff.mp h
    obtain ⟨rest, hrest, h⟩ := Option.bind_eq_some_iff.mp h
    cases Option.some.inj h
    split at hn
    next returned heq =>
      cases Option.some.inj hn
      rw [List.map_cons, ih hrest, heq, List.map_cons]
    next => cases hn

/-- When all tasks have returned, so has each of them. -/
theorem returned_of_mem {tasks : List (Migration × Progress)} {counts : List Nat} {m : Migration}
    (h : migrated tasks = some counts) (hm : m ∈ tasks.map Prod.fst) :
    ∃ n, (m, Progress.returned n) ∈ tasks := by
  obtain ⟨⟨_, p⟩, ht, rfl⟩ := List.mem_map.mp hm
  have hp := List.mem_map_of_mem (f := Prod.snd) ht
  rw [migrated_counts h] at hp
  obtain ⟨n, _, rfl⟩ := List.mem_map.mp hp
  exact ⟨n, ht⟩

theorem counts_eq {tasks : List (Migration × Progress)} {counts : List Nat} {f : Migration → Nat}
    (h : tasks.map Prod.snd = counts.map .returned)
    (hf : ∀ m migrated, (m, Progress.returned migrated) ∈ tasks → migrated = f m) :
    counts = (tasks.map Prod.fst).map f := by
  induction tasks generalizing counts with
  | nil =>
    cases counts with
    | nil => rfl
    | cons n counts => cases h
  | cons t tasks ih =>
    cases counts with
    | nil => cases h
    | cons n counts =>
      obtain ⟨m, p⟩ := t
      rw [List.map_cons, List.map_cons, List.cons.injEq] at h
      obtain ⟨rfl, hrest⟩ := h
      have htail := ih hrest fun m' n' hm' => hf m' n' (List.mem_cons_of_mem _ hm')
      rw [htail, hf m n List.mem_cons_self]
      rfl

end World

end SelfHealingCache
