import SelfHealingCache.Rebalancer

namespace SelfHealingCache

variable {_hash : String → Nat}

namespace World

/-- The state in which an idle rebalancer sends its first requests. -/
theorem rebalance_start {w : World} {oldRing newRing : HashRing}
    {nodeEndpoints : Dict String Address} (hidle : w.rebalancer.inProgress = false) :
    w.rebalance oldRing newRing nodeEndpoints = { w with rebalancer :=
      { inProgress := true, migratedKeys := 0, affectedNodes := ∅, phase :=
        .fetching oldRing newRing nodeEndpoints nodeEndpoints.values [] } } := by
  simp [rebalance, hidle]

/-- A call during another one only returns. -/
theorem rebalance_refused {w w' : World} {oldRing newRing : HashRing}
    {nodeEndpoints : Dict String Address} (hprogress : w.rebalancer.inProgress = true)
    (h : w.step _hash (.rebalance oldRing newRing nodeEndpoints) = some w') :
    w' = { w with results := w.results ++ [.alreadyInProgress] } := by
  rw [← Option.some.inj h]
  exact if_pos hprogress

/-- An answered `/keys` request adds the live keys of its node. -/
theorem fetchKeys_some {w w' : World} {i : Nat} {ok : Bool} (h : w.fetchKeys i ok = some w') :
    ∃ oldRing newRing nodeEndpoints requests allKeys a found,
      w.rebalancer.phase = .fetching oldRing newRing nodeEndpoints requests allKeys ∧
      requests[i]? = some a ∧
      w' = w.setPhase (.fetching oldRing newRing nodeEndpoints (requests.eraseIdx i)
        (allKeys ++ found)) ∧
      (ok = true → ∃ c, w.nodes a = some c ∧ found = c.keys fun _ => w.clock a) := by
  unfold fetchKeys at h
  split at h
  next oldRing newRing nodeEndpoints requests allKeys hphase =>
    obtain ⟨a, ha, h⟩ := Option.bind_eq_some_iff.mp h
    cases ok with
    | true =>
      obtain ⟨c, hc, h⟩ := Option.bind_eq_some_iff.mp h
      exact ⟨oldRing, newRing, nodeEndpoints, requests, allKeys, a, _, hphase, ha,
        (Option.some.inj h).symm, fun _ => ⟨c, hc, rfl⟩⟩
    | false =>
      refine ⟨oldRing, newRing, nodeEndpoints, requests, allKeys, a, [], hphase, ha, ?_, ?_⟩
      · rw [List.append_nil]
        exact (Option.some.inj h).symm
      · intro hok
        cases hok
  next => cases h

theorem plan_some {w w' : World} {order : List String} (h : w.plan _hash order = some w') :
    ∃ oldRing newRing nodeEndpoints allKeys,
      w.rebalancer.phase = .fetching oldRing newRing nodeEndpoints [] allKeys ∧
      order.Nodup ∧ (∀ k, k ∈ order ↔ k ∈ allKeys) ∧
      w' = { w with rebalancer := { w.rebalancer with
        affectedNodes := (planKeys _hash oldRing newRing order).2
        phase := .migrating nodeEndpoints
          ((migrationTasks (planKeys _hash oldRing newRing order).1).map
            fun m => (m, .snapshotting)) } } := by
  unfold plan at h
  split at h
  next oldRing newRing nodeEndpoints allKeys hphase =>
    split at h
    next hset =>
      exact ⟨oldRing, newRing, nodeEndpoints, allKeys, hphase, hset.1,
        fun k => ⟨fun hk => hset.2.1 hk, fun hk => hset.2.2 hk⟩, (Option.some.inj h).symm⟩
    next => cases h
  next => cases h

/-- A served `/snapshot` fixes the batch of its task. -/
theorem takeSnapshot_some {w w' : World} {i : Nat} {ok : Bool}
    (h : w.takeSnapshot i ok = some w') :
    ∃ nodeEndpoints tasks m p, w.rebalancer.phase = .migrating nodeEndpoints tasks ∧
      tasks[i]? = some (m, .snapshotting) ∧ w' = w.setTask nodeEndpoints tasks i m p ∧
      (ok = false → p = .returned 0) ∧
      (ok = true → ∃ c, w.nodes (m.source nodeEndpoints) = some c ∧
        p = afterSnapshot (m.filtered (c.snapshot (w.clock (m.source nodeEndpoints))
          fun _ => w.clock (m.source nodeEndpoints)))) := by
  unfold takeSnapshot at h
  split at h
  next nodeEndpoints tasks hphase =>
    split at h
    next m hm =>
      cases ok with
      | true =>
        obtain ⟨c, hc, h⟩ := Option.bind_eq_some_iff.mp h
        exact ⟨nodeEndpoints, tasks, m, _, hphase, hm, (Option.some.inj h).symm,
          (fun hok => by cases hok), fun _ => ⟨c, hc, rfl⟩⟩
      | false =>
        exact ⟨nodeEndpoints, tasks, m, _, hphase, hm, (Option.some.inj h).symm,
          fun _ => rfl, fun hok => by cases hok⟩
    next => cases h
  next => cases h

/-- One entry of a bulk load is stored. -/
theorem loadPut_some {w w' : World} {i : Nat} (h : w.loadPut i = some w') :
    ∃ nodeEndpoints tasks m filtered key value ttl remaining c,
      w.rebalancer.phase = .migrating nodeEndpoints tasks ∧
      tasks[i]? = some (m, .loading filtered ((key, value, ttl) :: remaining)) ∧
      w.nodes (m.target nodeEndpoints) = some c ∧
      w' = (w.setNode (m.target nodeEndpoints)
        (c.put (w.clock (m.target nodeEndpoints)) key value ttl)).setTask nodeEndpoints tasks i m
          (.loading filtered remaining) := by
  unfold loadPut at h
  split at h
  next nodeEndpoints tasks hphase =>
    split at h
    next m filtered key value ttl remaining hm =>
      obtain ⟨c, hc, h⟩ := Option.bind_eq_some_iff.mp h
      exact ⟨nodeEndpoints, tasks, m, filtered, key, value, ttl, remaining, c, hphase, hm, hc,
        (Option.some.inj h).symm⟩
    next => cases h
  next => cases h

/-- A `/bulk-load` ends; unless it has failed, all its entries are stored. -/
theorem load_some {w w' : World} {i : Nat} {reply : Reply} (h : w.load i reply = some w') :
    ∃ nodeEndpoints tasks m filtered remaining n,
      w.rebalancer.phase = .migrating nodeEndpoints tasks ∧
      tasks[i]? = some (m, .loading filtered remaining) ∧
      w' = w.setTask nodeEndpoints tasks i m (.returned n) ∧
      (reply ≠ .failed → remaining = []) ∧ (reply = .answered → n = filtered.length) := by
  unfold load at h
  split at h
  next nodeEndpoints tasks hphase =>
    split at h
    next m filtered remaining hm =>
      split at h
      next hfailed =>
        refine ⟨nodeEndpoints, tasks, m, filtered, remaining, 0, hphase, hm,
          (Option.some.inj h).symm, fun hreply => absurd hfailed hreply, ?_⟩
        intro hanswered
        rw [hanswered] at hfailed
        cases hfailed
      next =>
        split at h
        next hempty =>
          exact ⟨nodeEndpoints, tasks, m, filtered, remaining, _, hphase, hm,
            (Option.some.inj h).symm, fun _ => hempty, fun hanswered => if_pos hanswered⟩
        next => cases h
    next => cases h
  next => cases h

theorem finish_some {w w' : World} (h : w.finish = some w') :
    ∃ nodeEndpoints tasks counts, w.rebalancer.phase = .migrating nodeEndpoints tasks ∧
      migrated tasks = some counts ∧
      w' = { w with
        rebalancer :=
          { inProgress := false
            migratedKeys := w.rebalancer.migratedKeys + counts.sum
            affectedNodes := w.rebalancer.affectedNodes
            phase := .idle }
        results := w.results ++
          [.completed (w.rebalancer.migratedKeys + counts.sum) w.rebalancer.affectedNodes] } := by
  unfold finish at h
  split at h
  next nodeEndpoints tasks hphase =>
    obtain ⟨counts, hcounts, h⟩ := Option.bind_eq_some_iff.mp h
    exact ⟨nodeEndpoints, tasks, counts, hphase, hcounts, (Option.some.inj h).symm⟩
  next => cases h

theorem putKey_some {w w' : World} {ring : HashRing} {key value : String} {ttl : UInt32}
    (h : w.putKey _hash ring key value ttl = some w') :
    ∃ a c, w.primary _hash ring key = some a ∧ w.nodes a = some c ∧
      w' = { w.setNode a (c.put (w.clock a) key value ttl) with
        acked := w.acked ++ [.put key value] } := by
  obtain ⟨a, ha, h⟩ := Option.bind_eq_some_iff.mp h
  obtain ⟨c, hc, h⟩ := Option.bind_eq_some_iff.mp h
  exact ⟨a, c, ha, hc, (Option.some.inj h).symm⟩

theorem deleteKey_some {w w' : World} {ring : HashRing} {key : String}
    (h : w.deleteKey _hash ring key = some w') :
    ∃ a c, w.primary _hash ring key = some a ∧ w.nodes a = some c ∧
      (((c.remove key).2 = true ∧ w' = { w.setNode a (c.remove key).1 with
        acked := w.acked ++ [.delete key] }) ∨ ((c.remove key).2 = false ∧ w' = w)) := by
  obtain ⟨a, ha, h⟩ := Option.bind_eq_some_iff.mp h
  obtain ⟨c, hc, h⟩ := Option.bind_eq_some_iff.mp h
  refine ⟨a, c, ha, hc, ?_⟩
  cases hremoved : (c.remove key).2 with
  | true =>
    rw [if_pos hremoved] at h
    exact .inl ⟨rfl, (Option.some.inj h).symm⟩
  | false =>
    rw [if_neg (by simp [hremoved])] at h
    exact .inr ⟨rfl, (Option.some.inj h).symm⟩

/-- What a step does to the nodes and to the acknowledged operations. -/
inductive Effect (_hash : String → Nat) (w w' : World) : RebalanceEvent → Prop
  | none (event : RebalanceEvent) (hnodes : w'.nodes = w.nodes) (hacked : w'.acked = w.acked) :
    Effect _hash w w' event
  | loaded {i : Nat} {nodeEndpoints : Dict String Address}
    {tasks : List (Migration × Progress)} {m : Migration} {key value : String} {ttl : UInt32}
    {filtered remaining : List (String × String × UInt32)} {c : LruStore String String}
    (hphase : w.rebalancer.phase = .migrating nodeEndpoints tasks)
    (htask : tasks[i]? = some (m, .loading filtered ((key, value, ttl) :: remaining)))
    (hnode : w.nodes (m.target nodeEndpoints) = some c)
    (hnodes : w'.nodes = Function.update w.nodes (m.target nodeEndpoints)
      (some (c.put (w.clock (m.target nodeEndpoints)) key value ttl)))
    (hacked : w'.acked = w.acked) : Effect _hash w w' (.loadPut i)
  | stored {ring : HashRing} {key value : String} {ttl : UInt32} {a : Address}
    {c : LruStore String String} (hprimary : w.primary _hash ring key = some a)
    (hnode : w.nodes a = some c)
    (hnodes : w'.nodes = Function.update w.nodes a (some (c.put (w.clock a) key value ttl)))
    (hacked : w'.acked = w.acked ++ [.put key value]) : Effect _hash w w' (.put ring key value ttl)
  | removed {ring : HashRing} {key : String} {a : Address} {c : LruStore String String}
    (hprimary : w.primary _hash ring key = some a) (hnode : w.nodes a = some c)
    (hnodes : w'.nodes = Function.update w.nodes a (some (c.remove key).1))
    (hacked : w'.acked = w.acked ++ [.delete key]) : Effect _hash w w' (.delete ring key)

theorem step_effect {w w' : World} {event : RebalanceEvent} (h : w.step _hash event = some w') :
    Effect _hash w w' event := by
  cases event with
  | tick elapsed =>
    cases Option.some.inj h
    exact .none _ rfl rfl
  | rebalance oldRing newRing nodeEndpoints =>
    cases Option.some.inj h
    apply Effect.none
    · unfold rebalance
      split <;> rfl
    · unfold rebalance
      split <;> rfl
  | keys i ok =>
    obtain ⟨_, _, _, _, _, _, _, _, _, rfl, _⟩ := fetchKeys_some h
    exact .none _ rfl rfl
  | plan order =>
    obtain ⟨_, _, _, _, _, _, _, rfl⟩ := plan_some h
    exact .none _ rfl rfl
  | snapshot i ok =>
    obtain ⟨_, _, _, _, _, _, rfl, _⟩ := takeSnapshot_some h
    exact .none _ rfl rfl
  | loadPut i =>
    obtain ⟨_, _, _, _, _, _, _, _, _, hphase, htask, hnode, rfl⟩ := loadPut_some h
    exact .loaded hphase htask hnode rfl rfl
  | bulkLoad i reply =>
    obtain ⟨_, _, _, _, _, _, _, _, rfl, _⟩ := load_some h
    exact .none _ rfl rfl
  | finish =>
    obtain ⟨_, _, _, _, _, rfl⟩ := finish_some h
    exact .none _ rfl rfl
  | put ring key value ttl =>
    obtain ⟨_, _, hprimary, hnode, rfl⟩ := putKey_some h
    exact .stored hprimary hnode rfl rfl
  | delete ring key =>
    obtain ⟨_, _, hprimary, hnode, ⟨_, rfl⟩ | ⟨_, rfl⟩⟩ := deleteKey_some h
    · exact .removed hprimary hnode rfl rfl
    · exact .none _ rfl rfl

theorem step_registry {w w' : World} {event : RebalanceEvent} (h : w.step _hash event = some w') :
    w'.registry = w.registry := by
  cases event with
  | tick elapsed => cases Option.some.inj h; rfl
  | rebalance oldRing newRing nodeEndpoints =>
    cases Option.some.inj h
    unfold rebalance
    split <;> rfl
  | keys i ok =>
    obtain ⟨_, _, _, _, _, _, _, _, _, rfl, _⟩ := fetchKeys_some h
    rfl
  | plan order =>
    obtain ⟨_, _, _, _, _, _, _, rfl⟩ := plan_some h
    rfl
  | snapshot i ok =>
    obtain ⟨_, _, _, _, _, _, rfl, _⟩ := takeSnapshot_some h
    rfl
  | loadPut i =>
    obtain ⟨_, _, _, _, _, _, _, _, _, _, _, _, rfl⟩ := loadPut_some h
    rfl
  | bulkLoad i reply =>
    obtain ⟨_, _, _, _, _, _, _, _, rfl, _⟩ := load_some h
    rfl
  | finish =>
    obtain ⟨_, _, _, _, _, rfl⟩ := finish_some h
    rfl
  | put ring key value ttl =>
    obtain ⟨_, _, _, _, rfl⟩ := putKey_some h
    rfl
  | delete ring key =>
    obtain ⟨_, _, _, _, ⟨_, rfl⟩ | ⟨_, rfl⟩⟩ := deleteKey_some h <;> rfl

theorem run_registry {w w' : World} {events : List RebalanceEvent}
    (h : w.run _hash events = some w') : w'.registry = w.registry := by
  refine runs_history (I := fun _ v => v.registry = w.registry) rfl ?_ h
  intro past event rest mid v _ _ hmid hstep
  exact (step_registry hstep).trans hmid

theorem primary_congr {w w' : World} (h : w'.registry = w.registry) (ring : HashRing)
    (key : String) : w'.primary _hash ring key = w.primary _hash ring key := by
  rw [primary, h, primary]

/-- What a step does to the tasks of a running rebalance. -/
inductive TaskChange (_hash : String → Nat) (w w' : World) (nodeEndpoints : Dict String Address)
    (tasks' : List (Migration × Progress)) : RebalanceEvent → Prop
  | kept (event : RebalanceEvent)
    (hphase : w.rebalancer.phase = .migrating nodeEndpoints tasks') :
    TaskChange _hash w w' nodeEndpoints tasks' event
  | planned {order : List String} {oldRing newRing : HashRing} {allKeys : List String}
    (hphase : w.rebalancer.phase = .fetching oldRing newRing nodeEndpoints [] allKeys)
    (hnodup : order.Nodup) (horder : ∀ k, k ∈ order ↔ k ∈ allKeys)
    (htasks : tasks' = (migrationTasks (planKeys _hash oldRing newRing order).1).map
      fun m => (m, .snapshotting)) : TaskChange _hash w w' nodeEndpoints tasks' (.plan order)
  | snapshot {i : Nat} {ok : Bool} {tasks : List (Migration × Progress)} {m : Migration}
    {p : Progress} (hphase : w.rebalancer.phase = .migrating nodeEndpoints tasks)
    (htask : tasks[i]? = some (m, .snapshotting)) (htasks : tasks' = tasks.set i (m, p))
    (hfailed : ok = false → p = .returned 0)
    (hserved : ok = true → ∃ c, w.nodes (m.source nodeEndpoints) = some c ∧
      p = afterSnapshot (m.filtered (c.snapshot (w.clock (m.source nodeEndpoints))
        fun _ => w.clock (m.source nodeEndpoints)))) :
    TaskChange _hash w w' nodeEndpoints tasks' (.snapshot i ok)
  | stored {i : Nat} {tasks : List (Migration × Progress)} {m : Migration}
    {filtered remaining : List (String × String × UInt32)} {e : String × String × UInt32}
    (hphase : w.rebalancer.phase = .migrating nodeEndpoints tasks)
    (htask : tasks[i]? = some (m, .loading filtered (e :: remaining)))
    (htasks : tasks' = tasks.set i (m, .loading filtered remaining)) :
    TaskChange _hash w w' nodeEndpoints tasks' (.loadPut i)
  | loaded {i n : Nat} {reply : Reply} {tasks : List (Migration × Progress)} {m : Migration}
    {filtered remaining : List (String × String × UInt32)}
    (hphase : w.rebalancer.phase = .migrating nodeEndpoints tasks)
    (htask : tasks[i]? = some (m, .loading filtered remaining))
    (htasks : tasks' = tasks.set i (m, .returned n)) :
    TaskChange _hash w w' nodeEndpoints tasks' (.bulkLoad i reply)

theorem setTask_phase {w : World} {nodeEndpoints nodeEndpoints' : Dict String Address}
    {tasks tasks' : List (Migration × Progress)} {i : Nat} {m : Migration} {p : Progress}
    (h : (w.setTask nodeEndpoints tasks i m p).rebalancer.phase =
      .migrating nodeEndpoints' tasks') :
    nodeEndpoints = nodeEndpoints' ∧ tasks' = tasks.set i (m, p) := by
  cases h
  exact ⟨rfl, rfl⟩

theorem step_tasks {w w' : World} {event : RebalanceEvent} {nodeEndpoints : Dict String Address}
    {tasks' : List (Migration × Progress)} (h : w.step _hash event = some w')
    (hphase : w'.rebalancer.phase = .migrating nodeEndpoints tasks') :
    TaskChange _hash w w' nodeEndpoints tasks' event := by
  cases event with
  | tick elapsed =>
    cases Option.some.inj h
    exact .kept _ hphase
  | rebalance oldRing newRing endpoints =>
    cases Option.some.inj h
    unfold rebalance at hphase
    split at hphase
    · exact .kept _ hphase
    · cases hphase
  | keys i ok =>
    obtain ⟨_, _, _, _, _, _, _, _, _, rfl, _⟩ := fetchKeys_some h
    cases hphase
  | plan order =>
    obtain ⟨_, _, _, _, hfetching, hnodup, horder, rfl⟩ := plan_some h
    cases hphase
    exact .planned hfetching hnodup horder rfl
  | snapshot i ok =>
    obtain ⟨_, _, _, _, hmigrating, htask, rfl, hfailed, hserved⟩ := takeSnapshot_some h
    obtain ⟨rfl, htasks⟩ := setTask_phase hphase
    exact .snapshot hmigrating htask htasks hfailed hserved
  | loadPut i =>
    obtain ⟨_, _, _, _, _, _, _, _, _, hmigrating, htask, _, rfl⟩ := loadPut_some h
    obtain ⟨rfl, htasks⟩ := setTask_phase hphase
    exact .stored hmigrating htask htasks
  | bulkLoad i reply =>
    obtain ⟨_, _, _, _, _, _, hmigrating, htask, rfl, _⟩ := load_some h
    obtain ⟨rfl, htasks⟩ := setTask_phase hphase
    exact .loaded hmigrating htask htasks
  | finish =>
    obtain ⟨_, _, _, _, _, rfl⟩ := finish_some h
    cases hphase
  | put ring key value ttl =>
    obtain ⟨_, _, _, _, rfl⟩ := putKey_some h
    exact .kept _ hphase
  | delete ring key =>
    obtain ⟨_, _, _, _, ⟨_, rfl⟩ | ⟨_, rfl⟩⟩ := deleteKey_some h
    · exact .kept _ hphase
    · exact .kept _ hphase

end World

end SelfHealingCache
