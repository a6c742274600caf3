import SelfHealingCache.RebalanceFaultFree

namespace SelfHealingCache

/-- A request that `_migrate_keys` sends for a batch, with the node it goes to and whether the
data of this node is read or written. -/
inductive BatchRequest
  | snapshot (m : Migration) (node : Address) (read : Bool)
  | bulkLoad (m : Migration) (node : Address) (written : Bool)
  deriving DecidableEq

/-- `node_endpoints[owner]`, where the owner has one. -/
def listedAddress (nodeEndpoints : Dict String Address) (owner : Option String) :
    Option Address :=
  owner.bind nodeEndpoints.get?

/-- Both owners of a batch have an endpoint. -/
def Migration.Listed (nodeEndpoints : Dict String Address) (m : Migration) : Prop :=
  (∃ a, listedAddress nodeEndpoints m.oldOwner = some a) ∧
    ∃ a, listedAddress nodeEndpoints m.newOwner = some a

theorem Migration.Listed.source {nodeEndpoints : Dict String Address} {m : Migration}
    (h : m.Listed nodeEndpoints) :
    listedAddress nodeEndpoints m.oldOwner = some (m.source nodeEndpoints) := by
  obtain ⟨⟨a, ha⟩, _⟩ := h
  have hsource : m.source nodeEndpoints = a := by
    rw [Migration.source, endpoint, ← listedAddress, ha, Option.getD_some]
  rw [hsource, ha]

theorem Migration.Listed.target {nodeEndpoints : Dict String Address} {m : Migration}
    (h : m.Listed nodeEndpoints) :
    listedAddress nodeEndpoints m.newOwner = some (m.target nodeEndpoints) := by
  obtain ⟨_, a, ha⟩ := h
  have htarget : m.target nodeEndpoints = a := by
    rw [Migration.target, endpoint, ← listedAddress, ha, Option.getD_some]
  rw [htarget, ha]

/-- The request goes to the endpoint of the batch's owner, and no data is touched unless both
owners have one. -/
def BatchRequest.Inside (nodeEndpoints : Dict String Address) : BatchRequest → Prop
  | .snapshot m node read => listedAddress nodeEndpoints m.oldOwner = some node ∧
      (read = true → m.Listed nodeEndpoints)
  | .bulkLoad m node written => listedAddress nodeEndpoints m.newOwner = some node ∧
      (written = true → m.Listed nodeEndpoints)

namespace World

/-- The request of a batch that touches its node or ends in this step. -/
def batchRequest (w : World) : RebalanceEvent → Option BatchRequest
  | .snapshot i ok =>
    match w.rebalancer.phase with
    | .migrating nodeEndpoints tasks =>
      match tasks[i]? with
      | some (m, .snapshotting) => some (.snapshot m (m.source nodeEndpoints) ok)
      | _ => none
    | _ => none
  | .loadPut i =>
    match w.rebalancer.phase with
    | .migrating nodeEndpoints tasks =>
      match tasks[i]? with
      | some (m, .loading _ _) => some (.bulkLoad m (m.target nodeEndpoints) true)
      | _ => none
    | _ => none
  | .bulkLoad i reply =>
    match w.rebalancer.phase with
    | .migrating nodeEndpoints tasks =>
      match tasks[i]? with
      | some (m, .loading _ _) =>
        some (.bulkLoad m (m.target nodeEndpoints) (reply ≠ .failed))
      | _ => none
    | _ => none
  | _ => none

section endpoints

variable (_hash : String → Nat) (oldRing newRing : HashRing)
  (nodeEndpoints : Dict String Address)

/-- Both owners of every key that moves have an endpoint. -/
def OwnersListed : Prop :=
  ∀ key, oldRing.getNode _hash key ≠ newRing.getNode _hash key →
    (∃ a, ownerAddress _hash oldRing nodeEndpoints key = some a) ∧
      ∃ a, ownerAddress _hash newRing nodeEndpoints key = some a

/-- The states of a running call: it is finding the keys, or has planned its tasks from them.
Without endpoints there is no key to find. -/
inductive Underway (w : World) : Prop
  | fetching {requests : List Address} {allKeys : List String}
    (hphase : w.rebalancer.phase = .fetching oldRing newRing nodeEndpoints requests allKeys)
    (hprogress : w.rebalancer.inProgress = true)
    (hnone : nodeEndpoints.values = [] → requests = [] ∧ allKeys = [])
  | migrating {order : List String} {tasks : List (Migration × Progress)}
    (hphase : w.rebalancer.phase = .migrating nodeEndpoints tasks)
    (hprogress : w.rebalancer.inProgress = true)
    (hplanned : tasks.map Prod.fst = migrationTasks (planKeys _hash oldRing newRing order).1)
    (hnone : nodeEndpoints.values = [] → order = [])

end endpoints

variable {_hash : String → Nat} {oldRing newRing : HashRing}
  {nodeEndpoints : Dict String Address} {w₀ w w' : World}

theorem Underway.congr (h : Underway _hash oldRing newRing nodeEndpoints w)
    (hsame : w'.rebalancer = w.rebalancer) :
    Underway _hash oldRing newRing nodeEndpoints w' := by
  cases h with
  | fetching hphase hprogress hnone =>
    rw [← hsame] at hphase hprogress
    exact .fetching hphase hprogress hnone
  | migrating hphase hprogress hplanned hnone =>
    rw [← hsame] at hphase hprogress
    exact .migrating hphase hprogress hplanned hnone

theorem Underway.inProgress (h : Underway _hash oldRing newRing nodeEndpoints w) :
    w.rebalancer.inProgress = true := by
  cases h with
  | fetching _ hprogress _ => exact hprogress
  | migrating _ hprogress _ _ => exact hprogress

theorem Underway.of_fetching {old new : HashRing} {endpoints : Dict String Address}
    {requests : List Address} {allKeys : List String}
    (h : Underway _hash oldRing newRing nodeEndpoints w)
    (hphase : w.rebalancer.phase = .fetching old new endpoints requests allKeys) :
    oldRing = old ∧ newRing = new ∧ nodeEndpoints = endpoints ∧
      (nodeEndpoints.values = [] → requests = [] ∧ allKeys = []) := by
  cases h with
  | fetching hphase' _ hnone =>
    rw [hphase'] at hphase
    cases hphase
    exact ⟨rfl, rfl, rfl, hnone⟩
  | migrating hphase' _ _ _ =>
    rw [hphase'] at hphase
    cases hphase

theorem Underway.of_migrating {endpoints : Dict String Address}
    {tasks : List (Migration × Progress)}
    (h : Underway _hash oldRing newRing nodeEndpoints w)
    (hphase : w.rebalancer.phase = .migrating endpoints tasks) :
    nodeEndpoints = endpoints ∧ ∃ order,
      tasks.map Prod.fst = migrationTasks (planKeys _hash oldRing newRing order).1 ∧
      (nodeEndpoints.values = [] → order = []) := by
  cases h with
  | fetching hphase' _ _ =>
    rw [hphase'] at hphase
    cases hphase
  | migrating hphase' _ hplanned hnone =>
    rw [hphase'] at hphase
    cases hphase
    exact ⟨rfl, _, hplanned, hnone⟩

/-- A task that moves on leaves the plan as it is. -/
theorem Underway.setTask {endpoints : Dict String Address} {tasks : List (Migration × Progress)}
    {i : Nat} {m : Migration} {p : Progress}
    (h : Underway _hash oldRing newRing nodeEndpoints w)
    (hphase : w.rebalancer.phase = .migrating endpoints tasks) (hi : tasks[i]? = some (m, p))
    (p' : Progress) (nodes : Address → Option (LruStore String String)) :
    Underway _hash oldRing newRing nodeEndpoints
      (({ w with nodes := nodes } : World).setTask endpoints tasks i m p') := by
  obtain ⟨rfl, order, hplanned, hnone⟩ := h.of_migrating hphase
  exact .migrating rfl h.inProgress ((set_task_migrations hi p').trans hplanned) hnone

theorem Underway.step {event : RebalanceEvent}
    (h : Underway _hash oldRing newRing nodeEndpoints w) (hquiet : event ≠ .finish)
    (hstep : w.step _hash event = some w') :
    Underway _hash oldRing newRing nodeEndpoints w' := by
  have hprogress := h.inProgress
  cases event with
  | tick elapsed =>
    cases Option.some.inj hstep
    exact h.congr rfl
  | rebalance old new endpoints =>
    have hsame := rebalance_refused hprogress hstep
    subst hsame
    exact h.congr rfl
  | keys i ok =>
    obtain ⟨_, _, _, requests, _, a, _, hphase, hi, rfl, _⟩ := fetchKeys_some hstep
    obtain ⟨rfl, rfl, rfl, hnone⟩ := h.of_fetching hphase
    refine .fetching rfl hprogress ?_
    intro hempty
    rw [(hnone hempty).1] at hi
    cases hi
  | plan order =>
    obtain ⟨_, _, _, allKeys, hphase, _, horder, rfl⟩ := plan_some hstep
    obtain ⟨rfl, rfl, rfl, hnone⟩ := h.of_fetching hphase
    refine .migrating rfl hprogress (planned_migrations _) ?_
    intro hempty
    apply List.eq_nil_iff_forall_not_mem.mpr
    intro key hkey
    have hfound := (horder key).mp hkey
    rw [(hnone hempty).2] at hfound
    cases hfound
  | snapshot i ok =>
    obtain ⟨_, _, _, p, hphase, hi, rfl, _⟩ := takeSnapshot_some hstep
    exact h.setTask hphase hi p w.nodes
  | loadPut i =>
    obtain ⟨_, _, _, _, _, _, _, _, _, hphase, hi, _, rfl⟩ := loadPut_some hstep
    exact h.setTask hphase hi _ _
  | bulkLoad i reply =>
    obtain ⟨_, _, _, _, _, _, hphase, hi, rfl, _⟩ := load_some hstep
    exact h.setTask hphase hi _ w.nodes
  | finish => cases hquiet rfl
  | put ring key value ttl =>
    obtain ⟨_, _, _, _, rfl⟩ := putKey_some hstep
    exact h.congr rfl
  | delete ring key =>
    obtain ⟨_, _, _, _, ⟨_, rfl⟩ | ⟨_, rfl⟩⟩ := deleteKey_some hstep
    · exact h.congr rfl
    · exact h

theorem underway_run {middle : List RebalanceEvent} (hidle : w₀.rebalancer.inProgress = false)
    (hquiet : .finish ∉ middle)
    (hrun : (w₀.rebalance oldRing newRing nodeEndpoints).run _hash middle = some w) :
    Underway _hash oldRing newRing nodeEndpoints w := by
  refine runs_history (I := fun _ w => Underway _hash oldRing newRing nodeEndpoints w)
    ?_ ?_ hrun
  · rw [rebalance_start hidle]
    exact .fetching rfl rfl fun hempty => ⟨hempty, rfl⟩
  · intro past event rest mid mid' hsplit _ hmid hstep
    refine hmid.step ?_ hstep
    intro hfinish
    apply hquiet
    rw [hsplit, hfinish]
    exact List.mem_append_right _ List.mem_cons_self

/-- A batch of a planned task has its owners listed, unless no endpoint is given. -/
theorem OwnersListed.migration {order : List String} {m : Migration}
    (hlisted : OwnersListed _hash oldRing newRing nodeEndpoints)
    (hm : m ∈ migrationTasks (planKeys _hash oldRing newRing order).1) :
    m.Listed nodeEndpoints := by
  obtain ⟨key, hkey⟩ := List.exists_mem_of_ne_nil _ (mem_migrationTasks.mp hm).1
  obtain ⟨hold, hnew, hmoves⟩ := Migration.owners hm hkey
  rw [← hold, ← hnew] at hmoves
  obtain ⟨hsource, htarget⟩ := hlisted key hmoves
  rw [ownerAddress, hold] at hsource
  rw [ownerAddress, hnew] at htarget
  exact ⟨hsource, htarget⟩

/-- The request of a step is one of a task in the plan. -/
theorem batchRequest_some {event : RebalanceEvent} {r : BatchRequest}
    (h : w.batchRequest event = some r) :
    ∃ endpoints tasks m, w.rebalancer.phase = .migrating endpoints tasks ∧
      m ∈ tasks.map Prod.fst ∧ ((∃ read, r = .snapshot m (m.source endpoints) read) ∨
        ∃ written, r = .bulkLoad m (m.target endpoints) written) := by
  unfold batchRequest at h
  split at h
  next i ok =>
    split at h
    next endpoints tasks hphase =>
      split at h
      next m hm =>
        exact ⟨endpoints, tasks, m, hphase, List.mem_map_of_mem (List.mem_of_getElem? hm),
          .inl ⟨ok, (Option.some.inj h).symm⟩⟩
      next => cases h
    next => cases h
  next i =>
    split at h
    next endpoints tasks hphase =>
      split at h
      next m filtered remaining hm =>
        exact ⟨endpoints, tasks, m, hphase, List.mem_map_of_mem (List.mem_of_getElem? hm),
          .inr ⟨_, (Option.some.inj h).symm⟩⟩
      next => cases h
    next => cases h
  next i reply =>
    split at h
    next endpoints tasks hphase =>
      split at h
      next m filtered remaining hm =>
        exact ⟨endpoints, tasks, m, hphase, List.mem_map_of_mem (List.mem_of_getElem? hm),
          .inr ⟨_, (Option.some.inj h).symm⟩⟩
      next => cases h
    next => cases h
  next => cases h

theorem Underway.inside {event : RebalanceEvent} {r : BatchRequest}
    (h : Underway _hash oldRing newRing nodeEndpoints w)
    (hcond : nodeEndpoints.values = [] ∨ OwnersListed _hash oldRing newRing nodeEndpoints)
    (hr : w.batchRequest event = some r) : r.Inside nodeEndpoints := by
  obtain ⟨_, tasks, m, hphase, hm, hshape⟩ := batchRequest_some hr
  obtain ⟨rfl, order, hplanned, hnone⟩ := h.of_migrating hphase
  rw [hplanned] at hm
  have hlisted : m.Listed nodeEndpoints := by
    rcases hcond with hempty | hlisted
    · rw [hnone hempty] at hm
      cases hm
    · exact hlisted.migration hm
  rcases hshape with ⟨read, rfl⟩ | ⟨written, rfl⟩
  · exact ⟨hlisted.source, fun _ => hlisted⟩
  · exact ⟨hlisted.target, fun _ => hlisted⟩

/-- Every node holds the key, whatever its address. -/
def everywhere (key : String) : World where
  nodes := fun _ => some ((LruStore.init 1 0 Nat.one_pos).put 0 key "" 0)
  clock := fun _ => 0
  registry := ∅

/-- Every answered request adds the key. -/
theorem everywhere_fetched {key : String} {requests : List Address} {allKeys : List String}
    (hnodes : w.nodes = (everywhere key).nodes) (hclock : w.clock = fun _ => 0)
    (hphase : w.rebalancer.phase =
      .fetching oldRing newRing nodeEndpoints requests allKeys) :
    w.run _hash (List.replicate requests.length (.keys 0 true)) =
      some (w.setPhase (.fetching oldRing newRing nodeEndpoints []
        (allKeys ++ List.replicate requests.length key))) := by
  induction requests generalizing w allKeys with
  | nil =>
    have hsame : w = w.setPhase w.rebalancer.phase := rfl
    rw [hphase] at hsame
    rw [List.length_nil, List.replicate_zero, List.replicate_zero, List.append_nil, ← hsame]
    rfl
  | cons a requests ih =>
    have hstep : w.step _hash (.keys 0 true) = some (w.setPhase
        (.fetching oldRing newRing nodeEndpoints requests (allKeys ++ [key]))) := by
      rw [step, fetchKeys, hphase, hnodes, hclock]
      rfl
    have hrest := ih (w := w.setPhase
      (.fetching oldRing newRing nodeEndpoints requests (allKeys ++ [key]))) hnodes hclock rfl
    rw [List.length_cons, List.replicate_succ, run, runs_cons, hstep, Option.bind_some, ← run, hrest,
      List.replicate_succ, List.append_assoc]
    rfl

/-- The tasks planned when the nodes report the one key. -/
theorem everywhere_planned (_hash : String → Nat) (oldRing newRing : HashRing) (key : String)
    (hsome : nodeEndpoints.values ≠ []) :
    ∃ listing w, .finish ∉ listing ∧
      ((everywhere key).rebalance oldRing newRing nodeEndpoints).run _hash listing = some w ∧
      w.nodes = (everywhere key).nodes ∧ w.rebalancer.phase = .migrating nodeEndpoints
        ((migrationTasks (planKeys _hash oldRing newRing [key]).1).map
          fun m => (m, .snapshotting)) := by
  have hidle : (everywhere key).rebalancer.inProgress = false := rfl
  rw [rebalance_start hidle]
  generalize hstart : ({ everywhere key with rebalancer := _ } : World) = w₁
  have hnodes : w₁.nodes = (everywhere key).nodes := by rw [← hstart]
  have hclock : w₁.clock = fun _ => 0 := by rw [← hstart]; rfl
  have hphase : w₁.rebalancer.phase =
      .fetching oldRing newRing nodeEndpoints nodeEndpoints.values [] := by rw [← hstart]
  have hfetched : w₁.run _hash (List.replicate nodeEndpoints.values.length (.keys 0 true)) =
      some (w₁.setPhase (.fetching oldRing newRing nodeEndpoints []
        ([] ++ List.replicate nodeEndpoints.values.length key))) :=
    everywhere_fetched hnodes hclock hphase
  rw [List.nil_append] at hfetched
  have hlength : nodeEndpoints.values.length ≠ 0 := by
    intro hzero
    exact hsome (List.length_eq_zero_iff.mp hzero)
  have horder : [key].Nodup ∧ [key] ⊆ List.replicate nodeEndpoints.values.length key ∧
      List.replicate nodeEndpoints.values.length key ⊆ [key] := by
    refine ⟨List.nodup_singleton key, ?_, List.replicate_subset_singleton _ key⟩
    intro x hx
    rw [List.mem_singleton.mp hx]
    exact List.mem_replicate.mpr ⟨hlength, rfl⟩
  obtain ⟨w, hplan, hkept, hplanned⟩ : ∃ w, (w₁.setPhase (.fetching oldRing newRing
        nodeEndpoints [] (List.replicate nodeEndpoints.values.length key))).plan _hash [key] =
          some w ∧ w.nodes = w₁.nodes ∧ w.rebalancer.phase = .migrating nodeEndpoints
            ((migrationTasks (planKeys _hash oldRing newRing [key]).1).map
              fun m => (m, .snapshotting)) := ⟨_, if_pos horder, rfl, rfl⟩
  have hrun : w₁.run _hash (List.replicate nodeEndpoints.values.length (.keys 0 true) ++
      [.plan [key]]) = some w := runs_snoc_eq_some.mpr ⟨_, hfetched, hplan⟩
  refine ⟨_, w, ?_, hrun, hkept.trans hnodes, hplanned⟩
  simp

/-- A moving key that some node reports makes `rebalance` read a snapshot for its batch. -/
theorem moving_key_read {key : String} (hsome : nodeEndpoints.values ≠ [])
    (hmoves : oldRing.getNode _hash key ≠ newRing.getNode _hash key) :
    ∃ middle w m, .finish ∉ middle ∧
      ((everywhere key).rebalance oldRing newRing nodeEndpoints).run _hash middle = some w ∧
      m.oldOwner = oldRing.getNode _hash key ∧ m.newOwner = newRing.getNode _hash key ∧
      Observed (step _hash) batchRequest
        ((everywhere key).rebalance oldRing newRing nodeEndpoints) middle
        (.snapshot m (m.source nodeEndpoints) true) := by
  obtain ⟨m, hm, _, hold, hnew⟩ := exists_task (List.mem_singleton_self key) hmoves
  obtain ⟨i, hi⟩ := List.mem_iff_getElem?.mp hm
  obtain ⟨listing, w, hquiet, hrun, hnodes, hphase⟩ :=
    everywhere_planned _hash oldRing newRing key hsome
  have htask : ((migrationTasks (planKeys _hash oldRing newRing [key]).1).map
      fun m => (m, Progress.snapshotting))[i]? = some (m, .snapshotting) := by
    rw [List.getElem?_map, hi]
    rfl
  have hread : w.batchRequest (.snapshot i true) =
      some (.snapshot m (m.source nodeEndpoints) true) := by
    simp only [batchRequest, hphase, htask]
  obtain ⟨w', hstep⟩ : ∃ w', w.step _hash (.snapshot i true) = some w' := by
    simp only [step, takeSnapshot, hphase, htask, hnodes]
    exact ⟨_, rfl⟩
  refine ⟨listing ++ [.snapshot i true], w', m, ?_, runs_snoc_eq_some.mpr ⟨w, hrun, hstep⟩, hold,
    hnew, listing, .snapshot i true, [], w, rfl, hrun, hread⟩
  simpa using hquiet

/-- Every request of a rebalance stays inside the cluster, whatever the nodes hold and however the
call goes, exactly if both owners of every key that moves have an endpoint, or no endpoint is given
at all. -/
theorem stays_inside_iff (_hash : String → Nat) (oldRing newRing : HashRing)
    (nodeEndpoints : Dict String Address) :
    (∀ (w₀ w : World) middle, w₀.rebalancer.inProgress = false → .finish ∉ middle →
      w₀.run _hash (.rebalance oldRing newRing nodeEndpoints :: middle) = some w →
      ∀ r, Observed (step _hash) batchRequest
        (w₀.rebalance oldRing newRing nodeEndpoints) middle r → r.Inside nodeEndpoints) ↔
      nodeEndpoints.keys = [] ∨ OwnersListed _hash oldRing newRing nodeEndpoints := by
  have hvalues : nodeEndpoints.values = [] ↔ nodeEndpoints.keys = [] := by
    rw [Dict.values, Dict.keys, List.map_eq_nil_iff, List.map_eq_nil_iff]
  rw [← hvalues]
  constructor
  · intro hinside
    rw [or_iff_not_imp_left]
    intro hsome key hmoves
    obtain ⟨middle, w, m, hquiet, hrun, hold, hnew, hread⟩ := moving_key_read hsome hmoves
    have hrequest := hinside (everywhere key) w middle rfl hquiet hrun _ hread
    obtain ⟨hsource, htarget⟩ := hrequest.2 rfl
    rw [hold] at hsource
    rw [hnew] at htarget
    exact ⟨hsource, htarget⟩
  · intro hcond w₀ w middle hidle hquiet _ r hobserved
    obtain ⟨past, event, rest, mid, hsplit, hpast, hr⟩ := hobserved
    have hquiet' : .finish ∉ past := by
      intro hfinish
      apply hquiet
      rw [hsplit]
      exact List.mem_append_left _ hfinish
    exact (underway_run hidle hquiet' hpast).inside hcond hr

/-- Node `a` has failed and `b` holds its key; another service listens on the default port. -/
def survivor : World where
  nodes := fun a =>
    if a = ("host-b", 1) then some ((LruStore.init 1 0 Nat.one_pos).put 0 "k" "new" 0)
    else if a = ("localhost", 8001) then
      some ((LruStore.init 1 0 Nat.one_pos).put 0 "k" "foreign" 0)
    else none
  clock := fun _ => 0
  registry := (∅ : Dict String Address).set "b" ("host-b", 1)

/-- Data of the default address replaces that of the surviving node. -/
theorem survivor_reads_outside : ∃ w, survivor.run (fun _ => 0)
      [.rebalance (.init (fun _ => 0) ["a"] 1) (.init (fun _ => 0) ["b"] 1) survivor.registry,
        .keys 0 true, .plan ["k"], .snapshot 0 true, .loadPut 0, .bulkLoad 0 .answered] =
          some w ∧
    Observed (step fun _ => 0) batchRequest (survivor.rebalance (.init (fun _ => 0) ["a"] 1)
        (.init (fun _ => 0) ["b"] 1) survivor.registry)
      [.keys 0 true, .plan ["k"], .snapshot 0 true, .loadPut 0, .bulkLoad 0 .answered]
      (.snapshot ⟨some "a", some "b", ["k"]⟩ ("localhost", 8001) true) ∧
    listedAddress survivor.registry (some "a") = none ∧
    survivor.live ("host-b", 1) "k" = some "new" ∧ w.live ("host-b", 1) "k" = some "foreign" := by
  refine ⟨_, rfl, ?_, rfl, rfl, rfl⟩
  exact ⟨[.keys 0 true, .plan ["k"]], .snapshot 0 true, [.loadPut 0, .bulkLoad 0 .answered], _,
    rfl, rfl, rfl⟩

end World

end SelfHealingCache
