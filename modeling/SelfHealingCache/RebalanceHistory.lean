import SelfHealingCache.RebalanceClients
import SelfHealingCache.RebalanceViews

namespace SelfHealingCache

/-- The ring that the client operations use after a step. -/
def nextRing (ring : HashRing) : RebalanceEvent → HashRing
  | .rebalance _ newRing _ => newRing
  | _ => ring

def currentRing (start : HashRing) (past : List RebalanceEvent) : HashRing :=
  past.foldl nextRing start

/-- Rebalancer and gateway know the nodes of a ring under the same addresses. -/
def Agrees (nodeEndpoints registry : Dict String Address) (ring : HashRing) : Prop :=
  ∀ n ∈ ring.nodes, ∃ a, nodeEndpoints.get? n = some a ∧ registry.get? n = some a

section agrees

variable {_hash : String → Nat} {nodeEndpoints : Dict String Address} {ring : HashRing} {w : World}
  {key : String}

theorem Agrees.primary {a : Address}
    (h : Agrees nodeEndpoints w.registry ring) (ha : w.primary _hash ring key = some a) :
    ownerAddress _hash ring nodeEndpoints key = some a := by
  obtain ⟨n, hn, hreg⟩ := Option.bind_eq_some_iff.mp ha
  obtain ⟨b, hb, hb'⟩ := h n (HashRing.getNode_mem_nodes _hash hn)
  rw [hreg] at hb'
  cases Option.some.inj hb'
  exact Option.bind_eq_some_iff.mpr ⟨n, hn, hb⟩

theorem Agrees.source {m : Migration}
    (h : Agrees nodeEndpoints w.registry ring) (howner : ring.getNode _hash key = m.oldOwner)
    (hm : m.oldOwner ≠ none) :
    w.primary _hash ring key = some (m.source nodeEndpoints) := by
  obtain ⟨n, hn⟩ := Option.ne_none_iff_exists'.mp hm
  obtain ⟨a, ha, hreg⟩ := h n (HashRing.getNode_mem_nodes _hash (howner.trans hn))
  have haddress : ownerAddress _hash ring nodeEndpoints key = some a :=
    Option.bind_eq_some_iff.mpr ⟨n, howner.trans hn, ha⟩
  rw [Migration.source_eq howner haddress]
  exact Option.bind_eq_some_iff.mpr ⟨n, howner.trans hn, hreg⟩

end agrees

namespace World

/-- Rebalances start from the current ring, client operations go by it and wait for
a running rebalance, and no request of a rebalance fails. -/
def InTurn (ring : HashRing) (w : World) : RebalanceEvent → Prop
  | .rebalance oldRing newRing nodeEndpoints =>
    w.rebalancer.inProgress = false ∧ oldRing = ring ∧
      Agrees nodeEndpoints w.registry oldRing ∧ Agrees nodeEndpoints w.registry newRing
  | .put r _ _ _ => w.rebalancer.inProgress = false ∧ r = ring
  | .delete r _ => w.rebalancer.inProgress = false ∧ r = ring
  | event => FaultFree event

/-- If this step serves the snapshot of a task, then a key of it that is no longer
live at its old owner is not live at its new owner with another value than the last
acknowledged one. From an empty ring the snapshot is that of the default address,
which must not have another value either. -/
def NoStaleCopy (w : World) (event : RebalanceEvent) : Prop :=
  ∀ i nodeEndpoints tasks m, event = .snapshot i true →
    w.rebalancer.phase = .migrating nodeEndpoints tasks → tasks[i]? = some (m, .snapshotting) →
    ∀ key ∈ m.keys,
      (m.newOwner ≠ none → w.live (m.source nodeEndpoints) key = none →
        ∀ value, w.live (m.target nodeEndpoints) key = some value →
          lastAcked key w.acked = some (some value)) ∧
      (m.oldOwner = none → ∀ value, w.live (m.source nodeEndpoints) key = some value →
        lastAcked key w.acked = some (some value))

variable (_hash : String → Nat)

/-- The owner of `key` returns the last acknowledged value, or nothing. -/
def Current (ring : HashRing) (w : World) (key : String) : Prop :=
  ∀ a value, w.primary _hash ring key = some a → w.live a key = some value →
    lastAcked key w.acked = some (some value)

/-- What a task has ensured for its keys at their new owner. -/
def Handled (newRing : HashRing) (w : World) (m : Migration) : Progress → Prop
  | .snapshotting => True
  | .loading _ remaining =>
    (∀ key value ttl, (key, value, ttl) ∈ remaining → lastAcked key w.acked = some (some value)) ∧
    ∀ key ∈ m.keys, key ∉ remaining.map Prod.fst → Current _hash newRing w key
  | .returned _ => ∀ key ∈ m.keys, Current _hash newRing w key

/-- The states between and during rebalances; `ring` is the current ring. -/
inductive Healthy (ring : HashRing) (w : World) : Prop
  | idle (hphase : w.rebalancer.phase = .idle) (hprogress : w.rebalancer.inProgress = false)
    (hcurrent : ∀ key, Current _hash ring w key)
  | fetching {oldRing : HashRing} {nodeEndpoints : Dict String Address}
    {requests : List Address} {allKeys : List String}
    (hphase : w.rebalancer.phase = .fetching oldRing ring nodeEndpoints requests allKeys)
    (hprogress : w.rebalancer.inProgress = true)
    (hold : Agrees nodeEndpoints w.registry oldRing)
    (hnew : Agrees nodeEndpoints w.registry ring)
    (hcurrent : ∀ key, Current _hash oldRing w key)
    (hfetched : w.Fetched nodeEndpoints requests allKeys)
  | migrating {oldRing : HashRing} {nodeEndpoints : Dict String Address} {order : List String}
    {tasks : List (Migration × Progress)}
    (hphase : w.rebalancer.phase = .migrating nodeEndpoints tasks)
    (hprogress : w.rebalancer.inProgress = true)
    (hold : Agrees nodeEndpoints w.registry oldRing)
    (hnew : Agrees nodeEndpoints w.registry ring)
    (hcurrent : ∀ key, Current _hash oldRing w key)
    (hplanned : tasks.map Prod.fst = migrationTasks (planKeys _hash oldRing ring order).1)
    (hrest : ∀ key ∉ order, Current _hash ring w key)
    (hhandled : ∀ m p, (m, p) ∈ tasks → Handled _hash ring w m p)

variable {_hash} {ring : HashRing} {w w' : World}

/-- Losing entries does no harm. -/
theorem Current.mono {key : String} (h : Current _hash ring w key)
    (hregistry : w'.registry = w.registry) (hacked : w'.acked = w.acked)
    (hlive : ∀ a value, w'.live a key = some value → w.live a key = some value) :
    Current _hash ring w' key := by
  intro a value ha hl
  rw [hacked]
  rw [primary_congr hregistry] at ha
  exact h a value ha (hlive a value hl)

theorem Handled.mono {m : Migration} {p : Progress} (h : Handled _hash ring w m p)
    (hregistry : w'.registry = w.registry) (hacked : w'.acked = w.acked)
    (hlive : ∀ a key value, w'.live a key = some value → w.live a key = some value) :
    Handled _hash ring w' m p := by
  cases p with
  | snapshotting => trivial
  | loading filtered remaining =>
    obtain ⟨hvalues, hothers⟩ := h
    refine ⟨?_, ?_⟩
    · rw [hacked]
      exact hvalues
    · intro key hk hnot
      exact (hothers key hk hnot).mono hregistry hacked fun a => hlive a key
  | returned _ =>
    intro key hk
    exact (h key hk).mono hregistry hacked fun a => hlive a key

section tasks

variable {oldRing : HashRing} {nodeEndpoints : Dict String Address} {order : List String}
  {tasks : List (Migration × Progress)} {i : Nat} {m : Migration}

/-- The batch of a served snapshot is current, and the keys it lacks are harmless. -/
theorem handled_afterSnapshot (hold : Agrees nodeEndpoints w.registry oldRing)
    (hnew : Agrees nodeEndpoints w.registry ring) (hcurrent : ∀ key, Current _hash oldRing w key)
    (hplanned : tasks.map Prod.fst = migrationTasks (planKeys _hash oldRing ring order).1)
    (hphase : w.rebalancer.phase = .migrating nodeEndpoints tasks)
    (hi : tasks[i]? = some (m, .snapshotting)) {c : LruStore String String}
    (hc : w.nodes (m.source nodeEndpoints) = some c)
    (hstale : w.NoStaleCopy (.snapshot i true)) :
    Handled _hash ring w m (afterSnapshot (m.filtered
      (c.snapshot (w.clock (m.source nodeEndpoints)) fun _ => w.clock (m.source nodeEndpoints)))) := by
  have hbatch := Batch.of_snapshot m hc
  have hm : m ∈ migrationTasks (planKeys _hash oldRing ring order).1 := by
    rw [← hplanned]
    exact List.mem_map_of_mem (f := Prod.fst) (List.mem_of_getElem? hi)
  have hmissing : ∀ key ∈ m.keys, (∀ value, w.live (m.source nodeEndpoints) key ≠ some value) →
      Current _hash ring w key := by
    intro key hk hnone a value ha hl
    obtain ⟨_, howner, _⟩ := Migration.owners hm hk
    have htarget := Migration.target_eq howner (hnew.primary ha)
    have hsome : m.newOwner ≠ none := by
      obtain ⟨n, hn, _⟩ := Option.bind_eq_some_iff.mp ha
      rw [← howner, hn]
      exact Option.some_ne_none n
    rw [← htarget] at hl
    exact (hstale i nodeEndpoints tasks m rfl hphase hi key hk).1 hsome
      (Option.eq_none_iff_forall_ne_some.mpr hnone) value hl
  unfold SelfHealingCache.afterSnapshot
  split
  next hempty =>
    intro key hk
    apply hmissing key hk
    intro value hvalue
    rw [hempty] at hbatch
    obtain ⟨_, hentry⟩ := (hbatch.mem key value).mpr ⟨hk, hvalue⟩
    cases hentry
  next =>
    refine ⟨?_, ?_⟩
    · intro key value ttl hentry
      obtain ⟨hk, hvalue⟩ := (hbatch.mem key value).mp ⟨ttl, hentry⟩
      obtain ⟨howner, _, _⟩ := Migration.owners hm hk
      by_cases hnone : m.oldOwner = none
      · exact (hstale i nodeEndpoints tasks m rfl hphase hi key hk).2 hnone value hvalue
      · exact hcurrent key _ value (hold.source howner hnone) hvalue
    · intro key hk hnot
      apply hmissing key hk
      intro value hvalue
      exact hnot (hbatch.mem_keys.mpr ⟨hk, value, hvalue⟩)

variable {a : Address} {c : LruStore String String} {key value : String} {ttl : UInt32}

theorem live_stored (hc : w.nodes a = some c) {b : Address} {k v : String}
    (h : (w.setNode a (c.put (w.clock a) key value ttl)).live b k = some v) :
    (k = key ∧ v = value) ∨ (b = a → k ≠ key) ∧ w.live b k = some v := by
  rw [live_setNode] at h
  split at h
  next hb =>
    subst hb
    by_cases hk : k = key
    · subst hk
      exact .inl ⟨rfl, LruStore.put_live_self h⟩
    · rw [live_of_node hc]
      exact .inr ⟨fun _ => hk, LruStore.put_live_other (Ne.symm hk) h⟩
  next hb => exact .inr ⟨fun hba => absurd hba hb, h⟩

/-- Storing a last acknowledged value does no harm. -/
theorem Current.store {r : HashRing} {k : String} (h : Current _hash r w k)
    (hregistry : w'.registry = w.registry) (hacked : w'.acked = w.acked)
    (hlive : w'.live = (w.setNode a (c.put (w.clock a) key value ttl)).live)
    (hc : w.nodes a = some c) (hvalue : lastAcked key w.acked = some (some value)) :
    Current _hash r w' k := by
  intro b v hb hl
  rw [hacked]
  rw [hlive] at hl
  rw [primary_congr hregistry] at hb
  rcases live_stored hc hl with ⟨rfl, rfl⟩ | ⟨_, hl⟩
  · exact hvalue
  · exact h b v hb hl

theorem Handled.store {p : Progress} (h : Handled _hash ring w m p)
    (hregistry : w'.registry = w.registry) (hacked : w'.acked = w.acked)
    (hlive : w'.live = (w.setNode a (c.put (w.clock a) key value ttl)).live)
    (hc : w.nodes a = some c) (hvalue : lastAcked key w.acked = some (some value)) :
    Handled _hash ring w' m p := by
  cases p with
  | snapshotting => trivial
  | loading filtered remaining =>
    obtain ⟨hvalues, hothers⟩ := h
    refine ⟨?_, ?_⟩
    · rw [hacked]
      exact hvalues
    · intro k hk hnot
      exact (hothers k hk hnot).store hregistry hacked hlive hc hvalue
  | returned _ =>
    intro k hk
    exact (h k hk).store hregistry hacked hlive hc hvalue

/-- A task has handled the key of an entry that it has stored. -/
theorem Handled.stored {filtered remaining : List (String × String × UInt32)}
    (h : Handled _hash ring w m (.loading filtered ((key, value, ttl) :: remaining)))
    (hm : m ∈ migrationTasks (planKeys _hash oldRing ring order).1)
    (hnew : Agrees nodeEndpoints w.registry ring) (hregistry : w'.registry = w.registry)
    (hacked : w'.acked = w.acked)
    (hlive : w'.live = (w.setNode (m.target nodeEndpoints)
      (c.put (w.clock (m.target nodeEndpoints)) key value ttl)).live)
    (hc : w.nodes (m.target nodeEndpoints) = some c) :
    Handled _hash ring w' m (.loading filtered remaining) := by
  obtain ⟨hvalues, hothers⟩ := h
  have hvalue := hvalues key value ttl List.mem_cons_self
  refine ⟨?_, ?_⟩
  · intro k v s hentry
    rw [hacked]
    exact hvalues k v s (List.mem_cons_of_mem _ hentry)
  · intro k hk hnot
    by_cases hkey : k = key
    · subst hkey
      intro b v hb hl
      rw [hacked]
      rw [hlive] at hl
      rw [primary_congr hregistry] at hb
      obtain ⟨_, howner, _⟩ := Migration.owners hm hk
      have htarget := Migration.target_eq howner (hnew.primary hb)
      rcases live_stored hc hl with ⟨_, rfl⟩ | ⟨hother, _⟩
      · exact hvalue
      · exact absurd rfl (hother htarget.symm)
    · refine (hothers k hk ?_).store hregistry hacked hlive hc hvalue
      rw [List.map_cons, List.mem_cons, not_or]
      exact ⟨hkey, hnot⟩

end tasks

/-- A client operation on the current ring. -/
theorem Current.put {key value : String} {ttl : UInt32} (h : ∀ key, Current _hash ring w key)
    (hstep : w.putKey _hash ring key value ttl = some w') (k : String) :
    Current _hash ring w' k := by
  obtain ⟨a, c, ha, hc, rfl⟩ := putKey_some hstep
  intro b v hb hl
  have hl' : (w.setNode a (c.put (w.clock a) key value ttl)).live b k = some v := hl
  rw [live_setNode] at hl'
  change w.primary _hash ring k = some b at hb
  change lastAcked k (w.acked ++ [.put key value]) = _
  rw [lastAcked_put]
  split
  next hk =>
    subst hk
    rw [ha] at hb
    cases Option.some.inj hb
    rw [if_pos rfl] at hl'
    rw [LruStore.put_live_self hl']
  next hk =>
    split at hl'
    next hba =>
      subst hba
      refine h k b v hb ?_
      rw [live_of_node hc]
      exact LruStore.put_live_other hk hl'
    next => exact h k b v hb hl'

theorem Current.delete {key : String} (h : ∀ key, Current _hash ring w key)
    (hstep : w.deleteKey _hash ring key = some w') (k : String) : Current _hash ring w' k := by
  obtain ⟨a, c, ha, hc, ⟨_, rfl⟩ | ⟨_, rfl⟩⟩ := deleteKey_some hstep
  · intro b v hb hl
    have hl' : (w.setNode a (c.remove key).1).live b k = some v := hl
    rw [live_setNode] at hl'
    change w.primary _hash ring k = some b at hb
    change lastAcked k (w.acked ++ [.delete key]) = _
    rw [lastAcked_delete]
    split at hl'
    next hba =>
      subst hba
      obtain ⟨hk, hl'⟩ := LruStore.remove_live hl'
      rw [if_neg (Ne.symm hk)]
      refine h k b v hb ?_
      rw [live_of_node hc]
      exact hl'
    next hba =>
      have hk : key ≠ k := by
        intro heq
        subst heq
        rw [ha] at hb
        exact hba (Option.some.inj hb).symm
      rw [if_neg hk]
      exact h k b v hb hl'
  · exact h k

/-- The invariant speaks about the rebalancer, the registry, the acknowledged
operations and the live entries; losing some of these does no harm. -/
theorem Healthy.mono (h : Healthy _hash ring w) (hrebalancer : w'.rebalancer = w.rebalancer)
    (hregistry : w'.registry = w.registry) (hacked : w'.acked = w.acked)
    (hlive : ∀ a key value, w'.live a key = some value → w.live a key = some value) :
    Healthy _hash ring w' := by
  have hcurrents : ∀ r key, Current _hash r w key → Current _hash r w' key :=
    fun r key hc => hc.mono hregistry hacked fun a => hlive a key
  cases h with
  | idle hphase hprogress hcurrent =>
    rw [← hrebalancer] at hphase hprogress
    exact .idle hphase hprogress fun key => hcurrents _ key (hcurrent key)
  | fetching hphase hprogress hold hnew hcurrent hfetched =>
    rw [← hrebalancer] at hphase hprogress
    rw [← hregistry] at hold hnew
    exact .fetching hphase hprogress hold hnew (fun key => hcurrents _ key (hcurrent key))
      (hfetched.mono hlive)
  | migrating hphase hprogress hold hnew hcurrent hplanned hrest hhandled =>
    rw [← hrebalancer] at hphase hprogress
    rw [← hregistry] at hold hnew
    exact .migrating hphase hprogress hold hnew (fun key => hcurrents _ key (hcurrent key))
      hplanned (fun key hk => hcurrents _ key (hrest key hk))
      fun m p hm => (hhandled m p hm).mono hregistry hacked hlive

theorem Healthy.idle_of_progress (h : Healthy _hash ring w)
    (hprogress : w.rebalancer.inProgress = false) :
    w.rebalancer.phase = .idle ∧ ∀ key, Current _hash ring w key := by
  cases h with
  | idle hphase _ hcurrent => exact ⟨hphase, hcurrent⟩
  | fetching _ htrue =>
    rw [hprogress] at htrue
    cases htrue
  | migrating _ htrue =>
    rw [hprogress] at htrue
    cases htrue

/-- What holds while the tasks run. -/
theorem Healthy.of_migrating {nodeEndpoints : Dict String Address}
    {tasks : List (Migration × Progress)} (h : Healthy _hash ring w)
    (hphase : w.rebalancer.phase = .migrating nodeEndpoints tasks) :
    w.rebalancer.inProgress = true ∧ Agrees nodeEndpoints w.registry ring ∧ ∃ oldRing order,
      Agrees nodeEndpoints w.registry oldRing ∧ (∀ key, Current _hash oldRing w key) ∧
      tasks.map Prod.fst = migrationTasks (planKeys _hash oldRing ring order).1 ∧
      (∀ key ∉ order, Current _hash ring w key) ∧
      ∀ m p, (m, p) ∈ tasks → Handled _hash ring w m p := by
  cases h with
  | idle hphase' =>
    rw [hphase'] at hphase
    cases hphase
  | fetching hphase' =>
    rw [hphase'] at hphase
    cases hphase
  | migrating hphase' hprogress hold hnew hcurrent hplanned hrest hhandled =>
    rw [hphase'] at hphase
    cases hphase
    exact ⟨hprogress, hnew, _, _, hold, hcurrent, hplanned, hrest, hhandled⟩

theorem Healthy.of_fetching {oldRing newRing : HashRing} {nodeEndpoints : Dict String Address}
    {requests : List Address} {allKeys : List String} (h : Healthy _hash ring w)
    (hphase : w.rebalancer.phase = .fetching oldRing newRing nodeEndpoints requests allKeys) :
    newRing = ring ∧ w.rebalancer.inProgress = true ∧
      Agrees nodeEndpoints w.registry oldRing ∧ Agrees nodeEndpoints w.registry ring ∧
      (∀ key, Current _hash oldRing w key) ∧ w.Fetched nodeEndpoints requests allKeys := by
  cases h with
  | idle hphase' =>
    rw [hphase'] at hphase
    cases hphase
  | fetching hphase' hprogress hold hnew hcurrent hfetched =>
    rw [hphase'] at hphase
    cases hphase
    exact ⟨rfl, hprogress, hold, hnew, hcurrent, hfetched⟩
  | migrating hphase' =>
    rw [hphase'] at hphase
    cases hphase

theorem Healthy.rebalance {oldRing newRing : HashRing} {nodeEndpoints : Dict String Address}
    (h : Healthy _hash ring w) (hturn : InTurn ring w (.rebalance oldRing newRing nodeEndpoints)) :
    Healthy _hash newRing (w.rebalance oldRing newRing nodeEndpoints) := by
  obtain ⟨hprogress, rfl, hold, hnew⟩ := hturn
  obtain ⟨_, hcurrent⟩ := h.idle_of_progress hprogress
  rw [rebalance_start hprogress]
  exact .fetching rfl rfl hold hnew hcurrent fun a ha => .inl ha

theorem Healthy.plan {order : List String} (h : Healthy _hash ring w)
    (hstep : w.plan _hash order = some w') : Healthy _hash ring w' := by
  obtain ⟨_, _, _, allKeys, hphase, _, horder, rfl⟩ := plan_some hstep
  obtain ⟨rfl, hprogress, hold, hnew, hcurrent, hfetched⟩ := h.of_fetching hphase
  refine .migrating rfl hprogress hold hnew hcurrent (planned_migrations _) ?_ ?_
  · intro key hk a value ha hl
    rcases hfetched a (ownerAddress_mem (hnew.primary ha)) with hreq | hall
    · cases hreq
    · exact absurd ((horder key).mpr (hall key value hl)) hk
  · intro m p hm
    obtain ⟨_, _, heq⟩ := List.mem_map.mp hm
    cases heq
    trivial

/-- When a rebalance returns, the new owners take over. -/
theorem Healthy.finish (h : Healthy _hash ring w) (hstep : w.finish = some w') :
    Healthy _hash ring w' := by
  obtain ⟨_, tasks, counts, hphase, hcounts, rfl⟩ := finish_some hstep
  obtain ⟨_, _, oldRing, order, _, hcurrent, hplanned, hrest, hhandled⟩ := h.of_migrating hphase
  refine .idle rfl rfl ?_
  intro key
  have hkey : Current _hash ring w key := by
    by_cases hk : key ∈ order
    · by_cases hsame : oldRing.getNode _hash key = ring.getNode _hash key
      · intro a value ha hl
        refine hcurrent key a value ?_ hl
        rw [primary, hsame]
        exact ha
      · obtain ⟨m, hm, hkm, _⟩ := exists_task hk hsame
        rw [← hplanned] at hm
        obtain ⟨n, ht⟩ := returned_of_mem hcounts hm
        exact hhandled m _ ht key hkm
    · exact hrest key hk
  exact hkey

/-- An answer with the keys of a node is one request less. -/
theorem Healthy.fetch {i : Nat} (h : Healthy _hash ring w)
    (hstep : w.fetchKeys i true = some w') : Healthy _hash ring w' := by
  obtain ⟨_, _, _, requests, allKeys, a, found, hphase, hi, rfl, hfound⟩ := fetchKeys_some hstep
  obtain ⟨c, hc, rfl⟩ := hfound rfl
  obtain ⟨rfl, hprogress, hold, hnew, hcurrent, hfetched⟩ := h.of_fetching hphase
  exact .fetching rfl hprogress hold hnew hcurrent (hfetched.answer hi hc)

/-- A snapshot without stale copies leaves its task with current values only. -/
theorem Healthy.snapshot {i : Nat} (h : Healthy _hash ring w)
    (hstale : w.NoStaleCopy (.snapshot i true)) (hstep : w.takeSnapshot i true = some w') :
    Healthy _hash ring w' := by
  obtain ⟨_, tasks, m, p, hphase, hi, rfl, _, hserved⟩ := takeSnapshot_some hstep
  obtain ⟨c, hc, rfl⟩ := hserved rfl
  obtain ⟨hprogress, hnew, oldRing, order, hold, hcurrent, hplanned, hrest, hhandled⟩ :=
    h.of_migrating hphase
  have hset := handled_afterSnapshot hold hnew hcurrent hplanned hphase hi hc hstale
  refine .migrating rfl hprogress hold hnew hcurrent ((set_task_migrations hi _).trans hplanned)
    hrest ?_
  intro m' q hm'
  rcases List.mem_or_eq_of_mem_set hm' with hm' | heq
  · exact hhandled m' q hm'
  · cases heq
    exact hset

/-- An entry that is stored is a current value, wherever it goes. -/
theorem Healthy.loadPut {i : Nat} (h : Healthy _hash ring w) (hstep : w.loadPut i = some w') :
    Healthy _hash ring w' := by
  obtain ⟨_, tasks, m, filtered, key, value, ttl, _, c, hphase, hi, hc, rfl⟩ := loadPut_some hstep
  obtain ⟨hprogress, hnew, oldRing, order, hold, hcurrent, hplanned, hrest, hhandled⟩ :=
    h.of_migrating hphase
  have htask := List.mem_of_getElem? hi
  have hloading := hhandled m _ htask
  have hvalue := hloading.1 key value ttl List.mem_cons_self
  have hm := List.mem_map_of_mem (f := Prod.fst) htask
  rw [hplanned] at hm
  refine .migrating rfl hprogress hold hnew (fun k => (hcurrent k).store rfl rfl rfl hc hvalue)
    ((set_task_migrations hi _).trans hplanned)
    (fun k hk => (hrest k hk).store rfl rfl rfl hc hvalue) ?_
  intro m' q hm'
  rcases List.mem_or_eq_of_mem_set hm' with hm' | heq
  · exact (hhandled m' q hm').store rfl rfl rfl hc hvalue
  · cases heq
    refine hloading.stored hm hnew ?_ ?_ ?_ hc <;> rfl

/-- A bulk load that is answered has stored all its entries. -/
theorem Healthy.load {i : Nat} (h : Healthy _hash ring w)
    (hstep : w.load i .answered = some w') : Healthy _hash ring w' := by
  obtain ⟨_, tasks, m, filtered, _, n, hphase, hi, rfl, hstored, _⟩ := load_some hstep
  cases hstored (by simp)
  obtain ⟨hprogress, hnew, oldRing, order, hold, hcurrent, hplanned, hrest, hhandled⟩ :=
    h.of_migrating hphase
  refine .migrating rfl hprogress hold hnew hcurrent ((set_task_migrations hi _).trans hplanned)
    hrest ?_
  intro m' q hm'
  rcases List.mem_or_eq_of_mem_set hm' with hm' | heq
  · exact hhandled m' q hm'
  · cases heq
    exact fun key hk => (hhandled m _ (List.mem_of_getElem? hi)).2 key hk List.not_mem_nil

/-- Clients work between the rebalances, on the current ring. -/
theorem Healthy.put {key value : String} {ttl : UInt32} (h : Healthy _hash ring w)
    (hprogress : w.rebalancer.inProgress = false)
    (hstep : w.putKey _hash ring key value ttl = some w') : Healthy _hash ring w' := by
  obtain ⟨hphase, hcurrent⟩ := h.idle_of_progress hprogress
  have hafter := Current.put hcurrent hstep
  obtain ⟨_, _, _, _, rfl⟩ := putKey_some hstep
  exact .idle hphase hprogress hafter

theorem Healthy.delete {key : String} (h : Healthy _hash ring w)
    (hprogress : w.rebalancer.inProgress = false)
    (hstep : w.deleteKey _hash ring key = some w') : Healthy _hash ring w' := by
  obtain ⟨hphase, hcurrent⟩ := h.idle_of_progress hprogress
  have hafter := Current.delete hcurrent hstep
  obtain ⟨_, _, _, _, ⟨_, rfl⟩ | ⟨_, rfl⟩⟩ := deleteKey_some hstep
  · exact .idle hphase hprogress hafter
  · exact .idle hphase hprogress hafter

theorem Healthy.step {event : RebalanceEvent} (h : Healthy _hash ring w)
    (hturn : InTurn ring w event) (hstale : w.NoStaleCopy event)
    (hstep : w.step _hash event = some w') : Healthy _hash (nextRing ring event) w' := by
  cases event with
  | tick elapsed =>
    cases Option.some.inj hstep
    exact h.mono rfl rfl rfl fun _ _ _ hl => live_tick hl
  | rebalance oldRing newRing nodeEndpoints =>
    cases Option.some.inj hstep
    exact h.rebalance hturn
  | keys i ok =>
    cases hturn
    exact h.fetch hstep
  | plan order => exact h.plan hstep
  | snapshot i ok =>
    cases hturn
    exact h.snapshot hstale hstep
  | loadPut i => exact h.loadPut hstep
  | bulkLoad i reply =>
    cases hturn
    exact h.load hstep
  | finish => exact h.finish hstep
  | put r key value ttl =>
    obtain ⟨hprogress, rfl⟩ := hturn
    exact h.put hprogress hstep
  | delete r key =>
    obtain ⟨hprogress, rfl⟩ := hturn
    exact h.delete hprogress hstep

/-- Over a sequence of fault-free rebalances with client operations between them, as
long as no snapshot leaves a stale copy at a new owner, what the owner in the current
ring returns is the value last acknowledged. -/
theorem no_resurrection {start : HashRing} {w₀ w : World} {events : List RebalanceEvent}
    (hidle : w₀.rebalancer.phase = .idle) (hprogress : w₀.rebalancer.inProgress = false)
    (hempty : ∀ a key, w₀.live a key = none)
    (hturns : ∀ past event rest mid, events = past ++ event :: rest →
      w₀.run _hash past = some mid → InTurn (currentRing start past) mid event)
    (hstale : ∀ past event rest mid, events = past ++ event :: rest →
      w₀.run _hash past = some mid → mid.NoStaleCopy event)
    (hrun : w₀.run _hash events = some w) (hdone : w.rebalancer.inProgress = false) :
    ∀ key a value, w.primary _hash (currentRing start events) key = some a →
      w.live a key = some value → lastAcked key w.acked = some (some value) := by
  have hstart : Healthy _hash start w₀ := by
    refine .idle hidle hprogress ?_
    intro key a value _ hl
    rw [hempty] at hl
    cases hl
  have hhealthy : Healthy _hash (currentRing start events) w := by
    refine runs_history (I := fun past w => Healthy _hash (currentRing start past) w) hstart ?_ hrun
    intro past event rest mid w' hsplit hmid hh hstep
    have hnext := hh.step (hturns past event rest mid hsplit hmid)
      (hstale past event rest mid hsplit hmid) hstep
    rw [currentRing, List.foldl_append]
    exact hnext
  intro key a value ha hl
  exact (hhealthy.idle_of_progress hdone).2 key a value ha hl

def ringA : HashRing := .init (fun _ => 0) ["a"] 1

def ringB : HashRing := .init (fun _ => 0) ["b"] 1

/-- The two nodes without their keys. -/
def twoEmpty : World where
  nodes := fun a => (twoNodes.nodes a).map LruStore.clear
  clock := twoNodes.clock
  registry := twoNodes.registry

theorem twoEmpty_live (a : Address) (key : String) : twoEmpty.live a key = none := by
  show ((twoNodes.nodes a).map LruStore.clear).bind _ = none
  cases twoNodes.nodes a with
  | none => rfl
  | some c => rfl

theorem twoEmpty_agrees {r : HashRing} (hr : r = ringA ∨ r = ringB) :
    Agrees twoEmpty.registry twoEmpty.registry r := by
  intro n hn
  have hnodes : n = "a" ∨ n = "b" := by
    rcases hr with rfl | rfl
    · exact .inl (by simpa [ringA, HashRing.init, HashRing.addNode, HashRing.empty] using hn)
    · exact .inr (by simpa [ringB, HashRing.init, HashRing.addNode, HashRing.empty] using hn)
  rcases hnodes with rfl | rfl
  · exact ⟨_, rfl, rfl⟩
  · exact ⟨_, rfl, rfl⟩

/-- A PUT at node `a`, then the rebalance that makes node `b` the owner. -/
def putThenMove : List RebalanceEvent :=
  [.put ringA "k" "v" 0, .rebalance ringA ringB twoEmpty.registry, .keys 0 true,
    .keys 0 true, .plan ["k"], .snapshot 0 true, .loadPut 0, .bulkLoad 0 .answered, .finish]

theorem no_resurrection_put_then_move : ∃ w,
    twoEmpty.run (fun _ => 0) putThenMove = some w ∧ w.live ("host-b", 1) "k" = some "v" ∧
      lastAcked "k" w.acked = some (some "v") := by
  have hturns : ∀ past event rest mid, putThenMove = past ++ event :: rest →
      twoEmpty.run (fun _ => 0) past = some mid →
        InTurn (currentRing ringA past) mid event := by
    intro past event rest mid hsplit hmid
    obtain ⟨hpast, hat⟩ := split_at hsplit
    rw [hpast] at hmid ⊢
    generalize past.length = n at hat hmid ⊢
    rcases n with _ | _ | _ | _ | _ | _ | _ | _ | _ | n
    · cases hat
      cases hmid
      exact ⟨rfl, rfl⟩
    · cases hat
      cases hmid
      exact ⟨rfl, rfl, twoEmpty_agrees (.inl rfl), twoEmpty_agrees (.inr rfl)⟩
    · cases hat
      rfl
    · cases hat
      rfl
    · cases hat
      trivial
    · cases hat
      rfl
    · cases hat
      trivial
    · cases hat
      rfl
    · cases hat
      trivial
    · cases hat
  have hstale : ∀ past event rest mid, putThenMove = past ++ event :: rest →
      twoEmpty.run (fun _ => 0) past = some mid → mid.NoStaleCopy event := by
    intro past event rest mid hsplit hmid i eps tasks m heq hphase htask key hk
    obtain ⟨hpast, hat⟩ := split_at hsplit
    rw [heq] at hat
    have hfive : past.length = 5 := by
      generalize past.length = n at hat ⊢
      rcases n with _ | _ | _ | _ | _ | _ | _ | _ | _ | n <;> first | rfl | cases hat
    rw [hpast, hfive] at hmid
    rw [hfive] at hat
    cases hat
    cases hmid
    cases hphase
    cases htask
    cases List.mem_singleton.mp hk
    constructor
    · intro _ hnone
      cases hnone
    · intro hnone
      cases hnone
  refine ⟨_, rfl, rfl, ?_⟩
  exact no_resurrection (show twoEmpty.rebalancer.phase = .idle from rfl) rfl twoEmpty_live hturns
    hstale (show twoEmpty.run (fun _ => 0) putThenMove = some _ from rfl) rfl "k" ("host-b", 1)
    "v" rfl rfl

/-- Then the key is deleted at node `b` and node `a` becomes the owner again. -/
def deleteThenMoveBack : List RebalanceEvent :=
  [.delete ringB "k", .rebalance ringB ringA twoEmpty.registry, .keys 0 true, .keys 0 true,
    .plan ["k"], .snapshot 0 true, .finish]

theorem deleted_key_returns : ∃ w,
    twoEmpty.run (fun _ => 0) (putThenMove ++ deleteThenMoveBack) = some w ∧
      w.rebalancer.inProgress = false ∧ lastAcked "k" w.acked = some none ∧
      currentRing ringA (putThenMove ++ deleteThenMoveBack) = ringA ∧
      w.primary (fun _ => 0) ringA "k" = some ("host-a", 1) ∧
      w.live ("host-a", 1) "k" = some "v" := by
  refine ⟨_, rfl, rfl, ?_, rfl, ?_, ?_⟩ <;> decide

end World

end SelfHealingCache
