import SelfHealingCache.RebalanceEndpoints
import SelfHealingCache.RingDisruption

namespace SelfHealingCache

/-- A step that is no call of the rebalancer and none of its own. -/
def RebalanceEvent.client : RebalanceEvent → Bool
  | .tick _ | .put _ _ _ _ | .delete _ _ => true
  | _ => false

namespace World

section bystanders

variable (_hash : String → Nat) (oldRing newRing : HashRing)
  (nodeEndpoints : Dict String Address)

/-- No key moves to the node at this address. -/
def Bystander (a : Address) : Prop :=
  ∀ key, oldRing.getNode _hash key ≠ newRing.getNode _hash key →
    endpoint nodeEndpoints (newRing.getNode _hash key) ("localhost", 8002) ≠ a

/-- Two worlds that agree on some nodes, with the same nodes there at all. -/
structure Alike (same : Address → Prop) (w w' : World) : Prop where
  nodes : ∀ a, same a → w'.nodes a = w.nodes a
  present : ∀ a, (w'.nodes a).isSome = (w.nodes a).isSome
  clock : w'.clock = w.clock
  registry : w'.registry = w.registry

end bystanders

variable {_hash : String → Nat} {oldRing newRing : HashRing}
  {nodeEndpoints : Dict String Address} {same : Address → Prop} {w₀ w w' v : World}

theorem Alike.refl (w : World) : Alike same w w :=
  ⟨fun _ _ => rfl, fun _ => rfl, rfl, rfl⟩

theorem Alike.congr (h : Alike same w v) (hw : w'.nodes = w.nodes ∧ w'.clock = w.clock ∧
      w'.registry = w.registry) {v' : World} (hv : v'.nodes = v.nodes ∧ v'.clock = v.clock ∧
      v'.registry = v.registry) : Alike same w' v' := by
  obtain ⟨hwn, hwc, hwr⟩ := hw
  obtain ⟨hvn, hvc, hvr⟩ := hv
  refine ⟨?_, ?_, ?_, ?_⟩
  · rw [hwn, hvn]
    exact h.nodes
  · rw [hwn, hvn]
    exact h.present
  · rw [hwc, hvc]
    exact h.clock
  · rw [hwr, hvr]
    exact h.registry

theorem Alike.node (h : Alike same w v) {a : Address} {c : LruStore String String}
    (hc : w.nodes a = some c) : ∃ c', v.nodes a = some c' ∧ (same a → c' = c) := by
  have hpresent := h.present a
  rw [hc] at hpresent
  obtain ⟨c', hc'⟩ := Option.isSome_iff_exists.mp hpresent
  refine ⟨c', hc', fun hsame => ?_⟩
  have hnode := h.nodes a hsame
  rw [hc, hc'] at hnode
  exact Option.some.inj hnode

/-- What one node is set to on both sides. -/
theorem Alike.setNode (h : Alike same w v) {a : Address} {c c' : LruStore String String}
    (hc : same a → c' = c) : Alike same (w.setNode a c) (v.setNode a c') := by
  refine ⟨fun b hb => ?_, fun b => ?_, h.clock, h.registry⟩
  · by_cases hba : b = a
    · subst hba
      simp [World.setNode, hc hb]
    · simp [World.setNode, Function.update_of_ne hba, h.nodes b hb]
  · by_cases hba : b = a
    · subst hba
      simp [World.setNode]
    · simp [World.setNode, Function.update_of_ne hba, h.present b]

/-- A node on which the two sides need not agree is set. -/
theorem Alike.loaded (h : Alike same w v) {a : Address} {c : LruStore String String}
    (hc : w.nodes a = some c) (ha : ¬same a) (c' : LruStore String String) :
    Alike same (w.setNode a c') v := by
  refine ⟨fun b hb => ?_, fun b => ?_, h.clock, h.registry⟩
  · have hba : b ≠ a := by
      rintro rfl
      exact ha hb
    simp [World.setNode, Function.update_of_ne hba, h.nodes b hb]
  · by_cases hba : b = a
    · subst hba
      simp [World.setNode, h.present b, hc]
    · simp [World.setNode, Function.update_of_ne hba, h.present b]

/-- A DELETE that reaches its node sets it to what `remove` leaves. -/
theorem deleteKey_removes {ring : HashRing} {key : String} {a : Address}
    {c : LruStore String String} (ha : w.primary _hash ring key = some a)
    (hc : w.nodes a = some c) : ∃ w', w.deleteKey _hash ring key = some w' ∧
      w'.nodes = (w.setNode a (c.remove key).1).nodes ∧ w'.clock = w.clock ∧
        w'.registry = w.registry := by
  unfold deleteKey
  rw [ha, Option.bind_eq_bind, Option.bind_some, hc, Option.bind_eq_bind, Option.bind_some]
  cases hremoved : (c.remove key).2 with
  | true => exact ⟨_, rfl, rfl, rfl, rfl⟩
  | false =>
    have hsame : (c.remove key).1 = c := by
      cases hfind : c.find? key with
      | none => rw [LruStore.remove_missing hfind]
      | some e => simp [LruStore.remove, hfind] at hremoved
    refine ⟨w, rfl, ?_, rfl, rfl⟩
    rw [hsame]
    exact (Function.update_eq_self_iff.mpr hc.symm).symm

/-- A client operation does the same on both sides. -/
theorem Alike.client (h : Alike same w v) {event : RebalanceEvent} (hclient : event.client = true)
    (hstep : w.step _hash event = some w') :
    ∃ v', v.step _hash event = some v' ∧ Alike same w' v' := by
  cases event with
  | tick elapsed =>
    cases Option.some.inj hstep
    refine ⟨_, rfl, h.nodes, h.present, ?_, h.registry⟩
    funext a
    simp [h.clock]
  | put ring key value ttl =>
    obtain ⟨a, c, ha, hc, rfl⟩ := putKey_some hstep
    obtain ⟨c', hc', hsame⟩ := h.node hc
    have hprimary := (primary_congr h.registry ring key).trans ha
    have hset : Alike same (w.setNode a (c.put (w.clock a) key value ttl))
        (v.setNode a (c'.put (v.clock a) key value ttl)) :=
      h.setNode fun hb => by rw [hsame hb, h.clock]
    refine ⟨{ v.setNode a (c'.put (v.clock a) key value ttl) with
      acked := v.acked ++ [.put key value] }, ?_, ?_⟩
    · rw [step, putKey, hprimary, Option.bind_eq_bind, Option.bind_some, hc', Option.bind_eq_bind,
        Option.bind_some]
    · refine hset.congr ?_ ?_
      · exact ⟨rfl, rfl, rfl⟩
      · exact ⟨rfl, rfl, rfl⟩
  | delete ring key =>
    obtain ⟨a, c, ha, hc, _⟩ := deleteKey_some hstep
    obtain ⟨c', hc', hsame⟩ := h.node hc
    have hprimary := (primary_congr h.registry ring key).trans ha
    obtain ⟨x, hx, hxnodes, hxclock, hxregistry⟩ := deleteKey_removes ha hc
    obtain ⟨v', hv', hnodes, hclock, hregistry⟩ := deleteKey_removes hprimary hc'
    have hxw : x = w' := Option.some.inj (hx.symm.trans hstep)
    subst hxw
    have hset : Alike same (w.setNode a (c.remove key).1) (v.setNode a (c'.remove key).1) :=
      h.setNode fun hb => by rw [hsame hb]
    exact ⟨v', hv', hset.congr ⟨hxnodes, hxclock, hxregistry⟩ ⟨hnodes, hclock, hregistry⟩⟩
  | _ => cases hclient

/-- A planned batch goes to a node that is no bystander. -/
theorem target_not_bystander {order : List String} {m : Migration}
    (hm : m ∈ migrationTasks (planKeys _hash oldRing newRing order).1) :
    ¬Bystander _hash oldRing newRing nodeEndpoints (m.target nodeEndpoints) := by
  intro hbystander
  obtain ⟨key, hkey⟩ := List.exists_mem_of_ne_nil _ (mem_migrationTasks.mp hm).1
  obtain ⟨hold, hnew, hmoves⟩ := Migration.owners hm hkey
  rw [← hold, ← hnew] at hmoves
  refine hbystander key hmoves ?_
  rw [hnew, Migration.target]

/-- A step that is no client operation leaves the bystanders alone. -/
theorem Alike.quiet {event : RebalanceEvent}
    (h : Alike (Bystander _hash oldRing newRing nodeEndpoints) w v)
    (hrunning : Underway _hash oldRing newRing nodeEndpoints w)
    (hclient : event.client = false) (hstep : w.step _hash event = some w') :
    Alike (Bystander _hash oldRing newRing nodeEndpoints) w' v := by
  have hsame : ∀ x : World, x.nodes = w.nodes → x.clock = w.clock → x.registry = w.registry →
      Alike (Bystander _hash oldRing newRing nodeEndpoints) x v :=
    fun x hn hc hr => h.congr ⟨hn, hc, hr⟩ ⟨rfl, rfl, rfl⟩
  cases event with
  | rebalance old new endpoints =>
    rw [rebalance_refused hrunning.inProgress hstep]
    exact hsame _ rfl rfl rfl
  | keys i ok =>
    obtain ⟨_, _, _, _, _, _, _, _, _, rfl, _⟩ := fetchKeys_some hstep
    exact hsame _ rfl rfl rfl
  | plan order =>
    obtain ⟨_, _, _, _, _, _, _, rfl⟩ := plan_some hstep
    exact hsame _ rfl rfl rfl
  | snapshot i ok =>
    obtain ⟨_, _, _, _, _, _, rfl, _⟩ := takeSnapshot_some hstep
    exact hsame _ rfl rfl rfl
  | finish =>
    obtain ⟨_, _, _, _, _, rfl⟩ := finish_some hstep
    exact hsame _ rfl rfl rfl
  | loadPut i =>
    obtain ⟨_, tasks, m, _, key, value, ttl, _, c, hphase, hi, hc, rfl⟩ := loadPut_some hstep
    obtain ⟨rfl, order, hplanned, _⟩ := hrunning.of_migrating hphase
    have hm : m ∈ tasks.map Prod.fst := List.mem_map_of_mem (List.mem_of_getElem? hi)
    rw [hplanned] at hm
    refine (h.loaded hc (target_not_bystander hm)
      (c.put (w.clock (m.target nodeEndpoints)) key value ttl)).congr ?_ ⟨rfl, rfl, rfl⟩
    exact ⟨rfl, rfl, rfl⟩
  | bulkLoad i reply =>
    obtain ⟨_, _, _, _, _, _, _, _, rfl, _⟩ := load_some hstep
    exact hsame _ rfl rfl rfl
  | _ => cases hclient

/-- A running call and the client operations alone stay alike on the bystanders. -/
theorem alike_run {middle : List RebalanceEvent}
    (hidle : w₀.rebalancer.inProgress = false) (hquiet : .finish ∉ middle)
    (hrun : (w₀.rebalance oldRing newRing nodeEndpoints).run _hash middle = some w) :
    ∃ v, w₀.run _hash (middle.filter RebalanceEvent.client) = some v ∧
      Alike (Bystander _hash oldRing newRing nodeEndpoints) w v := by
  refine runs_history (I := fun past (mid : World) =>
    ∃ v, w₀.run _hash (past.filter RebalanceEvent.client) = some v ∧
      Alike (Bystander _hash oldRing newRing nodeEndpoints) mid v) ?_ ?_ hrun
  · refine ⟨w₀, rfl, (Alike.refl w₀).congr ?_ ⟨rfl, rfl, rfl⟩⟩
    rw [rebalance_start hidle]
    exact ⟨rfl, rfl, rfl⟩
  · intro past event rest mid next hsplit hpast ih hstep
    obtain ⟨v, hv, halike⟩ := ih
    have hpastquiet : RebalanceEvent.finish ∉ past := fun hm => hquiet (by simp [hsplit, hm])
    have hrunning := underway_run hidle hpastquiet hpast
    rw [List.filter_append]
    cases hclient : event.client with
    | true =>
      obtain ⟨v', hv', hnext⟩ := halike.client hclient hstep
      refine ⟨v', ?_, hnext⟩
      rw [List.filter_cons_of_pos hclient, List.filter_nil]
      exact runs_snoc_eq_some.mpr ⟨v, hv, hv'⟩
    | false =>
      refine ⟨v, ?_, halike.quiet hrunning hclient hstep⟩
      rw [List.filter_cons_of_neg (by simp [hclient]), List.filter_nil, List.append_nil]
      exact hv

/-- Whatever fails, a running call is invisible on every node to which no key moves: it holds
what the client operations alone would have left there. -/
theorem bystanders_untouched {middle : List RebalanceEvent}
    (hidle : w₀.rebalancer.inProgress = false) (hquiet : .finish ∉ middle)
    (hrun : (w₀.rebalance oldRing newRing nodeEndpoints).run _hash middle = some w) :
    ∃ v, w₀.run _hash (middle.filter RebalanceEvent.client) = some v ∧
      ∀ a, Bystander _hash oldRing newRing nodeEndpoints a → w.nodes a = v.nodes a := by
  obtain ⟨v, hv, halike⟩ := alike_run hidle hquiet hrun
  exact ⟨v, hv, fun a ha => (halike.nodes a ha).symm⟩

/-- The one key moves from `a` to `b` while a client stores another one on `a`. -/
theorem bystanders_untouched_move_one : ∃ w v,
    (twoNodes.rebalance (.init (fun _ => 0) ["a"] 1) (.init (fun _ => 0) ["b"] 1)
      twoNodes.registry).run (fun _ => 0)
        (moveOne ++ [.put (.init (fun _ => 0) ["a"] 1) "x" "y" 0]) = some w ∧
    twoNodes.run (fun _ => 0) [.put (.init (fun _ => 0) ["a"] 1) "x" "y" 0] = some v ∧
    ∀ a, Bystander (fun _ => 0) (.init (fun _ => 0) ["a"] 1) (.init (fun _ => 0) ["b"] 1)
      twoNodes.registry a → w.nodes a = v.nodes a := by
  obtain ⟨w, hrun⟩ : ∃ w, (twoNodes.rebalance (.init (fun _ => 0) ["a"] 1)
      (.init (fun _ => 0) ["b"] 1) twoNodes.registry).run (fun _ => 0)
        (moveOne ++ [.put (.init (fun _ => 0) ["a"] 1) "x" "y" 0]) = some w := ⟨_, rfl⟩
  obtain ⟨v, hv, hsame⟩ := bystanders_untouched rfl (by simp [moveOne]) hrun
  exact ⟨w, v, hrun, hv, hsame⟩

theorem endpoint_of_listed {n : String} {a : Address} (h : nodeEndpoints.get? n = some a)
    (default : Address) : endpoint nodeEndpoints (some n) default = a := by
  rw [endpoint, Option.bind_some, h, Option.getD_some]

/-- While a node joins that `node_endpoints` lists, all other nodes hold what the clients alone
would have left there. -/
theorem join_untouched {n : String} {joining : Address} (hn : n ∉ oldRing.nodes)
    (hlisted : nodeEndpoints.get? n = some joining)
    (hfresh : ∀ h ∈ HashRing.virtualHashes _hash oldRing.virtualNodes n, h ∉ oldRing.ring.keys)
    {middle : List RebalanceEvent} (hidle : w₀.rebalancer.inProgress = false)
    (hquiet : .finish ∉ middle)
    (hrun : (w₀.rebalance oldRing (oldRing.addNode _hash n) nodeEndpoints).run _hash middle =
      some w) :
    ∃ v, w₀.run _hash (middle.filter RebalanceEvent.client) = some v ∧
      ∀ a, a ≠ joining → w.nodes a = v.nodes a := by
  obtain ⟨v, hv, halike⟩ := alike_run hidle hquiet hrun
  refine ⟨v, hv, fun a ha => (halike.nodes a fun key hmoves htarget => ?_).symm⟩
  have hjoined : (oldRing.addNode _hash n).getNode _hash key = some n := by
    by_contra hother
    rw [HashRing.getNode_eq] at hother
    refine hmoves ?_
    rw [HashRing.getNode_eq, HashRing.getNode_eq, HashRing.preference_addNode _hash hn hfresh,
      HashRing.head?_filter_of_head?_ne hother]
  rw [hjoined, endpoint_of_listed hlisted] at htarget
  exact ha htarget.symm

/-- A hash with the key between the points of `a` and `b`. -/
def betweenHash (s : String) : Nat := if s = "b#0" then 2 else if s = "k" then 1 else 0

theorem join_untouched_move_one : ∃ w v,
    (twoNodes.rebalance (.init betweenHash ["a"] 1)
      ((HashRing.init betweenHash ["a"] 1).addNode betweenHash "b") twoNodes.registry).run
        betweenHash moveOne = some w ∧
    twoNodes.run betweenHash [] = some v ∧ w.live ("host-b", 1) "k" = some "old" ∧
    w.nodes ("host-a", 1) = v.nodes ("host-a", 1) := by
  obtain ⟨w, hrun, hmoved⟩ : ∃ w, (twoNodes.rebalance (.init betweenHash ["a"] 1)
      ((HashRing.init betweenHash ["a"] 1).addNode betweenHash "b") twoNodes.registry).run
        betweenHash moveOne = some w ∧ w.live ("host-b", 1) "k" = some "old" := ⟨_, rfl, rfl⟩
  obtain ⟨v, hv, hsame⟩ :=
    join_untouched (by decide) (show twoNodes.registry.get? "b" = some ("host-b", 1) from rfl)
      (by decide) rfl (by simp [moveOne]) hrun
  exact ⟨w, v, hrun, hv, hmoved, hsame ("host-a", 1) (by decide)⟩

/-- While a node leaves that `node_endpoints` lists, only this node is read, and every key of a
batch was its own and goes to the node that came next for this key. -/
theorem leave_moves_on {n : String} {leaving : Address} {middle past rest : List RebalanceEvent}
    {event : RebalanceEvent} {mid : World} {r : BatchRequest}
    (hlisted : nodeEndpoints.get? n = some leaving) (hidle : w₀.rebalancer.inProgress = false)
    (hquiet : .finish ∉ middle) (hsplit : middle = past ++ event :: rest)
    (hrun : (w₀.rebalance oldRing (oldRing.removeNode n) nodeEndpoints).run _hash past =
      some mid) (hr : mid.batchRequest event = some r) :
    (∃ m read, r = .snapshot m leaving read) ∨
      ∃ m a written, r = .bulkLoad m a written ∧ ∀ key ∈ m.keys,
        oldRing.getNode _hash key = some n ∧
        endpoint nodeEndpoints (oldRing.getReplicas _hash key 2)[1]? ("localhost", 8002) = a := by
  have hpastquiet : RebalanceEvent.finish ∉ past := fun hm => hquiet (by simp [hsplit, hm])
  have hrunning := underway_run hidle hpastquiet hrun
  obtain ⟨_, tasks, m, hphase, hm, hshape⟩ := batchRequest_some hr
  obtain ⟨rfl, order, hplanned, _⟩ := hrunning.of_migrating hphase
  rw [hplanned] at hm
  have hkeys : ∀ key ∈ m.keys, oldRing.getNode _hash key = some n ∧
      m.oldOwner = some n ∧ m.newOwner = (oldRing.getReplicas _hash key 2)[1]? := by
    intro key hkey
    obtain ⟨hold, hnew, hmoves⟩ := Migration.owners hm hkey
    rw [← hold, ← hnew] at hmoves
    have hleft : oldRing.getNode _hash key = some n := by
      by_contra hother
      rw [HashRing.getNode_eq] at hother
      refine hmoves ?_
      rw [HashRing.getNode_eq, HashRing.getNode_eq, HashRing.preference_removeNode,
        HashRing.head?_filter_of_head?_ne hother]
    refine ⟨hleft, hold.symm.trans hleft, ?_⟩
    rw [HashRing.getNode_eq] at hleft
    rw [← hnew, HashRing.getNode_eq, HashRing.getReplicas_eq, HashRing.preference_removeNode,
      HashRing.head?_filter_of_head? (preference_nodup _ _) hleft]
    rfl
  obtain ⟨key, hkey⟩ := List.exists_mem_of_ne_nil _ (mem_migrationTasks.mp hm).1
  rcases hshape with ⟨read, rfl⟩ | ⟨written, rfl⟩
  · refine Or.inl ⟨m, read, ?_⟩
    rw [Migration.source, (hkeys key hkey).2.1, endpoint_of_listed hlisted]
  · refine Or.inr ⟨m, _, written, rfl, fun k hk => ⟨(hkeys k hk).1, ?_⟩⟩
    rw [Migration.target, (hkeys k hk).2.2]

/-- Node `a` leaves and its key is read there. -/
theorem leave_moves_on_snapshot : ∃ mid r,
    (twoNodes.rebalance (.init HashRing.letterSum ["a", "b"] 1)
      ((HashRing.init HashRing.letterSum ["a", "b"] 1).removeNode "a") twoNodes.registry).run
        HashRing.letterSum [.keys 0 true, .keys 0 true, .plan ["k"]] = some mid ∧
    mid.batchRequest (.snapshot 0 true) = some r ∧
    ((∃ m read, r = .snapshot m ("host-a", 1) read) ∨ ∃ m a written, r = .bulkLoad m a written ∧
      ∀ key ∈ m.keys, (HashRing.init HashRing.letterSum ["a", "b"] 1).getNode HashRing.letterSum
        key = some "a" ∧ endpoint twoNodes.registry ((HashRing.init HashRing.letterSum
          ["a", "b"] 1).getReplicas HashRing.letterSum key 2)[1]? ("localhost", 8002) = a) := by
  obtain ⟨mid, r, hrun, hr⟩ : ∃ mid r,
      (twoNodes.rebalance (.init HashRing.letterSum ["a", "b"] 1)
        ((HashRing.init HashRing.letterSum ["a", "b"] 1).removeNode "a") twoNodes.registry).run
          HashRing.letterSum [.keys 0 true, .keys 0 true, .plan ["k"]] = some mid ∧
      mid.batchRequest (.snapshot 0 true) = some r := ⟨_, _, rfl, rfl⟩
  have hlisted : twoNodes.registry.get? "a" = some ("host-a", 1) := rfl
  exact ⟨mid, r, hrun, hr, leave_moves_on hlisted rfl
    (show RebalanceEvent.finish ∉ moveOne by simp [moveOne]) rfl hrun hr⟩

end World

end SelfHealingCache
