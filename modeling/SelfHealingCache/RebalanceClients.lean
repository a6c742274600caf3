import SelfHealingCache.RebalanceSteps

namespace SelfHealingCache

variable (_hash : String → Nat)

/-- The effect of the last acknowledged operation on a key: `some` value of a PUT,
`none` after a DELETE. -/
def lastAcked (key : String) (acked : List Acked) : Option (Option String) :=
  acked.foldl (fun last a =>
    match a with
    | .put k value => if k = key then some (some value) else last
    | .delete k => if k = key then some none else last) none

@[simp] theorem lastAcked_put (key : String) (acked : List Acked) (k value : String) :
    lastAcked key (acked ++ [.put k value]) =
      if k = key then some (some value) else lastAcked key acked := by
  simp [lastAcked]

@[simp] theorem lastAcked_delete (key : String) (acked : List Acked) (k : String) :
    lastAcked key (acked ++ [.delete k]) =
      if k = key then some none else lastAcked key acked := by
  simp [lastAcked]

namespace World

/-- The client operations of a run are routed by `ring` and stay within `keys`. -/
def RoutedBy (ring : HashRing) (keys : Finset String) : RebalanceEvent → Prop
  | .put r key _ _ => r = ring ∧ key ∈ keys
  | .delete r _ => r = ring
  | _ => True

/-- If this step stores an entry of a `/bulk-load` on the node serving the clients of its
key, the entry repeats the last acknowledged operation on that key, if any. -/
def LoadsCurrent (ring : HashRing) (w : World) (event : RebalanceEvent) : Prop :=
  ∀ i nodeEndpoints tasks m filtered key value ttl remaining, event = .loadPut i →
    w.rebalancer.phase = .migrating nodeEndpoints tasks →
    tasks[i]? = some (m, .loading filtered ((key, value, ttl) :: remaining)) →
    w.primary _hash ring key = some (m.target nodeEndpoints) →
    ∀ last, lastAcked key w.acked = some last → last = some value

/-- Room everywhere, batches of known keys, and the last acknowledged operation on
every key in effect at the node that serves it. -/
structure Serves (ring : HashRing) (keys : Finset String) (w : World) : Prop where
  fits : ∀ a c, w.nodes a = some c → c.Fits keys
  loading : ∀ nodeEndpoints tasks m filtered remaining,
    w.rebalancer.phase = .migrating nodeEndpoints tasks →
    (m, Progress.loading filtered remaining) ∈ tasks → ∀ p ∈ remaining, p.1 ∈ keys
  held : ∀ key last, lastAcked key w.acked = some last → ∃ a c,
    w.primary _hash ring key = some a ∧ w.nodes a = some c ∧
      (c.find? key).map CacheEntry.value = last

variable {_hash}

/-- Replacing the cache of one node by another that fits. -/
theorem fits_update {w w' : World} {keys : Finset String} {a : Address}
    {c : LruStore String String} (h : ∀ a c, w.nodes a = some c → c.Fits keys) (hc : c.Fits keys)
    (hnodes : w'.nodes = Function.update w.nodes a (some c)) :
    ∀ a c, w'.nodes a = some c → c.Fits keys := by
  intro b d hd
  rw [hnodes] at hd
  by_cases hb : b = a
  · subst hb
    rw [Function.update_self] at hd
    cases Option.some.inj hd
    exact hc
  · rw [Function.update_of_ne hb] at hd
    exact h b d hd

theorem Serves.loading_step {ring : HashRing} {keys : Finset String} {w w' : World}
    {event : RebalanceEvent} (hs : w.Serves _hash ring keys)
    (h : w.step _hash event = some w') : ∀ nodeEndpoints tasks m filtered remaining,
      w'.rebalancer.phase = .migrating nodeEndpoints tasks →
      (m, Progress.loading filtered remaining) ∈ tasks → ∀ p ∈ remaining, p.1 ∈ keys := by
  intro nodeEndpoints tasks' m filtered remaining hphase hm
  cases step_tasks h hphase with
  | kept _ hbefore => exact hs.loading _ _ m filtered remaining hbefore hm
  | planned _ _ _ htasks =>
    rw [htasks] at hm
    obtain ⟨_, _, heq⟩ := List.mem_map.mp hm
    cases heq
  | @snapshot i ok tasks m' p hbefore htask htasks hfailed hserved =>
    rw [htasks] at hm
    rcases List.mem_or_eq_of_mem_set hm with hm | heq
    · exact hs.loading _ _ m filtered remaining hbefore hm
    · cases heq
      cases ok with
      | false => cases hfailed rfl
      | true =>
        obtain ⟨c, hc, hp⟩ := hserved rfl
        unfold afterSnapshot at hp
        split at hp
        next => cases hp
        next =>
          cases hp
          intro p hp
          have hlive := LruStore.mem_snapshot_iff.mp ⟨_, (List.mem_filter.mp hp).1⟩
          obtain ⟨e, hf, _⟩ := LruStore.live_eq_some.mp hlive
          obtain ⟨he, hkey⟩ := LruStore.find?_eq_some.mp hf
          rw [← hkey]
          exact (hs.fits _ c hc).1 e he
  | stored hbefore htask htasks =>
    rw [htasks] at hm
    rcases List.mem_or_eq_of_mem_set hm with hm | heq
    · exact hs.loading _ _ m filtered remaining hbefore hm
    · cases heq
      intro p hp
      exact hs.loading _ _ _ _ _ hbefore (List.mem_of_getElem? htask) p (List.mem_cons_of_mem _ hp)
  | loaded hbefore htask htasks =>
    rw [htasks] at hm
    rcases List.mem_or_eq_of_mem_set hm with hm | heq
    · exact hs.loading _ _ m filtered remaining hbefore hm
    · cases heq

/-- An acknowledged operation on one key leaves the others in effect. -/
theorem Serves.client_step {ring : HashRing} {keys : Finset String} {w w' : World} {key : String}
    {a : Address} {c c' : LruStore String String} (hs : w.Serves _hash ring keys)
    (outcome : Option String) (hreg : w'.registry = w.registry)
    (hprimary : w.primary _hash ring key = some a) (hnode : w.nodes a = some c)
    (hnodes : w'.nodes = Function.update w.nodes a (some c'))
    (hacked : ∀ k, lastAcked k w'.acked = if key = k then some outcome else lastAcked k w.acked)
    (hself : (c'.find? key).map CacheEntry.value = outcome)
    (hother : ∀ k, k ≠ key → c'.find? k = c.find? k) :
    ∀ k last, lastAcked k w'.acked = some last → ∃ b d, w'.primary _hash ring k = some b ∧
      w'.nodes b = some d ∧ (d.find? k).map CacheEntry.value = last := by
  intro k last hlast
  rw [hacked] at hlast
  rw [primary_congr hreg, hnodes]
  by_cases hk : key = k
  · subst hk
    rw [if_pos rfl] at hlast
    cases Option.some.inj hlast
    exact ⟨a, c', hprimary, Function.update_self .., hself⟩
  · rw [if_neg hk] at hlast
    obtain ⟨b, d, hb, hd, hheld⟩ := hs.held k last hlast
    by_cases hba : b = a
    · subst hba
      rw [hnode] at hd
      cases Option.some.inj hd
      refine ⟨b, c', hb, Function.update_self .., ?_⟩
      rw [hother k (Ne.symm hk)]
      exact hheld
    · exact ⟨b, d, hb, by rw [Function.update_of_ne hba, hd], hheld⟩

/-- An entry that repeats the last acknowledged operation on its key leaves it in effect. -/
theorem Serves.load_step {ring : HashRing} {keys : Finset String} {w w' : World} {a : Address}
    {key value : String} {ttl : UInt32} {c : LruStore String String}
    (hs : w.Serves _hash ring keys) (hreg : w'.registry = w.registry) (hkey : key ∈ keys)
    (hnode : w.nodes a = some c)
    (hnodes : w'.nodes = Function.update w.nodes a (some (c.put (w.clock a) key value ttl)))
    (hacked : w'.acked = w.acked) (hload : w.primary _hash ring key = some a →
      ∀ last, lastAcked key w.acked = some last → last = some value) :
    ∀ k last, lastAcked k w'.acked = some last → ∃ b d, w'.primary _hash ring k = some b ∧
      w'.nodes b = some d ∧ (d.find? k).map CacheEntry.value = last := by
  have hfit := hs.fits _ c hnode
  intro k last hlast
  rw [hacked] at hlast
  obtain ⟨b, d, hprimary, hd, hheld⟩ := hs.held k last hlast
  rw [primary_congr hreg, hnodes]
  by_cases hb : b = a
  · subst hb
    rw [hnode] at hd
    cases Option.some.inj hd
    refine ⟨_, _, hprimary, Function.update_self .., ?_⟩
    by_cases hk : k = key
    · subst hk
      rw [LruStore.put_find?_self]
      exact (hload hprimary last hlast).symm
    · rw [hfit.put_find? hkey _ value ttl hk]
      exact hheld
  · exact ⟨b, d, hprimary, by rw [Function.update_of_ne hb, hd], hheld⟩

/-- One step keeps the acknowledged operations in effect when it loads nothing that
contradicts them. -/
theorem Serves.step {ring : HashRing} {keys : Finset String} {w w' : World}
    {event : RebalanceEvent} (hs : w.Serves _hash ring keys) (hrouted : RoutedBy ring keys event)
    (hload : w.LoadsCurrent _hash ring event) (h : w.step _hash event = some w') :
    w'.Serves _hash ring keys := by
  have hreg := step_registry h
  have hloading := hs.loading_step h
  cases step_effect h with
  | none _ hnodes hacked =>
    refine ⟨?_, hloading, ?_⟩
    · rw [hnodes]
      exact hs.fits
    · intro key last hlast
      rw [hacked] at hlast
      rw [primary_congr hreg, hnodes]
      exact hs.held key last hlast
  | @loaded i nodeEndpoints tasks m key value ttl filtered remaining c hphase htask hnode hnodes
      hacked =>
    have hfit := hs.fits _ c hnode
    have hkey : key ∈ keys :=
      hs.loading _ _ m filtered _ hphase (List.mem_of_getElem? htask) _ List.mem_cons_self
    exact ⟨fits_update hs.fits (hfit.put hkey _ value ttl) hnodes, hloading,
      hs.load_step hreg hkey hnode hnodes hacked
        (hload i nodeEndpoints tasks m filtered key value ttl remaining rfl hphase htask)⟩
  | @stored r key value ttl a c hprimary hnode hnodes hacked =>
    obtain ⟨rfl, hkey⟩ := hrouted
    have hfit := hs.fits _ c hnode
    refine ⟨fits_update hs.fits (hfit.put hkey _ value ttl) hnodes, hloading, ?_⟩
    refine hs.client_step (some value) hreg hprimary hnode hnodes ?_ ?_ ?_
    · intro k
      rw [hacked, lastAcked_put]
    · rw [LruStore.put_find?_self]
      rfl
    · intro k hk
      exact hfit.put_find? hkey _ value ttl hk
  | @removed r key a c hprimary hnode hnodes hacked =>
    cases hrouted
    refine ⟨fits_update hs.fits ((hs.fits _ c hnode).remove key) hnodes, hloading, ?_⟩
    refine hs.client_step none hreg hprimary hnode hnodes ?_ ?_ ?_
    · intro k
      rw [hacked, lastAcked_delete]
    · rw [LruStore.remove_find?, if_pos rfl]
      rfl
    · intro k hk
      rw [LruStore.remove_find?, if_neg hk]

/-- In every run whose bulk loads store nothing that contradicts an acknowledged operation,
each key is served as its last acknowledged operation left it. -/
theorem acknowledged_survive (newRing : HashRing) (keys : Finset String) {w₀ w : World}
    {events : List RebalanceEvent} (hidle : w₀.rebalancer.phase = .idle) (hacked : w₀.acked = [])
    (hfits : ∀ a c, w₀.nodes a = some c → c.Fits keys)
    (hrouted : ∀ event ∈ events, RoutedBy newRing keys event)
    (hrun : w₀.run _hash events = some w)
    (hloads : ∀ past event rest mid, events = past ++ event :: rest →
      w₀.run _hash past = some mid → mid.LoadsCurrent _hash newRing event)
    (hexpiry : ∀ a c, w.nodes a = some c → ∀ e ∈ c.entries, isExpired (w.clock a) e = false) :
    ∀ key last, lastAcked key w.acked = some last → ∃ a c,
      w.primary _hash newRing key = some a ∧ w.nodes a = some c ∧
        c.live (w.clock a) key = last := by
  have hstart : w₀.Serves _hash newRing keys := by
    refine ⟨hfits, ?_, ?_⟩
    · intro nodeEndpoints tasks m filtered remaining hphase
      rw [hidle] at hphase
      cases hphase
    · intro key last hlast
      rw [hacked] at hlast
      cases hlast
  have hserves : w.Serves _hash newRing keys := by
    refine runs_history (I := fun _ w => w.Serves _hash newRing keys) hstart ?_ hrun
    intro past event rest mid w' hsplit hmid hs hstep
    have hm : event ∈ events := by rw [hsplit]; simp
    exact hs.step (hrouted event hm) (hloads past event rest mid hsplit hmid) hstep
  intro key last hlast
  obtain ⟨a, c, hprimary, hnode, hheld⟩ := hserves.held key last hlast
  refine ⟨a, c, hprimary, hnode, ?_⟩
  rw [← hheld]
  cases hf : c.find? key with
  | none => simp [LruStore.live, hf]
  | some e =>
    have hfresh := hexpiry a c hnode e (LruStore.find?_eq_some.mp hf).1
    simp [LruStore.live, hf, hfresh]

/-- Two nodes, the first of which holds a key. -/
def twoNodes : World where
  nodes := fun a =>
    if a = ("host-a", 1) then some ((LruStore.init 4 0 (by decide)).put 0 "k" "old" 0)
    else if a = ("host-b", 1) then some (LruStore.init 4 0 (by decide))
    else none
  clock := fun _ => 0
  registry := ((∅ : Dict String Address).set "a" ("host-a", 1)).set "b" ("host-b", 1)

theorem twoNodes_fits {a : Address} {c : LruStore String String}
    (hc : twoNodes.nodes a = some c) : c.Fits {"k"} := by
  have hcases : a = ("host-a", 1) ∨ a = ("host-b", 1) := by
    by_contra hne
    rw [not_or] at hne
    simp [twoNodes, hne.1, hne.2] at hc
  rcases hcases with rfl | rfl
  · cases hc
    decide
  · cases hc
    decide

/-- A rebalance from node `a` to node `b`, and a client PUT after the load of its key. -/
def putAfter : List RebalanceEvent :=
  [.rebalance (.init (fun _ => 0) ["a"] 1) (.init (fun _ => 0) ["b"] 1) twoNodes.registry,
    .keys 0 true, .keys 0 true, .plan ["k"], .snapshot 0 true, .loadPut 0,
    .bulkLoad 0 .answered, .put (.init (fun _ => 0) ["b"] 1) "k" "new" 0, .finish]

theorem acknowledged_survive_put_after : ∃ w, twoNodes.run (fun _ => 0) putAfter = some w ∧
    lastAcked "k" w.acked = some (some "new") ∧
    ∀ key last, lastAcked key w.acked = some last → ∃ a c,
      w.primary (fun _ => 0) (.init (fun _ => 0) ["b"] 1) key = some a ∧ w.nodes a = some c ∧
        c.live (w.clock a) key = last := by
  refine ⟨_, rfl, by decide, ?_⟩
  have hrouted : ∀ event ∈ putAfter, RoutedBy (.init (fun _ => 0) ["b"] 1) {"k"} event := by
    simp [putAfter, RoutedBy]
  -- the one entry is stored before any acknowledged operation
  have hloads : ∀ past event rest mid, putAfter = past ++ event :: rest →
      twoNodes.run (fun _ => 0) past = some mid →
      mid.LoadsCurrent (fun _ => 0) (.init (fun _ => 0) ["b"] 1) event := by
    intro past event rest mid hsplit hmid i _ _ _ _ _ _ _ _ hevent _ _ _ last hlast
    obtain ⟨hpast, hat⟩ := split_at hsplit
    have hfive : past.length = 5 := by
      rw [hevent] at hat
      generalize past.length = n at hat ⊢
      rcases n with _ | _ | _ | _ | _ | _ | _ | _ | _ | n <;> first | rfl | cases hat
    rw [hpast, hfive] at hmid
    have hnone : (twoNodes.run (fun _ => 0) (putAfter.take 5)).map World.acked = some [] := rfl
    rw [hmid] at hnone
    rw [Option.some.inj hnone] at hlast
    cases hlast
  refine acknowledged_survive _ {"k"} rfl rfl (fun a c => twoNodes_fits) hrouted
    (show twoNodes.run (fun _ => 0) putAfter = some _ from rfl) hloads ?_
  intro a c hc
  have hcases : a = ("host-a", 1) ∨ a = ("host-b", 1) := by
    by_contra hne
    rw [not_or] at hne
    change Function.update (Function.update twoNodes.nodes ("host-b", 1) _) ("host-b", 1) _ a = _ at hc
    simp [twoNodes, hne.1, hne.2] at hc
  rcases hcases with rfl | rfl
  · cases hc
    decide
  · cases hc
    decide

/-- The PUT comes between the snapshot and the load. -/
def putBetween : List RebalanceEvent :=
  [.rebalance (.init (fun _ => 0) ["a"] 1) (.init (fun _ => 0) ["b"] 1) twoNodes.registry,
    .keys 0 true, .keys 0 true, .plan ["k"], .snapshot 0 true,
    .put (.init (fun _ => 0) ["b"] 1) "k" "new" 0, .loadPut 0, .bulkLoad 0 .answered, .finish]

theorem put_between_lost : ∃ w, twoNodes.run (fun _ => 0) putBetween = some w ∧
    w.rebalancer.inProgress = false ∧ lastAcked "k" w.acked = some (some "new") ∧
    w.primary (fun _ => 0) (.init (fun _ => 0) ["b"] 1) "k" = some ("host-b", 1) ∧
    ((w.nodes ("host-b", 1)).bind fun c => c.live 0 "k") = some "old" := by
  refine ⟨_, rfl, ?_, ?_, ?_, ?_⟩ <;> decide

end World

end SelfHealingCache
