import SelfHealingCache.RebalanceFaults
import SelfHealingCache.Relocation

namespace SelfHealingCache

namespace World

section retry

variable (_hash : String → Nat) (oldRing newRing : HashRing)
  (nodeEndpoints : Dict String Address)

/-- Where a key with a new owner belongs. -/
def destination (key : String) : Option Address :=
  if oldRing.getNode _hash key = newRing.getNode _hash key then none
  else ownerAddress _hash newRing nodeEndpoints key

/-- What a rebalance is for: the contents once every key with a new owner has been
copied there from its old owner. -/
def rebalanced (view : Address → String → Option String) : Address → String → Option String :=
  relocate (ownerAddress _hash oldRing nodeEndpoints)
    (destination _hash oldRing newRing nodeEndpoints) view

/-- The contents are those at the start, but for some keys that were copied. -/
def PartlyRebalanced (view view' : Address → String → Option String) : Prop :=
  PartlyRelocated (ownerAddress _hash oldRing nodeEndpoints)
    (destination _hash oldRing newRing nodeEndpoints) view view'

/-- A rebalance from its call to its return, with no client write and no expiry
on the way. -/
structure Rebalances (w₀ : World) (middle : List RebalanceEvent) (w : World) : Prop where
  quiet : ∀ event ∈ middle, Undisturbed event
  expiry : ∀ past event rest mid, middle = past ++ event :: rest →
    w₀.run _hash (.rebalance oldRing newRing nodeEndpoints :: past) = some mid →
      mid.ExpiresNothing event
  run : w₀.run _hash (.rebalance oldRing newRing nodeEndpoints :: middle ++ [.finish]) = some w

variable {_hash oldRing newRing nodeEndpoints} {w₀ w w' : World}
  {keys : Address → Finset String} {listed : Address → Prop} {carried : Migration × String → Prop}

theorem destination_of_ne {key : String} {a : Address}
    (hne : oldRing.getNode _hash key ≠ newRing.getNode _hash key)
    (ha : ownerAddress _hash newRing nodeEndpoints key = some a) :
    destination _hash oldRing newRing nodeEndpoints key = some a := by
  rw [destination, if_neg hne, ha]

/-- Distinct addresses keep the two owners of a key apart. -/
theorem source_ne_destination
    (hdistinct : ∀ n m a, nodeEndpoints.get? n = some a → nodeEndpoints.get? m = some a → n = m)
    (key : String) (a : Address) (hsrc : ownerAddress _hash oldRing nodeEndpoints key = some a) :
    destination _hash oldRing newRing nodeEndpoints key ≠ some a := by
  intro hdst
  unfold destination at hdst
  split at hdst
  next => cases hdst
  next hne =>
    obtain ⟨n, hn, hna⟩ := Option.bind_eq_some_iff.mp hsrc
    obtain ⟨m, hm, hma⟩ := Option.bind_eq_some_iff.mp hdst
    rw [hn, hm, hdistinct n m a hna hma] at hne
    exact hne rfl

/-- A stored entry copies its key from the old owner. -/
theorem Faulty.traced_loadPut {i : Nat}
    (h : Faulty _hash oldRing newRing nodeEndpoints w₀ keys listed carried w)
    (hroom : Ample _hash oldRing newRing nodeEndpoints w₀ keys)
    (hold : ∀ key, ∃ a, ownerAddress _hash oldRing nodeEndpoints key = some a)
    (hnew : ∀ key, ∃ a, ownerAddress _hash newRing nodeEndpoints key = some a)
    (ht : PartlyRebalanced _hash oldRing newRing nodeEndpoints w₀.live w.live)
    (hstep : w.loadPut i = some w') :
    PartlyRebalanced _hash oldRing newRing nodeEndpoints w₀.live w'.live := by
  obtain ⟨endpoints, tasks, m, filtered, key, value, ttl, remaining, c, hphase, hi, hc, rfl⟩ :=
    loadPut_some hstep
  obtain ⟨rfl, order, hpart⟩ := h.of_migrating hphase
  have hm := List.mem_of_getElem? hi
  obtain ⟨hbatch, hsub⟩ := hpart.batches m filtered _ hm
  have he : (key, value, ttl) ∈ filtered := hsub List.mem_cons_self
  obtain ⟨hk, hvalue⟩ := (hbatch.mem key value).mp ⟨ttl, he⟩
  have hcopied : relocate (ownerAddress _hash oldRing nodeEndpoints)
      (destination _hash oldRing newRing nodeEndpoints) w₀.live (m.target nodeEndpoints) key =
        some value := by
    obtain ⟨howner, howner', hne⟩ := Migration.owners (task_mem_plan hpart.planned hm) hk
    obtain ⟨src, hsrc⟩ := hold key
    obtain ⟨dst, hdst⟩ := hnew key
    rw [Migration.source_eq howner hsrc] at hvalue
    rw [← howner, ← howner'] at hne
    rw [Migration.target_eq howner' hdst, relocate_target (destination_of_ne hne hdst) hsrc, hvalue]
    rfl
  intro a k
  by_cases hput : k = key ∧ a = m.target nodeEndpoints
  · obtain ⟨rfl, rfl⟩ := hput
    exact .inr ((live_put_self w _ c k value ttl).trans hcopied.symm)
  · have hsame : (w.setNode (m.target nodeEndpoints)
        (c.put (w.clock (m.target nodeEndpoints)) key value ttl)).live a k = w.live a k := by
      by_cases hkey : k = key
      · rw [live_setNode, if_neg fun ha => hput ⟨hkey, ha⟩]
      · exact live_put_other hc (hpart.fits _ c hc) (hpart.load_fits hroom hm he) value ttl hkey a
    rcases ht a k with hl | hl
    · exact .inl (hsame.trans hl)
    · exact .inr (hsame.trans hl)

/-- What the steps of a rebalance with failures do to the contents. -/
theorem Faulty.traced_step {event : RebalanceEvent}
    (h : Faulty _hash oldRing newRing nodeEndpoints w₀ keys listed carried w)
    (hroom : Ample _hash oldRing newRing nodeEndpoints w₀ keys)
    (hold : ∀ key, ∃ a, ownerAddress _hash oldRing nodeEndpoints key = some a)
    (hnew : ∀ key, ∃ a, ownerAddress _hash newRing nodeEndpoints key = some a)
    (hprogress : w.rebalancer.inProgress = true) (hquiet : Undisturbed event)
    (hexpiry : w.ExpiresNothing event)
    (ht : PartlyRebalanced _hash oldRing newRing nodeEndpoints w₀.live w.live)
    (hstep : w.step _hash event = some w') :
    PartlyRebalanced _hash oldRing newRing nodeEndpoints w₀.live w'.live := by
  cases event with
  | tick elapsed =>
    have hlive := live_tick_eq hexpiry
    cases Option.some.inj hstep
    rw [hlive]
    exact ht
  | rebalance old new endpoints =>
    rw [rebalance_refused hprogress hstep]
    exact ht
  | keys i ok =>
    obtain ⟨_, _, _, _, _, _, _, _, _, rfl, _⟩ := fetchKeys_some hstep
    exact ht
  | plan order =>
    obtain ⟨_, _, _, _, _, _, _, rfl⟩ := plan_some hstep
    exact ht
  | snapshot i ok =>
    obtain ⟨_, _, _, _, _, _, rfl, _⟩ := takeSnapshot_some hstep
    exact ht
  | loadPut i => exact h.traced_loadPut hroom hold hnew ht hstep
  | bulkLoad i reply =>
    obtain ⟨_, _, _, _, _, _, _, _, rfl, _⟩ := load_some hstep
    exact ht
  | finish => cases hquiet
  | put ring key value ttl => cases hquiet
  | delete ring key => cases hquiet

/-- Before its last step a rebalance, whatever has failed, has copied some keys and
changed nothing else. -/
theorem traced_run {middle : List RebalanceEvent}
    (hold : ∀ key, ∃ a, ownerAddress _hash oldRing nodeEndpoints key = some a)
    (hnew : ∀ key, ∃ a, ownerAddress _hash newRing nodeEndpoints key = some a)
    (hidle : w₀.rebalancer.inProgress = false)
    (hroom : Ample _hash oldRing newRing nodeEndpoints w₀ keys)
    (hquiet : ∀ event ∈ middle, Undisturbed event)
    (hexpiry : ∀ past event rest mid, middle = past ++ event :: rest →
      w₀.run _hash (.rebalance oldRing newRing nodeEndpoints :: past) = some mid →
        mid.ExpiresNothing event)
    (hrun : (w₀.rebalance oldRing newRing nodeEndpoints).run _hash middle = some w) :
    ∃ listed carried, Faulty _hash oldRing newRing nodeEndpoints w₀ keys listed carried w ∧
      PartlyRebalanced _hash oldRing newRing nodeEndpoints w₀.live w.live := by
  have hfaulty : Faulty _hash oldRing newRing nodeEndpoints w₀ keys _ _
      (w₀.rebalance oldRing newRing nodeEndpoints) :=
    faulty_run hidle hroom (fun event hm => absurd hm List.not_mem_nil) (by simp)
      (runs_nil (step _hash) _)
  have hinv : w.rebalancer.inProgress = true ∧ ∃ listed carried,
      Faulty _hash oldRing newRing nodeEndpoints w₀ keys listed carried w ∧
        PartlyRebalanced _hash oldRing newRing nodeEndpoints w₀.live w.live := by
    refine runs_history (I := fun _ w => w.rebalancer.inProgress = true ∧ ∃ listed carried,
      Faulty _hash oldRing newRing nodeEndpoints w₀ keys listed carried w ∧
        PartlyRebalanced _hash oldRing newRing nodeEndpoints w₀.live w.live)
      ⟨?_, _, _, hfaulty, ?_⟩ ?_ hrun
    · rw [rebalance_start hidle]
    · rw [rebalance_start hidle]
      exact PartlyRelocated.refl _
    · rintro past event rest v v' hsplit hv ⟨hprogress, _, _, hf, ht⟩ hstep
      have hm : event ∈ middle := by simp [hsplit]
      have hnothing := hexpiry past event rest v hsplit hv
      refine ⟨(step_counters hprogress (hquiet event hm) hstep).1, _, _,
        hf.step hroom hprogress (hquiet event hm) hnothing hstep, ?_⟩
      exact hf.traced_step hroom hold hnew hprogress (hquiet event hm) hnothing ht hstep
  exact hinv.2

/-- The endpoint that a request goes to is the address of the owner. -/
theorem endpoint_of_owner {ring : HashRing} {key : String} {a default : Address}
    (h : ownerAddress _hash ring nodeEndpoints key = some a) :
    endpoint nodeEndpoints (ring.getNode _hash key) default = a := by
  unfold ownerAddress at h
  rw [endpoint, h, Option.getD_some]

/-- After a rebalance the nodes still have room for a further one. -/
theorem Rebalances.outcome {middle : List RebalanceEvent}
    (h : Rebalances _hash oldRing newRing nodeEndpoints w₀ middle w)
    (hold : ∀ key, ∃ a, ownerAddress _hash oldRing nodeEndpoints key = some a)
    (hnew : ∀ key, ∃ a, ownerAddress _hash newRing nodeEndpoints key = some a)
    (hdistinct : ∀ n m a, nodeEndpoints.get? n = some a → nodeEndpoints.get? m = some a → n = m)
    (hidle : w₀.rebalancer.inProgress = false)
    (hroom : Ample _hash oldRing newRing nodeEndpoints w₀ keys) :
    w.rebalancer.inProgress = false ∧
      PartlyRebalanced _hash oldRing newRing nodeEndpoints w₀.live w.live ∧
      Ample _hash oldRing newRing nodeEndpoints w keys := by
  obtain ⟨mid, hmid, hfinish⟩ := runs_snoc_eq_some.mp h.run
  obtain ⟨_, _, hfaulty, ht⟩ := traced_run hold hnew hidle hroom h.quiet h.expiry hmid
  obtain ⟨_, tasks, counts, hphase, _, rfl⟩ := finish_some hfinish
  obtain ⟨_, order, hpart⟩ := hfaulty.of_migrating hphase
  refine ⟨rfl, ht, hpart.fits, ?_⟩
  intro key hne hsome
  apply hroom.arriving key hne
  obtain ⟨src, hsrc⟩ := hold key
  rw [endpoint_of_owner hsrc] at hsome ⊢
  have hsame := ht.of_ne (source_ne_destination hdistinct key src hsrc)
  rw [← hsame]
  exact hsome

theorem Ample.room (h : Ample _hash oldRing newRing nodeEndpoints w₀ keys) :
    Room _hash oldRing newRing nodeEndpoints w₀ w₀ := by
  intro a c hc
  refine ⟨keys a, h.fits a c hc, ?_⟩
  intro key ⟨⟨hne, src, value, hsrc, hvalue⟩, hdst⟩
  have harriving := h.arriving key hne
  rw [endpoint_of_owner hsrc, endpoint_of_owner hdst] at harriving
  exact harriving (Option.isSome_of_eq_some hvalue)

/-- A fault-free rebalance copies every key that has a new owner. -/
theorem Rebalances.fault_free {middle : List RebalanceEvent}
    (h : Rebalances _hash oldRing newRing nodeEndpoints w₀ middle w)
    (hold : ∀ key, ∃ a, ownerAddress _hash oldRing nodeEndpoints key = some a)
    (hnew : ∀ key, ∃ a, ownerAddress _hash newRing nodeEndpoints key = some a)
    (hdistinct : ∀ n m a, nodeEndpoints.get? n = some a → nodeEndpoints.get? m = some a → n = m)
    (hidle : w₀.rebalancer.inProgress = false)
    (hroom : Ample _hash oldRing newRing nodeEndpoints w₀ keys)
    (hfault : ∀ event ∈ middle, FaultFree event) :
    w.live = rebalanced _hash oldRing newRing nodeEndpoints w₀.live := by
  obtain ⟨_, ht, _⟩ := h.outcome hold hnew hdistinct hidle hroom
  obtain ⟨mid, hmid, hfinish⟩ := runs_snoc_eq_some.mp h.run
  obtain ⟨_, _, hrunning⟩ := running_run hold hnew hidle hroom.room hfault h.quiet h.expiry hmid
  obtain ⟨_, tasks, counts, hphase, hcounts, rfl⟩ := finish_some hfinish
  obtain ⟨_, order, hmig⟩ := hrunning.of_migrating hphase
  funext a key
  rcases ht a key with hsame | hcopied
  · by_cases hdst : destination _hash oldRing newRing nodeEndpoints key = some a
    · obtain ⟨src, hsrc⟩ := hold key
      rw [rebalanced, relocate_target hdst hsrc]
      cases hvalue : w₀.live src key with
      | none => exact hsame
      | some value =>
        have haddress : ownerAddress _hash newRing nodeEndpoints key = some a := by
          unfold destination at hdst
          split at hdst
          next => cases hdst
          next => exact hdst
        exact hmig.arrived hcounts hsrc haddress hvalue
    · rw [rebalanced, relocate_of_ne hdst]
      exact hsame
  · exact hcopied

/-- A rebalance can be retried: whatever failed in a first run, a fault-free second
one leaves every node with the contents that a single fault-free run from the start
leaves, and repeating a fault-free run changes nothing. -/
theorem retry_after_failure {first second : List RebalanceEvent} {w₁ w₁' w₂ : World}
    {elapsed : Address → Nat}
    (hold : oldRing.ring.size ≠ 0) (hnew : newRing.ring.size ≠ 0)
    (hcover : ∀ n, n ∈ oldRing.nodes ∨ n ∈ newRing.nodes → n ∈ nodeEndpoints.keys)
    (hdistinct : ∀ n m a, nodeEndpoints.get? n = some a → nodeEndpoints.get? m = some a → n = m)
    (hidle : w₀.rebalancer.inProgress = false)
    (hroom : Ample _hash oldRing newRing nodeEndpoints w₀ keys)
    (hfirst : Rebalances _hash oldRing newRing nodeEndpoints w₀ first w₁)
    (hwait : w₁.step _hash (.tick elapsed) = some w₁')
    (hexpiry : w₁.ExpiresNothing (.tick elapsed))
    (hsecond : Rebalances _hash oldRing newRing nodeEndpoints w₁' second w₂)
    (hfault : ∀ event ∈ second, FaultFree event) :
    (∀ single w', Rebalances _hash oldRing newRing nodeEndpoints w₀ single w' →
      (∀ event ∈ single, FaultFree event) → w₂.live = w'.live) ∧
    ((∀ event ∈ first, FaultFree event) → w₂.live = w₁.live) := by
  have holdAddress : ∀ key, ∃ a, ownerAddress _hash oldRing nodeEndpoints key = some a :=
    ownerAddress_exists hold fun n hn => hcover n (.inl hn)
  have hnewAddress : ∀ key, ∃ a, ownerAddress _hash newRing nodeEndpoints key = some a :=
    ownerAddress_exists hnew fun n hn => hcover n (.inr hn)
  obtain ⟨hidle₁, ht, hroom₁⟩ := hfirst.outcome holdAddress hnewAddress hdistinct hidle hroom
  have hlive := live_tick_eq hexpiry
  cases Option.some.inj hwait
  have hroom₁' : Ample _hash oldRing newRing nodeEndpoints
      ({ w₁ with clock := fun a => w₁.clock a + elapsed a } : World) keys := by
    refine ⟨hroom₁.fits, ?_⟩
    rw [hlive]
    exact hroom₁.arriving
  have hend := hsecond.fault_free holdAddress hnewAddress hdistinct hidle₁ hroom₁' hfault
  have hagain : w₂.live = rebalanced _hash oldRing newRing nodeEndpoints w₀.live := by
    rw [hend, hlive]
    exact relocate_partly (source_ne_destination hdistinct) ht
  refine ⟨?_, ?_⟩
  · intro single w' hsingle hfree
    rw [hagain, hsingle.fault_free holdAddress hnewAddress hdistinct hidle hroom hfree]
  · intro hfree
    rw [hagain, hfirst.fault_free holdAddress hnewAddress hdistinct hidle hroom hfree]

theorem twoNodes_addresses (n m : String) (a : Address)
    (hn : twoNodes.registry.get? n = some a) (hm : twoNodes.registry.get? m = some a) :
    n = m := by
  have hget : ∀ k, twoNodes.registry.get? k =
      if k = "b" then some ("host-b", 1) else if k = "a" then some ("host-a", 1) else none := by
    intro k
    simp [twoNodes, Dict.get?_set]
  rw [hget] at hn hm
  grind

/-- The first run moves nothing, the second what a single one would have moved. -/
theorem retry_after_failure_snapshot_failed : ∃ w₁ w₁' w₂ w',
    twoNodes.run (fun _ => 0)
        (.rebalance (.init (fun _ => 0) ["a"] 1) (.init (fun _ => 0) ["b"] 1) twoNodes.registry ::
          snapshotFailed ++ [.finish]) = some w₁ ∧
      w₁.step (fun _ => 0) (.tick fun _ => 0) = some w₁' ∧
      w₁'.run (fun _ => 0)
        (.rebalance (.init (fun _ => 0) ["a"] 1) (.init (fun _ => 0) ["b"] 1) twoNodes.registry ::
          moveOne ++ [.finish]) = some w₂ ∧
      twoNodes.run (fun _ => 0)
        (.rebalance (.init (fun _ => 0) ["a"] 1) (.init (fun _ => 0) ["b"] 1) twoNodes.registry ::
          moveOne ++ [.finish]) = some w' ∧
      w₂.live = w'.live := by
  refine ⟨_, _, _, _, rfl, rfl, rfl, rfl, ?_⟩
  have hquiet : (∀ event ∈ snapshotFailed, Undisturbed event) ∧
      ∀ event ∈ moveOne, Undisturbed event := by
    simp [snapshotFailed, moveOne, Undisturbed]
  have hexpiry : (∀ event ∈ snapshotFailed, ∀ w : World, w.ExpiresNothing event) ∧
      ∀ event ∈ moveOne, ∀ w : World, w.ExpiresNothing event := by
    simp [snapshotFailed, moveOne, ExpiresNothing]
  have hfault : ∀ event ∈ moveOne, FaultFree event := by simp [moveOne, FaultFree]
  refine (retry_after_failure (show (HashRing.init (fun _ => 0) ["a"] 1).ring.size ≠ 0 by decide)
    (show (HashRing.init (fun _ => 0) ["b"] 1).ring.size ≠ 0 by decide) twoNodes_covered
    twoNodes_addresses rfl twoNodes_ample ⟨hquiet.1, ?_, rfl⟩ rfl ?_ ⟨hquiet.2, ?_, rfl⟩ hfault).1
    moveOne _ ⟨hquiet.2, ?_, rfl⟩ hfault
  · exact fun past event rest mid hsplit _ => hexpiry.1 event (by simp [hsplit]) mid
  · intro a key value hlive
    simpa using hlive
  · exact fun past event rest mid hsplit _ => hexpiry.2 event (by simp [hsplit]) mid
  · exact fun past event rest mid hsplit _ => hexpiry.2 event (by simp [hsplit]) mid

end retry

end World

end SelfHealingCache
