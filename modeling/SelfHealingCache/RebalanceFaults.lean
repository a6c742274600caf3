import SelfHealingCache.RebalanceFaultFree

namespace SelfHealingCache

namespace World

/-- The node whose answer to `GET /keys` this step reads. -/
def lists (w : World) : RebalanceEvent → Option Address
  | .keys i true =>
    match w.rebalancer.phase with
    | .fetching _ _ _ requests _ => requests[i]?
    | _ => none
  | _ => none

/-- The task and the key of the entry that this step stores. -/
def carries (w : World) : RebalanceEvent → Option (Migration × String)
  | .loadPut i =>
    match w.rebalancer.phase with
    | .migrating _ tasks =>
      match tasks[i]? with
      | some (m, .loading _ ((key, _, _) :: _)) => some (m, key)
      | _ => none
    | _ => none
  | _ => none

section partially

variable (_hash : String → Nat) (oldRing newRing : HashRing)
  (nodeEndpoints : Dict String Address) (w₀ : World) (keys : Address → Finset String)
  (listed : Address → Prop) (carried : Migration × String → Prop)

/-- Every node has room for its keys and for those that its tasks may bring. -/
structure Ample : Prop where
  fits : ∀ a c, w₀.nodes a = some c → c.Fits (keys a)
  arriving : ∀ key, oldRing.getNode _hash key ≠ newRing.getNode _hash key →
    (w₀.live (endpoint nodeEndpoints (oldRing.getNode _hash key) ("localhost", 8001))
      key).isSome = true →
    key ∈ keys (endpoint nodeEndpoints (newRing.getNode _hash key) ("localhost", 8002))

/-- The migration of which the entries in `carried` were stored, for the keys that the nodes
in `listed` have reported. -/
structure Partial (order : List String) (tasks : List (Migration × Progress)) (w : World) :
    Prop where
  nodup : order.Nodup
  found : ∀ key, key ∈ order ↔ ∃ a, listed a ∧ (w₀.live a key).isSome = true
  planned : tasks.map Prod.fst = migrationTasks (planKeys _hash oldRing newRing order).1
  batches : ∀ m filtered remaining, (m, .loading filtered remaining) ∈ tasks →
    Batch (w₀.live (m.source nodeEndpoints)) m filtered ∧ remaining ⊆ filtered
  belongs : ∀ m key, carried (m, key) → m ∈ tasks.map Prod.fst ∧ key ∈ m.keys
  unread : ∀ m, (m, .snapshotting) ∈ tasks → ∀ key, ¬carried (m, key)
  arrived : ∀ m key, carried (m, key) → ∃ value,
    w₀.live (m.source nodeEndpoints) key = some value ∧
      w.live (m.target nodeEndpoints) key = some value
  frame : ∀ key a, (∀ m, carried (m, key) → m.target nodeEndpoints ≠ a) →
    w.live a key = w₀.live a key
  fits : ∀ a c, w.nodes a = some c → c.Fits (keys a)

/-- The states of a rebalance some of whose requests have failed. -/
inductive Faulty (w : World) : Prop
  | fetching {requests : List Address} {allKeys : List String}
    (hphase : w.rebalancer.phase = .fetching oldRing newRing nodeEndpoints requests allKeys)
    (hnodes : w.nodes = w₀.nodes) (hlive : w.live = w₀.live)
    (hfound : ∀ key, key ∈ allKeys ↔ ∃ a, listed a ∧ (w₀.live a key).isSome = true)
    (hnone : ∀ x, ¬carried x)
  | migrating {order : List String} {tasks : List (Migration × Progress)}
    (hphase : w.rebalancer.phase = .migrating nodeEndpoints tasks)
    (hpart : Partial _hash oldRing newRing nodeEndpoints w₀ keys listed carried order tasks w)

end partially

variable {_hash : String → Nat} {oldRing newRing : HashRing}
  {nodeEndpoints : Dict String Address} {w₀ w w' : World} {keys : Address → Finset String}
  {listed listed' : Address → Prop} {carried carried' : Migration × String → Prop}

theorem Partial.congr {order : List String} {tasks : List (Migration × Progress)}
    (h : Partial _hash oldRing newRing nodeEndpoints w₀ keys listed carried order tasks w)
    (hlisted : ∀ a, listed' a ↔ listed a) (hcarried : ∀ x, carried' x ↔ carried x)
    (hnodes : w'.nodes = w.nodes) (hlive : w'.live = w.live) :
    Partial _hash oldRing newRing nodeEndpoints w₀ keys listed' carried' order tasks w' where
  nodup := h.nodup
  found := by
    intro key
    rw [h.found]
    exact exists_congr fun a => and_congr_left' (hlisted a).symm
  planned := h.planned
  batches := h.batches
  belongs := fun m key hm => h.belongs m key ((hcarried _).mp hm)
  unread := fun m hm key hc => h.unread m hm key ((hcarried _).mp hc)
  arrived := by
    intro m key hm
    rw [hlive]
    exact h.arrived m key ((hcarried _).mp hm)
  frame := by
    intro key a hk
    rw [hlive]
    exact h.frame key a fun m hm => hk m ((hcarried _).mpr hm)
  fits := by
    rw [hnodes]
    exact h.fits

theorem Faulty.congr
    (h : Faulty _hash oldRing newRing nodeEndpoints w₀ keys listed carried w)
    (hlisted : ∀ a, listed' a ↔ listed a) (hcarried : ∀ x, carried' x ↔ carried x)
    (hphase : w'.rebalancer.phase = w.rebalancer.phase) (hnodes : w'.nodes = w.nodes)
    (hlive : w'.live = w.live) :
    Faulty _hash oldRing newRing nodeEndpoints w₀ keys listed' carried' w' := by
  cases h with
  | fetching hp hn hl hfound hnone =>
    refine .fetching (hphase.trans hp) (hnodes.trans hn) (hlive.trans hl) ?_
      fun x hx => hnone x ((hcarried x).mp hx)
    intro key
    rw [hfound]
    exact exists_congr fun a => and_congr_left' (hlisted a).symm
  | migrating hp hpart =>
    exact .migrating (hphase.trans hp) (hpart.congr hlisted hcarried hnodes hlive)

section tasks

variable {order : List String} {tasks : List (Migration × Progress)} {i : Nat} {m : Migration}
  {p : Progress}

/-- The keys of a task that has no snapshot yet are as they were. -/
theorem Partial.pending
    (h : Partial _hash oldRing newRing nodeEndpoints w₀ keys listed carried order tasks w)
    (hi : tasks[i]? = some (m, .snapshotting)) {key : String} (hk : key ∈ m.keys) (a : Address) :
    w.live a key = w₀.live a key := by
  apply h.frame
  intro m' hm' _
  obtain ⟨hplan, hk'⟩ := h.belongs m' key hm'
  obtain ⟨⟨_, p'⟩, ht, rfl⟩ := List.mem_map.mp hplan
  cases task_unique h.planned hi ht hk hk'
  exact h.unread m ht key hm'

/-- A task moves on without storing anything. -/
theorem Partial.setTask
    (h : Partial _hash oldRing newRing nodeEndpoints w₀ keys listed carried order tasks w)
    (hi : tasks[i]? = some (m, p)) (p' : Progress) (hread : p' = .snapshotting → p = .snapshotting)
    (hbatch : ∀ filtered remaining, p' = .loading filtered remaining →
      Batch (w₀.live (m.source nodeEndpoints)) m filtered ∧ remaining ⊆ filtered) :
    Partial _hash oldRing newRing nodeEndpoints w₀ keys listed carried order
      (tasks.set i (m, p')) w where
  nodup := h.nodup
  found := h.found
  planned := (set_task_migrations hi p').trans h.planned
  batches := by
    intro m' filtered remaining hm'
    rcases List.mem_or_eq_of_mem_set hm' with hm' | heq
    · exact h.batches m' filtered remaining hm'
    · rw [Prod.mk.injEq] at heq
      rw [heq.1]
      exact hbatch filtered remaining heq.2.symm
  belongs := by
    intro m' key hm'
    rw [set_task_migrations hi p']
    exact h.belongs m' key hm'
  unread := by
    intro m' hm'
    rcases List.mem_or_eq_of_mem_set hm' with hm' | heq
    · exact h.unread m' hm'
    · rw [Prod.mk.injEq] at heq
      have hfirst := List.mem_of_getElem? hi
      rw [hread heq.2.symm, ← heq.1] at hfirst
      exact h.unread m' hfirst
  arrived := h.arrived
  frame := h.frame
  fits := h.fits

/-- The batch of a served snapshot, against the contents at the start. -/
theorem Partial.snapshot_batch
    (h : Partial _hash oldRing newRing nodeEndpoints w₀ keys listed carried order tasks w)
    (hi : tasks[i]? = some (m, .snapshotting)) {c : LruStore String String}
    (hc : w.nodes (m.source nodeEndpoints) = some c)
    {filtered remaining : List (String × String × UInt32)}
    (hloading : afterSnapshot (m.filtered (c.snapshot (w.clock (m.source nodeEndpoints))
      fun _ => w.clock (m.source nodeEndpoints))) = .loading filtered remaining) :
    Batch (w₀.live (m.source nodeEndpoints)) m filtered ∧ remaining ⊆ filtered := by
  have hbatch := (Batch.of_snapshot m hc).congr fun key hk =>
    (h.pending hi hk (m.source nodeEndpoints)).symm
  unfold SelfHealingCache.afterSnapshot at hloading
  split at hloading
  next => cases hloading
  next =>
    cases hloading
    exact ⟨hbatch, List.Subset.refl _⟩

/-- The target of a task has room for its batch. -/
theorem Partial.load_fits
    (h : Partial _hash oldRing newRing nodeEndpoints w₀ keys listed carried order tasks w)
    (hroom : Ample _hash oldRing newRing nodeEndpoints w₀ keys)
    {filtered remaining : List (String × String × UInt32)}
    (hm : (m, .loading filtered remaining) ∈ tasks) {key value : String} {ttl : UInt32}
    (he : (key, value, ttl) ∈ filtered) : key ∈ keys (m.target nodeEndpoints) := by
  obtain ⟨hk, hsource⟩ := ((h.batches m filtered remaining hm).1.mem key value).mp ⟨ttl, he⟩
  obtain ⟨howner, howner', hne⟩ := Migration.owners (task_mem_plan h.planned hm) hk
  have harriving := hroom.arriving key
  rw [howner, howner'] at harriving
  exact harriving hne (Option.isSome_of_eq_some hsource)

/-- A stored entry brings its key to the target, and nothing else. -/
theorem Partial.loadPut
    (h : Partial _hash oldRing newRing nodeEndpoints w₀ keys listed carried order tasks w)
    (hroom : Ample _hash oldRing newRing nodeEndpoints w₀ keys)
    {filtered remaining : List (String × String × UInt32)} {key value : String} {ttl : UInt32}
    {c : LruStore String String}
    (hi : tasks[i]? = some (m, .loading filtered ((key, value, ttl) :: remaining)))
    (hc : w.nodes (m.target nodeEndpoints) = some c)
    (hw' : w' = (w.setNode (m.target nodeEndpoints)
      (c.put (w.clock (m.target nodeEndpoints)) key value ttl)).setTask nodeEndpoints tasks i m
        (.loading filtered remaining)) :
    Partial _hash oldRing newRing nodeEndpoints w₀ keys listed
      (fun x => carried x ∨ x = (m, key)) order (tasks.set i (m, .loading filtered remaining)) w' := by
  have hm := List.mem_of_getElem? hi
  obtain ⟨hbatch, hsub⟩ := h.batches m filtered _ hm
  obtain ⟨he, hsub⟩ := List.cons_subset.mp hsub
  obtain ⟨hkm, hsource⟩ := (hbatch.mem key value).mp ⟨ttl, he⟩
  have hfits := h.fits _ c hc
  have hkey := h.load_fits hroom hm he
  have hother : ∀ k, k ≠ key → ∀ a, w'.live a k = w.live a k := by
    intro k hk a
    subst hw'
    exact live_put_other hc hfits hkey value ttl hk a
  have hself : w'.live (m.target nodeEndpoints) key = some value := by
    subst hw'
    exact live_put_self w _ c key value ttl
  have helse : ∀ a, m.target nodeEndpoints ≠ a → w'.live a key = w.live a key := by
    intro a ha
    subst hw'
    exact (live_setNode a key).trans (if_neg (Ne.symm ha))
  have hset := h.setTask hi (.loading filtered remaining) (fun hp => by cases hp)
    fun filtered' remaining' hp => by
      cases hp
      exact ⟨hbatch, hsub⟩
  refine ⟨h.nodup, h.found, hset.planned, hset.batches, ?_, ?_, ?_, ?_, ?_⟩
  · intro m' k hm'
    rcases hm' with hm' | heq
    · exact hset.belongs m' k hm'
    · cases heq
      exact ⟨List.mem_map_of_mem (f := Prod.fst) (mem_set_self hi _), hkm⟩
  · intro m' hm' k hk
    rcases hk with hk | heq
    · exact hset.unread m' hm' k hk
    · cases heq
      cases task_unique hset.planned (List.getElem?_set_self (List.getElem?_eq_some_iff.mp hi).1) hm'
        hkm hkm
  · intro m' k hm'
    by_cases hk : k = key
    · subst hk
      have hsame : m' = m := by
        rcases hm' with hm' | heq
        · obtain ⟨hplan, hk'⟩ := h.belongs m' k hm'
          obtain ⟨⟨_, p'⟩, ht, rfl⟩ := List.mem_map.mp hplan
          cases task_unique h.planned hi ht hkm hk'
          rfl
        · exact congrArg Prod.fst heq
      rw [hsame]
      exact ⟨value, hsource, hself⟩
    · rw [hother k hk]
      rcases hm' with hm' | heq
      · exact h.arrived m' k hm'
      · exact absurd (congrArg Prod.snd heq) hk
  · intro k a hk
    have hbefore := h.frame k a fun m' hm' => hk m' (Or.inl hm')
    by_cases hkey : k = key
    · subst hkey
      rw [helse a (hk m (Or.inr rfl))]
      exact hbefore
    · rw [hother k hkey]
      exact hbefore
  · intro a d hd
    rw [hw'] at hd
    by_cases ha : a = m.target nodeEndpoints
    · subst ha
      have hd' := (Function.update_self ..).symm.trans hd
      cases Option.some.inj hd'
      exact hfits.put hkey _ value ttl
    · exact h.fits a d ((Function.update_of_ne ha ..).symm.trans hd)

end tasks

section run

/-- A request for the keys of a node that fails finds nothing. -/
theorem fetchKeys_failed {i : Nat} (h : w.fetchKeys i false = some w') :
    ∃ old new endpoints requests allKeys,
      w.rebalancer.phase = .fetching old new endpoints requests allKeys ∧
      w' = w.setPhase (.fetching old new endpoints (requests.eraseIdx i) allKeys) := by
  unfold fetchKeys at h
  split at h
  next old new endpoints requests allKeys hphase =>
    obtain ⟨_, _, h⟩ := Option.bind_eq_some_iff.mp h
    exact ⟨old, new, endpoints, requests, allKeys, hphase, (Option.some.inj h).symm⟩
  next => cases h

theorem Faulty.of_fetching {old new : HashRing} {endpoints : Dict String Address}
    {requests : List Address} {allKeys : List String}
    (h : Faulty _hash oldRing newRing nodeEndpoints w₀ keys listed carried w)
    (hphase : w.rebalancer.phase = .fetching old new endpoints requests allKeys) :
    oldRing = old ∧ newRing = new ∧ nodeEndpoints = endpoints ∧ w.nodes = w₀.nodes ∧
      w.live = w₀.live ∧
      (∀ key, key ∈ allKeys ↔ ∃ a, listed a ∧ (w₀.live a key).isSome = true) ∧
      ∀ x, ¬carried x := by
  cases h with
  | fetching hphase' hnodes hlive hfound hnone =>
    rw [hphase'] at hphase
    cases hphase
    exact ⟨rfl, rfl, rfl, hnodes, hlive, hfound, hnone⟩
  | migrating hphase' _ =>
    rw [hphase'] at hphase
    cases hphase

theorem Faulty.of_migrating {endpoints : Dict String Address}
    {tasks : List (Migration × Progress)}
    (h : Faulty _hash oldRing newRing nodeEndpoints w₀ keys listed carried w)
    (hphase : w.rebalancer.phase = .migrating endpoints tasks) :
    nodeEndpoints = endpoints ∧ ∃ order,
      Partial _hash oldRing newRing nodeEndpoints w₀ keys listed carried order tasks w := by
  cases h with
  | fetching hphase' _ _ _ _ =>
    rw [hphase'] at hphase
    cases hphase
  | migrating hphase' hpart =>
    rw [hphase'] at hphase
    cases hphase
    exact ⟨rfl, _, hpart⟩

/-- An answered request for the keys of a node. -/
theorem Faulty.fetch {i : Nat}
    (h : Faulty _hash oldRing newRing nodeEndpoints w₀ keys listed carried w)
    (hstep : w.fetchKeys i true = some w') :
    Faulty _hash oldRing newRing nodeEndpoints w₀ keys
      (fun a => listed a ∨ w.lists (.keys i true) = some a) carried w' := by
  obtain ⟨_, _, _, requests, allKeys, b, found, hphase, hi, hw', hserved⟩ := fetchKeys_some hstep
  obtain ⟨c, hc, hfound⟩ := hserved rfl
  obtain ⟨hold, hnew, hendpoints, hnodes, hlive, hall, hnone⟩ := h.of_fetching hphase
  have hlists : w.lists (.keys i true) = some b := by
    unfold lists
    rw [hphase]
    exact hi
  subst hold hnew hendpoints hw'
  refine .fetching rfl hnodes hlive ?_ hnone
  intro key
  rw [List.mem_append, hall, hfound, LruStore.mem_keys, hlists]
  constructor
  · intro hor
    rcases hor with ⟨a, ha, hl⟩ | ⟨value, hvalue⟩
    · exact ⟨a, Or.inl ha, hl⟩
    · refine ⟨b, Or.inr rfl, ?_⟩
      rw [← hlive, live_of_node hc, hvalue]
      rfl
  · intro ⟨a, ha, hl⟩
    rcases ha with ha | heq
    · exact Or.inl ⟨a, ha, hl⟩
    · cases Option.some.inj heq
      rw [← hlive, live_of_node hc] at hl
      exact Or.inr (Option.isSome_iff_exists.mp hl)

/-- A stored entry. -/
theorem Faulty.loadPut {i : Nat}
    (h : Faulty _hash oldRing newRing nodeEndpoints w₀ keys listed carried w)
    (hroom : Ample _hash oldRing newRing nodeEndpoints w₀ keys)
    (hstep : w.loadPut i = some w') :
    Faulty _hash oldRing newRing nodeEndpoints w₀ keys listed
      (fun x => carried x ∨ w.carries (.loadPut i) = some x) w' := by
  obtain ⟨endpoints, tasks, m, filtered, key, value, ttl, remaining, c, hphase, hi, hc, hw'⟩ :=
    loadPut_some hstep
  obtain ⟨hendpoints, order, hpart⟩ := h.of_migrating hphase
  subst hendpoints
  have hcarries : w.carries (.loadPut i) = some (m, key) := by
    unfold carries
    rw [hphase]
    dsimp only
    rw [hi]
  have hput := hpart.loadPut hroom hi hc hw'
  have hphase' : w'.rebalancer.phase = _ := congrArg (fun v => v.rebalancer.phase) hw'
  refine .migrating hphase' (hput.congr (fun _ => Iff.rfl) ?_ rfl rfl)
  intro x
  rw [hcarries, Option.some.injEq, eq_comm]

/-- The end of a load request. -/
theorem Faulty.load {i : Nat} {reply : Reply}
    (h : Faulty _hash oldRing newRing nodeEndpoints w₀ keys listed carried w)
    (hstep : w.load i reply = some w') :
    Faulty _hash oldRing newRing nodeEndpoints w₀ keys listed carried w' := by
  obtain ⟨endpoints, tasks, m, filtered, remaining, n, hphase, hi, hw', _⟩ := load_some hstep
  obtain ⟨hendpoints, order, hpart⟩ := h.of_migrating hphase
  subst hendpoints
  have hset := hpart.setTask hi (.returned n) (fun hp => by cases hp)
    fun filtered' remaining' hp => by cases hp
  subst hw'
  exact .migrating rfl (hset.congr (fun _ => Iff.rfl) (fun _ => Iff.rfl) rfl rfl)

/-- A failed request for the keys of a node. -/
theorem Faulty.fetch_failed {i : Nat}
    (h : Faulty _hash oldRing newRing nodeEndpoints w₀ keys listed carried w)
    (hstep : w.fetchKeys i false = some w') :
    Faulty _hash oldRing newRing nodeEndpoints w₀ keys listed carried w' := by
  obtain ⟨_, _, _, requests, allKeys, hphase, hw'⟩ := fetchKeys_failed hstep
  obtain ⟨hold, hnew, hendpoints, hnodes, hlive, hall, hnone⟩ := h.of_fetching hphase
  subst hold hnew hendpoints hw'
  exact .fetching rfl hnodes hlive hall hnone

/-- The tasks at their start. -/
theorem Faulty.plan {order : List String}
    (h : Faulty _hash oldRing newRing nodeEndpoints w₀ keys listed carried w)
    (hroom : Ample _hash oldRing newRing nodeEndpoints w₀ keys)
    (hstep : w.plan _hash order = some w') :
    Faulty _hash oldRing newRing nodeEndpoints w₀ keys listed carried w' := by
  obtain ⟨_, _, _, allKeys, hphase, hnodup, horder, hw'⟩ := plan_some hstep
  obtain ⟨hold, hnew, hendpoints, hnodes, hlive, hall, hnone⟩ := h.of_fetching hphase
  subst hold hnew hendpoints
  have hpart : Partial _hash oldRing newRing nodeEndpoints w₀ keys listed carried order
      ((migrationTasks (planKeys _hash oldRing newRing order).1).map
        fun m => (m, .snapshotting)) w := by
    refine ⟨hnodup, fun key => (horder key).trans (hall key), planned_migrations _, ?_, ?_, ?_,
      ?_, ?_, ?_⟩
    · intro m filtered remaining hm
      obtain ⟨_, _, heq⟩ := List.mem_map.mp hm
      cases heq
    · exact fun m key hm => absurd hm (hnone _)
    · exact fun m _ key => hnone _
    · exact fun m key hm => absurd hm (hnone _)
    · exact fun key a _ => congrFun (congrFun hlive a) key
    · exact fun a c hc => hroom.fits a c ((congrFun hnodes a).symm.trans hc)
  subst hw'
  exact .migrating rfl (hpart.congr (fun _ => Iff.rfl) (fun _ => Iff.rfl) rfl rfl)

/-- A snapshot request, served or not. -/
theorem Faulty.snapshot {i : Nat} {ok : Bool}
    (h : Faulty _hash oldRing newRing nodeEndpoints w₀ keys listed carried w)
    (hstep : w.takeSnapshot i ok = some w') :
    Faulty _hash oldRing newRing nodeEndpoints w₀ keys listed carried w' := by
  obtain ⟨_, tasks, m, p, hphase, hi, hw', hfailed, hserved⟩ := takeSnapshot_some hstep
  obtain ⟨hendpoints, order, hpart⟩ := h.of_migrating hphase
  subst hendpoints
  have hbatch : ∀ filtered remaining, p = .loading filtered remaining →
      Batch (w₀.live (m.source nodeEndpoints)) m filtered ∧ remaining ⊆ filtered := by
    intro filtered remaining hp
    cases ok with
    | true =>
      obtain ⟨c, hc, heq⟩ := hserved rfl
      exact hpart.snapshot_batch hi hc (heq.symm.trans hp)
    | false =>
      rw [hfailed rfl] at hp
      cases hp
  have hset := hpart.setTask hi p (fun _ => rfl) hbatch
  subst hw'
  exact .migrating rfl (hset.congr (fun _ => Iff.rfl) (fun _ => Iff.rfl) rfl rfl)

/-- What one step of a rebalance with failures does. -/
theorem Faulty.step {event : RebalanceEvent}
    (h : Faulty _hash oldRing newRing nodeEndpoints w₀ keys listed carried w)
    (hroom : Ample _hash oldRing newRing nodeEndpoints w₀ keys)
    (hprogress : w.rebalancer.inProgress = true) (hquiet : Undisturbed event)
    (hexpiry : w.ExpiresNothing event) (hstep : w.step _hash event = some w') :
    Faulty _hash oldRing newRing nodeEndpoints w₀ keys
      (fun a => listed a ∨ w.lists event = some a)
      (fun x => carried x ∨ w.carries event = some x) w' := by
  -- a step that reads no keys and stores no entry changes neither set
  have hsilent : w.lists event = none → w.carries event = none →
      Faulty _hash oldRing newRing nodeEndpoints w₀ keys listed carried w' →
      Faulty _hash oldRing newRing nodeEndpoints w₀ keys
        (fun a => listed a ∨ w.lists event = some a)
        (fun x => carried x ∨ w.carries event = some x) w' := by
    intro hlists hcarries hfaulty
    refine hfaulty.congr ?_ ?_ rfl rfl rfl
    · intro a
      rw [hlists]
      simp
    · intro m
      rw [hcarries]
      simp
  cases event with
  | tick elapsed =>
    have hlive := live_tick_eq hexpiry
    cases Option.some.inj hstep
    exact hsilent rfl rfl (h.congr (fun _ => Iff.rfl) (fun _ => Iff.rfl) rfl rfl hlive)
  | rebalance old new endpoints =>
    have hsame := rebalance_refused hprogress hstep
    subst hsame
    exact hsilent rfl rfl (h.congr (fun _ => Iff.rfl) (fun _ => Iff.rfl) rfl rfl rfl)
  | keys i ok =>
    cases ok with
    | true =>
      refine (h.fetch hstep).congr (fun _ => Iff.rfl) ?_ rfl rfl rfl
      intro m
      simp [carries]
    | false => exact hsilent rfl rfl (h.fetch_failed hstep)
  | plan order => exact hsilent rfl rfl (h.plan hroom hstep)
  | snapshot i ok => exact hsilent rfl rfl (h.snapshot hstep)
  | loadPut i =>
    refine (h.loadPut hroom hstep).congr ?_ (fun _ => Iff.rfl) rfl rfl rfl
    intro a
    simp [lists]
  | bulkLoad i reply => exact hsilent rfl rfl (h.load hstep)
  | finish => cases hquiet
  | put ring key value ttl => cases hquiet
  | delete ring key => cases hquiet

/-- In every state before the last step the entries at their targets are those stored there, and
the keys found are those of the nodes that answered. -/
theorem faulty_run {middle : List RebalanceEvent}
    (hidle : w₀.rebalancer.inProgress = false)
    (hroom : Ample _hash oldRing newRing nodeEndpoints w₀ keys)
    (hquiet : ∀ event ∈ middle, Undisturbed event)
    (hexpiry : ∀ past event rest mid, middle = past ++ event :: rest →
      w₀.run _hash (.rebalance oldRing newRing nodeEndpoints :: past) = some mid →
        mid.ExpiresNothing event)
    (hrun : (w₀.rebalance oldRing newRing nodeEndpoints).run _hash middle = some w) :
    Faulty _hash oldRing newRing nodeEndpoints w₀ keys
      (Observed (step _hash) lists (w₀.rebalance oldRing newRing nodeEndpoints) middle)
      (Observed (step _hash) carries (w₀.rebalance oldRing newRing nodeEndpoints) middle) w := by
  have hinv : w.rebalancer.inProgress = true ∧
      Faulty _hash oldRing newRing nodeEndpoints w₀ keys
        (Observed (step _hash) lists (w₀.rebalance oldRing newRing nodeEndpoints) middle)
        (Observed (step _hash) carries (w₀.rebalance oldRing newRing nodeEndpoints) middle) w := by
    refine runs_history (I := fun past w => w.rebalancer.inProgress = true ∧
      Faulty _hash oldRing newRing nodeEndpoints w₀ keys
        (Observed (step _hash) lists (w₀.rebalance oldRing newRing nodeEndpoints) past)
        (Observed (step _hash) carries (w₀.rebalance oldRing newRing nodeEndpoints) past) w)
      ⟨?_, ?_⟩ ?_ hrun
    · rw [rebalance_start hidle]
    · rw [rebalance_start hidle]
      refine .fetching rfl rfl rfl (fun key => ?_) fun m => not_observed_nil
      refine iff_of_false List.not_mem_nil ?_
      rintro ⟨a, ha, _⟩
      exact not_observed_nil ha
    · rintro past event rest v v' hsplit hv ⟨hprogress, hfaulty⟩ hstep
      have hm : event ∈ middle := by simp [hsplit]
      have hstate : w₀.run _hash (.rebalance oldRing newRing nodeEndpoints :: past) = some v := hv
      refine ⟨(step_counters hprogress (hquiet event hm) hstep).1, ?_⟩
      refine (hfaulty.step hroom hprogress (hquiet event hm)
        (hexpiry past event rest v hsplit hstate) hstep).congr ?_ ?_ rfl rfl rfl
      · exact fun a => observed_snoc hv
      · exact fun m => observed_snoc hv
  exact hinv.2

/-- The key has another owner now, and its old owner, at the address it is registered
with, had the value. -/
def MovedWith (_hash : String → Nat) (oldRing newRing : HashRing) (w₀ : World)
    (key value : String) : Prop :=
  oldRing.getNode _hash key ≠ newRing.getNode _hash key ∧ ∃ src,
    w₀.primary _hash oldRing key = some src ∧ w₀.live src key = some value

/-- Some node that held the key was asked for its keys and answered. -/
def Listed (_hash : String → Nat) (oldRing newRing : HashRing)
    (nodeEndpoints : Dict String Address) (w₀ : World) (middle : List RebalanceEvent)
    (key : String) : Prop :=
  ∃ a, Observed (step _hash) lists (w₀.rebalance oldRing newRing nodeEndpoints) middle a ∧
    (w₀.live a key).isSome = true

/-- The load of the task with the owners of the key has stored it. -/
def Carried (_hash : String → Nat) (oldRing newRing : HashRing)
    (nodeEndpoints : Dict String Address) (w₀ : World) (middle : List RebalanceEvent)
    (key : String) : Prop :=
  ∃ m, Observed (step _hash) carries (w₀.rebalance oldRing newRing nodeEndpoints) middle
      (m, key) ∧
    m.oldOwner = oldRing.getNode _hash key ∧ m.newOwner = newRing.getNode _hash key

/-- The key was loaded into the node at `dst` with the value that it had where its task
took the snapshot. -/
def Brought (_hash : String → Nat) (oldRing newRing : HashRing)
    (nodeEndpoints : Dict String Address) (w₀ : World) (middle : List RebalanceEvent)
    (key value : String) (dst : Address) : Prop :=
  Listed _hash oldRing newRing nodeEndpoints w₀ middle key ∧
    Carried _hash oldRing newRing nodeEndpoints w₀ middle key ∧
    endpoint nodeEndpoints (newRing.getNode _hash key) ("localhost", 8002) = dst ∧
    w₀.live (endpoint nodeEndpoints (oldRing.getNode _hash key) ("localhost", 8001)) key =
      some value

/-- What a node holds of a moved key in the end. -/
theorem Partial.live_iff {order : List String} {tasks : List (Migration × Progress)}
    (h : Partial _hash oldRing newRing nodeEndpoints w₀ keys listed carried order tasks w)
    {key value : String} {dst : Address} {brought : String → Prop} (hbrought : ∀ v, brought v ↔
      (∃ a, listed a ∧ (w₀.live a key).isSome = true) ∧
      (∃ m, carried (m, key) ∧ m.oldOwner = oldRing.getNode _hash key ∧
        m.newOwner = newRing.getNode _hash key) ∧
      endpoint nodeEndpoints (newRing.getNode _hash key) ("localhost", 8002) = dst ∧
      w₀.live (endpoint nodeEndpoints (oldRing.getNode _hash key) ("localhost", 8001)) key =
        some v) :
    w.live dst key = some value ↔
      brought value ∨ w₀.live dst key = some value ∧ ∀ v, brought v → v = value := by
  by_cases hsome : ∃ v, brought v
  · obtain ⟨v, hv⟩ := hsome
    obtain ⟨_, ⟨m, hm, howner, howner'⟩, hdst, hvalue⟩ := (hbrought v).mp hv
    obtain ⟨u, hsource, hlive⟩ := h.arrived m key hm
    rw [Migration.source, howner, hvalue] at hsource
    cases Option.some.inj hsource
    rw [Migration.target, howner', hdst] at hlive
    rw [hlive, Option.some.injEq]
    constructor
    · intro heq
      rw [← heq]
      exact Or.inl hv
    · rintro (hb | ⟨_, honly⟩)
      · have hvalue' := ((hbrought value).mp hb).2.2.2
        rw [hvalue] at hvalue'
        exact Option.some.inj hvalue'
      · exact honly v hv
  · have hframe : w.live dst key = w₀.live dst key := by
      apply h.frame
      intro m hm htarget
      obtain ⟨hplan, hk⟩ := h.belongs m key hm
      rw [h.planned] at hplan
      obtain ⟨howner, howner', _⟩ := Migration.owners hplan hk
      obtain ⟨v, hv, _⟩ := h.arrived m key hm
      refine hsome ⟨v, (hbrought v).mpr ⟨?_, ⟨m, hm, howner.symm, howner'.symm⟩, ?_, ?_⟩⟩
      · exact (h.found key).mp (task_keys_mem hplan hk)
      · rw [howner']
        exact htarget
      · rw [howner]
        exact hv
    rw [hframe]
    constructor
    · exact fun hvalue => Or.inr ⟨hvalue, fun v hv => absurd ⟨v, hv⟩ hsome⟩
    · rintro (hb | ⟨hvalue, _⟩)
      · exact absurd ⟨value, hb⟩ hsome
      · exact hvalue

theorem twoNodes_ample : Ample (fun _ => 0) (.init (fun _ => 0) ["a"] 1)
    (.init (fun _ => 0) ["b"] 1) twoNodes.registry twoNodes (fun _ => {"k"}) := by
  refine ⟨fun a c => twoNodes_fits, ?_⟩
  intro key _ hlive
  obtain ⟨value, hvalue⟩ := Option.isSome_iff_exists.mp hlive
  rw [twoNodes_live hvalue]
  decide

/-- The keys of node `b` are never listed, and the answer to the load is lost. -/
def replyLost : List RebalanceEvent :=
  [.keys 0 true, .keys 0 false, .plan ["k"], .snapshot 0 true, .loadPut 0, .bulkLoad 0 .lost]

/-- The request for the snapshot fails. -/
def snapshotFailed : List RebalanceEvent :=
  [.keys 0 true, .keys 0 true, .plan ["k"], .snapshot 0 false]

end run

end World

end SelfHealingCache
