import SelfHealingCache.RebalanceClients
import SelfHealingCache.RebalanceViews

namespace SelfHealingCache

/-- A task that has not stored this key yet. -/
def Progress.Pending (key : String) : Progress → Prop
  | .snapshotting => True
  | .loading filtered remaining => ∀ e ∈ filtered, e.1 = key → e ∈ remaining
  | .returned _ => False

/-- A step of the running rebalance, or time. -/
def Undisturbed : RebalanceEvent → Prop
  | .put .. => False
  | .delete .. => False
  | .finish => False
  | _ => True

namespace World

/-- No live entry expires in this step. -/
def ExpiresNothing (w : World) : RebalanceEvent → Prop
  | .tick elapsed => ∀ a key value, w.live a key = some value →
    ({ w with clock := fun a => w.clock a + elapsed a } : World).live a key = some value
  | _ => True

section fault_free

variable (_hash : String → Nat) (oldRing newRing : HashRing)
  (nodeEndpoints : Dict String Address) (w₀ : World)

/-- The key was live at its old owner and has another owner now. -/
def Moved (key : String) : Prop :=
  oldRing.getNode _hash key ≠ newRing.getNode _hash key ∧ ∃ src value,
    ownerAddress _hash oldRing nodeEndpoints key = some src ∧ w₀.live src key = some value

def MovedTo (a : Address) (key : String) : Prop :=
  Moved _hash oldRing newRing nodeEndpoints w₀ key ∧
    ownerAddress _hash newRing nodeEndpoints key = some a

/-- Every node has room for its keys and for those that move to it. -/
def Room (w : World) : Prop :=
  ∀ a c, w.nodes a = some c → ∃ final : Finset String, c.Fits final ∧
    ∀ key, MovedTo _hash oldRing newRing nodeEndpoints w₀ a key → key ∈ final

/-- The state of a task, against the contents at the start of the rebalance. -/
def Settled (w : World) (m : Migration) : Progress → Prop
  | .snapshotting => True
  | .loading filtered remaining =>
    Batch (w₀.live (m.source nodeEndpoints)) m filtered ∧ remaining.Sublist filtered ∧
      ∀ e ∈ filtered, e ∉ remaining → w.live (m.target nodeEndpoints) e.1 = some e.2.1
  | .returned migrated =>
    migrated = (m.keys.filter fun key => (w₀.live (m.source nodeEndpoints) key).isSome).length ∧
      ∀ key ∈ m.keys, ∀ value, w₀.live (m.source nodeEndpoints) key = some value →
        w.live (m.target nodeEndpoints) key = some value

structure Migrating (order : List String) (tasks : List (Migration × Progress)) (w : World) :
    Prop where
  nodup : order.Nodup
  complete : ∀ key, Moved _hash oldRing newRing nodeEndpoints w₀ key → key ∈ order
  planned : tasks.map Prod.fst = migrationTasks (planKeys _hash oldRing newRing order).1
  settled : ∀ m p, (m, p) ∈ tasks → Settled nodeEndpoints w₀ w m p
  frame : ∀ key, (∀ m p, (m, p) ∈ tasks → key ∈ m.keys → p.Pending key) →
    ∀ a, w.live a key = w₀.live a key
  untouched : ∀ a, (∀ key, ¬MovedTo _hash oldRing newRing nodeEndpoints w₀ a key) →
    w.nodes a = w₀.nodes a
  room : Room _hash oldRing newRing nodeEndpoints w₀ w

/-- The states of the running rebalance. -/
inductive Running (w : World) : Prop
  | fetching {requests : List Address} {allKeys : List String}
    (hphase : w.rebalancer.phase = .fetching oldRing newRing nodeEndpoints requests allKeys)
    (hnodes : w.nodes = w₀.nodes) (hlive : w.live = w₀.live)
    (hfetched : w.Fetched nodeEndpoints requests allKeys)
  | migrating {order : List String} {tasks : List (Migration × Progress)}
    (hphase : w.rebalancer.phase = .migrating nodeEndpoints tasks)
    (hmigrating : Migrating _hash oldRing newRing nodeEndpoints w₀ order tasks w)

end fault_free

variable {_hash : String → Nat} {oldRing newRing : HashRing}
  {nodeEndpoints : Dict String Address} {w₀ w : World}

section loading

variable {a : Address} {c : LruStore String String} {keys : Finset String} {key : String}

/-- With room for its key, a put changes no other key. -/
theorem live_put_other (hnode : w.nodes a = some c) (hfits : c.Fits keys) (hkey : key ∈ keys)
    (value : String) (ttl : UInt32) {k : String} (hk : k ≠ key) (b : Address) :
    (w.setNode a (c.put (w.clock a) key value ttl)).live b k = w.live b k := by
  rw [live_setNode]
  split
  next hb =>
    subst hb
    rw [live_of_node hnode]
    exact LruStore.live_congr (hfits.put_find? hkey _ value ttl hk) _
  next => rfl

theorem live_put_self (w : World) (a : Address) (c : LruStore String String) (key value : String)
    (ttl : UInt32) :
    (w.setNode a (c.put (w.clock a) key value ttl)).live a key = some value := by
  rw [live_setNode, if_pos rfl]
  exact c.put_live _ key value ttl

end loading

section tasks

variable {order : List String} {tasks : List (Migration × Progress)}

/-- A key that its task has not stored is as it was. -/
theorem Migrating.pending (h : Migrating _hash oldRing newRing nodeEndpoints w₀ order tasks w)
    {i : Nat} {m : Migration} {p : Progress} (hi : tasks[i]? = some (m, p)) {key : String}
    (hp : p.Pending key) (hk : key ∈ m.keys) (a : Address) : w.live a key = w₀.live a key := by
  apply h.frame
  intro m' p' hm' hk'
  have hsame := task_unique h.planned hi hm' hk hk'
  rw [Prod.mk.injEq] at hsame
  rw [hsame.2]
  exact hp

theorem Settled.congr {w' : World} {m : Migration} {p : Progress}
    (h : Settled nodeEndpoints w₀ w m p)
    (hlive : ∀ key ∈ m.keys, w'.live (m.target nodeEndpoints) key =
      w.live (m.target nodeEndpoints) key) : Settled nodeEndpoints w₀ w' m p := by
  cases p with
  | snapshotting => trivial
  | loading filtered remaining =>
    obtain ⟨hbatch, hsub, hstored⟩ := h
    refine ⟨hbatch, hsub, ?_⟩
    intro e he hrem
    rw [hlive e.1 (hbatch.mem_keys.mp (List.mem_map_of_mem (f := Prod.fst) he)).1]
    exact hstored e he hrem
  | returned migrated =>
    refine ⟨h.1, ?_⟩
    intro key hk value hsource
    rw [hlive key hk]
    exact h.2 key hk value hsource

/-- The invariant speaks about the contents of the nodes only. -/
theorem Migrating.congr (h : Migrating _hash oldRing newRing nodeEndpoints w₀ order tasks w)
    {w' : World} (hnodes : w'.nodes = w.nodes) (hlive : w'.live = w.live) :
    Migrating _hash oldRing newRing nodeEndpoints w₀ order tasks w' where
  nodup := h.nodup
  complete := h.complete
  planned := h.planned
  settled := fun m p hm => (h.settled m p hm).congr fun key _ => by rw [hlive]
  frame := by
    rw [hlive]
    exact h.frame
  untouched := by
    rw [hnodes]
    exact h.untouched
  room := by
    intro a c hc
    rw [hnodes] at hc
    exact h.room a c hc

/-- A task goes on without touching a node. -/
theorem Migrating.setTask (h : Migrating _hash oldRing newRing nodeEndpoints w₀ order tasks w)
    {i : Nat} {m : Migration} {p p' : Progress} (hi : tasks[i]? = some (m, p))
    (hp : ∀ key, p'.Pending key → p.Pending key) (hset : Settled nodeEndpoints w₀ w m p') :
    Migrating _hash oldRing newRing nodeEndpoints w₀ order (tasks.set i (m, p')) w where
  nodup := h.nodup
  complete := h.complete
  planned := (set_task_migrations hi p').trans h.planned
  settled := by
    intro m' q hm'
    rcases List.mem_or_eq_of_mem_set hm' with hm' | heq
    · exact h.settled m' q hm'
    · cases heq
      exact hset
  frame := by
    intro key hk
    apply h.frame
    intro m' q hm' hk'
    by_cases heq : (m', q) = (m, p)
    · cases heq
      exact hp key (hk m p' (mem_set_self hi _) hk')
    · exact hk m' q (mem_set_task hi hm' heq _) hk'
  untouched := h.untouched
  room := h.room

/-- A served snapshot holds what the source had when the rebalance started. -/
theorem Migrating.afterSnapshot
    (h : Migrating _hash oldRing newRing nodeEndpoints w₀ order tasks w) {i : Nat}
    {m : Migration} (hi : tasks[i]? = some (m, .snapshotting)) {c : LruStore String String}
    (hc : w.nodes (m.source nodeEndpoints) = some c) :
    Settled nodeEndpoints w₀ w m (afterSnapshot (m.filtered
      (c.snapshot (w.clock (m.source nodeEndpoints)) fun _ => w.clock (m.source nodeEndpoints)))) := by
  have hbatch := (Batch.of_snapshot m hc).congr fun key hk =>
    (h.pending hi trivial hk (m.source nodeEndpoints)).symm
  unfold SelfHealingCache.afterSnapshot
  split
  next hempty =>
    rw [hempty] at hbatch
    have hmem := task_mem_plan h.planned (List.mem_of_getElem? hi)
    refine ⟨hbatch.length (task_keys_nodup hmem h.nodup), ?_⟩
    intro key hk value hsource
    obtain ⟨_, hm⟩ := (hbatch.mem key value).mpr ⟨hk, hsource⟩
    cases hm
  next => exact ⟨hbatch, List.Sublist.refl _, fun e he hnot => absurd he hnot⟩

/-- The entries of a batch move to the target of its task. -/
theorem Migrating.movedTo (h : Migrating _hash oldRing newRing nodeEndpoints w₀ order tasks w)
    (hold : ∀ key, ∃ a, ownerAddress _hash oldRing nodeEndpoints key = some a)
    (hnew : ∀ key, ∃ a, ownerAddress _hash newRing nodeEndpoints key = some a)
    {m : Migration} {filtered remaining : List (String × String × UInt32)}
    (hm : (m, Progress.loading filtered remaining) ∈ tasks) {e : String × String × UInt32}
    (he : e ∈ filtered) :
    MovedTo _hash oldRing newRing nodeEndpoints w₀ (m.target nodeEndpoints) e.1 := by
  obtain ⟨hbatch, _, _⟩ := h.settled m _ hm
  obtain ⟨hkey, value, hsource⟩ := hbatch.mem_keys.mp (List.mem_map_of_mem (f := Prod.fst) he)
  obtain ⟨howner, howner', hne⟩ := Migration.owners (task_mem_plan h.planned hm) hkey
  obtain ⟨src, hsrc⟩ := hold e.1
  obtain ⟨dst, hdst⟩ := hnew e.1
  rw [Migration.source_eq howner hsrc] at hsource
  rw [Migration.target_eq howner' hdst]
  refine ⟨⟨?_, src, value, hsrc, hsource⟩, hdst⟩
  rw [howner, howner']
  exact hne

/-- The task of a stored entry settles. -/
theorem Settled.store {w' : World} {m : Migration}
    {filtered remaining : List (String × String × UInt32)} {e : String × String × UInt32}
    (h : Settled nodeEndpoints w₀ w m (.loading filtered (e :: remaining)))
    (hother : ∀ k, k ≠ e.1 → w'.live (m.target nodeEndpoints) k =
      w.live (m.target nodeEndpoints) k)
    (hself : w'.live (m.target nodeEndpoints) e.1 = some e.2.1) :
    Settled nodeEndpoints w₀ w' m (.loading filtered remaining) := by
  obtain ⟨hbatch, hsub, hstored⟩ := h
  have he : e ∈ filtered := hsub.subset List.mem_cons_self
  refine ⟨hbatch, (List.sublist_cons_self e remaining).trans hsub, ?_⟩
  intro x hx hrem
  by_cases hxe : x = e
  · rw [hxe]
    exact hself
  · have hkeys : x.1 ≠ e.1 := fun heq => hxe (List.inj_on_of_nodup_map hbatch.nodup hx he heq)
    rw [hother x.1 hkeys]
    refine hstored x hx ?_
    intro hm
    rcases List.mem_cons.mp hm with heq | hm
    · exact hxe heq
    · exact hrem hm

/-- A node stores one entry of a batch. -/
theorem Migrating.loadPut (h : Migrating _hash oldRing newRing nodeEndpoints w₀ order tasks w)
    (hold : ∀ key, ∃ a, ownerAddress _hash oldRing nodeEndpoints key = some a)
    (hnew : ∀ key, ∃ a, ownerAddress _hash newRing nodeEndpoints key = some a)
    {w' : World} {i : Nat} {m : Migration} {filtered remaining : List (String × String × UInt32)}
    {key value : String} {ttl : UInt32} {c : LruStore String String}
    (hi : tasks[i]? = some (m, .loading filtered ((key, value, ttl) :: remaining)))
    (hc : w.nodes (m.target nodeEndpoints) = some c)
    (hw' : w' = (w.setNode (m.target nodeEndpoints)
      (c.put (w.clock (m.target nodeEndpoints)) key value ttl)).setTask nodeEndpoints tasks i m
        (.loading filtered remaining)) :
    Migrating _hash oldRing newRing nodeEndpoints w₀ order
      (tasks.set i (m, .loading filtered remaining)) w' := by
  have hm := List.mem_of_getElem? hi
  have hset := h.settled m _ hm
  have he : (key, value, ttl) ∈ filtered := hset.2.1.subset List.mem_cons_self
  have hmoved := h.movedTo hold hnew hm he
  have hkm : key ∈ m.keys := (hset.1.mem_keys.mp (List.mem_map_of_mem (f := Prod.fst) he)).1
  obtain ⟨final, hfits, hfinal⟩ := h.room _ c hc
  have hkey : key ∈ final := hfinal key hmoved
  have hother : ∀ k, k ≠ key → ∀ a, w'.live a k = w.live a k := by
    intro k hk a
    subst hw'
    exact live_put_other hc hfits hkey value ttl hk a
  have hself : w'.live (m.target nodeEndpoints) key = some value := by
    subst hw'
    exact live_put_self w _ c key value ttl
  refine ⟨h.nodup, h.complete, (set_task_migrations hi _).trans h.planned, ?_, ?_, ?_, ?_⟩
  · intro m' p hm'
    obtain ⟨j, hj⟩ := List.mem_iff_getElem?.mp hm'
    by_cases hij : i = j
    · subst hij
      obtain ⟨hlt, _⟩ := List.getElem?_eq_some_iff.mp hi
      rw [List.getElem?_set_self hlt] at hj
      cases Option.some.inj hj
      exact hset.store (fun k hk => hother k hk _) hself
    · rw [List.getElem?_set_ne hij] at hj
      refine (h.settled m' p (List.mem_of_getElem? hj)).congr ?_
      intro k hk
      refine hother k ?_ _
      rintro rfl
      exact hij (tasks_disjoint h.planned hi hj hkm hk)
  · intro k hk a
    have hstored : k ≠ key := by
      rintro rfl
      have hleft : (k, value, ttl) ∈ remaining := hk m _ (mem_set_self hi _) hkm _ he rfl
      have hnodup := hset.1.nodup.sublist (hset.2.1.map Prod.fst)
      exact (List.nodup_cons.mp hnodup).1 (List.mem_map_of_mem (f := Prod.fst) hleft)
    rw [hother k hstored]
    apply h.frame
    intro m' p hm' hk'
    by_cases heq : (m', p) = (m, .loading filtered ((key, value, ttl) :: remaining))
    · cases heq
      intro e he hek
      exact List.mem_cons_of_mem _ (hk m _ (mem_set_self hi _) hk' e he hek)
    · exact hk m' p (mem_set_task hi hm' heq _) hk'
  · intro a ha
    have hneTarget : a ≠ m.target nodeEndpoints := by
      rintro rfl
      exact ha key hmoved
    rw [hw']
    exact (Function.update_of_ne hneTarget ..).trans (h.untouched a ha)
  · intro a d hd
    rw [hw'] at hd
    by_cases ha : a = m.target nodeEndpoints
    · subst ha
      have hd' := (Function.update_self ..).symm.trans hd
      cases Option.some.inj hd'
      exact ⟨final, hfits.put hkey _ value ttl, hfinal⟩
    · exact h.room a d ((Function.update_of_ne ha ..).symm.trans hd)

/-- A task with nothing left to store has stored all its keys. -/
theorem Migrating.loaded (h : Migrating _hash oldRing newRing nodeEndpoints w₀ order tasks w)
    {m : Migration} {filtered : List (String × String × UInt32)}
    (hm : (m, Progress.loading filtered []) ∈ tasks) :
    Settled nodeEndpoints w₀ w m (.returned filtered.length) := by
  obtain ⟨hbatch, _, hstored⟩ := h.settled m _ hm
  refine ⟨hbatch.length (task_keys_nodup (task_mem_plan h.planned hm) h.nodup), ?_⟩
  intro key hk value hsource
  obtain ⟨ttl, hentry⟩ := (hbatch.mem key value).mpr ⟨hk, hsource⟩
  exact hstored _ hentry List.not_mem_nil

end tasks

section run

theorem live_tick_eq {elapsed : Address → Nat} (h : w.ExpiresNothing (.tick elapsed)) :
    ({ w with clock := fun a => w.clock a + elapsed a } : World).live = w.live := by
  funext a key
  apply Option.ext
  intro value
  exact ⟨live_tick, h a key value⟩

theorem Running.start (hidle : w₀.rebalancer.inProgress = false) :
    Running _hash oldRing newRing nodeEndpoints w₀
      (w₀.rebalance oldRing newRing nodeEndpoints) := by
  rw [rebalance_start hidle]
  exact .fetching rfl rfl rfl fun a ha => .inl ha

/-- Once all live keys are found, the tasks are planned from them. -/
theorem Migrating.plan {order allKeys : List String} (hnodup : order.Nodup)
    (horder : ∀ key, key ∈ order ↔ key ∈ allKeys) (hnodes : w.nodes = w₀.nodes)
    (hlive : w.live = w₀.live) (hfetched : w.Fetched nodeEndpoints [] allKeys)
    (hroom : Room _hash oldRing newRing nodeEndpoints w₀ w₀) :
    Migrating _hash oldRing newRing nodeEndpoints w₀ order
      ((migrationTasks (planKeys _hash oldRing newRing order).1).map
        fun m => (m, .snapshotting)) w where
  nodup := hnodup
  complete := by
    intro key ⟨_, src, value, hsrc, hvalue⟩
    rw [horder]
    rcases hfetched src (ownerAddress_mem hsrc) with hreq | hall
    · cases hreq
    · rw [← hlive] at hvalue
      exact hall key value hvalue
  planned := planned_migrations _
  settled := by
    intro m p hm
    obtain ⟨_, _, heq⟩ := List.mem_map.mp hm
    cases heq
    trivial
  frame := by
    intro key _ a
    rw [hlive]
  untouched := by
    intro a _
    rw [hnodes]
  room := by
    intro a c hc
    rw [hnodes] at hc
    exact hroom a c hc

theorem Running.of_fetching {old new : HashRing} {endpoints : Dict String Address}
    {requests : List Address} {allKeys : List String}
    (h : Running _hash oldRing newRing nodeEndpoints w₀ w)
    (hphase : w.rebalancer.phase = .fetching old new endpoints requests allKeys) :
    oldRing = old ∧ newRing = new ∧ nodeEndpoints = endpoints ∧ w.nodes = w₀.nodes ∧
      w.live = w₀.live ∧ w.Fetched nodeEndpoints requests allKeys := by
  cases h with
  | fetching hphase' hnodes hlive hfetched =>
    rw [hphase'] at hphase
    cases hphase
    exact ⟨rfl, rfl, rfl, hnodes, hlive, hfetched⟩
  | migrating hphase' _ =>
    rw [hphase'] at hphase
    cases hphase

theorem Running.of_migrating {endpoints : Dict String Address}
    {tasks : List (Migration × Progress)} (h : Running _hash oldRing newRing nodeEndpoints w₀ w)
    (hphase : w.rebalancer.phase = .migrating endpoints tasks) :
    nodeEndpoints = endpoints ∧ ∃ order,
      Migrating _hash oldRing newRing nodeEndpoints w₀ order tasks w := by
  cases h with
  | fetching hphase' _ _ _ =>
    rw [hphase'] at hphase
    cases hphase
  | migrating hphase' hmigrating =>
    rw [hphase'] at hphase
    cases hphase
    exact ⟨rfl, _, hmigrating⟩

theorem Running.step {w' : World} {event : RebalanceEvent}
    (hold : ∀ key, ∃ a, ownerAddress _hash oldRing nodeEndpoints key = some a)
    (hnew : ∀ key, ∃ a, ownerAddress _hash newRing nodeEndpoints key = some a)
    (hroom : Room _hash oldRing newRing nodeEndpoints w₀ w₀)
    (hprogress : w.rebalancer.inProgress = true)
    (hinv : Running _hash oldRing newRing nodeEndpoints w₀ w) (hfault : FaultFree event)
    (hquiet : Undisturbed event) (hexpiry : w.ExpiresNothing event)
    (h : w.step _hash event = some w') : Running _hash oldRing newRing nodeEndpoints w₀ w' := by
  cases event with
  | tick elapsed =>
    have hlive := live_tick_eq hexpiry
    cases Option.some.inj h
    cases hinv with
    | fetching hphase hnodes hsame hfetched =>
      refine .fetching hphase hnodes (hlive.trans hsame) (hfetched.mono ?_)
      intro a key value hl
      exact live_tick hl
    | migrating hphase hmig => exact .migrating hphase (hmig.congr rfl hlive)
  | rebalance old new endpoints =>
    have hsame := rebalance_refused hprogress h
    subst hsame
    cases hinv with
    | fetching hphase hnodes hsame hfetched => exact .fetching hphase hnodes hsame hfetched
    | migrating hphase hmig => exact .migrating hphase (hmig.congr rfl rfl)
  | keys i ok =>
    obtain ⟨_, _, _, requests, allKeys, a, found, hphase, hi, rfl, hfound⟩ := fetchKeys_some h
    obtain ⟨c, hc, rfl⟩ := hfound hfault
    obtain ⟨rfl, rfl, rfl, hnodes, hsame, hfetched⟩ := hinv.of_fetching hphase
    exact .fetching rfl hnodes hsame (hfetched.answer hi hc)
  | plan order =>
    obtain ⟨_, _, _, allKeys, hphase, hnodup, horder, rfl⟩ := plan_some h
    obtain ⟨rfl, rfl, rfl, hnodes, hsame, hfetched⟩ := hinv.of_fetching hphase
    have hmig := Migrating.plan hnodup horder hnodes hsame hfetched hroom
    exact .migrating rfl (hmig.congr rfl rfl)
  | snapshot i ok =>
    obtain ⟨_, tasks, m, p, hphase, hi, rfl, _, hserved⟩ := takeSnapshot_some h
    obtain ⟨c, hc, rfl⟩ := hserved hfault
    obtain ⟨rfl, order, hmig⟩ := hinv.of_migrating hphase
    have hset := hmig.setTask hi (fun _ _ => trivial) (hmig.afterSnapshot hi hc)
    exact .migrating rfl (hset.congr rfl rfl)
  | loadPut i =>
    obtain ⟨_, tasks, m, _, key, value, ttl, _, c, hphase, hi, hc, rfl⟩ := loadPut_some h
    obtain ⟨rfl, order, hmig⟩ := hinv.of_migrating hphase
    exact .migrating rfl (hmig.loadPut hold hnew hi hc rfl)
  | bulkLoad i reply =>
    cases hfault
    obtain ⟨_, tasks, m, filtered, _, n, hphase, hi, rfl, hstored, hcount⟩ := load_some h
    obtain ⟨rfl, order, hmig⟩ := hinv.of_migrating hphase
    cases hstored (by simp)
    cases hcount rfl
    have hnever : ∀ key, (Progress.returned filtered.length).Pending key →
        (Progress.loading filtered []).Pending key := fun _ hf => False.elim hf
    have hset := hmig.setTask hi hnever (hmig.loaded (List.mem_of_getElem? hi))
    exact .migrating rfl (hset.congr rfl rfl)
  | finish => cases hquiet
  | put ring key value ttl => cases hquiet
  | delete ring key => cases hquiet

/-- No step before the last counts a migrated key. -/
theorem step_counters {w' : World} {event : RebalanceEvent}
    (hprogress : w.rebalancer.inProgress = true) (hquiet : Undisturbed event)
    (h : w.step _hash event = some w') : w'.rebalancer.inProgress = true ∧
      w'.rebalancer.migratedKeys = w.rebalancer.migratedKeys := by
  cases event with
  | tick elapsed =>
    cases Option.some.inj h
    exact ⟨hprogress, rfl⟩
  | rebalance old new endpoints =>
    have hsame := rebalance_refused hprogress h
    subst hsame
    exact ⟨hprogress, rfl⟩
  | keys i ok =>
    obtain ⟨_, _, _, _, _, _, _, _, _, rfl, _⟩ := fetchKeys_some h
    exact ⟨hprogress, rfl⟩
  | plan order =>
    obtain ⟨_, _, _, _, _, _, _, rfl⟩ := plan_some h
    exact ⟨hprogress, rfl⟩
  | snapshot i ok =>
    obtain ⟨_, _, _, _, _, _, rfl, _⟩ := takeSnapshot_some h
    exact ⟨hprogress, rfl⟩
  | loadPut i =>
    obtain ⟨_, _, _, _, _, _, _, _, _, _, _, _, rfl⟩ := loadPut_some h
    exact ⟨hprogress, rfl⟩
  | bulkLoad i reply =>
    obtain ⟨_, _, _, _, _, _, _, _, rfl, _⟩ := load_some h
    exact ⟨hprogress, rfl⟩
  | finish => cases hquiet
  | put ring key value ttl => cases hquiet
  | delete ring key => cases hquiet

/-- The keys that the planned tasks migrate. -/
def movedKeys (nodeEndpoints : Dict String Address) (w₀ : World) (tasks : List Migration) :
    List String :=
  tasks.flatMap fun m => m.keys.filter fun key => (w₀.live (m.source nodeEndpoints) key).isSome

section moved

variable {order : List String}

theorem mem_movedKeys (hcomplete : ∀ key,
      Moved _hash oldRing newRing nodeEndpoints w₀ key → key ∈ order)
    (hold : ∀ key, ∃ a, ownerAddress _hash oldRing nodeEndpoints key = some a) {key : String} :
    key ∈ movedKeys nodeEndpoints w₀
        (migrationTasks (planKeys _hash oldRing newRing order).1) ↔
      Moved _hash oldRing newRing nodeEndpoints w₀ key := by
  obtain ⟨src, hsrc⟩ := hold key
  unfold movedKeys
  rw [List.mem_flatMap]
  constructor
  · intro ⟨m, hm, hk⟩
    obtain ⟨hkey, hlive⟩ := List.mem_filter.mp hk
    obtain ⟨value, hvalue⟩ := Option.isSome_iff_exists.mp hlive
    obtain ⟨howner, howner', hne⟩ := Migration.owners hm hkey
    rw [Migration.source_eq howner hsrc] at hvalue
    refine ⟨?_, src, value, hsrc, hvalue⟩
    rw [howner, howner']
    exact hne
  · intro hmoved
    obtain ⟨m, hm, hkey, howner, _⟩ := exists_task (hcomplete key hmoved) hmoved.1
    obtain ⟨_, src', value, hsrc', hvalue⟩ := hmoved
    refine ⟨m, hm, List.mem_filter.mpr ⟨hkey, ?_⟩⟩
    rw [Migration.source_eq howner.symm hsrc', hvalue]
    rfl

theorem movedKeys_nodup (hnodup : order.Nodup) :
    (movedKeys nodeEndpoints w₀
      (migrationTasks (planKeys _hash oldRing newRing order).1)).Nodup := by
  refine List.nodup_flatMap.mpr ⟨?_, ?_⟩
  · intro m hm
    exact (task_keys_nodup hm hnodup).filter _
  · have howners := migrationTasks_owners_nodup (planKeys _hash oldRing newRing order).1
    refine (List.pairwise_map.mp howners).imp_of_mem ?_
    intro m m' hm hm' hne key hk hk'
    obtain ⟨hold, hnew, _⟩ := Migration.owners hm (List.mem_filter.mp hk).1
    obtain ⟨hold', hnew', _⟩ := Migration.owners hm' (List.mem_filter.mp hk').1
    exact hne (Prod.ext (hnew.symm.trans hnew') (hold.symm.trans hold'))

end moved

section finished

variable {order : List String} {tasks : List (Migration × Progress)} {counts : List Nat}

/-- A key that keeps its owner is in no task. -/
theorem Migrating.fixed (h : Migrating _hash oldRing newRing nodeEndpoints w₀ order tasks w)
    {key : String} (hsame : oldRing.getNode _hash key = newRing.getNode _hash key)
    (a : Address) : w.live a key = w₀.live a key := by
  apply h.frame
  intro m _ hm hk
  obtain ⟨howner, howner', hne⟩ := Migration.owners (task_mem_plan h.planned hm) hk
  exact absurd (howner.symm.trans (hsame.trans howner')) hne

/-- Once all tasks have returned, each live key of an old owner is at the new owner. -/
theorem Migrating.arrived (h : Migrating _hash oldRing newRing nodeEndpoints w₀ order tasks w)
    (hcounts : migrated tasks = some counts) {key value : String} {src dst : Address}
    (hsrc : ownerAddress _hash oldRing nodeEndpoints key = some src)
    (hdst : ownerAddress _hash newRing nodeEndpoints key = some dst)
    (hvalue : w₀.live src key = some value) : w.live dst key = some value := by
  by_cases hsame : oldRing.getNode _hash key = newRing.getNode _hash key
  · have haddress : src = dst := by
      unfold ownerAddress at hsrc hdst
      rw [hsame, hdst] at hsrc
      exact (Option.some.inj hsrc).symm
    subst haddress
    exact (h.fixed hsame src).trans hvalue
  · have hkey := h.complete key ⟨hsame, src, value, hsrc, hvalue⟩
    obtain ⟨m, hm, hk, howner, howner'⟩ := exists_task hkey hsame
    rw [← h.planned] at hm
    obtain ⟨n, ht⟩ := returned_of_mem hcounts hm
    have harrived := (h.settled m _ ht).2 key hk value
    rw [Migration.source_eq howner.symm hsrc, Migration.target_eq howner'.symm hdst] at harrived
    exact harrived hvalue

/-- The results of the tasks add up to the number of moved keys. -/
theorem Migrating.counted (h : Migrating _hash oldRing newRing nodeEndpoints w₀ order tasks w)
    (hold : ∀ key, ∃ a, ownerAddress _hash oldRing nodeEndpoints key = some a)
    (hcounts : migrated tasks = some counts) : ∃ moved : Finset String,
      (∀ key, key ∈ moved ↔ Moved _hash oldRing newRing nodeEndpoints w₀ key) ∧
        counts.sum = moved.card := by
  have hn : (movedKeys nodeEndpoints w₀ (tasks.map Prod.fst)).Nodup := by
    rw [h.planned]
    exact movedKeys_nodup h.nodup
  refine ⟨(movedKeys nodeEndpoints w₀ (tasks.map Prod.fst)).toFinset, ?_, ?_⟩
  · intro key
    rw [List.mem_toFinset, h.planned]
    exact mem_movedKeys h.complete hold
  · have heq := counts_eq (migrated_counts hcounts) fun m _ hm => (h.settled m _ hm).1
    rw [List.toFinset_card_of_nodup hn, heq, movedKeys, List.length_flatMap]

end finished

/-- Every state before the last step belongs to the running rebalance. -/
theorem running_run {middle : List RebalanceEvent}
    (hold : ∀ key, ∃ a, ownerAddress _hash oldRing nodeEndpoints key = some a)
    (hnew : ∀ key, ∃ a, ownerAddress _hash newRing nodeEndpoints key = some a)
    (hidle : w₀.rebalancer.inProgress = false)
    (hroom : Room _hash oldRing newRing nodeEndpoints w₀ w₀)
    (hfault : ∀ event ∈ middle, FaultFree event) (hquiet : ∀ event ∈ middle, Undisturbed event)
    (hexpiry : ∀ past event rest mid, middle = past ++ event :: rest →
      w₀.run _hash (.rebalance oldRing newRing nodeEndpoints :: past) = some mid →
        mid.ExpiresNothing event)
    (hrun : w₀.run _hash (.rebalance oldRing newRing nodeEndpoints :: middle) = some w) :
    w.rebalancer.inProgress = true ∧ w.rebalancer.migratedKeys = 0 ∧
      Running _hash oldRing newRing nodeEndpoints w₀ w := by
  rw [World.run, runs_cons] at hrun
  obtain ⟨w₁, hstart, hrun⟩ := Option.bind_eq_some_iff.mp hrun
  cases Option.some.inj hstart
  refine runs_history (I := fun _ w => w.rebalancer.inProgress = true ∧
    w.rebalancer.migratedKeys = 0 ∧ Running _hash oldRing newRing nodeEndpoints w₀ w)
    ⟨?_, ?_, .start hidle⟩ ?_ hrun
  · rw [rebalance_start hidle]
  · rw [rebalance_start hidle]
  · intro past event rest v v' hsplit hv hinv hstep
    obtain ⟨hprogress, hzero, hrunning⟩ := hinv
    have hm : event ∈ middle := by simp [hsplit]
    obtain ⟨hprogress', hcount⟩ := step_counters hprogress (hquiet event hm) hstep
    refine ⟨hprogress', hcount.trans hzero, ?_⟩
    exact hrunning.step hold hnew hroom hprogress (hfault event hm) (hquiet event hm)
      (hexpiry past event rest v hsplit hv) hstep

/-- A fault-free rebalance loses nothing: the live keys of the old owners are live at
the new owners, the other keys and the nodes that gain no key are as before, and the
keys that moved are counted. -/
theorem fault_free_rebalance {middle : List RebalanceEvent}
    (hold : oldRing.ring.size ≠ 0) (hnew : newRing.ring.size ≠ 0)
    (hcover : ∀ n, n ∈ oldRing.nodes ∨ n ∈ newRing.nodes → n ∈ nodeEndpoints.keys)
    (hidle : w₀.rebalancer.inProgress = false)
    (hroom : Room _hash oldRing newRing nodeEndpoints w₀ w₀)
    (hfault : ∀ event ∈ middle, FaultFree event) (hquiet : ∀ event ∈ middle, Undisturbed event)
    (hexpiry : ∀ past event rest mid, middle = past ++ event :: rest →
      w₀.run _hash (.rebalance oldRing newRing nodeEndpoints :: past) = some mid →
        mid.ExpiresNothing event)
    (hrun : w₀.run _hash (.rebalance oldRing newRing nodeEndpoints :: middle ++ [.finish]) =
      some w) :
    (∀ key src dst value, ownerAddress _hash oldRing nodeEndpoints key = some src →
      ownerAddress _hash newRing nodeEndpoints key = some dst →
        w₀.live src key = some value → w.live dst key = some value) ∧
    (∀ key, oldRing.getNode _hash key = newRing.getNode _hash key →
      ∀ a, w.live a key = w₀.live a key) ∧
    (∀ a, (∀ key, ¬MovedTo _hash oldRing newRing nodeEndpoints w₀ a key) →
      w.nodes a = w₀.nodes a) ∧
    ∃ moved : Finset String,
      (∀ key, key ∈ moved ↔ Moved _hash oldRing newRing nodeEndpoints w₀ key) ∧
      w.rebalancer.migratedKeys = moved.card ∧
      ∃ affectedNodes, w.results.getLast? = some (.completed moved.card affectedNodes) := by
  have holdAddress : ∀ key, ∃ a, ownerAddress _hash oldRing nodeEndpoints key = some a :=
    ownerAddress_exists hold fun n hn => hcover n (.inl hn)
  have hnewAddress : ∀ key, ∃ a, ownerAddress _hash newRing nodeEndpoints key = some a :=
    ownerAddress_exists hnew fun n hn => hcover n (.inr hn)
  obtain ⟨mid, hmid, hfinish⟩ := runs_snoc_eq_some.mp hrun
  obtain ⟨_, hzero, hrunning⟩ :=
    running_run holdAddress hnewAddress hidle hroom hfault hquiet hexpiry hmid
  obtain ⟨_, tasks, counts, hphase, hcounts, rfl⟩ := finish_some hfinish
  obtain ⟨rfl, order, hmig⟩ := hrunning.of_migrating hphase
  obtain ⟨moved, hmoved, hsum⟩ := hmig.counted holdAddress hcounts
  have hcount : mid.rebalancer.migratedKeys + counts.sum = moved.card := by omega
  refine ⟨?_, fun key hsame => hmig.fixed hsame, hmig.untouched, moved, hmoved, hcount,
    mid.rebalancer.affectedNodes, ?_⟩
  · intro key src dst value hsrc hdst hvalue
    exact hmig.arrived hcounts hsrc hdst hvalue
  · rw [← hcount]
    exact List.getLast?_concat

theorem twoNodes_live {a : Address} {key value : String}
    (h : twoNodes.live a key = some value) : key = "k" := by
  obtain ⟨c, hc, hl⟩ := live_eq_some.mp h
  obtain ⟨e, hf, _, _⟩ := LruStore.live_eq_some.mp hl
  obtain ⟨he, hkey⟩ := LruStore.find?_eq_some.mp hf
  have hmem := (twoNodes_fits hc).1 e he
  rw [hkey] at hmem
  exact Finset.mem_singleton.mp hmem

theorem twoNodes_covered (n : String) (h : n ∈ (HashRing.init (fun _ => 0) ["a"] 1).nodes ∨
    n ∈ (HashRing.init (fun _ => 0) ["b"] 1).nodes) : n ∈ twoNodes.registry.keys := by
  rcases h with h | h
  · exact (show ∀ n ∈ (HashRing.init (fun _ => 0) ["a"] 1).nodes,
      n ∈ twoNodes.registry.keys by decide) n h
  · exact (show ∀ n ∈ (HashRing.init (fun _ => 0) ["b"] 1).nodes,
      n ∈ twoNodes.registry.keys by decide) n h

/-- The steps that move the one key of node `a` to node `b`. -/
def moveOne : List RebalanceEvent :=
  [.keys 0 true, .keys 0 true, .plan ["k"], .snapshot 0 true, .loadPut 0, .bulkLoad 0 .answered]

theorem fault_free_rebalance_move_one : ∃ w, twoNodes.run (fun _ => 0)
      (.rebalance (.init (fun _ => 0) ["a"] 1) (.init (fun _ => 0) ["b"] 1) twoNodes.registry ::
        moveOne ++ [.finish]) = some w ∧
    w.live ("host-b", 1) "k" = some "old" ∧ w.rebalancer.migratedKeys = 1 := by
  refine ⟨_, rfl, ?_, rfl⟩
  have hroom : Room (fun _ => 0) (.init (fun _ => 0) ["a"] 1) (.init (fun _ => 0) ["b"] 1)
      twoNodes.registry twoNodes twoNodes := by
    intro a c hc
    refine ⟨{"k"}, twoNodes_fits hc, ?_⟩
    intro key ⟨⟨_, src, value, _, hlive⟩, _⟩
    rw [twoNodes_live hlive]
    decide
  have hfault : ∀ event ∈ moveOne, FaultFree event := by simp [moveOne, FaultFree]
  have hquiet : ∀ event ∈ moveOne, Undisturbed event := by simp [moveOne, Undisturbed]
  have hexpiry : ∀ event ∈ moveOne, ∀ w : World, w.ExpiresNothing event := by
    simp [moveOne, ExpiresNothing]
  have hmoved := fault_free_rebalance
    (show (HashRing.init (fun _ => 0) ["a"] 1).ring.size ≠ 0 by decide)
    (show (HashRing.init (fun _ => 0) ["b"] 1).ring.size ≠ 0 by decide) twoNodes_covered rfl hroom
    hfault hquiet (fun past event rest mid hsplit _ => hexpiry event (by simp [hsplit]) mid)
    (show twoNodes.run (fun _ => 0) _ = some _ from rfl)
  exact hmoved.1 "k" ("host-a", 1) ("host-b", 1) "old" rfl rfl rfl

end run

end World

end SelfHealingCache
