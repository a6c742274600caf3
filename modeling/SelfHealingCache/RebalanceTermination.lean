import SelfHealingCache.Linearizability
import SelfHealingCache.RebalancePlan
import SelfHealingCache.RebalanceSteps
import SelfHealingCache.RingLookup
import Mathlib.Data.Finset.Prod

namespace SelfHealingCache

/-- A step of the running `rebalance` call itself. -/
def RebalanceEvent.own : RebalanceEvent → Bool
  | .keys _ _ | .plan _ | .snapshot _ _ | .bulkLoad _ _ | .finish => true
  | _ => false

/-- `rebalance` is called. -/
def RebalanceEvent.calls : RebalanceEvent → Bool
  | .rebalance _ _ _ => true
  | _ => false

/-- The requests that a task has still to make. -/
def Progress.remaining : Progress → Nat
  | .snapshotting => 2
  | .loading _ _ => 1
  | .returned _ => 0

@[simp] theorem Progress.remaining_snapshotting : Progress.snapshotting.remaining = 2 := rfl

@[simp] theorem Progress.remaining_loading (filtered remaining : List (String × String × UInt32)) :
    (Progress.loading filtered remaining).remaining = 1 := rfl

@[simp] theorem Progress.remaining_returned (migrated : Nat) :
    (Progress.returned migrated).remaining = 0 := rfl

/-- A bound on the number of tasks between the owners of two rings. -/
def taskBound (oldRing newRing : HashRing) : Nat :=
  max 1 oldRing.nodes.card * max 1 newRing.nodes.card

/-- A bound on the steps that the running call has still to make. -/
def Phase.remaining : Phase → Nat
  | .idle => 0
  | .fetching oldRing newRing _ requests _ =>
    requests.length + 2 * taskBound oldRing newRing + 2
  | .migrating _ tasks => (tasks.map fun t => t.2.remaining).sum + 1

namespace HashRing

/-- The values of `get_node`. -/
def ownerValues (ring : HashRing) : Finset (Option String) :=
  if ring.ring.size = 0 then {none} else ring.nodes.image some

theorem getNode_mem_ownerValues (_hash : String → Nat) (ring : HashRing) (key : String) :
    ring.getNode _hash key ∈ ring.ownerValues := by
  unfold ownerValues
  split
  next hsize => simp [(getNode_eq_none _hash).mpr hsize]
  next hsize =>
    cases hnode : ring.getNode _hash key with
    | none => exact absurd ((getNode_eq_none _hash).mp hnode) hsize
    | some n => exact Finset.mem_image_of_mem some (getNode_mem_nodes _hash hnode)

theorem card_ownerValues (ring : HashRing) : ring.ownerValues.card ≤ max 1 ring.nodes.card := by
  unfold ownerValues
  split
  next => exact Nat.le_max_left _ _
  next => exact Nat.le_trans Finset.card_image_le (Nat.le_max_right _ _)

end HashRing

section tasks

variable {_hash : String → Nat}

/-- There is at most one task for each pair of owners. -/
theorem migrationTasks_length_le (oldRing newRing : HashRing) (order : List String) :
    (migrationTasks (planKeys _hash oldRing newRing order).1).length ≤
      taskBound oldRing newRing := by
  have hnodup := migrationTasks_owners_nodup (planKeys _hash oldRing newRing order).1
  have hsub : ((migrationTasks (planKeys _hash oldRing newRing order).1).map
      fun m => (m.newOwner, m.oldOwner)).toFinset ⊆
        newRing.ownerValues ×ˢ oldRing.ownerValues := by
    intro owners howners
    obtain ⟨m, hm, rfl⟩ := List.mem_map.mp (List.mem_toFinset.mp howners)
    obtain ⟨k, hk⟩ := List.exists_mem_of_ne_nil _ (mem_migrationTasks.mp hm).1
    obtain ⟨hold, hnew, _⟩ := Migration.owners hm hk
    rw [Finset.mem_product, ← hold, ← hnew]
    exact ⟨newRing.getNode_mem_ownerValues _hash k, oldRing.getNode_mem_ownerValues _hash k⟩
  have hcard := Finset.card_le_card hsub
  rw [List.toFinset_card_of_nodup hnodup, List.length_map, Finset.card_product] at hcard
  have hprod := Nat.mul_le_mul oldRing.card_ownerValues newRing.card_ownerValues
  unfold taskBound
  rw [Nat.mul_comm] at hcard
  omega

theorem sum_remaining_planned (migrations : List Migration) :
    ((migrations.map fun m => (m, Progress.snapshotting)).map fun t => t.2.remaining).sum =
      2 * migrations.length := by
  induction migrations with
  | nil => rfl
  | cons m migrations ih =>
    simp only [List.map_cons, List.sum_cons, List.length_cons, ih, Progress.remaining_snapshotting]
    omega

theorem sum_remaining_set {tasks : List (Migration × Progress)} {i : Nat} {m : Migration}
    {p : Progress} (h : tasks[i]? = some (m, p)) (p' : Progress) :
    ((tasks.set i (m, p')).map fun t => t.2.remaining).sum + p.remaining =
      (tasks.map fun t => t.2.remaining).sum + p'.remaining := by
  induction tasks generalizing i with
  | nil => cases h
  | cons t tasks ih =>
    cases i with
    | zero =>
      cases h
      simp only [List.set_cons_zero, List.map_cons, List.sum_cons]
      omega
    | succ i =>
      have hrest := ih (i := i) h
      simp only [List.set_cons_succ, List.map_cons, List.sum_cons]
      omega

end tasks

namespace World

/-- The call that starts at this event, with a bound on its steps. -/
def started (w : World) : RebalanceEvent → Option Nat
  | .rebalance oldRing newRing nodeEndpoints =>
    if w.rebalancer.inProgress then none
    else some (nodeEndpoints.values.length + 2 * taskBound oldRing newRing + 2)
  | _ => none

/-- A call that was not refused. -/
def ran : RebalanceResult → Bool
  | .completed _ _ => true
  | .alreadyInProgress => false

section counts

variable {_hash : String → Nat} {w w' : World} {event : RebalanceEvent}

/-- The flag is set exactly while a call runs. -/
def Flagged (w : World) : Prop := w.rebalancer.inProgress = false ↔ w.rebalancer.phase = .idle

/-- What one step changes in the flag, the steps left and the results. -/
structure Counted (w w' : World) (event : RebalanceEvent) : Prop where
  flagged : w'.Flagged
  steps : event.own.toNat + w'.rebalancer.phase.remaining ≤
    w.rebalancer.phase.remaining + (w.started event).toList.sum
  calls : w'.results.length + w'.rebalancer.inProgress.toNat =
    w.results.length + w.rebalancer.inProgress.toNat + event.calls.toNat
  completed : w'.results.countP ran + w'.rebalancer.inProgress.toNat =
    w.results.countP ran + w.rebalancer.inProgress.toNat + (w.started event).toList.length

theorem Counted.other (h : w.Flagged) (hsame : w'.rebalancer = w.rebalancer)
    (hresults : w'.results = w.results) (hown : event.own = false) (hcalls : event.calls = false) :
    Counted w w' event := by
  have hstarted : w.started event = none := by
    cases event with
    | rebalance oldRing newRing nodeEndpoints => cases hcalls
    | _ => rfl
  refine ⟨?_, ?_, ?_, ?_⟩
  · unfold Flagged
    rw [hsame]
    exact h
  · simp [hsame, hown, hstarted]
  · simp [hsame, hresults, hcalls]
  · simp [hsame, hresults, hstarted]

/-- A step of the call itself, or for it, that does not end it. -/
theorem Counted.within (h : w.Flagged) (hcalls : event.calls = false)
    (hprogress : w'.rebalancer.inProgress = w.rebalancer.inProgress)
    (hresults : w'.results = w.results) (hbefore : w.rebalancer.phase ≠ .idle)
    (hafter : w'.rebalancer.phase ≠ .idle)
    (hsteps : event.own.toNat + w'.rebalancer.phase.remaining ≤ w.rebalancer.phase.remaining) :
    Counted w w' event := by
  have hstarted : w.started event = none := by
    cases event with
    | rebalance oldRing newRing nodeEndpoints => cases hcalls
    | _ => rfl
  refine ⟨?_, ?_, ?_, ?_⟩
  · unfold Flagged
    rw [hprogress]
    exact ⟨fun hf => absurd (h.mp hf) hbefore, fun hidle => absurd hidle hafter⟩
  · omega
  · simp [hprogress, hresults, hcalls]
  · simp [hprogress, hresults, hstarted]

/-- A call finds the flag set and is refused, or starts. -/
theorem Counted.rebalance {oldRing newRing : HashRing}
    {nodeEndpoints : Dict String Address} (h : w.Flagged)
    (hstep : w.step _hash (.rebalance oldRing newRing nodeEndpoints) = some w') :
    Counted w w' (.rebalance oldRing newRing nodeEndpoints) := by
  cases hprogress : w.rebalancer.inProgress with
  | true =>
    cases rebalance_refused hprogress hstep
    refine ⟨h, ?_, ?_, ?_⟩
    · simp [RebalanceEvent.own]
    · simp [RebalanceEvent.calls]
      omega
    · simp [started, hprogress, ran]
  | false =>
    have hw' : w.rebalance oldRing newRing nodeEndpoints = w' := Option.some.inj hstep
    rw [rebalance_start hprogress] at hw'
    subst hw'
    refine ⟨?_, ?_, ?_, ?_⟩
    · simp [Flagged]
    · simp [started, hprogress, RebalanceEvent.own, Phase.remaining]
    · simp [hprogress, RebalanceEvent.calls]
    · simp [started, hprogress]

theorem Counted.keys {i : Nat} {ok : Bool} (h : w.Flagged)
    (hstep : w.step _hash (.keys i ok) = some w') : Counted w w' (.keys i ok) := by
  obtain ⟨_, _, _, requests, _, _, _, hphase, hi, rfl, _⟩ := fetchKeys_some hstep
  refine .within h rfl rfl rfl (by simp [hphase]) (by simp [setPhase]) ?_
  have hlength : (requests.eraseIdx i).length + 1 = requests.length := by
    obtain ⟨hlt, _⟩ := List.getElem?_eq_some_iff.mp hi
    rw [List.length_eraseIdx_of_lt hlt]
    omega
  simp only [setPhase, hphase, Phase.remaining, RebalanceEvent.own, Bool.toNat_true]
  omega

/-- Every task of the plan has two requests left. -/
theorem Counted.plan {order : List String} (h : w.Flagged)
    (hstep : w.step _hash (.plan order) = some w') : Counted w w' (.plan order) := by
  obtain ⟨oldRing, newRing, _, _, hphase, _, _, rfl⟩ := plan_some hstep
  refine .within h rfl rfl rfl (by simp [hphase]) (by simp) ?_
  have hlength : (migrationTasks (planKeys _hash oldRing newRing order).1).length ≤
      taskBound oldRing newRing := migrationTasks_length_le oldRing newRing order
  have hsum := sum_remaining_planned
    (migrationTasks (planKeys _hash oldRing newRing order).1)
  simp only [hphase, Phase.remaining, List.length_nil, RebalanceEvent.own, Bool.toNat_true]
  omega

/-- A snapshot leaves its task at most the bulk load. -/
theorem Counted.snapshot {i : Nat} {ok : Bool} (h : w.Flagged)
    (hstep : w.step _hash (.snapshot i ok) = some w') : Counted w w' (.snapshot i ok) := by
  obtain ⟨_, tasks, _, p, hphase, htask, rfl, hfailed, hserved⟩ := takeSnapshot_some hstep
  refine .within h rfl rfl rfl (by simp [hphase]) (by simp [setTask, setPhase]) ?_
  have hsum := sum_remaining_set htask p
  have hp : p.remaining ≤ 1 := by
    cases ok with
    | false => simp [hfailed rfl]
    | true =>
      obtain ⟨c, _, rfl⟩ := hserved rfl
      unfold afterSnapshot
      split
      next => exact Nat.zero_le 1
      next => exact Nat.le_refl 1
  rw [Progress.remaining_snapshotting] at hsum
  simp only [setTask, setPhase, hphase, Phase.remaining, RebalanceEvent.own, Bool.toNat_true]
  omega

/-- The put of an entry is the node's own doing. -/
theorem Counted.loadPut {i : Nat} (h : w.Flagged)
    (hstep : w.step _hash (.loadPut i) = some w') : Counted w w' (.loadPut i) := by
  obtain ⟨_, tasks, _, filtered, _, _, _, remaining, _, hphase, htask, _, rfl⟩ :=
    loadPut_some hstep
  refine .within h rfl rfl rfl (by simp [hphase]) (by simp [setTask, setPhase]) ?_
  have hsum := sum_remaining_set htask (.loading filtered remaining)
  simp only [Progress.remaining_loading] at hsum
  simp only [setTask, setPhase, setNode, hphase, Phase.remaining, RebalanceEvent.own,
    Bool.toNat_false]
  omega

theorem Counted.bulkLoad {i : Nat} {reply : Reply} (h : w.Flagged)
    (hstep : w.step _hash (.bulkLoad i reply) = some w') : Counted w w' (.bulkLoad i reply) := by
  obtain ⟨_, tasks, _, _, _, n, hphase, htask, rfl, _⟩ := load_some hstep
  refine .within h rfl rfl rfl (by simp [hphase]) (by simp [setTask, setPhase]) ?_
  have hsum := sum_remaining_set htask (.returned n)
  simp only [Progress.remaining_loading, Progress.remaining_returned] at hsum
  simp only [setTask, setPhase, hphase, Phase.remaining, RebalanceEvent.own, Bool.toNat_true]
  omega

/-- The call that ends had set the flag. -/
theorem Counted.finish (h : w.Flagged) (hstep : w.step _hash .finish = some w') :
    Counted w w' .finish := by
  obtain ⟨_, tasks, _, hphase, _, rfl⟩ := finish_some hstep
  have hprogress : w.rebalancer.inProgress = true := by
    cases hflag : w.rebalancer.inProgress with
    | true => rfl
    | false =>
      have hidle := h.mp hflag
      rw [hphase] at hidle
      cases hidle
  refine ⟨?_, ?_, ?_, ?_⟩
  · simp [Flagged]
  · simp [hphase, started, RebalanceEvent.own, Phase.remaining]
  · simp [hprogress, RebalanceEvent.calls]
  · simp [hprogress, started, ran]

theorem counted_step (h : w.Flagged) (hstep : w.step _hash event = some w') :
    Counted w w' event := by
  cases event with
  | tick elapsed =>
    cases Option.some.inj hstep
    exact .other h rfl rfl rfl rfl
  | put ring key value ttl =>
    obtain ⟨_, _, _, _, rfl⟩ := putKey_some hstep
    exact .other h rfl rfl rfl rfl
  | delete ring key =>
    obtain ⟨_, _, _, _, ⟨_, rfl⟩ | ⟨_, rfl⟩⟩ := deleteKey_some hstep
    · exact .other h rfl rfl rfl rfl
    · exact .other h rfl rfl rfl rfl
  | rebalance oldRing newRing nodeEndpoints => exact .rebalance h hstep
  | keys i ok => exact .keys h hstep
  | plan order => exact .plan h hstep
  | snapshot i ok => exact .snapshot h hstep
  | loadPut i => exact .loadPut h hstep
  | bulkLoad i reply => exact .bulkLoad h hstep
  | finish => exact .finish h hstep

/-- Tasks of which not all have returned include one with a request to make. -/
theorem migrated_or_pending (tasks : List (Migration × Progress)) :
    (∃ counts, migrated tasks = some counts) ∨
      ∃ (i : Nat) (m : Migration) (p : Progress), tasks[i]? = some (m, p) ∧ 0 < p.remaining := by
  induction tasks with
  | nil => exact Or.inl ⟨[], rfl⟩
  | cons t tasks ih =>
    obtain ⟨m, p⟩ := t
    rcases Nat.eq_zero_or_pos p.remaining with hzero | hpos
    · rcases ih with ⟨counts, hcounts⟩ | ⟨i, m', p', hi, hpos⟩
      · cases p with
        | returned n =>
          refine Or.inl ⟨n :: counts, ?_⟩
          unfold migrated at hcounts ⊢
          simp [hcounts]
        | _ => cases hzero
      · exact Or.inr ⟨i + 1, m', p', hi, hpos⟩
    · exact Or.inr ⟨0, m, p, rfl, hpos⟩

/-- A running call can always go on, even if no node answers it. -/
theorem own_step_exists (hphase : w.rebalancer.phase ≠ .idle) :
    ∃ event w', event.own = true ∧ w.step _hash event = some w' := by
  cases hcase : w.rebalancer.phase with
  | idle => exact absurd hcase hphase
  | fetching oldRing newRing nodeEndpoints requests allKeys =>
    cases requests with
    | nil =>
      refine ⟨.plan allKeys.eraseDups, ?_⟩
      have hset : allKeys.eraseDups.Nodup ∧ allKeys.eraseDups ⊆ allKeys ∧
          allKeys ⊆ allKeys.eraseDups :=
        ⟨nodup_eraseDups _, fun k hk => List.mem_eraseDups.mp hk,
          fun k hk => List.mem_eraseDups.mpr hk⟩
      simp only [step, plan, hcase, if_pos hset]
      exact ⟨_, rfl, rfl⟩
    | cons a requests =>
      refine ⟨.keys 0 false, ?_⟩
      simp only [step, fetchKeys, hcase]
      exact ⟨_, rfl, rfl⟩
  | migrating nodeEndpoints tasks =>
    rcases migrated_or_pending tasks with ⟨counts, hcounts⟩ | ⟨i, m, p, hi, hpos⟩
    · refine ⟨.finish, ?_⟩
      simp only [step, finish, hcase, hcounts]
      exact ⟨_, rfl, rfl⟩
    · cases p with
      | snapshotting =>
        refine ⟨.snapshot i false, ?_⟩
        simp only [step, takeSnapshot, hcase, hi]
        exact ⟨_, rfl, rfl⟩
      | loading filtered remaining =>
        refine ⟨.bulkLoad i .failed, ?_⟩
        simp only [step, load, hcase, hi]
        exact ⟨_, rfl, rfl⟩
      | returned n => exact absurd hpos (Nat.lt_irrefl 0)

/-- Some of its own steps end a running call. -/
theorem call_can_end (n : Nat) : ∀ w : World, w.Flagged → w.rebalancer.phase.remaining ≤ n →
    ∃ rest w', (∀ e ∈ rest, e.own = true) ∧ rest.length ≤ n ∧ w.run _hash rest = some w' ∧
      w'.rebalancer.inProgress = false ∧ w'.results.length =
        w.results.length + w.rebalancer.inProgress.toNat := by
  induction n with
  | zero =>
    intro w h hn
    have hidle : w.rebalancer.phase = .idle := by
      cases hphase : w.rebalancer.phase with
      | idle => rfl
      | _ => simp [hphase, Phase.remaining] at hn
    have hflag := h.mpr hidle
    exact ⟨[], w, by simp, Nat.le_refl 0, rfl, hflag, by simp [hflag]⟩
  | succ n ih =>
    intro w h hn
    by_cases hidle : w.rebalancer.phase = .idle
    · have hflag := h.mpr hidle
      exact ⟨[], w, by simp, Nat.zero_le _, rfl, hflag, by simp [hflag]⟩
    · obtain ⟨event, mid, hown, hstep⟩ : ∃ event mid, event.own = true ∧
          w.step _hash event = some mid := own_step_exists hidle
      have hcounted := counted_step h hstep
      have hevent : event.calls = false ∧ w.started event = none := by
        cases event with
        | rebalance oldRing newRing nodeEndpoints => cases hown
        | _ => exact ⟨rfl, rfl⟩
      have hsteps := hcounted.steps
      have hcalls := hcounted.calls
      rw [hown, hevent.2] at hsteps
      rw [hevent.1] at hcalls
      simp only [Bool.toNat_true, Option.toList_none, List.sum_nil] at hsteps
      simp only [Bool.toNat_false] at hcalls
      obtain ⟨rest, w', hrest, hlength, hrun, hflag, hresults⟩ :=
        ih mid hcounted.flagged (by omega)
      refine ⟨event :: rest, w', ?_, ?_, ?_, hflag, by omega⟩
      · intro e he
        rcases List.mem_cons.mp he with rfl | he
        · exact hown
        · exact hrest e he
      · rw [List.length_cons]
        omega
      · rw [run, runs_cons, hstep]
        exact hrun

variable (_hash) in
/-- Calls of `rebalance` exclude each other and return: the steps taken and the bound on those
left stay within the bounds of the calls that started; every call has its result except the one
that runs; and this one can return by its own steps, whatever the nodes do. -/
theorem rebalance_calls_return {w₀ : World} {events : List RebalanceEvent}
    (hstart : w₀.rebalancer = {}) (h : w₀.run _hash events = some w) :
    events.countP RebalanceEvent.own + w.rebalancer.phase.remaining ≤
        (observations (step _hash) started w₀ events).sum ∧
      w.results.countP ran + w.rebalancer.inProgress.toNat =
        w₀.results.countP ran + (observations (step _hash) started w₀ events).length ∧
      w.results.length + w.rebalancer.inProgress.toNat =
        w₀.results.length + events.countP RebalanceEvent.calls ∧
      ∃ rest w', (∀ e ∈ rest, e.own = true) ∧ rest.length ≤ w.rebalancer.phase.remaining ∧
        w.run _hash rest = some w' ∧ w'.rebalancer.inProgress = false ∧
        w'.results.length = w₀.results.length + events.countP RebalanceEvent.calls := by
  have hinv : w.Flagged ∧ events.countP RebalanceEvent.own + w.rebalancer.phase.remaining ≤
        (observations (step _hash) started w₀ events).sum ∧
      w.results.countP ran + w.rebalancer.inProgress.toNat =
        w₀.results.countP ran + (observations (step _hash) started w₀ events).length ∧
      w.results.length + w.rebalancer.inProgress.toNat =
        w₀.results.length + events.countP RebalanceEvent.calls := by
    refine runs_history (I := fun past (mid : World) => mid.Flagged ∧
      past.countP RebalanceEvent.own + mid.rebalancer.phase.remaining ≤
        (observations (step _hash) started w₀ past).sum ∧
      mid.results.countP ran + mid.rebalancer.inProgress.toNat =
        w₀.results.countP ran + (observations (step _hash) started w₀ past).length ∧
      mid.results.length + mid.rebalancer.inProgress.toNat =
        w₀.results.length + past.countP RebalanceEvent.calls) ?_ ?_ h
    · simp [Flagged, hstart, Phase.remaining, observations]
    · intro past event rest mid next _ hrun ih hstep
      obtain ⟨hflagged, hsteps, hcompleted, hcalls⟩ := ih
      have hcounted := counted_step hflagged hstep
      have hsteps' := hcounted.steps
      have hcompleted' := hcounted.completed
      have hcalls' := hcounted.calls
      rw [observations_snoc hrun, List.sum_append, List.length_append, List.countP_append,
        List.countP_append, List.countP_singleton, List.countP_singleton]
      simp only [Bool.toNat, Bool.cond_eq_ite] at *
      exact ⟨hcounted.flagged, by omega, by omega, by omega⟩
  obtain ⟨hflagged, hsteps, hcompleted, hcalls⟩ := hinv
  obtain ⟨rest, w', hrest, hlength, hrun, hflag, hresults⟩ :=
    @call_can_end _hash _ w hflagged (Nat.le_refl _)
  exact ⟨hsteps, hcompleted, hcalls, rest, w', hrest, hlength, hrun, hflag, by omega⟩

/-- A gateway whose nodes are all gone. -/
def noNodes : World where
  nodes := fun _ => none
  clock := fun _ => 0
  registry := ∅

/-- Two calls of which the second is refused. -/
def calledTwice : List RebalanceEvent :=
  [.rebalance (.empty 1) (.empty 1) (Dict.set ∅ "a" ("h", 1)),
    .rebalance (.empty 1) (.empty 1) ∅, .keys 0 false]

theorem rebalance_calls_return_called_twice : ∃ w,
    noNodes.run (fun _ => 0) calledTwice = some w ∧
      w.results.length + w.rebalancer.inProgress.toNat = 2 ∧
      1 + w.rebalancer.phase.remaining ≤ 5 := by
  obtain ⟨w, hrun⟩ : ∃ w, noNodes.run (fun _ => 0) calledTwice = some w := ⟨_, rfl⟩
  have h := rebalance_calls_return (fun _ => 0) rfl hrun
  exact ⟨w, hrun, h.2.2.1, h.1⟩

end counts

end World

end SelfHealingCache
