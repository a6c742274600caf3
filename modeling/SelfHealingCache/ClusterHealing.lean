import SelfHealingCache.ClusterNodes
import Mathlib.Algebra.Order.Field.Rat
import Mathlib.Tactic.Linarith

namespace SelfHealingCache

namespace ClusterManager

namespace Event

/-- The clock readings of a call, in the order in which they are made. -/
def readings : Event → List Time
  | .registerNode now _ _ _ _ _ => [now]
  | .deregisterNode now _ => [now]
  | .processHeartbeat now _ _ => [now]
  | .heartbeat registeredAt now _ => [registeredAt, now]
  | .checkHeartbeatTimeouts now => [now]

/-- The node whose heartbeat a call delivers. -/
def heartbeatOf : Event → Option String
  | .processHeartbeat _ nodeId _ => some nodeId
  | .heartbeat _ _ payload => some payload.nodeId
  | _ => none

end Event

def readings (history : List Event) : List Time := history.flatMap Event.readings

/-- The effect of a call on the time of a node's last registration or accepted
heartbeat; `none` while the node is not registered. -/
def contactStep (nodeId : String) (since : Option Time) : Event → Option Time
  | .registerNode now id _ _ _ _ => if nodeId = id then some now else since
  | .deregisterNode _ id => if nodeId = id then none else since
  | .processHeartbeat now id _ => if nodeId = id then since.map fun _ => now else since
  | .heartbeat _ now payload => if nodeId = payload.nodeId then some now else since
  | .checkHeartbeatTimeouts _ => since

def lastContact (nodeId : String) (history : List Event) : Option Time :=
  history.foldl (contactStep nodeId) none

/-- At time `t`, every registered node heard from within the timeout is routed. -/
def Healed (history : List Event) (cm : ClusterManager) (t : Time) : Prop :=
  ∀ nodeId since, lastContact nodeId history = some since →
    t - since ≤ cm.heartbeatTimeoutS → nodeId ∈ cm.ringNodes

/-- The call delivers a heartbeat of a node that is DEAD at that moment. -/
def Revives (cm : ClusterManager) (event : Event) : Prop :=
  ∃ nodeId, event.heartbeatOf = some nodeId ∧ cm.HasStatus nodeId .DEAD

theorem lastContact_snoc (nodeId : String) (past : List Event) (event : Event) :
    lastContact nodeId (past ++ [event]) =
      contactStep nodeId (lastContact nodeId past) event := by
  rw [lastContact, List.foldl_append]
  rfl

theorem readings_snoc (past : List Event) (event : Event) :
    readings (past ++ [event]) = readings past ++ event.readings := by
  simp [readings]

theorem lastContact_mem_readings {nodeId : String} {history : List Event} {since : Time}
    (h : lastContact nodeId history = some since) : since ∈ readings history := by
  induction history using List.reverseRecOn with
  | nil => cases h
  | append_singleton past event ih =>
    rw [lastContact_snoc] at h
    rw [readings_snoc, List.mem_append]
    cases event <;> simp only [contactStep] at h <;> simp only [Event.readings]
    case checkHeartbeatTimeouts => exact Or.inl (ih h)
    case processHeartbeat now id metrics =>
      split at h
      next =>
        obtain ⟨old, _, he⟩ := Option.map_eq_some_iff.mp h
        exact Or.inr (by simp [← he])
      next => exact Or.inl (ih h)
    case deregisterNode now id =>
      split at h
      next => cases h
      next => exact Or.inl (ih h)
    all_goals
      split at h
      next =>
        cases Option.some.inj h
        exact Or.inr (by simp)
      next => exact Or.inl (ih h)

/-- What a run without revivals knows of a record: it is never RECOVERED, and
only an overdue node loses its ALIVE status. -/
def Tracked (seen : List Time) (timeout : Int) (node : NodeMetadata) : Prop :=
  node.status ≠ .RECOVERED ∧
    (node.status ≠ .ALIVE → ∃ r ∈ seen, (timeout : ℚ) < r - node.lastHeartbeat)

theorem Tracked.mono {seen seen' : List Time} {timeout : Int} {node : NodeMetadata}
    (h : Tracked seen timeout node) (hs : seen ⊆ seen') : Tracked seen' timeout node := by
  refine ⟨h.1, fun ha => ?_⟩
  obtain ⟨r, hm, hlt⟩ := h.2 ha
  exact ⟨r, hs hm, hlt⟩

theorem Tracked.of_alive {node : NodeMetadata} (ha : node.status = .ALIVE) (seen : List Time)
    (timeout : Int) : Tracked seen timeout node :=
  ⟨by simp [ha], fun hn => absurd ha hn⟩

theorem receive_alive {node : NodeMetadata} (hr : node.status ≠ .RECOVERED)
    (hd : node.status ≠ .DEAD) (now : Time) (metrics : HeartbeatMetrics) :
    (node.receive now metrics).status = .ALIVE := by
  cases hs : node.status <;> simp_all [NodeMetadata.receive]

theorem scan_lastHeartbeat (timeout : Int) (now : Time) (node : NodeMetadata) :
    (node.scan timeout now).lastHeartbeat = node.lastHeartbeat := by
  unfold NodeMetadata.scan
  split
  next =>
    split
    next => rfl
    next => split <;> rfl
  next => rfl

theorem scan_status_ne_recovered {timeout : Int} {now : Time} {node : NodeMetadata}
    (hr : node.status ≠ .RECOVERED) : (node.scan timeout now).status ≠ .RECOVERED := by
  unfold NodeMetadata.scan
  split
  next =>
    split
    next => simp
    next =>
      split
      next => simp
      next => exact hr
  next => exact hr

theorem Tracked.scan {seen : List Time} {timeout : Int} {node : NodeMetadata}
    (h : Tracked seen timeout node) (now : Time) :
    Tracked (seen ++ [now]) timeout (node.scan timeout now) := by
  by_cases hm : node.Missed timeout now
  · refine ⟨scan_status_ne_recovered h.1, fun _ => ⟨now, by simp, ?_⟩⟩
    have hlate := hm.2
    rwa [scan_lastHeartbeat]
  · have hscan : node.scan timeout now = node := if_neg hm
    rw [hscan]
    exact h.mono (List.subset_append_left _ _)

section steps

variable (_hash : String → Nat)

/-- `last_heartbeat` is the time of the last registration or accepted heartbeat. -/
theorem lastContact_eq (heartbeatTimeoutS replicationFactor : Int) (history : List Event)
    (x : String) :
    lastContact x history =
      (((init heartbeatTimeoutS replicationFactor).run _hash history).nodes.get? x).map
        NodeMetadata.lastHeartbeat := by
  refine foldl_history (I := fun past (cm : ClusterManager) =>
    lastContact x past = (cm.nodes.get? x).map NodeMetadata.lastHeartbeat) rfl ?_ history
  intro past event ih
  rw [lastContact_snoc, ih]
  generalize past.foldl (step _hash) (init heartbeatTimeoutS replicationFactor) = cm
  cases event with
  | registerNode now nodeId host port zone cacheCapacity =>
    rw [step, get?_registerNode, contactStep]
    split <;> rfl
  | deregisterNode now nodeId =>
    rw [step, get?_deregisterNode, contactStep]
    split <;> rfl
  | processHeartbeat now nodeId metrics =>
    rw [step, get?_processHeartbeat, contactStep]
    split
    next hx =>
      rw [hx, Option.map_map, Option.map_map]
      rfl
    next => rfl
  | heartbeat registeredAt now payload =>
    rw [step, get?_heartbeat, contactStep]
    split <;> rfl
  | checkHeartbeatTimeouts now =>
    rw [step, get?_checkHeartbeatTimeouts, contactStep, Option.map_map]
    congr 1
    funext node
    exact (scan_lastHeartbeat _ _ node).symm

/-- A call that revives no DEAD node keeps every record tracked. -/
theorem tracked_step {cm : ClusterManager} {seen : List Time} {event : Event}
    (h : ∀ x node, cm.nodes.get? x = some node → Tracked seen cm.heartbeatTimeoutS node)
    (hn : ¬cm.Revives event) (x : String) (node : NodeMetadata)
    (hg : (cm.step _hash event).nodes.get? x = some node) :
    Tracked (seen ++ event.readings) cm.heartbeatTimeoutS node := by
  have hold : ∀ node, cm.nodes.get? x = some node →
      Tracked (seen ++ event.readings) cm.heartbeatTimeoutS node :=
    fun node hg => (h x node hg).mono (List.subset_append_left _ _)
  have hlive : ∀ node, event.heartbeatOf = some x → cm.nodes.get? x = some node →
      node.status ≠ .DEAD := fun node he hg hd => hn ⟨x, he, node, hg, hd⟩
  cases event with
  | registerNode now nodeId host port zone cacheCapacity =>
    rw [step, get?_registerNode] at hg
    split at hg
    next =>
      cases Option.some.inj hg
      exact Tracked.of_alive rfl _ _
    next => exact hold node hg
  | deregisterNode now nodeId =>
    rw [step, get?_deregisterNode] at hg
    split at hg
    next => cases hg
    next => exact hold node hg
  | processHeartbeat now nodeId metrics =>
    rw [step, get?_processHeartbeat] at hg
    split at hg
    next hx =>
      obtain ⟨old, ho, he⟩ := Option.map_eq_some_iff.mp hg
      subst hx; subst he
      exact Tracked.of_alive (receive_alive (h x old ho).1 (hlive old rfl ho) now metrics) _ _
    next => exact hold node hg
  | heartbeat registeredAt now payload =>
    rw [step, get?_heartbeat] at hg
    split at hg
    next hx =>
      cases Option.some.inj hg
      apply Tracked.of_alive
      -- an unknown node is registered ALIVE, a known one keeps its status
      cases ho : cm.nodes.get? payload.nodeId with
      | none => rfl
      | some old =>
        rw [← hx] at ho
        have hr : (contacted registeredAt payload (some old)).status ≠ .RECOVERED := (h x old ho).1
        exact receive_alive hr (hlive old (by rw [hx]; rfl) ho) now _
    next => exact hold node hg
  | checkHeartbeatTimeouts now =>
    rw [step, get?_checkHeartbeatTimeouts] at hg
    obtain ⟨old, ho, he⟩ := Option.map_eq_some_iff.mp hg
    subst he
    exact (h x old ho).scan now

theorem tracked_run {heartbeatTimeoutS replicationFactor : Int} {history : List Event}
    (hn : ∀ past event, past ++ [event] <+: history →
      ¬((init heartbeatTimeoutS replicationFactor).run _hash past).Revives event) :
    ∀ x node,
      ((init heartbeatTimeoutS replicationFactor).run _hash history).nodes.get? x = some node →
      Tracked (readings history) heartbeatTimeoutS node := by
  induction history using List.reverseRecOn with
  | nil =>
    intro x node hg
    cases hg
  | append_singleton past event ih =>
    have hpast := ih fun past' event' hp => hn past' event' (hp.trans (List.prefix_append _ _))
    have ht := run_timeout _hash (init heartbeatTimeoutS replicationFactor) past
    have hpast' : ∀ x node,
        ((init heartbeatTimeoutS replicationFactor).run _hash past).nodes.get? x = some node →
        Tracked (readings past)
          ((init heartbeatTimeoutS replicationFactor).run _hash past).heartbeatTimeoutS
          node := by
      rw [ht]
      exact hpast
    have hstep := tracked_step _hash hpast' (hn past event (List.prefix_refl _))
    rw [ht] at hstep
    rw [run, List.foldl_append, readings_snoc]
    exact hstep

theorem healed_of_no_revival {heartbeatTimeoutS replicationFactor : Int}
    {history : List Event}
    (hn : ∀ past event, past ++ [event] <+: history →
      ¬((init heartbeatTimeoutS replicationFactor).run _hash past).Revives event)
    {t : Time} (ht : ∀ r ∈ readings history, r ≤ t) :
    Healed history ((init heartbeatTimeoutS replicationFactor).run _hash history) t := by
  intro x since hc hfresh
  rw [run_timeout] at hfresh
  rw [lastContact_eq _hash heartbeatTimeoutS replicationFactor] at hc
  obtain ⟨node, hg, he⟩ := Option.map_eq_some_iff.mp hc
  have hover := (tracked_run _hash hn x node hg).2
  have halive : node.status = .ALIVE := by
    by_contra hna
    obtain ⟨r, hr, hlt⟩ := hover hna
    have hrt := ht r hr
    have hfresh' : t - since ≤ (heartbeatTimeoutS : ℚ) := hfresh
    rw [← he] at hfresh'
    linarith
  exact (routingInv_run _hash heartbeatTimeoutS replicationFactor history).alive x
    ⟨node, hg, halive⟩

/-- A heartbeat of a DEAD node leaves it RECOVERED, which the ring leaves out. -/
theorem revived_status {cm : ClusterManager} {event : Event} {x : String}
    (he : event.heartbeatOf = some x) (hd : cm.HasStatus x .DEAD) :
    (cm.step _hash event).HasStatus x .RECOVERED := by
  obtain ⟨node, hg, hs⟩ := hd
  have hrec : ∀ (record : NodeMetadata) now metrics, record.status = .DEAD →
      (record.receive now metrics).status = .RECOVERED := by
    intro record now metrics hr
    simp [NodeMetadata.receive, hr]
  cases event with
  | processHeartbeat now nodeId metrics =>
    cases Option.some.inj he
    refine ⟨node.receive now metrics, ?_, hrec node now metrics hs⟩
    rw [step, get?_processHeartbeat, if_pos rfl, hg]
    rfl
  | heartbeat registeredAt now payload =>
    cases Option.some.inj he
    refine ⟨_, by rw [step, get?_heartbeat, if_pos rfl], ?_⟩
    rw [hg]
    exact hrec _ now _ hs
  | registerNode => cases he
  | deregisterNode => cases he
  | checkHeartbeatTimeouts => cases he

theorem recovered_not_routed {cm : ClusterManager} (h : cm.RoutingInv) {x : String}
    (hr : cm.HasStatus x .RECOVERED) : x ∉ cm.ringNodes := by
  intro hm
  obtain ⟨node, hg, hs⟩ := hr
  rcases h.routed x hm with ⟨node', hg', hs'⟩ | ⟨node', hg', hs'⟩
  all_goals
    have := Option.some.inj (hg.symm.trans hg')
    rw [← this, hs] at hs'
    cases hs'

/-- The reading a heartbeat is accepted at is the newest one, and becomes the
contact time of the node. -/
theorem revived_contact {past : List Event} {event : Event} {x : String}
    (hclock : (readings (past ++ [event])).Pairwise (· ≤ ·))
    (he : event.heartbeatOf = some x) (hk : lastContact x past ≠ none) :
    ∃ now, lastContact x (past ++ [event]) = some now ∧
      ∀ r ∈ readings (past ++ [event]), r ≤ now := by
  rw [readings_snoc] at hclock
  cases event with
  | processHeartbeat now nodeId metrics =>
    cases Option.some.inj he
    obtain ⟨since, hs⟩ := Option.ne_none_iff_exists'.mp hk
    refine ⟨now, by rw [lastContact_snoc, contactStep, if_pos rfl, hs]; rfl, ?_⟩
    intro r hr
    rw [readings_snoc] at hr
    have hpast := (List.pairwise_append.mp hclock).2.2
    rcases List.mem_append.mp hr with hr | hr
    · exact hpast r hr now (by simp [Event.readings])
    · have hrn : r = now := by simpa [Event.readings] using hr
      exact hrn.le
  | heartbeat registeredAt now payload =>
    cases Option.some.inj he
    refine ⟨now, by rw [lastContact_snoc, contactStep, if_pos rfl], ?_⟩
    intro r hr
    rw [readings_snoc] at hr
    have hpast := (List.pairwise_append.mp hclock).2.2
    have hlast : registeredAt ≤ now := by
      have := (List.pairwise_append.mp hclock).2.1
      simpa [Event.readings] using this
    rcases List.mem_append.mp hr with hr | hr
    · exact hpast r hr now (by simp [Event.readings])
    · have hrn : r = registeredAt ∨ r = now := by simpa [Event.readings] using hr
      rcases hrn with rfl | rfl
      · exact hlast
      · exact le_rfl
  | registerNode => cases he
  | deregisterNode => cases he
  | checkHeartbeatTimeouts => cases he

theorem readings_of_past {past history : List Event} (hp : past <+: history)
    (hclock : (readings history).Pairwise (· ≤ ·)) : (readings past).Pairwise (· ≤ ·) := by
  obtain ⟨rest, rfl⟩ := hp
  have happ : readings (past ++ rest) = readings past ++ readings rest := by simp [readings]
  rw [happ] at hclock
  exact (List.pairwise_append.mp hclock).1

/-- A run keeps every timely node routable exactly when no heartbeat of the run
comes from a node that the manager holds DEAD at that moment. -/
theorem healed_iff_no_revival (heartbeatTimeoutS replicationFactor : Int)
    (history : List Event) (hclock : (readings history).Pairwise (· ≤ ·)) :
    (∀ past, past <+: history → ∀ t, (∀ r ∈ readings past, r ≤ t) →
        Healed past ((init heartbeatTimeoutS replicationFactor).run _hash past) t) ↔
      (heartbeatTimeoutS < 0 ∨ ∀ past event, past ++ [event] <+: history →
        ¬((init heartbeatTimeoutS replicationFactor).run _hash past).Revives event) := by
  constructor
  · intro h
    by_contra hcond
    simp only [not_or, not_lt, not_forall, not_not] at hcond
    obtain ⟨htimeout, past, event, hp, x, he, hdead⟩ := hcond
    have hknown : lastContact x past ≠ none := by
      obtain ⟨node, hg, _⟩ := hdead
      rw [lastContact_eq _hash heartbeatTimeoutS replicationFactor, hg]
      simp
    obtain ⟨now, hcontact, hnow⟩ := revived_contact (readings_of_past hp hclock) he hknown
    have hfresh : now - now ≤ ((((init heartbeatTimeoutS replicationFactor).run _hash
        (past ++ [event])).heartbeatTimeoutS : Int) : ℚ) := by
      rw [run_timeout, sub_self]
      exact_mod_cast htimeout
    have hrouted := h (past ++ [event]) hp now hnow x now hcontact hfresh
    have hstatus := revived_status _hash he hdead
    have hinv := routingInv_run _hash heartbeatTimeoutS replicationFactor (past ++ [event])
    rw [run, List.foldl_append] at hinv hrouted
    exact recovered_not_routed hinv hstatus hrouted
  · rintro (htimeout | hn) past hp t ht
    · -- no age is negative, so nothing counts as fresh
      intro x since hc hfresh
      have hs := ht since (lastContact_mem_readings hc)
      rw [run_timeout] at hfresh
      have hneg : (heartbeatTimeoutS : ℚ) < 0 := by exact_mod_cast htimeout
      have hfresh' : t - since ≤ (heartbeatTimeoutS : ℚ) := hfresh
      linarith
    · exact healed_of_no_revival _hash (fun past' event hp' => hn past' event (hp'.trans hp)) ht

end steps

/-- A node registers, is declared DEAD by three scans, then beats on time again. -/
def silentThenBack : List Event :=
  let payload : HeartbeatPayload :=
    { nodeId := "node-1", host := "host", port := 8001, zone := "zone", status := "alive",
      cacheSize := 0, cacheCapacity := 1000, hitRatio := 0, memoryBytes := 0, uptimeS := 0,
      timestamp := 0 }
  [.heartbeat 0 0 payload, .checkHeartbeatTimeouts 11, .checkHeartbeatTimeouts 14,
    .checkHeartbeatTimeouts 17, .heartbeat 20 20 payload, .heartbeat 25 25 payload]

theorem silent_then_back_not_healed :
    (readings silentThenBack).Pairwise (· ≤ ·) ∧ (∀ r ∈ readings silentThenBack, r ≤ 25) ∧
      ¬Healed silentThenBack ((init 10 3).run (fun _ => 0) silentThenBack) 25 := by
  refine ⟨by decide +kernel, by decide +kernel, fun h => ?_⟩
  have hc : lastContact "node-1" silentThenBack = some 25 := by decide +kernel
  have hm := h "node-1" 25 hc (by decide +kernel)
  exact absurd hm (by decide +kernel)

theorem healed_iff_no_revival_short :
    (∀ past, past <+: silentThenBack.take 3 → ∀ t, (∀ r ∈ readings past, r ≤ t) →
        Healed past ((init 10 3).run (fun _ => 0) past) t) ↔
      ((10 : Int) < 0 ∨ ∀ past event, past ++ [event] <+: silentThenBack.take 3 →
        ¬((init 10 3).run (fun _ => 0) past).Revives event) :=
  healed_iff_no_revival (fun _ => 0) 10 3 _ (by decide +kernel)

end ClusterManager

end SelfHealingCache
