import SelfHealingCache.ClusterRecords

namespace SelfHealingCache

namespace ClusterManager

/-- The effect of a call on a node's last contact and on the number of scans since then
that found it overdue. -/
def lateStep (timeout : Int) (x : String) (s : Option Time × Nat) (event : Event) :
    Option Time × Nat :=
  (contactStep x s.1 event,
    match event with
    | .checkHeartbeatTimeouts now =>
      if s.1.any fun since => (timeout : ℚ) < now - since then s.2 + 1 else s.2
    | event => if event.concerns x then 0 else s.2)

/-- The scans since the latest heartbeat or registration of a node at which more than
the timeout had elapsed since it. -/
def lateScans (timeout : Int) (x : String) (history : List Event) : Nat :=
  (history.foldl (lateStep timeout x) (none, 0)).2

/-- The call registers or deregisters the node explicitly. -/
def Event.Enrols (x : String) : Event → Prop
  | .registerNode _ nodeId _ _ _ _ => x = nodeId
  | .deregisterNode _ nodeId => x = nodeId
  | _ => False

/-- In no state since its registration was the node DEAD. A registration by a first
heartbeat needs no mention: before it the node has no record. -/
def NeverDead (_hash : String → Nat) (cm : ClusterManager) (history : List Event) (x : String) :
    Prop :=
  ∀ past rest, history = past ++ rest → (∀ event ∈ rest, ¬event.Enrols x) →
    ¬(cm.run _hash past).HasStatus x .DEAD

/-- The effect of a call on the manager and on the number of times a node has been
returned by a scan since its last contact. -/
def reportStep (_hash : String → Nat) (x : String) (s : ClusterManager × Nat) (event : Event) :
    ClusterManager × Nat :=
  (s.1.step _hash event,
    match event with
    | .checkHeartbeatTimeouts now => s.2 + (s.1.checkHeartbeatTimeouts _hash now).2.count x
    | event => if event.concerns x then 0 else s.2)

def reportedDeaths (_hash : String → Nat) (cm : ClusterManager) (x : String)
    (history : List Event) : Nat :=
  (history.foldl (reportStep _hash x) (cm, 0)).2

/-- A record against the number of late scans: DEAD from the threshold on, and the
number is its miss counter before. -/
def Detected (m : Nat) (node : NodeMetadata) : Prop :=
  node.status = .DEAD ∧ deadThreshold ≤ m ∨
    node.status ≠ .DEAD ∧ node.failedAttempts = m ∧ m < deadThreshold

/-- A record that was never DEAD is ALIVE as long as no scan found it late. -/
def Unrevived (m : Nat) (node : NodeMetadata) : Prop :=
  node.status ≠ .RECOVERED ∧ (node.status = .ALIVE ↔ m = 0)

section records

variable {timeout : Int} {now : Time} {m : Nat} {node : NodeMetadata}

/-- The number of late scans after one more scan. -/
def nextLate (timeout : Int) (now : Time) (node : NodeMetadata) (m : Nat) : Nat :=
  if (timeout : ℚ) < now - node.lastHeartbeat then m + 1 else m

theorem nextLate_of_missed (h : node.Missed timeout now) (m : Nat) :
    nextLate timeout now node m = m + 1 := if_pos h.2

theorem nextLate_of_not_missed (h : ¬node.Missed timeout now) (hd : node.status ≠ .DEAD) (m : Nat) :
    nextLate timeout now node m = m := if_neg fun hlate => h ⟨hd, hlate⟩

theorem nextLate_ge (timeout : Int) (now : Time) (node : NodeMetadata) (m : Nat) :
    m ≤ nextLate timeout now node m := by
  unfold nextLate
  split <;> omega

theorem receive_not_dead (now : Time) (metrics : HeartbeatMetrics) (node : NodeMetadata) :
    (node.receive now metrics).status ≠ .DEAD := by
  cases hs : node.status <;> simp [NodeMetadata.receive, hs]

theorem detected_receive (now : Time) (metrics : HeartbeatMetrics) (node : NodeMetadata) :
    Detected 0 (node.receive now metrics) :=
  .inr ⟨receive_not_dead now metrics node, rfl, by decide⟩

theorem Detected.scan (h : Detected m node) :
    Detected (nextLate timeout now node m) (node.scan timeout now) := by
  by_cases hm : node.Missed timeout now
  · have hlate := nextLate_of_missed hm m
    obtain ⟨hdead, _⟩ | ⟨_, hcount, hlow⟩ := h
    · exact absurd hdead hm.1
    by_cases hd : node.Dies timeout now
    · have hlast := hd.2
      refine .inl ⟨(NodeMetadata.scan_dead_iff hm).mpr hd, ?_⟩
      omega
    · have hmore : m + 1 < deadThreshold := by
        by_contra hge
        exact hd ⟨hm, by omega⟩
      refine .inr ⟨fun hs => hd ((NodeMetadata.scan_dead_iff hm).mp hs), ?_, by omega⟩
      rw [hlate, ← hcount]
      by_cases hs : node.Suspected timeout now
      · rw [NodeMetadata.scan_of_suspected hs]
      · rw [(NodeMetadata.scan_of_counted hm hd hs).2]
  · rw [NodeMetadata.scan_of_not_missed hm]
    obtain ⟨hdead, hlow⟩ | ⟨hdead, hcount, hlow⟩ := h
    · have hge := nextLate_ge timeout now node m
      exact .inl ⟨hdead, by omega⟩
    · rw [nextLate_of_not_missed hm hdead]
      exact .inr ⟨hdead, hcount, hlow⟩

theorem Unrevived.scan (h : Unrevived m node) (hdead : node.status ≠ .DEAD) :
    Unrevived (nextLate timeout now node m) (node.scan timeout now) := by
  refine ⟨scan_status_ne_recovered h.1, ?_⟩
  by_cases hm : node.Missed timeout now
  · have hlate := nextLate_of_missed hm m
    have hpos : ¬nextLate timeout now node m = 0 := by omega
    refine ⟨fun ha => ?_, fun h0 => absurd h0 hpos⟩
    by_cases hd : node.Dies timeout now
    · rw [NodeMetadata.scan_of_dies hd] at ha
      cases ha
    · by_cases hs : node.Suspected timeout now
      · rw [NodeMetadata.scan_of_suspected hs] at ha
        cases ha
      · obtain ⟨hne, hscan⟩ := NodeMetadata.scan_of_counted hm hd hs
        rw [hscan] at ha
        exact absurd ha hne
  · rw [NodeMetadata.scan_of_not_missed hm, nextLate_of_not_missed hm hdead]
    exact h.2

/-- A scan kills exactly the nodes that it finds late for the last allowed time. -/
theorem Detected.dies_iff (h : Detected m node) : node.Dies timeout now ↔
    m + 1 = deadThreshold ∧ nextLate timeout now node m = deadThreshold := by
  constructor
  · intro hd
    obtain ⟨hdead, _⟩ | ⟨_, hcount, hlow⟩ := h
    · exact absurd hdead hd.1.1
    · have hlast := hd.2
      have hlate := nextLate_of_missed hd.1 m
      omega
  · intro ⟨hlast, hnext⟩
    obtain ⟨_, hhigh⟩ | ⟨hdead, hcount, _⟩ := h
    · omega
    · have hm : node.Missed timeout now := by
        by_contra hm
        have hsame := nextLate_of_not_missed hm hdead m
        omega
      exact ⟨hm, by omega⟩

/-- The death of a node is the passage of its late scans to the threshold. -/
theorem Detected.deaths (h : Detected m node) (timeout : Int) (now : Time) :
    ((if deadThreshold ≤ m then 1 else 0) + if node.Dies timeout now then 1 else 0) =
      if deadThreshold ≤ nextLate timeout now node m then 1 else 0 := by
  have hdies : node.Dies timeout now ↔ _ := h.dies_iff
  have hlow := nextLate_ge timeout now node m
  have hhigh : nextLate timeout now node m ≤ m + 1 := by
    unfold nextLate
    split <;> omega
  by_cases hd : node.Dies timeout now
  · obtain ⟨hlast, hnext⟩ := hdies.mp hd
    rw [if_pos hd, if_neg (by omega), if_pos (by omega)]
  · have hnot : ¬(m + 1 = deadThreshold ∧ nextLate timeout now node m = deadThreshold) :=
      fun hp => hd (hdies.mpr hp)
    rw [if_neg hd, Nat.add_zero]
    by_cases hm : deadThreshold ≤ m
    · rw [if_pos hm, if_pos (by omega)]
    · rw [if_neg hm, if_neg (by omega)]

end records

theorem lateStep_contact (timeout : Int) (x : String) (history : List Event) :
    (history.foldl (lateStep timeout x) (none, 0)).1 = lastContact x history := by
  have hhom : history.foldl (contactStep x) ((none, 0) : Option Time × Nat).1 =
      (history.foldl (lateStep timeout x) (none, 0)).1 := List.foldl_hom Prod.fst fun _ _ => rfl
  exact hhom.symm

theorem lateScans_snoc (timeout : Int) (x : String) (past : List Event) (event : Event) :
    lateScans timeout x (past ++ [event]) =
      (lateStep timeout x (lastContact x past, lateScans timeout x past) event).2 := by
  rw [lateScans, List.foldl_append, List.foldl_cons, List.foldl_nil,
    ← lateStep_contact timeout x past]
  rfl

/-- A call that concerns the node starts the count again. -/
theorem lateScans_concerns {timeout : Int} {x : String} {past : List Event} {event : Event}
    (h : event.concerns x = true) : lateScans timeout x (past ++ [event]) = 0 := by
  rw [lateScans_snoc]
  cases event with
  | checkHeartbeatTimeouts now => cases h
  | _ => exact if_pos h

theorem lateScans_other {timeout : Int} {x : String} {past : List Event} {event : Event}
    (h : event.reaches x = false) :
    lateScans timeout x (past ++ [event]) = lateScans timeout x past := by
  rw [lateScans_snoc]
  cases event with
  | checkHeartbeatTimeouts now => cases h
  | _ =>
    refine if_neg ?_
    rw [Bool.not_eq_true]
    exact h

section runs

variable (_hash : String → Nat) (timeout replicationFactor : Int)

theorem lateScans_scan {past : List Event} {x : String} {node : NodeMetadata}
    (hg : ((init timeout replicationFactor).run _hash past).nodes.get? x = some node) (now : Time) :
    lateScans timeout x (past ++ [.checkHeartbeatTimeouts now]) =
      nextLate timeout now node (lateScans timeout x past) := by
  have hcontact := lastContact_eq _hash timeout replicationFactor past x
  rw [hg] at hcontact
  rw [lateScans_snoc, hcontact]
  simp [lateStep, nextLate]

/-- What a call leaves in the record of a registered node: it has just been heard of, the
call was a scan, or the call does not reach it. -/
inductive Touched (timeout : Int) (x : String) (old : Option NodeMetadata) (node : NodeMetadata) :
    Event → Prop
  | registered (event : Event) (hc : event.concerns x = true) (ha : node.status = .ALIVE)
    (hcount : node.failedAttempts = 0) : Touched timeout x old node event
  | received {event : Event} (hc : event.concerns x = true) (he : ¬event.Enrols x)
    (before : NodeMetadata) (hstatus : before.status = .ALIVE ∨
      ∃ known, old = some known ∧ before.status = known.status) (now : Time)
    (metrics : HeartbeatMetrics) (hnode : node = before.receive now metrics) :
    Touched timeout x old node event
  | scanned (now : Time) (before : NodeMetadata) (hold : old = some before)
    (hnode : node = before.scan timeout now) :
    Touched timeout x old node (.checkHeartbeatTimeouts now)
  | unreached {event : Event} (hr : event.reaches x = false) (hold : old = some node) :
    Touched timeout x old node event

theorem recordStep_touched {timeout : Int} {x : String} {old : Option NodeMetadata}
    {node : NodeMetadata} {event : Event} (h : recordStep timeout x old event = some node) :
    Touched timeout x old node event := by
  by_cases hr : event.reaches x = false
  · rw [recordStep_unreached hr] at h
    exact .unreached hr h
  rw [Bool.not_eq_false] at hr
  cases event with
  | registerNode now nodeId host port zone cacheCapacity =>
    rw [recordStep, if_pos (of_decide_eq_true hr)] at h
    cases Option.some.inj h
    exact .registered _ hr rfl rfl
  | deregisterNode now nodeId =>
    rw [recordStep, if_pos (of_decide_eq_true hr)] at h
    cases h
  | processHeartbeat now nodeId metrics =>
    rw [recordStep, if_pos (of_decide_eq_true hr)] at h
    obtain ⟨before, hold, heq⟩ := Option.map_eq_some_iff.mp h
    exact .received hr id before (.inr ⟨before, hold, rfl⟩) now metrics heq.symm
  | heartbeat registeredAt now payload =>
    rw [recordStep, if_pos (of_decide_eq_true hr)] at h
    refine .received hr id (contacted registeredAt payload old) ?_ now _ (Option.some.inj h).symm
    cases old with
    | none => exact .inl rfl
    | some known => exact .inr ⟨known, rfl, rfl⟩
  | checkHeartbeatTimeouts now =>
    obtain ⟨before, hold, heq⟩ := Option.map_eq_some_iff.mp h
    exact .scanned now before hold heq.symm

theorem detected_run (history : List Event) (x : String) (node : NodeMetadata)
    (hg : ((init timeout replicationFactor).run _hash history).nodes.get? x = some node) :
    Detected (lateScans timeout x history) node := by
  induction history using List.reverseRecOn generalizing node with
  | nil => cases hg
  | append_singleton past event ih =>
    have htimeout := run_timeout _hash (init timeout replicationFactor) past
    have hstep := get?_step _hash ((init timeout replicationFactor).run _hash past) event x
    rw [run, List.foldl_append] at hg
    rw [htimeout] at hstep
    cases recordStep_touched (hstep.symm.trans hg) with
    | registered _ hc ha hcount =>
      rw [lateScans_concerns hc]
      exact .inr ⟨by simp [ha], hcount, by decide⟩
    | received hc _ before _ now metrics hnode =>
      rw [lateScans_concerns hc, hnode]
      exact detected_receive now metrics before
    | scanned now before hold hnode =>
      rw [lateScans_scan _hash timeout replicationFactor hold, hnode]
      exact (ih before hold).scan
    | unreached hr hold =>
      rw [lateScans_other hr]
      exact ih node hold

theorem NeverDead.past {cm : ClusterManager} {past : List Event} {event : Event} {x : String}
    (h : NeverDead _hash cm (past ++ [event]) x) (he : ¬event.Enrols x) :
    NeverDead _hash cm past x := by
  intro before rest hsplit hrest
  apply h before (rest ++ [event])
  · rw [hsplit, List.append_assoc]
  · intro e hm
    rcases List.mem_append.mp hm with hm | hm
    · exact hrest e hm
    · have heq : e = event := by simpa using hm
      rw [heq]
      exact he

theorem unrevived_run (history : List Event) (x : String) (node : NodeMetadata)
    (hnever : NeverDead _hash (init timeout replicationFactor) history x)
    (hg : ((init timeout replicationFactor).run _hash history).nodes.get? x = some node) :
    Unrevived (lateScans timeout x history) node := by
  induction history using List.reverseRecOn generalizing node with
  | nil => cases hg
  | append_singleton past event ih =>
    have htimeout := run_timeout _hash (init timeout replicationFactor) past
    have hstep := get?_step _hash ((init timeout replicationFactor).run _hash past) event x
    rw [run, List.foldl_append] at hg
    rw [htimeout] at hstep
    -- the state before a call that keeps the registration counts as well
    have hbefore : ¬event.Enrols x → ∀ known,
        ((init timeout replicationFactor).run _hash past).nodes.get? x = some known →
          known.status ≠ .DEAD ∧ Unrevived (lateScans timeout x past) known := by
      intro he known hknown
      refine ⟨fun hd => ?_, ih known (hnever.past _hash he) hknown⟩
      exact hnever past [event] rfl (by simpa using he) ⟨known, hknown, hd⟩
    cases recordStep_touched (hstep.symm.trans hg) with
    | registered _ hc ha hcount =>
      rw [lateScans_concerns hc]
      exact ⟨by simp [ha], by simp [ha]⟩
    | received hc he before hstatus now metrics hnode =>
      rw [lateScans_concerns hc, hnode]
      have halive : (before.receive now metrics).status = .ALIVE := by
        obtain ha | ⟨known, hknown, heq⟩ := hstatus
        · exact receive_alive (by simp [ha]) (by simp [ha]) now metrics
        · obtain ⟨hd, hu⟩ := hbefore he known hknown
          exact receive_alive (heq ▸ hu.1) (heq ▸ hd) now metrics
      exact ⟨by simp [halive], by simp [halive]⟩
    | scanned now before hold hnode =>
      obtain ⟨hd, hu⟩ := hbefore id before hold
      rw [lateScans_scan _hash timeout replicationFactor hold, hnode]
      exact hu.scan hd
    | unreached hr hold =>
      have he : ¬event.Enrols x := by
        intro he
        cases event <;> simp [Event.Enrols, Event.reaches, Event.concerns] at he hr
        all_goals exact hr he
      rw [lateScans_other hr]
      exact (hbefore he node hold).2

theorem reportedDeaths_snoc (cm : ClusterManager) (x : String) (past : List Event)
    (event : Event) : reportedDeaths _hash cm x (past ++ [event]) =
      (reportStep _hash x (cm.run _hash past, reportedDeaths _hash cm x past) event).2 := by
  have hhom : past.foldl (step _hash) (cm, 0).1 = (past.foldl (reportStep _hash x) (cm, 0)).1 :=
    List.foldl_hom Prod.fst fun _ _ => rfl
  rw [reportedDeaths, List.foldl_append, List.foldl_cons, List.foldl_nil, run, hhom]
  rfl

/-- A silent period of a node is reported once it has lasted long enough, and only once. -/
theorem reportedDeaths_eq (history : List Event) (x : String) (node : NodeMetadata)
    (hg : ((init timeout replicationFactor).run _hash history).nodes.get? x = some node) :
    reportedDeaths _hash (init timeout replicationFactor) x history =
      if deadThreshold ≤ lateScans timeout x history then 1 else 0 := by
  induction history using List.reverseRecOn generalizing node with
  | nil => cases hg
  | append_singleton past event ih =>
    have htimeout := run_timeout _hash (init timeout replicationFactor) past
    have hstep := get?_step _hash ((init timeout replicationFactor).run _hash past) event x
    rw [run, List.foldl_append] at hg
    rw [htimeout] at hstep
    -- calls that concern the node start a new period
    have hfresh : event.concerns x = true →
        reportedDeaths _hash (init timeout replicationFactor) x (past ++ [event]) =
          if deadThreshold ≤ lateScans timeout x (past ++ [event]) then 1 else 0 := by
      intro hc
      rw [lateScans_concerns hc, reportedDeaths_snoc]
      cases event with
      | checkHeartbeatTimeouts now => cases hc
      | _ => exact if_pos hc
    cases recordStep_touched (hstep.symm.trans hg) with
    | registered _ hc _ _ => exact hfresh hc
    | received hc _ _ _ _ _ _ => exact hfresh hc
    | scanned now before hold _ =>
      have hdetected := detected_run _hash timeout replicationFactor past x before hold
      rw [lateScans_scan _hash timeout replicationFactor hold, reportedDeaths_snoc, reportStep,
        ih before hold]
      dsimp only
      rw [count_newly_dead _hash hold, htimeout]
      exact hdetected.deaths timeout now
    | unreached hr hold =>
      rw [lateScans_other hr, reportedDeaths_snoc, ← ih node hold]
      cases event with
      | checkHeartbeatTimeouts now => cases hr
      | _ =>
        refine if_neg ?_
        rw [Bool.not_eq_true]
        exact hr

/-- The status of a node is a function of the scans that found it late since its last
contact, each silent period is reported once, and nothing else reaches its record. -/
theorem failure_detection (history : List Event) (x : String) (node : NodeMetadata)
    (hg : ((init timeout replicationFactor).run _hash history).nodes.get? x = some node) :
    (node.status = .DEAD ↔ deadThreshold ≤ lateScans timeout x history) ∧
    (NeverDead _hash (init timeout replicationFactor) history x →
      (node.status = .SUSPECT ↔
        1 ≤ lateScans timeout x history ∧ lateScans timeout x history < deadThreshold) ∧
      (node.status = .ALIVE ↔ lateScans timeout x history = 0)) ∧
    (∀ now, x ∈ (((init timeout replicationFactor).run _hash history).checkHeartbeatTimeouts
        _hash now).2 ↔
      lateScans timeout x history + 1 = deadThreshold ∧
        lateScans timeout x (history ++ [.checkHeartbeatTimeouts now]) = deadThreshold) ∧
    reportedDeaths _hash (init timeout replicationFactor) x history =
      (if deadThreshold ≤ lateScans timeout x history then 1 else 0) ∧
    ((init timeout replicationFactor).run _hash (history.filter (Event.reaches x))).nodes.get? x =
      some node := by
  have hdetected := detected_run _hash timeout replicationFactor history x node hg
  have htimeout := run_timeout _hash (init timeout replicationFactor) history
  have hdead : node.status = .DEAD ↔ deadThreshold ≤ lateScans timeout x history := by
    obtain ⟨hd, hhigh⟩ | ⟨hd, _, hlow⟩ := hdetected
    · exact ⟨fun _ => hhigh, fun _ => hd⟩
    · exact ⟨fun h => absurd h hd, fun h => absurd h (by omega)⟩
  refine ⟨hdead, ?_, ?_, reportedDeaths_eq _hash timeout replicationFactor history x node hg,
    (get?_run_filter _hash _ history x).trans hg⟩
  · intro hnever
    obtain ⟨hr, halive⟩ := unrevived_run _hash timeout replicationFactor history x node hnever hg
    refine ⟨?_, halive⟩
    cases hs : node.status with
    | ALIVE =>
      have hzero := halive.mp hs
      simp [hzero]
    | SUSPECT =>
      have hpos : lateScans timeout x history ≠ 0 := fun h0 => by simp [halive.mpr h0] at hs
      have hlow : ¬deadThreshold ≤ lateScans timeout x history := fun h => by
        simp [hdead.mpr h] at hs
      simp only [true_iff]
      omega
    | DEAD =>
      have hhigh := hdead.mp hs
      simp only [reduceCtorEq, false_iff]
      omega
    | RECOVERED => exact absurd hs hr
  · intro now
    rw [lateScans_scan _hash timeout replicationFactor hg, ← hdetected.dies_iff,
      newly_dead_of_record _hash hg, htimeout]
    rfl

/-- Node `a` falls silent while node `b` keeps sending heartbeats. -/
def oneSilent : List Event :=
  [.registerNode 0 "a" "host-a" 1 "zone" 5, .registerNode 0 "b" "host-b" 2 "zone" 5,
    .checkHeartbeatTimeouts 11, .processHeartbeat 12 "b" ⟨none, none, none, none⟩,
    .checkHeartbeatTimeouts 14, .checkHeartbeatTimeouts 17]

theorem failure_detection_one_silent :
    ((init 10 3).run (fun _ => 0) oneSilent).HasStatus "a" .DEAD := by
  have hg : ((init 10 3).run (fun _ => 0) oneSilent).nodes.get? "a" = some
      { nodeId := "a", host := "host-a", port := 1, zone := "zone", lastHeartbeat := 0,
        failedAttempts := 3, status := .DEAD } := by decide +kernel
  exact ⟨_, hg, (failure_detection (fun _ => 0) 10 3 oneSilent "a" _ hg).1.mpr
    (by decide +kernel)⟩

end runs

end ClusterManager

end SelfHealingCache
