import SelfHealingCache.ClusterRecords
import SelfHealingCache.GatewaySteps

namespace SelfHealingCache

namespace CircuitBreaker

/-- As many failures in a row as the threshold says open a circuit. -/
theorem opened_by_failures {cb : CircuitBreaker} {n : Nat} (hn : 1 ≤ n)
    (hthreshold : cb.failureThreshold ≤ n) (now : Time) (nodeId : String) :
    (cb.run (List.replicate n (.recordFailure now nodeId))).OpenSince now nodeId := by
  have hcount : ∀ m, ((cb.run (List.replicate m (.recordFailure now nodeId))).view nodeId).2 =
      (cb.view nodeId).2 + m := by
    intro m
    induction m with
    | zero => rfl
    | succ m ih =>
      rw [List.replicate_succ', run_snoc, view_fail]
      dsimp only
      rw [ih]
      omega
  obtain ⟨m, hm⟩ : ∃ m, n = m + 1 := ⟨n - 1, by omega⟩
  rw [hm, List.replicate_succ', run_snoc]
  apply opened_by_failure
  rw [hcount, (run_config cb _).1]
  omega

/-- The failures that the detection loop records: every node it reports is refused. -/
theorem refused_after_failures {cb : CircuitBreaker} (hthreshold : 1 ≤ cb.failureThreshold)
    (hcooldown : 0 < cb.timeoutS) (now : Time) {newlyDead : List String} {x : String}
    (hx : x ∈ newlyDead) : ((cb.run (newlyDead.flatMap fun n => List.replicate
      cb.failureThreshold.toNat (.recordFailure now n))).isAvailable now x).2 = false := by
  obtain ⟨before, after, hsplit⟩ := List.append_of_mem hx
  have hshort : now - now < (cb.timeoutS : ℚ) := by
    rw [sub_self]
    exact_mod_cast hcooldown
  have hopened : ((cb.run (before.flatMap fun n => List.replicate cb.failureThreshold.toNat
      (.recordFailure now n))).run (List.replicate cb.failureThreshold.toNat
        (.recordFailure now x))).OpenSince now x :=
    opened_by_failures (by omega) (by rw [(run_config cb _).1]; omega) now x
  -- the failures of the nodes after it come at the same time
  have hrest : ∀ call ∈ after.flatMap fun n => List.replicate cb.failureThreshold.toNat
      (Call.recordFailure now n), ∃ m, call = .recordFailure now m := by
    intro call hcall
    obtain ⟨m, _, hm⟩ := List.mem_flatMap.mp hcall
    exact ⟨m, List.eq_of_mem_replicate hm⟩
  have hsuccess : ∀ s, Call.recordSuccess s x ∉ after.flatMap fun n =>
      List.replicate cb.failureThreshold.toNat (.recordFailure now n) := by
    intro s hs
    obtain ⟨m, hm⟩ := hrest _ hs
    cases hm
  have hkept := hopened.stays (by rw [(run_config _ _).2, (run_config cb _).2]; exact hshort)
    hsuccess (by
      intro call hcall
      obtain ⟨m, hm⟩ := hrest call hcall
      rw [hm]
      exact ⟨le_refl now, le_refl now⟩)
  rw [hsplit, List.flatMap_append, List.flatMap_cons, run_append, run_append]
  apply hkept.refused
  rw [(run_config _ _).2, (run_config _ _).2, (run_config cb _).2]
  exact hshort

end CircuitBreaker

namespace Gateway

section detection

variable (_hash : String → Nat)

/-- The scan at `now` will declare the node DEAD. -/
def Dies (g : Gateway) (now : Time) (nodeId : String) : Prop :=
  ∃ node, g.clusterManager.nodes.get? nodeId = some node ∧
    node.Dies g.clusterManager.heartbeatTimeoutS now

/-- The node is registered and DEAD. -/
def IsDead (g : Gateway) (nodeId : String) : Prop := g.clusterManager.HasStatus nodeId .DEAD

def Refused (g : Gateway) (now : Time) (nodeId : String) : Prop :=
  (g.circuitBreaker.isAvailable now nodeId).2 = false

/-- What breaker and failure detector should agree on right after an event. -/
def AgreeAfter (g g' : Gateway) : Event → Prop
  | .failureDetection scannedAt now =>
    ∀ n ∈ (g.clusterManager.checkHeartbeatTimeouts _hash scannedAt).2, g'.Refused now n
  | .healthCheck now =>
    ∀ n ∈ (g.clusterManager.checkHeartbeatTimeouts _hash now).2, g'.Refused now n
  | .heartbeat _ _ payload =>
    g.IsDead payload.nodeId → (g'.circuitBreaker.view payload.nodeId).1 = .CLOSED
  | _ => True

/-- The same in the state before the event, where the event does not see to it. -/
def AgreeBefore (failureThreshold : Int) (g : Gateway) : Event → Prop
  | .failureDetection scannedAt now =>
    1 ≤ failureThreshold ∨ ∀ n, g.Dies scannedAt n → g.Refused now n
  | .healthCheck now => ∀ n, g.Dies now n → g.Refused now n
  | .heartbeat _ _ payload =>
    g.IsDead payload.nodeId → (g.circuitBreaker.view payload.nodeId).1 = .CLOSED
  | _ => True

theorem agree_step {g g' : Gateway} {event : Event} (hcooldown : 0 < g.circuitBreaker.timeoutS)
    (hstep : g.step _hash event = some g') :
    g.AgreeAfter _hash g' event ↔ g.AgreeBefore g.circuitBreaker.failureThreshold event := by
  have hbreaker := step_breaker _hash hstep
  cases event with
  | failureDetection scannedAt now =>
    by_cases hthreshold : 1 ≤ g.circuitBreaker.failureThreshold
    · refine iff_of_true (fun n hn => ?_) (Or.inl hthreshold)
      rw [Refused, hbreaker]
      exact CircuitBreaker.refused_after_failures hthreshold hcooldown now hn
    · have hnone : g.circuitBreaker.failureThreshold.toNat = 0 := by omega
      have hsame : g'.circuitBreaker = g.circuitBreaker := by
        have hcalls : g.breakerCalls _hash (.failureDetection scannedAt now) = [] := by
          rw [breakerCalls, hnone]
          exact List.flatMap_eq_nil_iff.mpr fun _ _ => rfl
        rw [hbreaker, hcalls]
        rfl
      refine Iff.trans ?_ (or_iff_right hthreshold).symm
      unfold AgreeAfter Refused
      rw [hsame]
      exact forall_congr' fun n => imp_congr_left (ClusterManager.mem_newly_dead _hash)
  | healthCheck now =>
    have hsame : g'.circuitBreaker = g.circuitBreaker := hbreaker
    unfold AgreeAfter AgreeBefore Refused
    rw [hsame]
    exact forall_congr' fun n => imp_congr_left (ClusterManager.mem_newly_dead _hash)
  | heartbeat registeredAt now payload =>
    have hsame : g'.circuitBreaker = g.circuitBreaker := hbreaker
    unfold AgreeAfter AgreeBefore
    rw [hsame]
  | _ => exact Iff.rfl

/-- Failure detector and breaker agree after every event of a run exactly when every scan that
is not the loop's finds its victims refused, and every reviving heartbeat a CLOSED circuit. -/
theorem detector_agrees_iff (g₀ : Gateway) (hcooldown : 0 < g₀.circuitBreaker.timeoutS)
    (events : List Event) :
    (∀ past event rest g g', events = past ++ event :: rest →
      runs (step _hash) g₀ past = some g → g.step _hash event = some g' →
      g.AgreeAfter _hash g' event) ↔
    ∀ past event rest g g', events = past ++ event :: rest →
      runs (step _hash) g₀ past = some g → g.step _hash event = some g' →
      g.AgreeBefore g₀.circuitBreaker.failureThreshold event := by
  refine forall_congr' fun past => forall_congr' fun event => forall_congr' fun rest =>
    forall_congr' fun g => forall_congr' fun g' => imp_congr_right fun _ => forall_congr' fun hg =>
    forall_congr' fun hstep => ?_
  obtain ⟨hthreshold, htimeout⟩ := runs_config _hash hg
  rw [← hthreshold]
  exact agree_step _hash (by rw [htimeout]; exact hcooldown) hstep

end detection

/-- A node that sends one heartbeat, and three scans that miss it. -/
def silentNode (scan : Time → Event) : List Event := [
  .heartbeat 0 0 ⟨"a", "h", 1, "z", "alive", 0, 5, 0, 0, 0, 0⟩, scan 11, scan 14, scan 17]

theorem detector_agrees_background : ∃ g g',
    runs (step fun _ => 0) (init 10 3 5 30)
      ((silentNode fun now => .failureDetection now now).take 3) = some g ∧
    g.step (fun _ => 0) (.failureDetection 17 17) = some g' ∧
    (g.clusterManager.checkHeartbeatTimeouts (fun _ => 0) 17).2 = ["a"] ∧
    g.AgreeAfter (fun _ => 0) g' (.failureDetection 17 17) := by
  refine ⟨_, _, rfl, rfl, by decide +kernel, ?_⟩
  refine (detector_agrees_iff (fun _ => 0) (init 10 3 5 30) (by decide)
    (silentNode fun now => .failureDetection now now)).mpr ?_
    ((silentNode fun now => .failureDetection now now).take 3) _ [] _ _ rfl rfl rfl
  intro past event rest g g' hsplit hrun _
  obtain ⟨hpast, hget⟩ := split_at hsplit
  generalize past.length = n at hpast hget
  rcases n with _ | _ | _ | _ | n
  · rw [hpast, List.take_zero] at hrun
    cases Option.some.inj hrun
    cases Option.some.inj hget
    intro ⟨node, hnode, _⟩
    cases hnode
  · cases Option.some.inj hget
    exact Or.inl (by decide)
  · cases Option.some.inj hget
    exact Or.inl (by decide)
  · cases Option.some.inj hget
    exact Or.inl (by decide)
  · simp [silentNode] at hget

/-- A node declared DEAD by a scan of the health check stays available. -/
theorem dead_node_available :
    ¬∀ past event rest g g', silentNode .healthCheck = past ++ event :: rest →
      runs (step fun _ => 0) (init 10 3 5 30) past = some g → g.step (fun _ => 0) event = some g' →
      g.AgreeAfter (fun _ => 0) g' event := by
  intro h
  have hstate : (runs (step fun _ => 0) (init 10 3 5 30) ((silentNode .healthCheck).take 3)).map
      (fun g => ((g.clusterManager.checkHeartbeatTimeouts (fun _ => 0) 17).2,
        ((g.healthCheck (fun _ => 0) 17).circuitBreaker.isAvailable 17 "a").2)) =
      some (["a"], true) := by
    decide +kernel
  obtain ⟨g, hrun, hg⟩ := Option.map_eq_some_iff.mp hstate
  rw [Prod.mk.injEq] at hg
  have hrefused := h _ (.healthCheck 17) [] g (g.healthCheck (fun _ => 0) 17) rfl hrun rfl "a"
    (by rw [hg.1]; exact List.mem_singleton_self "a")
  rw [Refused, hg.2] at hrefused
  cases hrefused

end Gateway

end SelfHealingCache
