import Mathlib.Algebra.Order.Archimedean.Basic
import Mathlib.Data.Finset.Order
import SelfHealingCache.GatewayReads
import SelfHealingCache.MovingAverage

namespace SelfHealingCache

namespace Gateway

/-- The latency that an event reports for the node. -/
def Event.measurement (n : String) : Event → Option ℚ
  | .updateLatency nodeId latencyMs => if nodeId = n then some latencyMs else none
  | _ => none

/-- The latencies measured for the node, in order. -/
def measured (n : String) (events : List Event) : List ℚ := events.filterMap (Event.measurement n)

theorem measured_snoc (n : String) (events : List Event) (event : Event) :
    measured n (events ++ [event]) = measured n events ++ (event.measurement n).toList := by
  rw [measured, List.filterMap_append, measured]
  cases h : event.measurement n <;> simp [h]

theorem updateLatency_get? (zr : ZoneRouter) (nodeId : String) (latencyMs : ℚ) (n : String) :
    (zr.updateLatency nodeId latencyMs).latencyMap.get? n =
      if nodeId = n then averaged (3 / 10) (zr.latencyMap.get? n) latencyMs
      else zr.latencyMap.get? n := by
  unfold ZoneRouter.updateLatency
  by_cases hn : nodeId = n
  · subst hn
    rw [if_pos rfl]
    split
    next h => rw [Dict.get?_set_self, h, averaged]
    next old h => rw [Dict.get?_set_self, h, averaged]
  · rw [if_neg hn]
    split
    next => rw [Dict.get?_set, if_neg (Ne.symm hn)]
    next => rw [Dict.get?_set, if_neg (Ne.symm hn)]

theorem reply_latencyMap (g : Gateway) (now : Time) (call : PendingCall) (outcome : Outcome) :
    (g.reply now call outcome).1.zoneRouter.latencyMap = g.zoneRouter.latencyMap := by
  unfold reply
  dsimp only
  split
  next => rfl
  next resp _ =>
    split
    next => rfl
    next =>
      dsimp only
      unfold putKeyResponse
      split
      next => rfl
      next => split <;> rfl
    next => rfl

section latency

variable {_hash : String → Nat}

theorem callPrimary_zoneRouter (g : Gateway) (now : Time) (handler : Handler) (method : Method)
    (key : String) (xClientZone : Option String) (body : Option Json) :
    (g.callPrimary _hash now handler method key xClientZone body).1.zoneRouter =
      g.zoneRouter := by
  unfold callPrimary
  dsimp only
  split
  next => rfl
  next =>
    split
    next => exact (send_fields _ _ _ _).2.2
    next => rfl

/-- Only a measurement changes the estimate of a node. -/
theorem step_latency {g g' : Gateway} {event : Event} (h : g.step _hash event = some g')
    (n : String) : g'.zoneRouter.latencyMap.get? n =
      average (3 / 10) (g.zoneRouter.latencyMap.get? n) (event.measurement n).toList := by
  cases event with
  | updateLatency nodeId latencyMs =>
    cases Option.some.inj h
    rw [updateLatency_get?, Event.measurement]
    split <;> rfl
  | getKey now key xClientZone =>
    cases Option.some.inj h
    rcases getKey_cases _hash g now key xClientZone with ⟨_, _, _, hsent⟩ | ⟨_, _, _, hsent⟩
    · rw [hsent]
      rfl
    · rw [hsent, (send_fields _ _ _ _).2.2]
      rfl
  | putKey now key request xClientZone =>
    cases Option.some.inj h
    rw [putKey, callPrimary_zoneRouter]
    rfl
  | deleteKey now key =>
    cases Option.some.inj h
    rw [deleteKey, callPrimary_zoneRouter]
    rfl
  | reply now call outcome =>
    rw [step] at h
    split at h
    next =>
      cases Option.some.inj h
      rw [reply_latencyMap]
      rfl
    next => cases h
  | heartbeat registeredAt now payload =>
    cases Option.some.inj h
    rfl
  | registerNode now nodeId host port zone cacheCapacity =>
    cases Option.some.inj h
    rfl
  | failureDetection scannedAt now =>
    cases Option.some.inj h
    rfl
  | healthCheck now =>
    cases Option.some.inj h
    rfl
  | cleanupExpiredPins now =>
    cases Option.some.inj h
    rfl

theorem latency_runs {g g' : Gateway} {events : List Event}
    (h : runs (step _hash) g events = some g') (n : String) :
    g'.zoneRouter.latencyMap.get? n =
      average (3 / 10) (g.zoneRouter.latencyMap.get? n) (measured n events) := by
  refine runs_history (I := fun past (s : Gateway) => s.zoneRouter.latencyMap.get? n =
    average (3 / 10) (g.zoneRouter.latencyMap.get? n) (measured n past)) rfl ?_ h
  intro past event rest mid s' _ _ hmid hstep
  rw [step_latency hstep n, hmid, measured_snoc, average, average, average, List.foldl_append]

/-- All estimates lie in one range. -/
theorem exists_range (zr : ZoneRouter) :
    ∃ B : ℚ, 0 ≤ B ∧ ∀ n e, zr.latencyMap.get? n = some e → -B ≤ e ∧ e ≤ B := by
  obtain ⟨B, hB⟩ := Finset.exists_le (zr.latencyMap.values.map fun e => |e|).toFinset
  refine ⟨max B 0, le_max_right B 0, fun n e he => ?_⟩
  have hmem : |e| ∈ (zr.latencyMap.values.map fun e => |e|).toFinset :=
    List.mem_toFinset.mpr (List.mem_map_of_mem (Dict.mem_values_iff.mpr ⟨n, he⟩))
  exact abs_le.mp ((hB _ hmem).trans (le_max_left B 0))

/-- From some number of measurements on the start no longer matters. -/
theorem exists_settled {gap width : ℚ} (hgap : 0 ≤ gap) (hwidth : 0 < width) :
    ∃ k, ∀ j, k ≤ j → (1 - 3 / 10 : ℚ) ^ j * gap < width := by
  obtain ⟨k, hk⟩ := exists_pow_lt_of_lt_one (div_pos hwidth (by linarith : 0 < gap + 1))
    (by norm_num : (1 - 3 / 10 : ℚ) < 1)
  refine ⟨k, fun j hj => ?_⟩
  have hpow : (1 - 3 / 10 : ℚ) ^ j ≤ (1 - 3 / 10) ^ k :=
    pow_le_pow_of_le_one (by norm_num) (by norm_num) hj
  have hpos : 0 < (1 - 3 / 10 : ℚ) ^ j := pow_pos (by norm_num) j
  calc (1 - 3 / 10 : ℚ) ^ j * gap ≤ (1 - 3 / 10 : ℚ) ^ j * (gap + 1) :=
        mul_le_mul_of_nonneg_left (by linarith) hpos.le
    _ < width / (gap + 1) * (gap + 1) :=
        mul_lt_mul_of_pos_right (hpow.trans_lt hk) (by linarith)
    _ = width := div_mul_cancel₀ width (by linarith)

/-- The estimate of a node never leaves the range of its measurements, and whatever was
estimated before, after finitely many measurements reads go to the nearest replica. -/
theorem reads_settle {heartbeatTimeoutS replicationFactor failureThreshold timeoutS : Int}
    {past : List Event} {g : Gateway} (hrun : runs (step _hash)
      (init heartbeatTimeoutS replicationFactor failureThreshold timeoutS) past = some g) :
    (∀ n lo hi, (∀ x ∈ measured n past, lo ≤ x ∧ x ≤ hi) →
      if measured n past = [] then g.zoneRouter.latency n = 100
      else lo ≤ g.zoneRouter.latency n ∧ g.zoneRouter.latency n ≤ hi) ∧
    ∀ lo hi : ℚ, hi < lo → ∃ k, ∀ recent g', runs (step _hash) g recent = some g' →
      ∀ now key xClientZone n, n ∈ g'.choices _hash now key →
        (∀ x ∈ measured n recent, x ≤ hi) →
        (∀ m ∈ g'.choices _hash now key, k ≤ (measured m recent).length ∧
          (m ≠ n → ∀ x ∈ measured m recent, lo ≤ x)) →
        g'.contacted _hash now key xClientZone = some n := by
  have hunit : (0 : ℚ) ≤ 3 / 10 ∧ (3 / 10 : ℚ) ≤ 1 := by norm_num
  constructor
  · intro n lo hi hrange
    have hestimate := latency_runs hrun n
    rw [show (init heartbeatTimeoutS replicationFactor failureThreshold
      timeoutS).zoneRouter.latencyMap.get? n = none from rfl] at hestimate
    rw [ZoneRouter.latency, hestimate]
    split
    next hnone =>
      rw [hnone]
      rfl
    next hsome =>
      obtain ⟨e, he⟩ : ∃ e, average (3 / 10) none (measured n past) = some e :=
        average_exists _ (Or.inl hsome)
      have hle := average_le hunit.1 hunit.2 le_rfl (by simp) (fun x hx => (hrange x hx).2) he
      have hge := le_average hunit.1 hunit.2 le_rfl (by simp) (fun x hx => (hrange x hx).1) he
      rw [he, Option.getD_some]
      simp only [mul_zero, add_zero, sub_zero] at hle hge
      exact ⟨hge, hle⟩
  · intro lo hi hlt
    obtain ⟨B, hB, hestimates⟩ := exists_range g.zoneRouter
    have hgap : 0 ≤ B + |lo| + |hi| := by positivity
    obtain ⟨k, hk⟩ := exists_settled hgap (half_pos (sub_pos.mpr hlt))
    refine ⟨k + 1, fun recent g' hrecent now key xClientZone n hn hnear hothers => ?_⟩
    have hestimate : ∀ m ∈ g'.choices _hash now key, ∃ e, g'.zoneRouter.latency m = e ∧
        average (3 / 10) (g.zoneRouter.latencyMap.get? m) (measured m recent) = some e := by
      intro m hm
      have hne : measured m recent ≠ [] :=
        List.ne_nil_of_length_pos (Nat.lt_of_lt_of_le (Nat.succ_pos k) (hothers m hm).1)
      obtain ⟨e, he⟩ : ∃ e, average (3 / 10) (g.zoneRouter.latencyMap.get? m)
          (measured m recent) = some e := average_exists _ (Or.inl hne)
      exact ⟨e, by rw [ZoneRouter.latency, latency_runs hrecent m, he, Option.getD_some], he⟩
    refine (contacted_iff _hash).mpr ⟨?_, hn, fun m hm => ?_⟩
    · have hall : runs (step _hash) (init heartbeatTimeoutS replicationFactor
          failureThreshold timeoutS) (past ++ recent) = some g' := by
        rw [runs_append, hrun, Option.bind_some, hrecent]
      have hg' : g'.clusterManager.RoutingInv :=
        routingInv_runs _hash (ClusterManager.routingInv_init _ _) hall
      exact registered_of_replica _hash hg' ((mem_choices _hash).mp hn).1
    · by_cases hmn : m = n
      · rw [hmn]
        exact Or.inr ⟨rfl, le_rfl⟩
      · obtain ⟨e, hlatency, he⟩ := hestimate n hn
        obtain ⟨e', hlatency', he'⟩ := hestimate m hm
        have hle := average_le hunit.1 hunit.2 hgap (fun e₀ h₀ => by
          linarith [(hestimates n e₀ h₀).2, neg_abs_le hi, abs_nonneg lo]) hnear he
        have hge := le_average hunit.1 hunit.2 hgap (fun e₀ h₀ => by
          linarith [(hestimates m e₀ h₀).1, le_abs_self lo, abs_nonneg hi])
          ((hothers m hm).2 hmn) he'
        have hsmall := hk _ (Nat.le_of_succ_le (hothers n hn).1)
        have hsmall' := hk _ (Nat.le_of_succ_le (hothers m hm).1)
        left
        rw [hlatency, hlatency']
        linarith

/-- Two nodes, one of them measured twice. -/
def measuredTwice : List Event :=
  [.registerNode 0 "a" "h" 1 "z" 5, .registerNode 0 "b" "h" 2 "z" 5,
    .updateLatency "b" 40, .updateLatency "b" 10]

theorem reads_settle_measured_twice : ∃ g,
    runs (step fun _ => 0) (init 10 3 5 30) measuredTwice = some g ∧
    g.zoneRouter.latency "a" = 100 ∧
    (10 ≤ g.zoneRouter.latency "b" ∧ g.zoneRouter.latency "b" ≤ 40) ∧
    ∃ k, ∀ recent g', runs (step fun _ => 0) g recent = some g' →
      ∀ now xClientZone, "b" ∈ g'.choices (fun _ => 0) now "k" →
        (∀ x ∈ measured "b" recent, x ≤ 40) →
        (∀ m ∈ g'.choices (fun _ => 0) now "k", k ≤ (measured m recent).length ∧
          (m ≠ "b" → ∀ x ∈ measured m recent, 90 ≤ x)) →
        g'.contacted (fun _ => 0) now "k" xClientZone = some "b" := by
  obtain ⟨g, hrun⟩ := Option.isSome_iff_exists.mp
    (show (runs (step fun _ => 0) (init 10 3 5 30) measuredTwice).isSome from by decide +kernel)
  have hb : measured "b" measuredTwice = [40, 10] := by decide +kernel
  obtain ⟨hrange, hsettle⟩ := reads_settle hrun
  obtain ⟨k, hk⟩ := hsettle 90 40 (by norm_num)
  refine ⟨g, hrun, hrange "a" 0 0 ?_, ?_, k, fun recent g' hrecent now xClientZone =>
    hk recent g' hrecent now "k" xClientZone "b"⟩
  · intro x hx
    rw [show measured "a" measuredTwice = [] from by decide +kernel] at hx
    cases hx
  · have hmeasured := hrange "b" 10 40
    rw [hb] at hmeasured
    exact hmeasured (by decide +kernel)

end latency

end Gateway

end SelfHealingCache
