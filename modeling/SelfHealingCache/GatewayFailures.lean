import SelfHealingCache.GatewaySteps

namespace SelfHealingCache

/-- A response that does not report a failure of the node. -/
def Outcome.succeeded : Outcome → Bool
  | .response resp => resp.statusCode < 500
  | .error _ => false

/-- The ways for a call to end that `call_node` provides for. -/
def Outcome.Handled : Outcome → Prop
  | .response _ => True
  | .error e => e = .ConnectError ∨ e.TimeoutException = true

/-- What the breaker should be told about a call. -/
def Outcome.record (outcome : Outcome) (now : Time) (nodeId : String) : CircuitBreaker.Call :=
  if outcome.succeeded then .recordSuccess now nodeId else .recordFailure now nodeId

namespace CircuitBreaker

/-- A recorded failure is counted. -/
theorem count_fail (cb : CircuitBreaker) (now : Time) (nodeId : String) :
    ((cb.step (.recordFailure now nodeId)).view nodeId).2 = (cb.view nodeId).2 + 1 := by
  rw [view_fail]

theorem step_fail_ne (cb : CircuitBreaker) (now : Time) (nodeId : String) :
    cb.step (.recordFailure now nodeId) ≠ cb := by
  intro h
  have hcount := count_fail cb now nodeId
  rw [h] at hcount
  omega

/-- A failure that leaves the circuit closed has not reached the threshold. -/
theorem count_lt_of_not_open {cb : CircuitBreaker} {now : Time} {nodeId : String}
    (h : ((cb.step (.recordFailure now nodeId)).view nodeId).1 ≠ .OPEN) :
    (((cb.view nodeId).2 + 1 : Nat) : Int) < cb.failureThreshold := by
  rw [view_fail] at h
  dsimp only at h
  by_contra hge
  split at h
  next => exact h rfl
  next hn =>
    have hopen : (cb.view nodeId).1 = .OPEN := by
      by_contra hne
      exact hn ⟨by omega, hne⟩
    exact h hopen

/-- Recorded failures never lower a count. -/
theorem count_le_fails (nodeId : String) {calls : List Call}
    (h : ∀ call ∈ calls, ∃ now m, call = .recordFailure now m) (cb : CircuitBreaker) :
    (cb.view nodeId).2 ≤ ((cb.run calls).view nodeId).2 := by
  induction calls generalizing cb with
  | nil => exact le_refl _
  | cons call calls ih =>
    obtain ⟨now, m, hcall⟩ := h call List.mem_cons_self
    have hrest := ih (fun c hc => h c (List.mem_cons_of_mem call hc)) (cb.step call)
    refine le_trans ?_ hrest
    rw [hcall]
    by_cases hm : nodeId = m
    · rw [← hm, count_fail]
      omega
    · have hview : (cb.step (.recordFailure now m)).view nodeId = cb.view nodeId :=
        view_step_other hm
      rw [hview]

/-- Questions about a circuit that is not OPEN change nothing. -/
theorem view_questions {cb : CircuitBreaker} {nodeId : String} {calls : List Call}
    (h : ∀ call ∈ calls, ∃ now m, call = .isAvailable now m)
    (hopen : (cb.view nodeId).1 ≠ .OPEN) :
    (cb.run calls).view nodeId = cb.view nodeId := by
  induction calls generalizing cb with
  | nil => rfl
  | cons call calls ih =>
    obtain ⟨now, m, hcall⟩ := h call List.mem_cons_self
    have hstep : (cb.step call).view nodeId = cb.view nodeId := by
      rw [hcall]
      by_cases hm : nodeId = m
      · rw [← hm, view_ask, if_neg fun hc => hopen hc.opened]
      · exact view_step_other (by exact hm)
    have hrest : ((cb.step call).run calls).view nodeId = (cb.step call).view nodeId :=
      ih (fun c hc => h c (List.mem_cons_of_mem call hc)) (by rw [hstep]; exact hopen)
    exact hrest.trans hstep

end CircuitBreaker

namespace Gateway

/-- The event is the end of a call to the node. -/
def Event.ends (nodeId : String) : Event → Bool
  | .reply _ call _ => call.nodeId = nodeId
  | _ => false

section failures

variable (_hash : String → Nat)

/-- The end of every call is recorded once, as what it is. -/
def OutcomesCounted (g₀ : Gateway) (events : List Event) : Prop :=
  ∀ past now call outcome rest g, events = past ++ .reply now call outcome :: rest →
    runs (step _hash) g₀ past = some g →
    (g.reply now call outcome).1.circuitBreaker =
      g.circuitBreaker.step (outcome.record now call.nodeId)

/-- A node whose calls all fail is cut off after as many of them as the threshold says. -/
def CutOff (g₀ : Gateway) (events : List Event) : Prop :=
  ∀ past recent rest nodeId, events = past ++ recent ++ rest →
    (∀ now call outcome, .reply now call outcome ∈ recent → call.nodeId = nodeId →
      outcome.succeeded = false) →
    max 1 g₀.circuitBreaker.failureThreshold ≤ recent.countP (Event.ends nodeId) →
    ∃ p q g, recent = p ++ q ∧ runs (step _hash) g₀ (past ++ p) = some g ∧
      p.countP (Event.ends nodeId) ≤ max 1 g₀.circuitBreaker.failureThreshold ∧
      (g.circuitBreaker.view nodeId).1 = .OPEN

theorem reply_breaker_of_handled {g : Gateway} {outcome : Outcome} (h : outcome.Handled)
    (now : Time) (call : PendingCall) : (g.reply now call outcome).1.circuitBreaker =
      g.circuitBreaker.step (outcome.record now call.nodeId) := by
  rw [(reply_fields g now call outcome).2.1, callNodeFinish_breaker, Outcome.record]
  cases outcome with
  | response resp =>
    by_cases hs : 500 ≤ resp.statusCode
    · have hfailed : Outcome.succeeded (.response resp) = false := by
        simp only [Outcome.succeeded, decide_eq_false_iff_not]
        omega
      rw [hfailed]
      dsimp only
      rw [if_pos hs]
      rfl
    · have hsucceeded : Outcome.succeeded (.response resp) = true := by
        simp only [Outcome.succeeded, decide_eq_true_eq]
        omega
      rw [hsucceeded]
      dsimp only
      rw [if_neg hs]
      rfl
  | error e =>
    have hcaught : e = .ConnectError ∨ e.TimeoutException = true := h
    dsimp only
    rw [if_pos hcaught]
    rfl

theorem reply_breaker_of_not_handled {g : Gateway} {outcome : Outcome} (h : ¬outcome.Handled)
    (now : Time) (call : PendingCall) :
    (g.reply now call outcome).1.circuitBreaker = g.circuitBreaker ∧
      outcome.record now call.nodeId = .recordFailure now call.nodeId := by
  rw [(reply_fields g now call outcome).2.1, callNodeFinish_breaker]
  cases outcome with
  | response resp => exact absurd trivial h
  | error e =>
    have hmissed : ¬(e = .ConnectError ∨ e.TimeoutException = true) := h
    dsimp only
    rw [if_neg hmissed]
    exact ⟨rfl, rfl⟩

/-- The end of a call is recorded as what it is exactly when `call_node` provides for it. -/
theorem reply_counted_iff {g : Gateway} {now : Time} {call : PendingCall} {outcome : Outcome} :
    (g.reply now call outcome).1.circuitBreaker =
      g.circuitBreaker.step (outcome.record now call.nodeId) ↔ outcome.Handled := by
  constructor
  · intro h
    by_contra hn
    obtain ⟨hsame, hrecord⟩ := reply_breaker_of_not_handled hn now call (g := g)
    rw [hsame, hrecord] at h
    exact CircuitBreaker.step_fail_ne g.circuitBreaker now call.nodeId h.symm
  · exact fun h => reply_breaker_of_handled h now call

/-- Between two ends of calls to a node, a circuit that does not open loses no failure. -/
theorem count_le_step {g g' : Gateway} {event : Event} {nodeId : String}
    (hstep : g.step _hash event = some g') (hevent : event.ends nodeId = false)
    (hopen : (g.circuitBreaker.view nodeId).1 ≠ .OPEN) :
    (g.circuitBreaker.view nodeId).2 ≤ (g'.circuitBreaker.view nodeId).2 := by
  have hquiet : ∀ calls, g'.circuitBreaker = g.circuitBreaker.run calls →
      (∀ call ∈ calls, ∃ now m, call = .isAvailable now m) →
      (g.circuitBreaker.view nodeId).2 ≤ (g'.circuitBreaker.view nodeId).2 := by
    intro calls hrun hcalls
    rw [hrun, CircuitBreaker.view_questions hcalls hopen]
  have hbreaker := step_breaker _hash hstep
  cases event with
  | heartbeat registeredAt now payload => exact hquiet [] hbreaker (by simp)
  | registerNode now nodeId host port zone cacheCapacity => exact hquiet [] hbreaker (by simp)
  | healthCheck now => exact hquiet [] hbreaker (by simp)
  | updateLatency nodeId latencyMs => exact hquiet [] hbreaker (by simp)
  | cleanupExpiredPins now => exact hquiet [] hbreaker (by simp)
  | failureDetection scannedAt now =>
    rw [hbreaker]
    refine CircuitBreaker.count_le_fails nodeId ?_ g.circuitBreaker
    intro call hcall
    obtain ⟨m, _, hm⟩ := List.mem_flatMap.mp hcall
    exact ⟨now, m, List.eq_of_mem_replicate hm⟩
  | getKey now key xClientZone =>
    refine hquiet _ hbreaker fun call hcall => ?_
    obtain ⟨m, _, hm⟩ := List.mem_map.mp hcall
    exact ⟨now, m, hm.symm⟩
  | putKey now key request xClientZone =>
    refine hquiet _ hbreaker fun call hcall => ?_
    rw [breakerCalls] at hcall
    split at hcall
    next => cases hcall
    next => exact ⟨now, _, List.eq_of_mem_singleton hcall⟩
  | deleteKey now key =>
    refine hquiet _ hbreaker fun call hcall => ?_
    rw [breakerCalls] at hcall
    split at hcall
    next => cases hcall
    next => exact ⟨now, _, List.eq_of_mem_singleton hcall⟩
  | reply now call outcome =>
    rw [step] at hstep
    split at hstep
    next =>
      cases Option.some.inj hstep
      have hother : nodeId ≠ call.nodeId := fun h => of_decide_eq_false hevent h.symm
      rw [(reply_fields g now call outcome).2.1, view_callNodeFinish hother]
    next => cases hstep

/-- A failed call that leaves the circuit closed is counted below the threshold. -/
theorem failed_reply_counts {g g' : Gateway} {now : Time} {call : PendingCall} {outcome : Outcome}
    (hstep : g.step _hash (.reply now call outcome) = some g') (hhandled : outcome.Handled)
    (hfailed : outcome.succeeded = false)
    (hopen : (g'.circuitBreaker.view call.nodeId).1 ≠ .OPEN) :
    (((g.circuitBreaker.view call.nodeId).2 + 1 : Nat) : Int) <
        g.circuitBreaker.failureThreshold ∧
      (g'.circuitBreaker.view call.nodeId).2 = (g.circuitBreaker.view call.nodeId).2 + 1 := by
  have hbreaker := reply_breaker_of_handled (g := g) hhandled now call
  rw [Outcome.record, hfailed, if_neg (by simp)] at hbreaker
  rw [step] at hstep
  split at hstep
  next =>
    cases Option.some.inj hstep
    rw [hbreaker] at hopen ⊢
    exact ⟨CircuitBreaker.count_lt_of_not_open hopen, CircuitBreaker.count_fail _ now call.nodeId⟩
  next => cases hstep

/-- While a node only fails, either its circuit has opened in time, or the circuit has counted
every failed call and the threshold is not reached. -/
theorem opened_or_counted {g g' : Gateway} {nodeId : String} {recent : List Event}
    (hrun : runs (step _hash) g recent = some g')
    (hhandled : ∀ now call outcome, .reply now call outcome ∈ recent → outcome.Handled)
    (hfail : ∀ now call outcome, .reply now call outcome ∈ recent → call.nodeId = nodeId →
      outcome.succeeded = false) :
    (∃ p q s, recent = p ++ q ∧ runs (step _hash) g p = some s ∧
      p.countP (Event.ends nodeId) ≤ max 1 g.circuitBreaker.failureThreshold ∧
      (s.circuitBreaker.view nodeId).1 = .OPEN) ∨
    ((recent.countP (Event.ends nodeId) : Int) < max 1 g.circuitBreaker.failureThreshold ∧
      (g'.circuitBreaker.view nodeId).1 ≠ .OPEN ∧
      recent.countP (Event.ends nodeId) ≤ (g'.circuitBreaker.view nodeId).2) := by
  induction recent using List.reverseRecOn generalizing g' with
  | nil =>
    cases Option.some.inj hrun
    by_cases hopen : (g.circuitBreaker.view nodeId).1 = .OPEN
    · exact Or.inl ⟨[], [], g, rfl, rfl, by simp, hopen⟩
    · exact Or.inr ⟨by simp, hopen, by simp⟩
  | append_singleton past event ih =>
    obtain ⟨mid, hmid, hstep⟩ := runs_snoc_eq_some.mp hrun
    have hpast : ∀ now call outcome, Event.reply now call outcome ∈ past →
        Event.reply now call outcome ∈ past ++ [event] :=
      fun now call outcome hm => List.mem_append_left _ hm
    rcases ih hmid (fun now call outcome hm => hhandled now call outcome (hpast _ _ _ hm))
      (fun now call outcome hm => hfail now call outcome (hpast _ _ _ hm)) with
      ⟨p, q, s, hsplit, hs, hcount, hopen⟩ | ⟨hlt, hclosed, hcounted⟩
    · exact Or.inl ⟨p, q ++ [event], s, by rw [hsplit, List.append_assoc], hs, hcount, hopen⟩
    by_cases hopen : (g'.circuitBreaker.view nodeId).1 = .OPEN
    · refine Or.inl ⟨past ++ [event], [], g', by simp, hrun, ?_, hopen⟩
      rw [List.countP_append, List.countP_singleton]
      split
      next => omega
      next => omega
    right
    rw [List.countP_append, List.countP_singleton]
    cases hends : event.ends nodeId with
    | false =>
      have hkeep := count_le_step _hash hstep hends hclosed
      refine ⟨by simpa using hlt, hopen, ?_⟩
      rw [if_neg (by simp)]
      omega
    | true =>
      cases event with
      | reply now call outcome =>
        have hnode : call.nodeId = nodeId := of_decide_eq_true hends
        have hlast : Event.reply now call outcome ∈ past ++ [.reply now call outcome] := by simp
        rw [← hnode] at hopen
        obtain ⟨hbelow, hcount⟩ := failed_reply_counts _hash hstep
          (hhandled now call outcome hlast) (hfail now call outcome hlast hnode) hopen
        have hthreshold := (runs_config _hash hmid).1
        rw [hnode] at hbelow hcount hopen
        rw [if_pos rfl]
        refine ⟨?_, hopen, ?_⟩
        · push_cast at hbelow ⊢
          omega
        · omega
      | _ => cases hends

end failures

/-- Two reads of a key, whose calls end in the same way. -/
def twoReads (outcome : Outcome) : List Event := [
  .registerNode 0 "a" "h" 1 "z" 5, .getKey 1 "k" none,
  .reply 2 ⟨.getKey, "a", "k", none⟩ outcome, .getKey 3 "k" none,
  .reply 4 ⟨.getKey, "a", "k", none⟩ outcome]

end Gateway

end SelfHealingCache
