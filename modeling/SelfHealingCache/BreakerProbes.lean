import SelfHealingCache.BreakerHistory

namespace SelfHealingCache

namespace CircuitBreaker

/-- The call records an outcome of the node. -/
def Call.outcome (nodeId : String) : Call → Bool
  | .isAvailable _ _ => false
  | .recordSuccess _ x => x = nodeId
  | .recordFailure _ x => x = nodeId

/-- Once an OPEN circuit has cooled down, one question is answered with yes before the next
outcome, and if that is a failure the circuit is OPEN again and stays so for the cooldown. -/
structure ProbeDiscipline (cb : CircuitBreaker) (nodeId : String) (calls : List Call) : Prop where
  one_probe : ∀ past now between t rest,
    calls = past ++ .isAvailable now nodeId :: between ++ .isAvailable t nodeId :: rest →
    (cb.run past).CooledDown now nodeId →
    (∀ call ∈ between, call.outcome nodeId = false) →
    ((cb.run (past ++ .isAvailable now nodeId :: between)).isAvailable t nodeId).2 = false
  reopened : ∀ past now between t rest,
    calls = past ++ .isAvailable now nodeId :: between ++ .recordFailure t nodeId :: rest →
    (cb.run past).CooledDown now nodeId →
    (∀ call ∈ between, call.outcome nodeId = false) →
    ((cb.run (past ++ .isAvailable now nodeId :: between ++
      [.recordFailure t nodeId])).view nodeId).1 = .OPEN ∧
    ∀ quiet t' rest', rest = quiet ++ .isAvailable t' nodeId :: rest' →
      (∀ s, .recordSuccess s nodeId ∉ quiet) → t' - t < (cb.timeoutS : ℚ) →
      ((cb.run (past ++ .isAvailable now nodeId :: between ++
        .recordFailure t nodeId :: quiet)).isAvailable t' nodeId).2 = false

/-- A call that does no harm while the circuit of the node is HALF_OPEN. -/
def Careful (failureThreshold : Int) (nodeId : String) : Call → Prop
  | .isAvailable _ x => x ≠ nodeId
  | .recordSuccess _ _ => True
  | .recordFailure _ x => x = nodeId → failureThreshold = 1

section views

variable {cb : CircuitBreaker} {nodeId : String}

theorem view_ask (cb : CircuitBreaker) (t : Time) (nodeId : String) :
    (cb.step (.isAvailable t nodeId)).view nodeId =
      if cb.CooledDown t nodeId then (.HALF_OPEN, 0) else cb.view nodeId := by
  have hview : (cb.step (.isAvailable t nodeId)).view nodeId =
      ((NodeCircuit.ask cb.timeoutS t (cb.circuit t nodeId)).1.state,
        (NodeCircuit.ask cb.timeoutS t (cb.circuit t nodeId)).1.failureCount) :=
    view_step_self cb (.isAvailable t nodeId)
  rw [hview]
  by_cases hc : cb.CooledDown t nodeId
  · rw [if_pos hc, NodeCircuit.ask_of_cooledDown hc]
  · rw [if_neg hc, NodeCircuit.ask_of_not_cooledDown hc]
    exact (view_of_circuit t).symm

theorem view_succeed (cb : CircuitBreaker) (t : Time) (nodeId : String) :
    (cb.step (.recordSuccess t nodeId)).view nodeId = (.CLOSED, 0) :=
  view_step_self cb (.recordSuccess t nodeId)

theorem view_fail (cb : CircuitBreaker) (t : Time) (nodeId : String) :
    (cb.step (.recordFailure t nodeId)).view nodeId =
      (if cb.failureThreshold ≤ ((cb.view nodeId).2 + 1 : Nat) ∧ (cb.view nodeId).1 ≠ .OPEN
        then .OPEN else (cb.view nodeId).1, (cb.view nodeId).2 + 1) := by
  have hview : cb.view nodeId = _ := view_of_circuit t
  rw [hview]
  exact view_step_self cb (.recordFailure t nodeId)

/-- A circuit answers with yes as long as it is not OPEN. -/
theorem isAvailable_of_view {t : Time} (h : (cb.view nodeId).1 ≠ .OPEN) :
    (cb.isAvailable t nodeId).2 = true := by
  rw [view_of_circuit t] at h
  rw [isAvailable_answer, ← Bool.not_eq_false, NodeCircuit.ask_refused_iff]
  exact fun hr => h hr.1

theorem CooledDown.opened {t : Time} (h : cb.CooledDown t nodeId) :
    (cb.view nodeId).1 = .OPEN := by
  rw [view_of_circuit t]
  exact h.1

/-- The circuit of the node is OPEN and has failed at `now` or later. -/
def OpenSince (cb : CircuitBreaker) (now : Time) (nodeId : String) : Prop :=
  ∃ c, cb.states.get? nodeId = some c ∧ c.state = .OPEN ∧ now ≤ c.lastFailureTime

theorem OpenSince.opened {t : Time} (h : cb.OpenSince t nodeId) : (cb.view nodeId).1 = .OPEN := by
  obtain ⟨c, hc, hs, _⟩ := h
  rw [view, hc]
  exact hs

/-- Within the cooldown it refuses. -/
theorem OpenSince.refused {t t' : Time} (h : cb.OpenSince t nodeId)
    (hshort : t' - t < (cb.timeoutS : ℚ)) : (cb.isAvailable t' nodeId).2 = false := by
  obtain ⟨c, hc, hs, hsince⟩ := h
  rw [isAvailable_answer, circuit, hc, Option.getD_some, NodeCircuit.ask_refused_iff]
  exact ⟨hs, by linarith⟩

/-- A failure that reaches the threshold leaves the circuit OPEN. -/
theorem opened_by_failure {now : Time}
    (h : cb.failureThreshold ≤ ((cb.view nodeId).2 + 1 : Nat)) :
    (cb.step (.recordFailure now nodeId)).OpenSince now nodeId := by
  have hlast := get?_step cb (.recordFailure now nodeId) nodeId
  rw [if_pos (by rfl)] at hlast
  refine ⟨_, hlast, ?_, le_refl now⟩
  have hview := congrArg Prod.fst (view_fail cb now nodeId)
  rw [view, hlast] at hview
  refine hview.trans ?_
  by_cases hs : (cb.view nodeId).1 = .OPEN
  · exact (if_neg fun hn => hn.2 hs).trans hs
  · exact if_pos ⟨h, hs⟩

/-- Without an outcome a HALF_OPEN circuit stays as it is. -/
theorem view_half_open_run {between : List Call} {count : Nat}
    (h : cb.view nodeId = (.HALF_OPEN, count))
    (hb : ∀ call ∈ between, call.outcome nodeId = false) :
    (cb.run between).view nodeId = (.HALF_OPEN, count) := by
  induction between generalizing cb with
  | nil => exact h
  | cons call between ih =>
    have hrest := fun c hc => hb c (List.mem_cons_of_mem call hc)
    have hcall := hb call List.mem_cons_self
    refine ih ?_ hrest
    by_cases hn : nodeId = call.node
    · cases call with
      | isAvailable t x =>
        have hx : nodeId = x := hn
        subst hx
        have hcool : ¬cb.CooledDown t nodeId := by
          intro hc
          have hopen := hc.opened
          rw [h] at hopen
          cases hopen
        rw [view_ask, if_neg hcool]
        exact h
      | recordSuccess t x => exact absurd hn.symm (of_decide_eq_false hcall)
      | recordFailure t x => exact absurd hn.symm (of_decide_eq_false hcall)
    · exact (view_step_other hn).trans h

/-- Only a question that finds the circuit cooled down makes it HALF_OPEN. -/
theorem becomes_half_open {call : Call} (hbefore : (cb.view nodeId).1 ≠ .HALF_OPEN)
    (hafter : ((cb.step call).view nodeId).1 = .HALF_OPEN) :
    ∃ t, call = .isAvailable t nodeId ∧ cb.CooledDown t nodeId := by
  by_cases hn : nodeId = call.node
  · cases call with
    | isAvailable t x =>
      have hx : nodeId = x := hn
      subst hx
      refine ⟨t, rfl, ?_⟩
      by_contra hc
      rw [view_ask, if_neg hc] at hafter
      exact hbefore hafter
    | recordSuccess t x =>
      have hx : nodeId = x := hn
      subst hx
      rw [view_succeed] at hafter
      cases hafter
    | recordFailure t x =>
      have hx : nodeId = x := hn
      subst hx
      rw [view_fail] at hafter
      dsimp only at hafter
      split at hafter
      next => cases hafter
      next => exact absurd hafter hbefore
  · rw [view_step_other hn] at hafter
    exact absurd hafter hbefore

/-- The state after a probe and the calls up to the next outcome. -/
theorem view_after_probe {past between : List Call} {now : Time}
    (hc : (cb.run past).CooledDown now nodeId)
    (hb : ∀ call ∈ between, call.outcome nodeId = false) :
    (cb.run (past ++ .isAvailable now nodeId :: between)).view nodeId = (.HALF_OPEN, 0) := by
  have hprobe : ((cb.run past).step (.isAvailable now nodeId)).view nodeId =
      (.HALF_OPEN, 0) := by
    rw [view_ask, if_pos hc]
  rw [run_append]
  change (((cb.run past).step (.isAvailable now nodeId)).run between).view nodeId = _
  exact view_half_open_run hprobe hb

end views

/-- An OPEN circuit stays OPEN for the cooldown after a failure, whatever else is called,
unless a success is recorded. -/
theorem OpenSince.stays {cb : CircuitBreaker} {nodeId : String} {t t' : Time}
    (hopen : cb.OpenSince t nodeId) (hshort : t' - t < (cb.timeoutS : ℚ)) {quiet : List Call}
    (hquiet : ∀ s, .recordSuccess s nodeId ∉ quiet)
    (hclock : ∀ call ∈ quiet, t ≤ call.now ∧ call.now ≤ t') :
    (cb.run quiet).OpenSince t nodeId := by
  induction quiet generalizing cb with
  | nil => exact hopen
  | cons call quiet ih =>
    obtain ⟨hlow, hhigh⟩ := hclock call List.mem_cons_self
    obtain ⟨c, hg, hs, hsince⟩ := hopen
    have hstep := get?_step cb call nodeId
    have hshort' : t' - t < ((cb.step call).timeoutS : ℚ) := by
      rw [step_timeoutS]
      exact hshort
    refine ih ?_ hshort' (fun s hm => hquiet s (List.mem_cons_of_mem call hm))
      fun x hx => hclock x (List.mem_cons_of_mem call hx)
    by_cases hn : nodeId = call.node
    · have hcircuit : cb.circuit call.now call.node = c := by
        rw [circuit, ← hn, hg, Option.getD_some]
      rw [if_pos hn, hcircuit] at hstep
      refine ⟨_, hstep, ?_⟩
      cases call with
      | isAvailable s x =>
        have hwarm : ¬c.CooledDown cb.timeoutS s := by
          intro hc
          have hle := hc.2
          change s ≤ t' at hhigh
          linarith
        change (NodeCircuit.ask cb.timeoutS s c).1.state = _ ∧ t ≤
          (NodeCircuit.ask cb.timeoutS s c).1.lastFailureTime
        rw [NodeCircuit.ask_of_not_cooledDown hwarm]
        exact ⟨hs, hsince⟩
      | recordSuccess s x =>
        have hx : nodeId = x := hn
        exact absurd (by rw [hx]; exact List.mem_cons_self) (hquiet s)
      | recordFailure s x =>
        refine ⟨?_, hlow⟩
        change (if _ ∧ c.state ≠ .OPEN then BreakerState.OPEN else c.state) = _
        rw [hs]
        simp
    · rw [if_neg hn] at hstep
      exact ⟨c, hstep.trans hg, hs, hsince⟩

/-- The clock readings of the calls between two calls lie between theirs. -/
theorem readings_between {calls past between rest : List Call} {first last : Call}
    (hclock : (calls.map Call.now).Pairwise (· ≤ ·))
    (hsplit : calls = past ++ first :: (between ++ last :: rest)) :
    ∀ call ∈ between, first.now ≤ call.now ∧ call.now ≤ last.now := by
  rw [hsplit, List.map_append, List.map_cons, List.map_append, List.map_cons] at hclock
  have hafter := List.pairwise_cons.mp (List.pairwise_append.mp hclock).2.1
  have hbefore := (List.pairwise_append.mp hafter.2).2.2
  intro call hm
  have hmap := List.mem_map_of_mem (f := Call.now) hm
  exact ⟨hafter.1 _ (List.mem_append_left _ hmap), hbefore _ hmap _ List.mem_cons_self⟩

section discipline

variable {failureThreshold timeoutS : Int} {nodeId : String} {calls : List Call}

/-- Under the discipline a HALF_OPEN circuit has been probed and waits for an outcome. -/
theorem ProbeDiscipline.probed (h : ProbeDiscipline (init failureThreshold timeoutS) nodeId calls)
    {past rest : List Call} (hsplit : calls = past ++ rest)
    (hhalf : (((init failureThreshold timeoutS).run past).view nodeId).1 = .HALF_OPEN) :
    ∃ before now between, past = before ++ .isAvailable now nodeId :: between ∧
      ((init failureThreshold timeoutS).run before).CooledDown now nodeId ∧
      ∀ call ∈ between, call.outcome nodeId = false := by
  induction past using List.reverseRecOn generalizing rest with
  | nil => cases hhalf
  | append_singleton past call ih =>
    rw [run_snoc] at hhalf
    by_cases hbefore :
        (((init failureThreshold timeoutS).run past).view nodeId).1 = .HALF_OPEN
    · have hsplit' : calls = past ++ call :: rest := by rw [hsplit, List.append_assoc]; rfl
      obtain ⟨before, now, between, hpast, hc, hb⟩ := ih hsplit' hbefore
      by_cases ho : call.outcome nodeId = false
      · refine ⟨before, now, between ++ [call], by rw [hpast, List.append_assoc]; rfl, hc, ?_⟩
        intro c hm
        rcases List.mem_append.mp hm with hm | hm
        · exact hb c hm
        · have heq : c = call := by simpa using hm
          rw [heq]
          exact ho
      · rw [Bool.not_eq_false] at ho
        cases call with
        | isAvailable t x => cases ho
        | recordSuccess t x =>
          have hx : x = nodeId := of_decide_eq_true ho
          subst hx
          rw [view_succeed] at hhalf
          cases hhalf
        | recordFailure t x =>
          have hx : x = nodeId := of_decide_eq_true ho
          subst hx
          rw [hpast] at hsplit'
          have hopen := (h.reopened before now between t rest hsplit' hc hb).1
          rw [← hpast, run_snoc, hhalf] at hopen
          cases hopen
    · obtain ⟨t, hcall, hc⟩ := becomes_half_open hbefore hhalf
      exact ⟨past, t, [], by rw [hcall], hc, by simp⟩

/-- The discipline leaves no room for a careless call. -/
theorem ProbeDiscipline.careful
    (h : ProbeDiscipline (init failureThreshold timeoutS) nodeId calls)
    (hthreshold : 1 ≤ failureThreshold) {past rest : List Call} {call : Call}
    (hsplit : calls = past ++ call :: rest)
    (hhalf : (((init failureThreshold timeoutS).run past).view nodeId).1 = .HALF_OPEN) :
    Careful failureThreshold nodeId call := by
  obtain ⟨before, now, between, hpast, hc, hb⟩ := h.probed hsplit hhalf
  have hview := view_after_probe hc hb
  cases call with
  | isAvailable t x =>
    intro hx
    subst hx
    rw [hpast] at hsplit
    have hrefused := h.one_probe before now between t rest hsplit hc hb
    rw [isAvailable_of_view (by simp [hview])] at hrefused
    cases hrefused
  | recordSuccess t x => trivial
  | recordFailure t x =>
    intro hx
    subst hx
    rw [hpast] at hsplit
    have hopen := (h.reopened before now between t rest hsplit hc hb).1
    have hth := (run_config (init failureThreshold timeoutS)
      (before ++ .isAvailable now x :: between)).1
    rw [run_snoc, view_fail, hview, hth] at hopen
    dsimp only at hopen
    split at hopen
    next hle =>
      have hone : failureThreshold ≤ 1 := hle.1
      omega
    next => cases hopen

/-- A probe that fails with a threshold of one opens the circuit again. -/
theorem reopened_by_probe {past between : List Call} {now t : Time} (hone : failureThreshold = 1)
    (hc : ((init failureThreshold timeoutS).run past).CooledDown now nodeId)
    (hb : ∀ call ∈ between, call.outcome nodeId = false) :
    ((init failureThreshold timeoutS).run (past ++ .isAvailable now nodeId :: between ++
      [.recordFailure t nodeId])).OpenSince t nodeId := by
  rw [run_snoc]
  apply opened_by_failure
  rw [(run_config _ _).1, view_after_probe hc hb]
  exact hone.le

/-- The probe discipline holds of a history exactly when nothing careless happens while the
circuit is HALF_OPEN. -/
theorem probe_discipline_iff (failureThreshold timeoutS : Int)
    (hthreshold : 1 ≤ failureThreshold) (nodeId : String) (calls : List Call)
    (hclock : (calls.map Call.now).Pairwise (· ≤ ·)) :
    ProbeDiscipline (init failureThreshold timeoutS) nodeId calls ↔
      ∀ past call rest, calls = past ++ call :: rest →
        (((init failureThreshold timeoutS).run past).view nodeId).1 = .HALF_OPEN →
        Careful failureThreshold nodeId call := by
  constructor
  · intro h past call rest hsplit hhalf
    exact h.careful hthreshold hsplit hhalf
  · intro h
    refine ⟨?_, ?_⟩
    · intro past now between t rest hsplit hc hb
      have hview := view_after_probe hc hb
      exact absurd rfl (h _ _ _ hsplit (by rw [hview]))
    · intro past now between t rest hsplit hc hb
      have hview := view_after_probe hc hb
      have hone : failureThreshold = 1 := h _ _ _ hsplit (by rw [hview]) rfl
      have hopen : ((init failureThreshold timeoutS).run _).OpenSince t nodeId :=
        reopened_by_probe hone hc hb
      refine ⟨hopen.opened, ?_⟩
      intro quiet t' rest' hrest hquiet hshort
      rw [hrest] at hsplit
      have hkept := hopen.stays (by rw [(run_config _ _).2]; exact hshort) hquiet
        (readings_between hclock hsplit)
      rw [← run_append, List.append_assoc, List.singleton_append] at hkept
      exact hkept.refused (by rw [(run_config _ _).2]; exact hshort)

/-- With a threshold of two and a cooldown of thirty seconds, a history in which the circuit
opens, is probed once and recovers. -/
theorem probe_discipline_recovered :
    ProbeDiscipline (init 2 30) "a" [.recordFailure 0 "a", .recordFailure 1 "a",
      .isAvailable 40 "a", .recordSuccess 41 "a"] ∧
    (((init 2 30).run [.recordFailure 0 "a", .recordFailure 1 "a"]).isAvailable 40 "a").2 =
      true := by
  refine ⟨?_, by decide +kernel⟩
  refine (probe_discipline_iff 2 30 (by decide) "a" _ (by decide +kernel)).mpr ?_
  intro past call rest hsplit hhalf
  -- the only call that finds the circuit HALF_OPEN is the last one
  rcases past with _ | ⟨x, _ | ⟨y, _ | ⟨z, _ | ⟨u, past⟩⟩⟩⟩
  case nil => exact absurd hhalf (by decide)
  case cons.nil =>
    simp only [List.cons_append, List.nil_append, List.cons.injEq] at hsplit
    rw [← hsplit.1] at hhalf
    exact absurd hhalf (by decide +kernel)
  case cons.cons.nil =>
    simp only [List.cons_append, List.nil_append, List.cons.injEq] at hsplit
    rw [← hsplit.1, ← hsplit.2.1] at hhalf
    exact absurd hhalf (by decide +kernel)
  case cons.cons.cons.nil =>
    simp only [List.cons_append, List.nil_append, List.cons.injEq] at hsplit
    rw [← hsplit.2.2.2.1]
    trivial
  case cons.cons.cons.cons => simp at hsplit

/-- A second request is let through to the node while the first one still probes it. -/
theorem probes_unlimited :
    ¬∀ (failureThreshold timeoutS : Int) (nodeId : String) (calls : List Call),
      1 ≤ failureThreshold → (calls.map Call.now).Pairwise (· ≤ ·) →
      ProbeDiscipline (init failureThreshold timeoutS) nodeId calls := by
  intro h
  have hd := h 2 30 "a" [.recordFailure 0 "a", .recordFailure 1 "a", .isAvailable 40 "a",
    .isAvailable 41 "a", .recordFailure 42 "a"] (by decide) (by decide +kernel)
  have htwo := hd.one_probe [.recordFailure 0 "a", .recordFailure 1 "a"] 40 [] 41
    [.recordFailure 42 "a"] rfl (by decide +kernel) (by decide)
  revert htwo
  decide +kernel

end discipline

end CircuitBreaker

end SelfHealingCache
