import SelfHealingCache.CircuitBreaker
import Mathlib.Algebra.Order.Field.Rat
import Mathlib.Tactic.Linarith

namespace SelfHealingCache

namespace CircuitBreaker

/-- The circuit of the node is OPEN and its cooldown has elapsed. -/
def CooledDown (cb : CircuitBreaker) (now : Time) (nodeId : String) : Prop :=
  (cb.circuit now nodeId).CooledDown cb.timeoutS now

instance (cb : CircuitBreaker) (now : Time) (nodeId : String) :
    Decidable (cb.CooledDown now nodeId) :=
  inferInstanceAs (Decidable ((cb.circuit now nodeId).CooledDown cb.timeoutS now))

/-- A success of the node, or a question that finds its circuit cooled down. -/
def ResetPoint (cb : CircuitBreaker) (nodeId : String) : Call → Prop
  | .isAvailable now x => x = nodeId ∧ cb.CooledDown now nodeId
  | .recordSuccess _ x => x = nodeId
  | .recordFailure _ _ => False

instance (cb : CircuitBreaker) (nodeId : String) (call : Call) :
    Decidable (cb.ResetPoint nodeId call) := by
  cases call <;> unfold ResetPoint <;> infer_instance

/-- The call records a failure of the node. -/
def Call.fails (nodeId : String) : Call → Bool
  | .recordFailure _ x => x = nodeId
  | _ => false

/-- The effect of a call on the breaker and on the failures of a node since its last
reset point. -/
def failureStep (nodeId : String) (s : CircuitBreaker × Nat) (call : Call) :
    CircuitBreaker × Nat :=
  (s.1.step call,
    if s.1.ResetPoint nodeId call then 0 else if call.fails nodeId then s.2 + 1 else s.2)

def failuresSinceReset (cb : CircuitBreaker) (nodeId : String) (history : List Call) : Nat :=
  (history.foldl (failureStep nodeId) (cb, 0)).2

/-- The time of the last recorded failure of a node. -/
def lastFailure (nodeId : String) (history : List Call) : Option Time :=
  history.foldl (fun last call =>
    match call with
    | .recordFailure now x => if x = nodeId then some now else last
    | _ => last) none

theorem failuresSinceReset_snoc (cb : CircuitBreaker) (nodeId : String) (past : List Call)
    (call : Call) : failuresSinceReset cb nodeId (past ++ [call]) =
      if (cb.run past).ResetPoint nodeId call then 0
      else if call.fails nodeId then failuresSinceReset cb nodeId past + 1
      else failuresSinceReset cb nodeId past := by
  have hhom : past.foldl step (cb, 0).1 = (past.foldl (failureStep nodeId) (cb, 0)).1 :=
    List.foldl_hom Prod.fst fun _ _ => rfl
  rw [failuresSinceReset, List.foldl_append, List.foldl_cons, List.foldl_nil, run, hhom]
  rfl

theorem lastFailure_snoc (nodeId : String) (past : List Call) (call : Call) :
    lastFailure nodeId (past ++ [call]) =
      match call with
      | .recordFailure now x => if x = nodeId then some now else lastFailure nodeId past
      | _ => lastFailure nodeId past := by
  rw [lastFailure, List.foldl_append]
  rfl

section others

variable {cb : CircuitBreaker} {nodeId : String} {past : List Call} {call : Call}

theorem failuresSinceReset_other (h : nodeId ≠ call.node) :
    failuresSinceReset cb nodeId (past ++ [call]) = failuresSinceReset cb nodeId past := by
  have hreset : ¬(cb.run past).ResetPoint nodeId call := by
    cases call with
    | isAvailable now x => exact fun hr => h hr.1.symm
    | recordSuccess now x => exact fun hr => h hr.symm
    | recordFailure now x => exact id
  have hfails : ¬call.fails nodeId = true := by
    cases call with
    | recordFailure now x => exact fun hf => h (of_decide_eq_true hf).symm
    | _ => exact Bool.false_ne_true
  rw [failuresSinceReset_snoc, if_neg hreset, if_neg hfails]

theorem lastFailure_other (h : nodeId ≠ call.node) :
    lastFailure nodeId (past ++ [call]) = lastFailure nodeId past := by
  rw [lastFailure_snoc]
  cases call with
  | recordFailure now x => exact if_neg fun hx => h hx.symm
  | _ => rfl

end others

/-- A circuit against the history of its node: it counts the failures since the last reset
point, and is OPEN from the threshold on, since the last failure. -/
structure Counted (failureThreshold : Int) (c : NodeCircuit) (failures : Nat)
    (last : Option Time) : Prop where
  count : c.failureCount = failures
  opened : c.state = .OPEN ↔ failureThreshold ≤ failures
  since : c.state = .OPEN → last = some c.lastFailureTime

section circuits

variable {failureThreshold timeoutS : Int} {c : NodeCircuit} {failures : Nat}
  {last : Option Time} {now : Time}

theorem counted_zero (h : 1 ≤ failureThreshold) {c : NodeCircuit} (hs : c.state ≠ .OPEN)
    (hc : c.failureCount = 0) (last : Option Time) : Counted failureThreshold c 0 last where
  count := hc
  opened := iff_of_false hs (by omega)
  since := fun ho => absurd ho hs

theorem Counted.fail (h : Counted failureThreshold c failures last) :
    Counted failureThreshold (c.fail failureThreshold now) (failures + 1) (some now) := by
  have hcount := h.count
  have hopened := h.opened
  refine ⟨by simp [NodeCircuit.fail, hcount], ?_, fun _ => rfl⟩
  have hstate : (c.fail failureThreshold now).state = if failureThreshold ≤ (failures + 1 : Nat) ∧
      c.state ≠ .OPEN then .OPEN else c.state := by
    rw [← hcount]
    rfl
  rw [hstate]
  by_cases ho : c.state = .OPEN
  · have hle := hopened.mp ho
    rw [if_neg (by simp [ho])]
    exact iff_of_true ho (by omega)
  · by_cases hle : failureThreshold ≤ (failures + 1 : Nat)
    · rw [if_pos ⟨hle, ho⟩]
      exact iff_of_true rfl hle
    · rw [if_neg fun hc => hle hc.1]
      exact iff_of_false ho hle

theorem Counted.ask (h : Counted failureThreshold c failures last)
    (hn : ¬c.CooledDown timeoutS now) :
    Counted failureThreshold (c.ask timeoutS now).1 failures last := by
  rw [NodeCircuit.ask_of_not_cooledDown hn]
  exact h

end circuits

/-- What a call does to the count of its own node. -/
theorem counted_own {failureThreshold timeoutS : Int} (hthreshold : 1 ≤ failureThreshold)
    {past : List Call} {call : Call}
    (h : Counted failureThreshold
      (((init failureThreshold timeoutS).run past).circuit call.now call.node)
      (failuresSinceReset (init failureThreshold timeoutS) call.node past)
      (lastFailure call.node past)) :
    Counted failureThreshold (call.act failureThreshold timeoutS
        (((init failureThreshold timeoutS).run past).circuit call.now call.node))
      (failuresSinceReset (init failureThreshold timeoutS) call.node (past ++ [call]))
      (lastFailure call.node (past ++ [call])) := by
  have hto := (run_config (init failureThreshold timeoutS) past).2
  rw [failuresSinceReset_snoc, lastFailure_snoc]
  cases call with
  | isAvailable now x =>
    have hiff : ((init failureThreshold timeoutS).run past).CooledDown now x ↔
        (((init failureThreshold timeoutS).run past).circuit now x).CooledDown timeoutS now := by
      rw [CooledDown, hto]
      rfl
    by_cases hc : ((init failureThreshold timeoutS).run past).CooledDown now x
    · have hreset : ((init failureThreshold timeoutS).run past).ResetPoint
          (Call.isAvailable now x).node (.isAvailable now x) := ⟨rfl, hc⟩
      have hask := NodeCircuit.ask_of_cooledDown (hiff.mp hc)
      rw [if_pos hreset]
      change Counted _ (NodeCircuit.ask timeoutS now
        (((init failureThreshold timeoutS).run past).circuit now x)).1 0 _
      rw [hask]
      exact counted_zero hthreshold (by simp) rfl _
    · have hreset : ¬((init failureThreshold timeoutS).run past).ResetPoint
          (Call.isAvailable now x).node (.isAvailable now x) := fun hr => hc hr.2
      rw [if_neg hreset, if_neg (by simp [Call.fails])]
      exact h.ask fun hcool => hc (hiff.mpr hcool)
  | recordSuccess now x =>
    have hreset : ((init failureThreshold timeoutS).run past).ResetPoint
        (Call.recordSuccess now x).node (.recordSuccess now x) := rfl
    rw [if_pos hreset]
    exact counted_zero hthreshold (by simp [Call.act, NodeCircuit.succeed]) rfl _
  | recordFailure now x =>
    have hreset : ¬((init failureThreshold timeoutS).run past).ResetPoint
        (Call.recordFailure now x).node (.recordFailure now x) := id
    have hself : x = (Call.recordFailure now x).node := rfl
    rw [if_neg hreset, if_pos (by simp [Call.fails, Call.node])]
    dsimp only
    rw [if_pos hself]
    exact h.fail

/-- Over every history, the circuit of a node counts the failures since its last reset point. -/
theorem counted_run {failureThreshold timeoutS : Int} (hthreshold : 1 ≤ failureThreshold)
    (history : List Call) (nodeId : String) (t : Time) :
    Counted failureThreshold (((init failureThreshold timeoutS).run history).circuit t nodeId)
      (failuresSinceReset (init failureThreshold timeoutS) nodeId history)
      (lastFailure nodeId history) := by
  induction history using List.reverseRecOn generalizing t with
  | nil =>
    have hfresh : ((init failureThreshold timeoutS).run []).circuit t nodeId =
        NodeCircuit.init t nodeId := rfl
    rw [hfresh]
    exact counted_zero hthreshold (by simp [NodeCircuit.init]) rfl _
  | append_singleton past call ih =>
    rw [run_snoc]
    by_cases hn : nodeId = call.node
    · subst hn
      obtain ⟨hth, hto⟩ := run_config (init failureThreshold timeoutS) past
      rw [step_circuit_self, hth, hto]
      exact counted_own hthreshold (ih call.now)
    · rw [step_circuit_other hn, failuresSinceReset_other hn, lastFailure_other hn]
      exact ih t

/-- Calls on other nodes do not influence the answer for a node. -/
theorem isAvailable_filter (cb : CircuitBreaker) (history : List Call) (nodeId : String)
    (t : Time) : ((cb.run (history.filter fun call => call.node = nodeId)).isAvailable t
      nodeId).2 = ((cb.run history).isAvailable t nodeId).2 := by
  have hskip : ∀ (c : Option NodeCircuit) (call : Call), decide (call.node = nodeId) = false →
      circuitStep cb.failureThreshold cb.timeoutS nodeId c call = c := by
    intro c call h
    exact if_neg fun he => of_decide_eq_false h he.symm
  have hsame := get?_run cb (history.filter fun call => call.node = nodeId) nodeId
  rw [foldl_relevant hskip, ← get?_run] at hsame
  rw [isAvailable_answer, isAvailable_answer, circuit, circuit, hsame, (run_config cb _).2,
    (run_config cb history).2]

/-- A node is refused exactly when it has failed often enough since its last reset point
and its last failure is more recent than the cooldown. -/
theorem exact_breaker (failureThreshold timeoutS : Int) (hthreshold : 1 ≤ failureThreshold)
    (history : List Call) (nodeId : String) (t : Time) :
    ((((init failureThreshold timeoutS).run history).isAvailable t nodeId).2 = false ↔
      failureThreshold ≤
        failuresSinceReset (init failureThreshold timeoutS) nodeId history ∧
      ∃ last, lastFailure nodeId history = some last ∧ t - last < (timeoutS : ℚ)) ∧
    (((init failureThreshold timeoutS).run
        (history.filter fun call => call.node = nodeId)).isAvailable t nodeId).2 =
      (((init failureThreshold timeoutS).run history).isAvailable t nodeId).2 := by
  refine ⟨?_, isAvailable_filter _ history nodeId t⟩
  have hcounted : Counted failureThreshold
      (((init failureThreshold timeoutS).run history).circuit t nodeId)
      (failuresSinceReset (init failureThreshold timeoutS) nodeId history)
      (lastFailure nodeId history) := counted_run hthreshold history nodeId t
  have htimeout := (run_config (init failureThreshold timeoutS) history).2
  rw [isAvailable_answer, htimeout, NodeCircuit.ask_refused_iff, ← hcounted.opened]
  refine and_congr_right fun hopen => ?_
  rw [hcounted.since hopen]
  simp [init]

theorem exact_breaker_reopened :
    (((init 2 30).run [.recordFailure 0 "a", .recordFailure 1 "b", .recordFailure 2 "a",
      .isAvailable 40 "a", .recordFailure 41 "a", .recordFailure 42 "a"]).isAvailable 71
        "a").2 = false :=
  ((exact_breaker 2 30 (by decide) [.recordFailure 0 "a", .recordFailure 1 "b",
    .recordFailure 2 "a", .isAvailable 40 "a", .recordFailure 41 "a", .recordFailure 42 "a"]
      "a" 71).1).mpr ⟨by decide +kernel, 42, by decide +kernel, by decide +kernel⟩

end CircuitBreaker

end SelfHealingCache
