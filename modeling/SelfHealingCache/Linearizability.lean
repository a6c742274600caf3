import SelfHealingCache.Runs
import Mathlib.Data.List.Nodup
import Mathlib.Logic.Function.Basic

namespace SelfHealingCache

section observations

variable {σ ε α : Type}

/-- What the steps of a run show, in order. -/
def observations (step : σ → ε → Option σ) (obs : σ → ε → Option α) (s : σ) : List ε → List α
  | [] => []
  | e :: es =>
    (obs s e).toList ++
      match step s e with
      | none => []
      | some s' => observations step obs s' es

theorem observations_snoc {step : σ → ε → Option σ} {obs : σ → ε → Option α} {s mid : σ}
    {es : List ε} {e : ε} (h : runs step s es = some mid) :
    observations step obs s (es ++ [e]) = observations step obs s es ++ (obs mid e).toList := by
  induction es generalizing s with
  | nil =>
    cases Option.some.inj h
    simp only [List.nil_append, observations]
    cases step mid e with
    | none => simp
    | some s' => simp
  | cons x es ih =>
    rw [runs_cons] at h
    obtain ⟨next, hnext, hrun⟩ := Option.bind_eq_some_iff.mp h
    have hrest := ih hrun
    simp only [List.cons_append, observations, hnext, hrest, List.append_assoc]

/-- Two ways to look at the states passed that agree on them show the same. -/
theorem observations_congr {step : σ → ε → Option σ} {obs obs' : σ → ε → Option α} {s s' : σ}
    {es : List ε} (hsame : ∀ past e rest mid, es = past ++ e :: rest →
      runs step s past = some mid → obs mid e = obs' mid e) (h : runs step s es = some s') :
    observations step obs s es = observations step obs' s es := by
  refine runs_history (I := fun past _ => observations step obs s past = observations step obs' s past)
    rfl ?_ h
  intro past e rest mid next hsplit hrun ih _
  rw [observations_snoc hrun, observations_snoc hrun, ih, hsame past e rest mid hsplit hrun]

end observations

variable {ι Op Ans σ : Type}

/-- What a client sees of an operation: its call and its answer. -/
inductive Mark (ι Op Ans : Type)
  | call (i : ι) (op : Op)
  | ret (i : ι) (ans : Ans)

/-- A mark, or the moment at which an operation takes effect. -/
inductive Point (ι Op Ans : Type)
  | call (i : ι) (op : Op)
  | effect (i : ι) (op : Op) (ans : Ans)
  | ret (i : ι) (ans : Ans)

def Point.mark : Point ι Op Ans → Option (Mark ι Op Ans)
  | .call i op => some (.call i op)
  | .effect _ _ _ => none
  | .ret i ans => some (.ret i ans)

def Point.taken : Point ι Op Ans → Option (ι × Op × Ans)
  | .effect i op ans => some (i, op, ans)
  | _ => none

/-- The calls and answers of a trace. -/
def marks (trace : List (Point ι Op Ans)) : List (Mark ι Op Ans) := trace.filterMap Point.mark

/-- The operations of a trace, in the order of their effects. -/
def effects (trace : List (Point ι Op Ans)) : List (ι × Op × Ans) := trace.filterMap Point.taken

/-- Operations that are carried out one after the other. -/
inductive Legal (spec : σ → Op → Ans → σ → Prop) (s : σ) : List (ι × Op × Ans) → σ → Prop
  | nil : Legal spec s [] s
  | snoc {order : List (ι × Op × Ans)} {mid s' : σ} {i : ι} {op : Op} {ans : Ans} :
      Legal spec s order mid → spec mid op ans s' → Legal spec s (order ++ [(i, op, ans)]) s'

/-- The order has every operation that is answered, with its answer, and none that is not
called; none twice; and an operation that is answered before another one is called stands
before it. -/
structure Orders (history : List (Mark ι Op Ans)) (order : List (ι × Op × Ans)) : Prop where
  once : (order.map Prod.fst).Nodup
  called : ∀ x ∈ order, Mark.call x.1 x.2.1 ∈ history
  answered : ∀ i ans, Mark.ret i ans ∈ history → ∃ op, (i, op, ans) ∈ order
  real_time : ∀ i ans j op, [Mark.ret i ans, Mark.call j op].Sublist history →
    ∀ before x after, order = before ++ x :: after → x.1 = j → i ∈ before.map Prod.fst

/-- The operations could have been carried out one after the other, at moments between their
calls and their answers. -/
def Linearizable (spec : σ → Op → Ans → σ → Prop) (s : σ) (history : List (Mark ι Op Ans)) :
    Prop :=
  ∃ order s', Orders history order ∧ Legal spec s order s'

/-- How far an operation has come. -/
inductive Stage (Op Ans : Type)
  | idle
  | called (op : Op)
  | taken (ans : Ans)
  | answered

/-- An atomic object with the operations on their way to it. -/
structure Monitor (ι Op Ans σ : Type) where
  stage : ι → Stage Op Ans
  state : σ

namespace Monitor

def start (s : σ) : Monitor ι Op Ans σ := ⟨fun _ => .idle, s⟩

variable [DecidableEq ι]

/-- An operation is called, takes effect once, and gives the answer that it took. -/
inductive Step (spec : σ → Op → Ans → σ → Prop) (m : Monitor ι Op Ans σ) :
    Point ι Op Ans → Monitor ι Op Ans σ → Prop
  | call {i : ι} {op : Op} : m.stage i = .idle →
      Step spec m (.call i op) ⟨Function.update m.stage i (.called op), m.state⟩
  | effect {i : ι} {op : Op} {ans : Ans} {s' : σ} : m.stage i = .called op →
      spec m.state op ans s' →
      Step spec m (.effect i op ans) ⟨Function.update m.stage i (.taken ans), s'⟩
  | ret {i : ι} {ans : Ans} : m.stage i = .taken ans →
      Step spec m (.ret i ans) ⟨Function.update m.stage i .answered, m.state⟩

/-- What the stages say about the trace that led to them. -/
structure Traced (spec : σ → Op → Ans → σ → Prop) (s : σ) (trace : List (Point ι Op Ans))
    (m : Monitor ι Op Ans σ) : Prop where
  idle : ∀ i, m.stage i = .idle → i ∉ (effects trace).map Prod.fst
  called : ∀ i op, m.stage i = .called op →
    Mark.call i op ∈ marks trace ∧ i ∉ (effects trace).map Prod.fst
  taken : ∀ i ans, m.stage i = .taken ans → ∃ op, (i, op, ans) ∈ effects trace
  orders : Orders (marks trace) (effects trace)
  legal : Legal spec s (effects trace) m.state

end Monitor

section traces

variable {trace : List (Point ι Op Ans)} {i : ι} {op : Op} {ans : Ans}

@[simp] theorem marks_call : marks (trace ++ [.call i op]) = marks trace ++ [.call i op] := by
  simp [marks, Point.mark]

@[simp] theorem marks_effect : marks (trace ++ [.effect i op ans]) = marks trace := by
  simp [marks, Point.mark]

@[simp] theorem marks_ret : marks (trace ++ [.ret i ans]) = marks trace ++ [.ret i ans] := by
  simp [marks, Point.mark]

@[simp] theorem effects_call : effects (trace ++ [.call i op]) = effects trace := by
  simp [effects, Point.taken]

@[simp] theorem effects_effect :
    effects (trace ++ [.effect i op ans]) = effects trace ++ [(i, op, ans)] := by
  simp [effects, Point.taken]

@[simp] theorem effects_ret : effects (trace ++ [.ret i ans]) = effects trace := by
  simp [effects, Point.taken]

end traces

section lists

variable {α : Type}

theorem pair_sublist_snoc {xs : List α} {a b c : α} (h : [a, b].Sublist (xs ++ [c])) :
    [a, b].Sublist xs ∨ a ∈ xs ∧ b = c := by
  obtain ⟨l₁, l₂, hsplit, h₁, h₂⟩ := List.sublist_append_iff.mp h
  rcases List.sublist_singleton.mp h₂ with hnil | hone
  · rw [hnil, List.append_nil] at hsplit
    exact Or.inl (hsplit ▸ h₁)
  · rw [hone] at hsplit
    have hsplit' : [a] ++ [b] = l₁ ++ [c] := hsplit
    obtain ⟨ha, hb⟩ := List.append_inj' hsplit' rfl
    refine Or.inr ⟨?_, List.cons_eq_cons.mp hb |>.1⟩
    exact List.singleton_sublist.mp (ha ▸ h₁)

theorem split_snoc {xs before after : List α} {x y : α} (h : xs ++ [y] = before ++ x :: after) :
    xs = before ∧ y = x ∨ ∃ after', xs = before ++ x :: after' := by
  rcases List.eq_nil_or_concat after with hnil | ⟨after', last, hlast⟩
  · rw [hnil] at h
    obtain ⟨hxs, hy⟩ := List.append_inj' h rfl
    exact Or.inl ⟨hxs, (List.cons_eq_cons.mp hy).1⟩
  · rw [hlast, List.concat_eq_append, ← List.cons_append, ← List.append_assoc] at h
    obtain ⟨hxs, _⟩ := List.append_inj' h rfl
    exact Or.inr ⟨after', hxs⟩

end lists

namespace Orders

variable {history : List (Mark ι Op Ans)} {order : List (ι × Op × Ans)} {i : ι} {op : Op}
  {ans : Ans}

/-- What is called now comes after everything that has taken effect. -/
theorem call (h : Orders history order) (hi : i ∉ order.map Prod.fst) :
    Orders (history ++ [.call i op]) order where
  once := h.once
  called := fun x hx => List.mem_append_left _ (h.called x hx)
  answered := by
    intro j a hj
    refine h.answered j a ?_
    simpa using hj
  real_time := by
    intro j a k o hsub before x after hsplit hx
    rcases pair_sublist_snoc hsub with hold | ⟨_, hnew⟩
    · exact h.real_time j a k o hold before x after hsplit hx
    · cases hnew
      have hmem : x ∈ order := by simp [hsplit]
      exact absurd (List.mem_map.mpr ⟨x, hmem, hx⟩) hi

/-- The last to take effect comes after everything that is answered. -/
theorem effect (h : Orders history order) (hcall : Mark.call i op ∈ history)
    (hi : i ∉ order.map Prod.fst) : Orders history (order ++ [(i, op, ans)]) where
  once := by
    rw [List.map_append, List.map_singleton, List.nodup_append]
    refine ⟨h.once, List.nodup_singleton i, ?_⟩
    intro j hj k hk heq
    have hk' : k = i := List.mem_singleton.mp hk
    rw [heq, hk'] at hj
    exact hi hj
  called := by
    intro x hx
    rcases List.mem_append.mp hx with hold | hnew
    · exact h.called x hold
    · rw [List.mem_singleton.mp hnew]
      exact hcall
  answered := by
    intro j a hj
    obtain ⟨o, ho⟩ := h.answered j a hj
    exact ⟨o, List.mem_append_left _ ho⟩
  real_time := by
    intro j a k o hsub before x after hsplit hx
    rcases split_snoc hsplit with ⟨hbefore, _⟩ | ⟨after', hold⟩
    · have hret : Mark.ret j a ∈ history := hsub.subset List.mem_cons_self
      obtain ⟨o', ho'⟩ := h.answered j a hret
      rw [← hbefore]
      exact List.mem_map.mpr ⟨_, ho', rfl⟩
    · exact h.real_time j a k o hsub before x after' hold hx

theorem ret (h : Orders history order) (hi : (i, op, ans) ∈ order) :
    Orders (history ++ [.ret i ans]) order where
  once := h.once
  called := fun x hx => List.mem_append_left _ (h.called x hx)
  answered := by
    intro j a hj
    rcases List.mem_append.mp hj with hold | hnew
    · exact h.answered j a hold
    · cases List.mem_singleton.mp hnew
      exact ⟨op, hi⟩
  real_time := by
    intro j a k o hsub before x after hsplit hx
    rcases pair_sublist_snoc hsub with hold | ⟨_, hnew⟩
    · exact h.real_time j a k o hold before x after hsplit hx
    · cases hnew

end Orders

namespace Monitor

variable {spec : σ → Op → Ans → σ → Prop} {s : σ} {trace : List (Point ι Op Ans)}
  {m m' : Monitor ι Op Ans σ} {p : Point ι Op Ans}

theorem traced_start : Traced spec s [] (start s : Monitor ι Op Ans σ) where
  idle := fun i _ => by simp [effects]
  called := by
    intro i op h
    cases h
  taken := by
    intro i ans h
    cases h
  orders := ⟨List.nodup_nil, by simp [effects], by simp [marks], by simp [marks]⟩
  legal := .nil

variable [DecidableEq ι]

theorem Traced.call (h : Traced spec s trace m) {i : ι} {op : Op} (hidle : m.stage i = .idle) :
    Traced spec s (trace ++ [.call i op]) ⟨Function.update m.stage i (.called op), m.state⟩ := by
  have hfresh := h.idle i hidle
  refine ⟨fun j hj => ?_, fun j o hj => ?_, fun j a hj => ?_, ?_, ?_⟩
  · dsimp only at hj
    rw [Function.update_apply] at hj
    split at hj
    next => cases hj
    next => simpa using h.idle j hj
  · dsimp only at hj
    rw [Function.update_apply] at hj
    split at hj
    next heq =>
      cases hj
      rw [heq]
      simpa using hfresh
    next =>
      obtain ⟨hmark, hno⟩ := h.called j o hj
      rw [marks_call, effects_call]
      exact ⟨List.mem_append_left _ hmark, hno⟩
  · dsimp only at hj
    rw [Function.update_apply] at hj
    split at hj
    next => cases hj
    next => simpa using h.taken j a hj
  · rw [marks_call, effects_call]
    exact h.orders.call hfresh
  · rw [effects_call]
    exact h.legal

theorem Traced.effect (h : Traced spec s trace m) {i : ι} {op : Op} {ans : Ans} {s' : σ}
    (hcalled : m.stage i = .called op) (hspec : spec m.state op ans s') :
    Traced spec s (trace ++ [.effect i op ans]) ⟨Function.update m.stage i (.taken ans), s'⟩ := by
  obtain ⟨hmark, hfresh⟩ := h.called i op hcalled
  have hother : ∀ j, j ≠ i → j ∉ (effects trace).map Prod.fst →
      j ∉ (effects (trace ++ [.effect i op ans])).map Prod.fst := by
    intro j hne hj
    rw [effects_effect, List.map_append, List.mem_append, not_or]
    exact ⟨hj, by simpa using hne⟩
  refine ⟨fun j hj => ?_, fun j o hj => ?_, fun j a hj => ?_, ?_, ?_⟩
  · dsimp only at hj
    rw [Function.update_apply] at hj
    split at hj
    next => cases hj
    next hne => exact hother j hne (h.idle j hj)
  · dsimp only at hj
    rw [Function.update_apply] at hj
    split at hj
    next => cases hj
    next hne =>
      obtain ⟨hmark', hno⟩ := h.called j o hj
      rw [marks_effect]
      exact ⟨hmark', hother j hne hno⟩
  · dsimp only at hj
    rw [Function.update_apply] at hj
    rw [effects_effect]
    split at hj
    next heq =>
      cases hj
      exact ⟨op, by simp [heq]⟩
    next =>
      obtain ⟨o, ho⟩ := h.taken j a hj
      exact ⟨o, List.mem_append_left _ ho⟩
  · rw [marks_effect, effects_effect]
    exact h.orders.effect hmark hfresh
  · rw [effects_effect]
    exact .snoc h.legal hspec

theorem Traced.ret (h : Traced spec s trace m) {i : ι} {ans : Ans} (htaken : m.stage i = .taken ans) :
    Traced spec s (trace ++ [.ret i ans]) ⟨Function.update m.stage i .answered, m.state⟩ := by
  obtain ⟨op, hop⟩ := h.taken i ans htaken
  refine ⟨fun j hj => ?_, fun j o hj => ?_, fun j a hj => ?_, ?_, ?_⟩
  · dsimp only at hj
    rw [Function.update_apply] at hj
    split at hj
    next => cases hj
    next => simpa using h.idle j hj
  · dsimp only at hj
    rw [Function.update_apply] at hj
    split at hj
    next => cases hj
    next =>
      obtain ⟨hmark, hno⟩ := h.called j o hj
      rw [marks_ret, effects_ret]
      exact ⟨List.mem_append_left _ hmark, hno⟩
  · dsimp only at hj
    rw [Function.update_apply] at hj
    split at hj
    next => cases hj
    next => simpa using h.taken j a hj
  · rw [marks_ret, effects_ret]
    exact h.orders.ret hop
  · rw [effects_ret]
    exact h.legal

theorem Traced.step (h : Traced spec s trace m) (hstep : Step spec m p m') :
    Traced spec s (trace ++ [p]) m' := by
  cases hstep with
  | call hidle => exact h.call hidle
  | effect hcalled hspec => exact h.effect hcalled hspec
  | ret htaken => exact h.ret htaken

end Monitor

/-- A machine whose steps are steps of the atomic object, or show nothing of it, has
linearizable runs. -/
theorem linearizable_runs {τ ε : Type} [DecidableEq ι] {step : τ → ε → Option τ}
    {obs : τ → ε → Option (Point ι Op Ans)} {spec : σ → Op → Ans → σ → Prop} {t t' : τ} {s : σ}
    {R : τ → Monitor ι Op Ans σ → Prop} (hstart : R t (.start s))
    (hstep : ∀ mid e next m, R mid m → step mid e = some next →
      (obs mid e = none ∧ R next m) ∨
        ∃ p m', obs mid e = some p ∧ Monitor.Step spec m p m' ∧ R next m')
    {es : List ε} (h : runs step t es = some t') :
    Linearizable spec s (marks (observations step obs t es)) := by
  have hinv : ∃ m, R t' m ∧ Monitor.Traced spec s (observations step obs t es) m := by
    refine runs_history (I := fun es t' =>
      ∃ m, R t' m ∧ Monitor.Traced spec s (observations step obs t es) m) ?_ ?_ h
    · exact ⟨.start s, hstart, Monitor.traced_start⟩
    · rintro past e rest mid next _ hrun ⟨m, hR, htraced⟩ hnext
      rw [observations_snoc hrun]
      rcases hstep mid e next m hR hnext with ⟨hnone, hR'⟩ | ⟨p, m', hp, hm, hR'⟩
      · rw [hnone, Option.toList_none, List.append_nil]
        exact ⟨m, hR', htraced⟩
      · rw [hp]
        exact ⟨m', hR', htraced.step hm⟩
  obtain ⟨m, _, htraced⟩ := hinv
  exact ⟨_, m.state, htraced.orders, htraced.legal⟩

end SelfHealingCache
