import Mathlib.Data.List.Basic
import Mathlib.Data.List.Induction
import Mathlib.Tactic.Common

namespace SelfHealingCache

variable {σ ε : Type}

/-- What every step preserves holds after every run. -/
theorem foldl_invariant {step : σ → ε → σ} {I : σ → Prop} (hstep : ∀ s e, I s → I (step s e))
    (es : List ε) {s : σ} (hs : I s) : I (es.foldl step s) := by
  induction es generalizing s with
  | nil => exact hs
  | cons e es ih => exact ih (hstep s e hs)

/-- The same rule for invariants that speak about the history of the run. -/
theorem foldl_history {step : σ → ε → σ} {s : σ} {I : List ε → σ → Prop} (hs : I [] s)
    (hstep : ∀ past e, I past (past.foldl step s) →
      I (past ++ [e]) (step (past.foldl step s) e)) (es : List ε) : I es (es.foldl step s) := by
  induction es using List.reverseRecOn with
  | nil => exact hs
  | append_singleton past e ih =>
    rw [List.foldl_append]
    exact hstep past e ih

/-- Events that a fold ignores can be left out. -/
theorem foldl_relevant {upd : σ → ε → σ} {p : ε → Bool} (h : ∀ s e, p e = false → upd s e = s)
    (es : List ε) (s : σ) : (es.filter p).foldl upd s = es.foldl upd s := by
  induction es generalizing s with
  | nil => rfl
  | cons e es ih =>
    cases hp : p e with
    | true => rw [List.filter_cons_of_pos hp, List.foldl_cons, List.foldl_cons, ih]
    | false =>
      have hskip : ¬p e = true := by simp [hp]
      rw [List.filter_cons_of_neg hskip, List.foldl_cons, ih, h s e hp]

/-- A run of a machine whose steps can be disabled. -/
def runs (step : σ → ε → Option σ) (s : σ) (es : List ε) : Option σ := es.foldlM step s

@[simp] theorem runs_nil (step : σ → ε → Option σ) (s : σ) : runs step s [] = some s := rfl

theorem runs_cons (step : σ → ε → Option σ) (s : σ) (e : ε) (es : List ε) :
    runs step s (e :: es) = (step s e).bind fun s' => runs step s' es := rfl

theorem runs_append (step : σ → ε → Option σ) (s : σ) (es es' : List ε) :
    runs step s (es ++ es') = (runs step s es).bind fun s' => runs step s' es' := by
  induction es generalizing s with
  | nil => rfl
  | cons e es ih =>
    rw [List.cons_append, runs_cons, runs_cons, Option.bind_assoc]
    congr 1
    funext s'
    exact ih s'

/-- An event of a run stands right after the events before it. -/
theorem split_at {es past rest : List ε} {e : ε} (h : es = past ++ e :: rest) :
    past = es.take past.length ∧ es[past.length]? = some e := by
  subst h
  simp

theorem runs_snoc_eq_some {step : σ → ε → Option σ} {s s' : σ} {es : List ε} {e : ε} :
    runs step s (es ++ [e]) = some s' ↔ ∃ mid, runs step s es = some mid ∧ step mid e = some s' := by
  rw [runs_append, Option.bind_eq_some_iff]
  refine exists_congr fun mid => and_congr_right fun _ => ?_
  rw [runs_cons]
  cases step mid e <;> simp

/-- Every state passed by a run satisfies an invariant that its steps preserve; the
proof of a step may use the events before it and that it belongs to the run. -/
theorem runs_history {step : σ → ε → Option σ} {s : σ} {I : List ε → σ → Prop} (hs : I [] s)
    {es : List ε} (hstep : ∀ past e rest mid s', es = past ++ e :: rest →
      runs step s past = some mid → I past mid → step mid e = some s' → I (past ++ [e]) s')
    {s' : σ} (h : runs step s es = some s') : I es s' := by
  induction es using List.reverseRecOn generalizing s' with
  | nil =>
    cases Option.some.inj h
    exact hs
  | append_singleton past e ih =>
    obtain ⟨mid, hm, he⟩ := runs_snoc_eq_some.mp h
    refine hstep past e [] mid s' rfl hm (ih ?_ hm) he
    intro p x rest m m' hsplit
    exact hstep p x (rest ++ [e]) m m' (by rw [hsplit]; simp)

/-- Some step of the run shows `x`. -/
def Observed {α : Type} (step : σ → ε → Option σ) (obs : σ → ε → Option α) (s : σ) (es : List ε)
    (x : α) : Prop :=
  ∃ past e rest mid, es = past ++ e :: rest ∧ runs step s past = some mid ∧ obs mid e = some x

theorem not_observed_nil {α : Type} {step : σ → ε → Option σ} {obs : σ → ε → Option α} {s : σ}
    {x : α} : ¬Observed step obs s [] x := by
  intro ⟨past, e, rest, _, hsplit, _⟩
  simp at hsplit

/-- What the last step shows, or one before it. -/
theorem observed_snoc {α : Type} {step : σ → ε → Option σ} {obs : σ → ε → Option α} {s mid : σ}
    {es : List ε} {e : ε} {x : α} (h : runs step s es = some mid) :
    Observed step obs s (es ++ [e]) x ↔ Observed step obs s es x ∨ obs mid e = some x := by
  constructor
  · intro ⟨past, e', rest, mid', hsplit, hrun, hobs⟩
    rcases List.eq_nil_or_concat rest with hnil | ⟨rest', last, hlast⟩
    · rw [hnil] at hsplit
      obtain ⟨hes, he⟩ := List.append_inj' hsplit rfl
      cases he
      rw [← hes, h] at hrun
      cases Option.some.inj hrun
      exact Or.inr hobs
    · rw [hlast, List.concat_eq_append, ← List.cons_append, ← List.append_assoc] at hsplit
      obtain ⟨hes, _⟩ := List.append_inj' hsplit rfl
      exact Or.inl ⟨past, e', rest', mid', hes, hrun, hobs⟩
  · intro hor
    rcases hor with ⟨past, e', rest, mid', hsplit, hrun, hobs⟩ | hobs
    · exact ⟨past, e', rest ++ [e], mid', by rw [hsplit]; simp, hrun, hobs⟩
    · exact ⟨es, e, [], mid, rfl, h, hobs⟩

end SelfHealingCache
