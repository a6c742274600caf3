import Mathlib.Algebra.Order.Field.Basic
import Mathlib.Tactic.Linarith
import Mathlib.Tactic.Ring

namespace SelfHealingCache

section averages

variable {K : Type} [Field K] [LinearOrder K] [IsStrictOrderedRing K]

/-- The exponential moving average after one more sample; the first sample is taken as it is. -/
def averaged (alpha : K) (old : Option K) (sample : K) : Option K :=
  match old with
  | none => some sample
  | some e => some (alpha * sample + (1 - alpha) * e)

/-- The exponential moving average after all samples. -/
def average (alpha : K) (old : Option K) (samples : List K) : Option K :=
  samples.foldl (averaged alpha) old

variable {alpha : K} {old : Option K} {samples : List K}

omit [LinearOrder K] [IsStrictOrderedRing K] in
theorem average_cons (sample : K) :
    average alpha old (sample :: samples) = average alpha (averaged alpha old sample) samples := rfl

omit [LinearOrder K] [IsStrictOrderedRing K] in
theorem average_neg : average alpha (old.map Neg.neg) (samples.map Neg.neg) =
    (average alpha old samples).map Neg.neg := by
  induction samples generalizing old with
  | nil => rfl
  | cons sample samples ih =>
    have hstep : averaged alpha (old.map Neg.neg) (-sample) =
        (averaged alpha old sample).map Neg.neg := by
      cases old with
      | none => rfl
      | some e =>
        simp only [averaged, Option.map_some]
        congr 1
        ring
    rw [List.map_cons, average_cons, average_cons, hstep, ih]

/-- What the start exceeds the samples by decays with every sample. -/
theorem average_le (h0 : 0 ≤ alpha) (h1 : alpha ≤ 1) {hi gap : K} (hgap : 0 ≤ gap)
    (hold : ∀ e, old = some e → e ≤ hi + gap) (hsamples : ∀ x ∈ samples, x ≤ hi) {e : K}
    (h : average alpha old samples = some e) : e ≤ hi + (1 - alpha) ^ samples.length * gap := by
  induction samples generalizing old gap with
  | nil =>
    rw [List.length_nil, pow_zero, one_mul]
    exact hold e h
  | cons sample samples ih =>
    have hsample : sample ≤ hi := hsamples sample List.mem_cons_self
    have hrest : 0 ≤ (1 - alpha) * gap := mul_nonneg (sub_nonneg.mpr h1) hgap
    have hnext : ∀ e, averaged alpha old sample = some e → e ≤ hi + (1 - alpha) * gap := by
      intro e' he'
      cases old with
      | none =>
        cases he'
        linarith
      | some e₀ =>
        cases he'
        have hnew : alpha * sample ≤ alpha * hi := mul_le_mul_of_nonneg_left hsample h0
        have hkept : (1 - alpha) * e₀ ≤ (1 - alpha) * (hi + gap) :=
          mul_le_mul_of_nonneg_left (hold e₀ rfl) (sub_nonneg.mpr h1)
        linarith
    have hle := ih hrest hnext (fun x hx => hsamples x (List.mem_cons_of_mem _ hx)) h
    rw [List.length_cons, pow_succ, mul_assoc]
    exact hle

theorem le_average (h0 : 0 ≤ alpha) (h1 : alpha ≤ 1) {lo gap : K} (hgap : 0 ≤ gap)
    (hold : ∀ e, old = some e → lo - gap ≤ e) (hsamples : ∀ x ∈ samples, lo ≤ x) {e : K}
    (h : average alpha old samples = some e) : lo - (1 - alpha) ^ samples.length * gap ≤ e := by
  have hneg : average alpha (old.map Neg.neg) (samples.map Neg.neg) = some (-e) := by
    rw [average_neg, h, Option.map_some]
  have hold' : ∀ e, old.map Neg.neg = some e → e ≤ -lo + gap := by
    intro e' he'
    obtain ⟨e₀, he₀, rfl⟩ := Option.map_eq_some_iff.mp he'
    linarith [hold e₀ he₀]
  have hsamples' : ∀ x ∈ samples.map Neg.neg, x ≤ -lo := by
    intro x hx
    obtain ⟨y, hy, rfl⟩ := List.mem_map.mp hx
    exact neg_le_neg (hsamples y hy)
  have hle := average_le h0 h1 hgap hold' hsamples' hneg
  rw [List.length_map] at hle
  linarith

omit [LinearOrder K] [IsStrictOrderedRing K] in
theorem average_exists (alpha : K) {old : Option K} (h : samples ≠ [] ∨ old.isSome) :
    ∃ e, average alpha old samples = some e := by
  induction samples generalizing old with
  | nil =>
    rcases h with hne | hold
    · exact absurd rfl hne
    · exact Option.isSome_iff_exists.mp hold
  | cons sample samples ih =>
    rw [average_cons]
    refine ih (Or.inr ?_)
    cases old <;> rfl

end averages

end SelfHealingCache
