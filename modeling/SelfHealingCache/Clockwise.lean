import SelfHealingCache.Firsts
import Mathlib.Data.List.Rotate
import Mathlib.Data.List.Sort

namespace SelfHealingCache

variable {P O : Type} [LinearOrder P]

/-- The points met on one clockwise lap that starts strictly after `x`. -/
def lapFrom (points : List (P × O)) (x : P) : List (P × O) :=
  points.filter (fun p => x < p.1) ++ points.filter (fun p => p.1 ≤ x)

/-- The distinct owners met on that lap, in the order in which they are met. -/
def preference [DecidableEq O] (points : List (P × O)) (x : P) : List O :=
  ((lapFrom points x).map Prod.snd).eraseDups

theorem mem_lapFrom {points : List (P × O)} {x : P} {p : P × O} :
    p ∈ lapFrom points x ↔ p ∈ points := by
  rw [lapFrom, List.mem_append, List.mem_filter, List.mem_filter]
  rcases lt_or_ge x p.1 with h | h <;> simp [h]

theorem lapFrom_filter (q : P × O → Bool) (points : List (P × O)) (x : P) :
    lapFrom (points.filter q) x = (lapFrom points x).filter q := by
  rw [lapFrom, lapFrom, List.filter_append]
  congr 1 <;> exact List.filter_comm _ _ points

theorem takeWhile_le_eq_filter {points : List (P × O)} (h : points.Pairwise (·.1 < ·.1)) (x : P) :
    (points.takeWhile fun p => p.1 ≤ x) = points.filter fun p => p.1 ≤ x := by
  induction points with
  | nil => rfl
  | cons p points ih =>
    have hp := List.pairwise_cons.mp h
    by_cases hx : p.1 ≤ x
    · rw [List.takeWhile_cons_of_pos (by simpa using hx),
        List.filter_cons_of_pos (by simpa using hx), ih hp.2]
    · have hnone : points.filter (fun q => q.1 ≤ x) = [] := by
        apply List.filter_eq_nil_iff.mpr
        intro q hq
        have := hp.1 q hq
        simpa using lt_trans (not_le.mp hx) this
      rw [List.takeWhile_cons_of_neg (by simpa using hx),
        List.filter_cons_of_neg (by simpa using hx), hnone]

theorem dropWhile_le_eq_filter {points : List (P × O)} (h : points.Pairwise (·.1 < ·.1)) (x : P) :
    (points.dropWhile fun p => p.1 ≤ x) = points.filter fun p => x < p.1 := by
  induction points with
  | nil => rfl
  | cons p points ih =>
    have hp := List.pairwise_cons.mp h
    by_cases hx : p.1 ≤ x
    · rw [List.dropWhile_cons_of_pos (by simpa using hx),
        List.filter_cons_of_neg (by simpa using hx), ih hp.2]
    · have hall : points.filter (fun q => x < q.1) = points := by
        apply List.filter_eq_self.mpr
        intro q hq
        have := hp.1 q hq
        simpa using lt_trans (not_le.mp hx) this
      rw [List.dropWhile_cons_of_neg (by simpa using hx),
        List.filter_cons_of_pos (by simpa using hx), hall]

/-- Turning the sorted points to the insertion index of `x` gives the lap from `x`. -/
theorem rotate_takeWhile_eq_lapFrom {points : List (P × O)} (h : points.Pairwise (·.1 < ·.1))
    (x : P) :
    points.rotate (points.takeWhile fun p => p.1 ≤ x).length = lapFrom points x := by
  have hsplit := List.takeWhile_append_dropWhile (p := fun p : P × O => p.1 ≤ x) (l := points)
  have hturn := List.rotate_append_length_eq (points.takeWhile fun p => p.1 ≤ x)
    (points.dropWhile fun p => p.1 ≤ x)
  rw [hsplit] at hturn
  rw [hturn, takeWhile_le_eq_filter h, dropWhile_le_eq_filter h, lapFrom]

/-- Strictly sorted lists of points are determined by their members. -/
theorem points_ext {points points' : List (P × O)} (h : points.Pairwise (·.1 < ·.1))
    (h' : points'.Pairwise (·.1 < ·.1)) (hm : ∀ p, p ∈ points ↔ p ∈ points') :
    points = points' := by
  have hnodup : ∀ l : List (P × O), l.Pairwise (·.1 < ·.1) → l.Nodup :=
    fun l hl => hl.imp fun hab he => absurd (congrArg Prod.fst he) (ne_of_lt hab)
  have hperm : points.Perm points' :=
    (List.perm_ext_iff_of_nodup (hnodup _ h) (hnodup _ h')).mpr hm
  exact hperm.eq_of_pairwise (fun a b _ _ hab hba => absurd hba (lt_asymm hab)) h h'

theorem lapFrom_perm (points : List (P × O)) (x : P) : (lapFrom points x).Perm points := by
  have hsplit := List.filter_append_perm (fun p : P × O => decide (x < p.1)) points
  have hrest : points.filter (fun p => !decide (x < p.1)) = points.filter fun p => p.1 ≤ x := by
    apply List.filter_congr
    intro p _
    rcases lt_or_ge x p.1 with h | h <;> simp [h]
  rwa [hrest] at hsplit

/-- A lap along which a distance grows is the sort of its points by this distance. -/
theorem insertionSort_eq_lapFrom {D : Type} [LinearOrder D] {points items : List (P × O)} {x : P}
    (d : P → D) (hperm : items.Perm points)
    (hlap : (lapFrom points x).Pairwise fun p q => d p.1 < d q.1) :
    (items.insertionSort fun p q => d p.1 ≤ d q.1) = lapFrom points x := by
  have : Std.Total fun p q : P × O => d p.1 ≤ d q.1 := ⟨fun _ _ => le_total _ _⟩
  have : IsTrans (P × O) fun p q => d p.1 ≤ d q.1 := ⟨fun _ _ _ h h' => le_trans h h'⟩
  have hsort := List.perm_insertionSort (fun p q : P × O => d p.1 ≤ d q.1) items
  have hsorted := List.pairwise_insertionSort (fun p q : P × O => d p.1 ≤ d q.1) items
  have hall := (hsort.trans hperm).trans (lapFrom_perm points x).symm
  -- the lap has no two points at one distance, so that the order of the sort is forced
  have hnodup : ((lapFrom points x).map fun p => d p.1).Nodup := by
    rw [List.Nodup, List.pairwise_map]
    exact hlap.imp fun hlt heq => absurd heq (ne_of_lt hlt)
  refine hall.eq_of_pairwise ?_ hsorted (hlap.imp fun hlt => le_of_lt hlt)
  intro p q hp hq hle hge
  exact List.inj_on_of_nodup_map hnodup (hall.mem_iff.mp hp) hq (le_antisymm hle hge)

section preference

variable [DecidableEq O]

theorem mem_preference {points : List (P × O)} {x : P} {o : O} :
    o ∈ preference points x ↔ ∃ h, (h, o) ∈ points := by
  rw [preference, List.mem_eraseDups, List.mem_map]
  constructor
  · rintro ⟨p, hp, rfl⟩
    exact ⟨p.1, mem_lapFrom.mp hp⟩
  · rintro ⟨h, hp⟩
    exact ⟨(h, o), mem_lapFrom.mpr hp, rfl⟩

theorem preference_nodup (points : List (P × O)) (x : P) : (preference points x).Nodup :=
  nodup_eraseDups _

/-- The points of some owners list these owners in the same order. -/
theorem preference_filter (points : List (P × O)) (x : P) (q : O → Bool) :
    preference (points.filter fun p => q p.2) x = (preference points x).filter q := by
  rw [preference, preference, lapFrom_filter, ← filter_eraseDups, List.filter_map]
  rfl

/-- Taking one owner's points away only removes that owner from the preference list. -/
theorem preference_filter_owner (points : List (P × O)) (x : P) (o : O) :
    preference (points.filter fun p => p.2 ≠ o) x =
      (preference points x).filter fun b => b ≠ o := by
  rw [preference, preference, lapFrom_filter, ← filter_eraseDups, List.filter_map]
  rfl

theorem preference_eq_nil {points : List (P × O)} {x : P} :
    preference points x = [] ↔ points = [] := by
  constructor
  · intro h
    apply List.eq_nil_iff_forall_not_mem.mpr
    intro p hp
    have hm : p.2 ∈ preference points x := mem_preference.mpr ⟨p.1, hp⟩
    rw [h] at hm
    exact List.not_mem_nil hm
  · rintro rfl
    rfl

end preference

end SelfHealingCache
