import Mathlib.Combinatorics.Enumerative.DoubleCounting
import Mathlib.Logic.Equiv.Basic
import SelfHealingCache.Clockwise

namespace SelfHealingCache

section ownerNames

variable {P O O' : Type} [LinearOrder P] [DecidableEq O] [DecidableEq O']

theorem eraseDups_map {g : O → O'} (hg : Function.Injective g) (l : List O) :
    (l.map g).eraseDups = l.eraseDups.map g := by
  induction l with
  | nil => rfl
  | cons a l ih =>
    rw [List.map_cons, eraseDups_cons_filter, ih, eraseDups_cons_filter, List.map_cons,
      List.filter_map]
    congr 2
    apply List.filter_congr
    intro b _
    by_cases hb : b = a
    · simp [hb]
    · have hne : g b ≠ g a := fun h => hb (hg h)
      simp [hb, hne]

/-- Other names for the owners change nothing else in the preference list. -/
theorem preference_rename {g : O → O'} (hg : Function.Injective g) (points : List (P × O)) (x : P) :
    preference (points.map fun p => (p.1, g p.2)) x = (preference points x).map g := by
  have hlap : lapFrom (points.map fun p => (p.1, g p.2)) x =
      (lapFrom points x).map fun p => (p.1, g p.2) := by
    rw [lapFrom, lapFrom, List.map_append, List.filter_map, List.filter_map]
    rfl
  rw [preference, preference, hlap, ← eraseDups_map hg, List.map_map, List.map_map]
  rfl

theorem swap_mem {nodes : Finset O} {n m : O} (hn : n ∈ nodes)
    (hm : m ∈ nodes) (x : O) : Equiv.swap n m x ∈ nodes ↔ x ∈ nodes := by
  rw [Equiv.swap_apply_def]
  split
  next h => exact iff_of_true hm (h ▸ hn)
  next =>
    split
    next h => exact iff_of_true hn (h ▸ hm)
    next => exact Iff.rfl

end ownerNames

section counting

variable {A O : Type} {outcomes : Finset A} {players : Finset O} (wins : A → O → Prop)
  [∀ a o, Decidable (wins a o)]

/-- When as many players win in every outcome and any two players can be exchanged, all of
them win in the same share of the outcomes. -/
theorem card_wins {c : Nat}
    (hwinners : ∀ a ∈ outcomes, (players.filter fun o => wins a o).card = c)
    (hexchange : ∀ o ∈ players, ∀ o' ∈ players, ∃ e : Equiv.Perm A, ∀ a,
      (e a ∈ outcomes ↔ a ∈ outcomes) ∧ (a ∈ outcomes → (wins (e a) o' ↔ wins a o)))
    {o : O} (ho : o ∈ players) :
    players.card * (outcomes.filter fun a => wins a o).card = c * outcomes.card := by
  have hequal : ∀ o' ∈ players, (outcomes.filter fun a => wins a o').card =
      (outcomes.filter fun a => wins a o).card := by
    intro o' ho'
    obtain ⟨e, he⟩ := hexchange o ho o' ho'
    refine (Finset.card_equiv e fun a => ?_).symm
    rw [Finset.mem_filter, Finset.mem_filter, (he a).1]
    exact and_congr_right fun ha => ((he a).2 ha).symm
  have hcount := Finset.sum_card_bipartiteAbove_eq_sum_card_bipartiteBelow wins
    (s := outcomes) (t := players)
  calc players.card * (outcomes.filter fun a => wins a o).card
      = ∑ o' ∈ players, (outcomes.filter fun a => wins a o').card := by
        rw [Finset.sum_congr rfl hequal, Finset.sum_const, Nat.nsmul_eq_mul]
    _ = ∑ a ∈ outcomes, (players.filter fun o' => wins a o').card := hcount.symm
    _ = c * outcomes.card := by
        rw [Finset.sum_congr rfl hwinners, Finset.sum_const, Nat.nsmul_eq_mul, Nat.mul_comm]

end counting

end SelfHealingCache
