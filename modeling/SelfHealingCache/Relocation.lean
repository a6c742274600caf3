import Mathlib.Tactic.Common

namespace SelfHealingCache

section relocation

variable {A K V : Type} [DecidableEq A] (source target : K → Option A)

/-- The contents after each key with a target has been copied there from its
source; a key that the source does not have stays as it is. -/
def relocate (view : A → K → Option V) (a : A) (k : K) : Option V :=
  if target k = some a then ((source k).bind fun b => view b k).or (view a k) else view a k

/-- Some of the copies have been made. -/
def PartlyRelocated (view view' : A → K → Option V) : Prop :=
  ∀ a k, view' a k = view a k ∨ view' a k = relocate source target view a k

variable {source target} {view view' : A → K → Option V}

theorem relocate_of_ne {a : A} {k : K} (h : target k ≠ some a) :
    relocate source target view a k = view a k := if_neg h

theorem relocate_target {a b : A} {k : K} (ht : target k = some a) (hs : source k = some b) :
    relocate source target view a k = (view b k).or (view a k) := by
  rw [relocate, if_pos ht, hs, Option.bind_some]

theorem PartlyRelocated.refl (view : A → K → Option V) :
    PartlyRelocated source target view view := fun _ _ => .inl rfl

theorem PartlyRelocated.of_ne (h : PartlyRelocated source target view view') {a : A} {k : K}
    (hne : target k ≠ some a) : view' a k = view a k := by
  rcases h a k with hk | hk
  · exact hk
  · rw [hk, relocate_of_ne hne]

/-- When no key is copied onto its own source, copying again after an incomplete
round ends as one complete round: what was written is never read. -/
theorem relocate_partly (hne : ∀ k a, source k = some a → target k ≠ some a)
    (h : PartlyRelocated source target view view') :
    relocate source target view' = relocate source target view := by
  funext a k
  by_cases ht : target k = some a
  · cases hs : source k with
    | none =>
      have hview : relocate source target view a k = view a k := by
        rw [relocate, if_pos ht, hs]
        rfl
      have hview' : view' a k = view a k := (h a k).elim id fun hk => hk.trans hview
      rw [hview, relocate, if_pos ht, hs, hview']
      rfl
    | some b =>
      have hread : view' b k = view b k := h.of_ne (hne k b hs)
      rw [relocate_target ht hs, relocate_target ht hs, hread]
      cases hv : view b k with
      | some v => rfl
      | none =>
        rcases h a k with hk | hk
        · rw [hk]
        · rw [hk, relocate_target ht hs, hv]
          rfl
  · rw [relocate_of_ne ht, relocate_of_ne ht, h.of_ne ht]

end relocation

end SelfHealingCache
