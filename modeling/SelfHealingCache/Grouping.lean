import SelfHealingCache.Dict

namespace SelfHealingCache

namespace Dict

variable {α κ β : Type} [DecidableEq κ]

/-- `if k not in d: d[k] = []`, then `d[k].append(v)`. -/
def appendTo (d : Dict κ (List β)) (k : κ) (v : β) : Dict κ (List β) :=
  d.set k ((d.get? k).getD [] ++ [v])

/-- A loop of such appends. -/
def group (f : α → κ) (g : α → β) (l : List α) : Dict κ (List β) :=
  l.foldl (fun d a => d.appendTo (f a) (g a)) ∅

theorem get?_foldl_appendTo (f : α → κ) (g : α → β) (l : List α) (d : Dict κ (List β)) (k : κ) :
    ((l.foldl (fun d a => d.appendTo (f a) (g a)) d).get? k).getD [] =
      (d.get? k).getD [] ++ (l.filter fun a => f a = k).map g := by
  induction l generalizing d with
  | nil => simp
  | cons a l ih =>
    rw [List.foldl_cons, ih, appendTo, get?_set]
    by_cases hk : k = f a
    · subst hk
      simp
    · have hk' : ¬f a = k := fun e => hk e.symm
      simp [hk, hk']

/-- A group is present once it has a member. -/
theorem group_nonempty (f : α → κ) (g : α → β) (l : List α) {k : κ} {vs : List β}
    (h : (group f g l).get? k = some vs) : vs ≠ [] := by
  have hinv : ∀ l : List α, ∀ d : Dict κ (List β), (∀ vs, d.get? k = some vs → vs ≠ []) →
      ∀ vs, (l.foldl (fun d a => d.appendTo (f a) (g a)) d).get? k = some vs → vs ≠ [] := by
    intro l
    induction l with
    | nil => exact fun _ hd => hd
    | cons a l ih =>
      intro d hd
      apply ih
      intro vs hvs
      dsimp only at hvs
      rw [appendTo, get?_set] at hvs
      split at hvs
      next =>
        cases Option.some.inj hvs
        simp
      next => exact hd vs hvs
  exact hinv l ∅ (by simp) vs h

theorem get?_group (f : α → κ) (g : α → β) (l : List α) {k : κ} {vs : List β} :
    (group f g l).get? k = some vs ↔ vs ≠ [] ∧ vs = (l.filter fun a => f a = k).map g := by
  have hget := get?_foldl_appendTo f g l ∅ k
  rw [get?_empty, Option.getD_none, List.nil_append] at hget
  constructor
  · intro h
    refine ⟨group_nonempty f g l h, ?_⟩
    rw [← hget]
    exact (congrArg (fun o => o.getD []) h).symm
  · intro ⟨hne, heq⟩
    cases hg : (group f g l).get? k with
    | none =>
      have hnil : ((group f g l).get? k).getD [] = [] := by rw [hg, Option.getD_none]
      exact absurd (heq.trans (hget.symm.trans hnil)) hne
    | some ws =>
      have hws : ((group f g l).get? k).getD [] = ws := by rw [hg, Option.getD_some]
      rw [heq, ← hget]
      exact congrArg some hws.symm

end Dict

end SelfHealingCache
