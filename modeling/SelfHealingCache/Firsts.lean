import Mathlib.Data.List.MinMax
import Mathlib.Data.List.Nodup
import Mathlib.Data.List.Sort
import Mathlib.Data.List.Sublists
import Mathlib.Tactic.Common

namespace SelfHealingCache

variable {α : Type} [DecidableEq α]

/-- Keeping first occurrences commutes with filtering. -/
theorem filter_eraseDups (p : α → Bool) :
    ∀ l : List α, (l.filter p).eraseDups = l.eraseDups.filter p
  | [] => rfl
  | a :: l => by
    have ih := filter_eraseDups p (l.filter fun b => !b == a)
    rw [List.eraseDups_cons]
    by_cases ha : p a
    · rw [List.filter_cons_of_pos ha, List.filter_cons_of_pos ha, List.eraseDups_cons, ← ih,
        List.filter_comm]
    · rw [List.filter_cons_of_neg ha, List.filter_cons_of_neg ha, ← ih, List.filter_filter]
      congr 1
      apply List.filter_congr
      intro b _
      by_cases hb : b = a <;> simp [hb, ha]
termination_by l => l.length
decreasing_by
  have := List.length_filter_le (fun b => !b == a) l
  simp only [List.length_cons]
  omega

theorem eraseDups_cons_filter (a : α) (l : List α) :
    (a :: l).eraseDups = a :: l.eraseDups.filter (fun b => !b == a) := by
  rw [List.eraseDups_cons, filter_eraseDups]

theorem nodup_eraseDups (l : List α) : l.eraseDups.Nodup := by
  induction l with
  | nil => simp
  | cons a l ih =>
    rw [eraseDups_cons_filter, List.nodup_cons]
    exact ⟨by simp, ih.filter _⟩

theorem head?_eraseDups (l : List α) : l.eraseDups.head? = l.head? := by
  cases l with
  | nil => rfl
  | cons a l => rw [eraseDups_cons_filter]; rfl

omit [DecidableEq α] in
/-- Two selections that allow each other's first element have the same one. -/
theorem head?_filter_unique {p q : α → Bool} {l : List α} {a b : α}
    (ha : (l.filter p).head? = some a) (hb : (l.filter q).head? = some b) (hqa : q a = true)
    (hpb : p b = true) : a = b := by
  induction l with
  | nil => cases ha
  | cons c l ih =>
    by_cases hp : p c
    · rw [List.filter_cons_of_pos hp] at ha
      cases Option.some.inj ha
      rw [List.filter_cons_of_pos hqa] at hb
      exact Option.some.inj hb
    · have hne : ¬q c = true := by
        intro hq
        rw [List.filter_cons_of_pos hq] at hb
        cases Option.some.inj hb
        exact hp hpb
      rw [List.filter_cons_of_neg hp] at ha
      rw [List.filter_cons_of_neg hne] at hb
      exact ih ha hb

/-- Walk over `l`, appending unseen elements to `acc` until it holds `n` of them. -/
def collect (n : Nat) : List α → List α → List α
  | [], acc => acc
  | a :: l, acc =>
    if acc.length < n then collect n l (if a ∈ acc then acc else acc ++ [a]) else acc

theorem collect_eq {n : Nat} (l : List α) {acc : List α} (h : acc.length ≤ n) :
    collect n l acc = (acc ++ l.eraseDups.filter fun b => b ∉ acc).take n := by
  induction l generalizing acc with
  | nil => simp [collect, List.take_of_length_le h]
  | cons a l ih =>
    rw [collect]
    by_cases hn : acc.length < n
    · rw [if_pos hn]
      by_cases ha : a ∈ acc
      · rw [if_pos ha, ih h, eraseDups_cons_filter, List.filter_cons_of_neg (by simpa using ha),
          List.filter_filter]
        congr 2
        apply List.filter_congr
        intro b _
        by_cases hb : b = a <;> simp [hb, ha]
      · rw [if_neg ha, ih (by rw [List.length_append, List.length_singleton]; omega),
          eraseDups_cons_filter,
          List.filter_cons_of_pos (by simpa using ha), List.filter_filter, List.append_assoc,
          List.singleton_append]
        congr 3
        apply List.filter_congr
        intro b _
        by_cases hb : b = a <;> simp [hb]
    · have hl : acc.length = n := by omega
      rw [if_neg hn, List.take_append_of_le_length (by omega), List.take_of_length_le (by omega)]

/-- Deleting one element of a duplicate-free list costs at most one place. -/
theorem take_filter_ne {l : List α} (h : l.Nodup) (a : α) (r : Nat) :
    (l.filter fun b => b ≠ a).take r =
      ((l.take (r + 1)).filter fun b => b ≠ a).take r := by
  induction l generalizing r with
  | nil => simp
  | cons b l ih =>
    have hb := List.nodup_cons.mp h
    by_cases he : b = a
    · have hall : ∀ m : List α, a ∉ m → m.filter (fun c => c ≠ a) = m := by
        intro m hm
        apply List.filter_eq_self.mpr
        intro c hc
        have hca : c ≠ a := fun e => hm (e ▸ hc)
        simpa using hca
      subst he
      have ht : b ∉ l.take r := fun hm => hb.1 (List.mem_of_mem_take hm)
      rw [List.filter_cons_of_neg (by simp), List.take_succ_cons,
        List.filter_cons_of_neg (by simp), hall l hb.1, hall _ ht, List.take_take, Nat.min_self]
    · rw [List.filter_cons_of_pos (by simpa using he), List.take_succ_cons,
        List.filter_cons_of_pos (by simpa using he)]
      cases r with
      | zero => simp
      | succ r => rw [List.take_succ_cons, List.take_succ_cons, ih hb.2]

/-- Filtering keeps the order of what it keeps. -/
theorem idxOf_filter_le_iff {p : α → Bool} {l : List α} {a b : α} (ha : p a = true)
    (hb : p b = true) : (l.filter p).idxOf a ≤ (l.filter p).idxOf b ↔ l.idxOf a ≤ l.idxOf b := by
  induction l with
  | nil => simp
  | cons c l ih =>
    by_cases hc : p c = true
    · rw [List.filter_cons_of_pos hc]
      by_cases hca : c = a
      · rw [hca, List.idxOf_cons_self, List.idxOf_cons_self]
        exact iff_of_true (Nat.zero_le _) (Nat.zero_le _)
      · by_cases hcb : c = b
        · rw [hcb] at hca ⊢
          rw [List.idxOf_cons_self, List.idxOf_cons_self, List.idxOf_cons_ne _ hca,
            List.idxOf_cons_ne _ hca]
          exact iff_of_false (by omega) (by omega)
        · rw [List.idxOf_cons_ne _ hca, List.idxOf_cons_ne _ hcb, List.idxOf_cons_ne _ hca,
            List.idxOf_cons_ne _ hcb]
          omega
    · have hca : c ≠ a := fun h => hc (h ▸ ha)
      have hcb : c ≠ b := fun h => hc (h ▸ hb)
      rw [List.filter_cons_of_neg hc, List.idxOf_cons_ne _ hca, List.idxOf_cons_ne _ hcb, ih]
      omega

/-- A stable sort puts the first of the smallest elements in front. -/
theorem head?_insertionSort {α β : Type} [LinearOrder β] (f : α → β) (l : List α) :
    (l.insertionSort fun a b => f a ≤ f b).head? = l.argmin f := by
  induction l with
  | nil => rfl
  | cons a l ih =>
    rw [List.insertionSort_cons, List.argmin_cons, ← ih]
    cases (l.insertionSort fun a b => f a ≤ f b) with
    | nil => rfl
    | cons b rest =>
      rw [List.orderedInsert_cons, List.head?_cons]
      by_cases h : f a ≤ f b
      · rw [if_pos h]
        exact (if_neg (not_lt.mpr h)).symm
      · rw [if_neg h]
        exact (if_pos (not_le.mp h)).symm

end SelfHealingCache
