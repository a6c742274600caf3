import Mathlib.Data.List.Chain
import Mathlib.Data.List.Nodup
import Mathlib.Logic.Function.Basic
import Mathlib.Tactic.Common

namespace SelfHealingCache

variable {P : Type}

/-- Adjacent cells of the list point at each other: `prev` mirrors `next`. -/
def Linked (next prev : P → Option P) (ps : List P) : Prop :=
  ps.IsChain fun p q => next p = some q ∧ prev q = some p

/-- A linked list only depends on the forward links of all cells but the last
and on the backward links of all cells but the first. -/
theorem Linked.congr {next prev next' prev' : P → Option P} {ps : List P}
    (h : Linked next prev ps) (hn : ∀ p ∈ ps.dropLast, next' p = next p)
    (hp : ∀ q ∈ ps.tail, prev' q = prev q) : Linked next' prev' ps := by
  induction ps with
  | nil => exact List.isChain_nil
  | cons a ps ih =>
    cases ps with
    | nil => exact List.isChain_singleton a
    | cons b ps =>
      obtain ⟨hab, hrest⟩ := List.isChain_cons_cons.mp h
      have hb : prev' b = prev b := hp b (by simp)
      have ha : next' a = next a := hn a (by simp)
      refine List.isChain_cons_cons.mpr ⟨⟨ha.trans hab.1, hb.trans hab.2⟩, ?_⟩
      apply ih hrest
      · intro p hm
        exact hn p (by rw [List.dropLast_cons_of_ne_nil (by simp)]; exact List.mem_cons_of_mem a hm)
      · intro q hq
        exact hp q (List.mem_of_mem_tail hq)

theorem linked_split {next prev : P → Option P} {l₁ l₂ : List P} {a b : P} :
    Linked next prev (l₁ ++ a :: b :: l₂) ↔
      Linked next prev (l₁ ++ [a]) ∧ (next a = some b ∧ prev b = some a) ∧
        Linked next prev (b :: l₂) := by
  unfold Linked
  rw [List.isChain_split, List.isChain_cons_cons]

/-- With the outer ends open, the backward links are exactly the forward links
reversed. -/
theorem Linked.mirror {next prev : P → Option P} {ps : List P} (h : Linked next prev ps)
    (hfirst : ∀ p, ps.head? = some p → prev p = none)
    (hlast : ∀ p, ps.getLast? = some p → next p = none) :
    ∀ p ∈ ps, ∀ q ∈ ps, next p = some q ↔ prev q = some p := by
  intro p hp q hq
  constructor
  · intro hnext
    obtain ⟨before, after, rfl⟩ := List.append_of_mem hp
    cases after with
    | nil =>
      have hnone := hlast p (by simp)
      rw [hnone] at hnext
      cases hnext
    | cons b after =>
      obtain ⟨_, ⟨hpb, hbp⟩, _⟩ := linked_split.mp h
      rw [hpb] at hnext
      cases hnext
      exact hbp
  · intro hprev
    obtain ⟨before, after, rfl⟩ := List.append_of_mem hq
    cases before using List.reverseRecOn with
    | nil =>
      have hnone := hfirst q (by simp)
      rw [hnone] at hprev
      cases hprev
    | append_singleton before a =>
      rw [List.append_assoc, List.singleton_append] at h
      obtain ⟨_, ⟨haq, hqa⟩, _⟩ := linked_split.mp h
      rw [hqa] at hprev
      cases hprev
      exact haq

/-- Bypassing one inner cell leaves the others linked. -/
theorem Linked.bypass {next prev : P → Option P} {l₁ l₂ : List P} {p x q : P}
    (h : Linked next prev (l₁ ++ p :: x :: q :: l₂)) (hn : (l₁ ++ p :: x :: q :: l₂).Nodup)
    {next' prev' : P → Option P} (hp : next' p = some q) (hq : prev' q = some p)
    (hnext : ∀ y, y ≠ p → y ≠ x → next' y = next y)
    (hprev : ∀ y, y ≠ q → y ≠ x → prev' y = prev y) :
    Linked next' prev' (l₁ ++ p :: q :: l₂) := by
  obtain ⟨hleft, _, hright⟩ := linked_split.mp h
  obtain ⟨_, hright⟩ := List.isChain_cons_cons.mp hright
  obtain ⟨hn₁, hn₂, hdisj⟩ := List.nodup_append'.mp hn
  have hl₁ : ∀ y ∈ l₁, y ≠ p ∧ y ≠ x ∧ y ≠ q := by
    intro y hy
    have hy' : y ∉ p :: x :: q :: l₂ := fun hm => hdisj hy hm
    simp only [List.mem_cons, not_or] at hy'
    exact ⟨hy'.1, hy'.2.1, hy'.2.2.1⟩
  simp only [List.nodup_cons, List.mem_cons, not_or] at hn₂
  obtain ⟨⟨hpx, hpq, hpl⟩, ⟨hxq, hxl⟩, hql, _⟩ := hn₂
  refine linked_split.mpr ⟨?_, ⟨hp, hq⟩, ?_⟩
  · apply hleft.congr
    · intro y hy
      rw [List.dropLast_concat] at hy
      exact hnext y (hl₁ y hy).1 (hl₁ y hy).2.1
    · intro y hy
      have hm := List.mem_of_mem_tail hy
      rcases List.mem_append.mp hm with hm | hm
      · exact hprev y (hl₁ y hm).2.2 (hl₁ y hm).2.1
      · rw [List.mem_singleton.mp hm]
        exact hprev p hpq hpx
  · apply Linked.congr hright
    · intro y hy
      have hm := List.dropLast_subset _ hy
      rcases List.mem_cons.mp hm with rfl | hm
      · exact hnext y (Ne.symm hpq) (Ne.symm hxq)
      · exact hnext y (fun e => hpl (e ▸ hm)) (fun e => hxl (e ▸ hm))
    · intro y hy
      have hm : y ∈ l₂ := hy
      exact hprev y (fun e => hql (e ▸ hm)) (fun e => hxl (e ▸ hm))

/-- Splicing a fresh cell in behind the first one. -/
theorem Linked.splice {next prev : P → Option P} {l : List P} {a x b : P}
    (h : Linked next prev (a :: b :: l)) (hn : (a :: b :: l).Nodup) (hx : x ∉ a :: b :: l)
    {next' prev' : P → Option P} (hna : next' a = some x) (hpx : prev' x = some a)
    (hnx : next' x = some b) (hpb : prev' b = some x)
    (hnext : ∀ y, y ≠ a → y ≠ x → next' y = next y)
    (hprev : ∀ y, y ≠ b → y ≠ x → prev' y = prev y) :
    Linked next' prev' (a :: x :: b :: l) := by
  obtain ⟨_, hrest⟩ := List.isChain_cons_cons.mp h
  simp only [List.nodup_cons, List.mem_cons, not_or] at hn hx
  obtain ⟨⟨hab, hal⟩, hbl, _⟩ := hn
  obtain ⟨_, hxb, hxl⟩ := hx
  refine List.isChain_cons_cons.mpr ⟨⟨hna, hpx⟩, List.isChain_cons_cons.mpr ⟨⟨hnx, hpb⟩, ?_⟩⟩
  apply Linked.congr hrest
  · intro y hy
    have hm := List.dropLast_subset _ hy
    rcases List.mem_cons.mp hm with rfl | hm
    · exact hnext y (Ne.symm hab) (Ne.symm hxb)
    · exact hnext y (fun e => hal (e ▸ hm)) (fun e => hxl (e ▸ hm))
  · intro y hy
    have hm : y ∈ l := hy
    exact hprev y (fun e => hbl (e ▸ hm)) (fun e => hxl (e ▸ hm))

end SelfHealingCache
