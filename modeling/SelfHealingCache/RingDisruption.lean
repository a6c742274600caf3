import Mathlib.Algebra.GroupWithZero.Nat
import SelfHealingCache.RingLookup

namespace SelfHealingCache

namespace HashRing

theorem getReplicas_removeNode (_hash : String → Nat) (r : HashRing) (n key : String) (k : Nat) :
    (r.removeNode n).getReplicas _hash key k =
      ((r.getReplicas _hash key (k + 1)).filter fun b => b ≠ n).take k := by
  have hk : ((k : Int) + 1).toNat = k + 1 := by omega
  rw [getReplicas_eq, getReplicas_eq, preference_removeNode, Int.toNat_natCast, hk]
  exact take_filter_ne (preference_nodup _ _) n k

theorem getReplicas_addNode {_hash : String → Nat} {r : HashRing} {n : String}
    (hn : n ∉ r.nodes) (hfresh : ∀ h ∈ virtualHashes _hash r.virtualNodes n, h ∉ r.ring.keys)
    (key : String) (k : Nat) :
    r.getReplicas _hash key k =
      (((r.addNode _hash n).getReplicas _hash key (k + 1)).filter fun b => b ≠ n).take k := by
  have hk : ((k : Int) + 1).toNat = k + 1 := by omega
  rw [getReplicas_eq, getReplicas_eq, preference_addNode _hash hn hfresh, Int.toNat_natCast, hk]
  exact take_filter_ne (preference_nodup _ _) n k

theorem head?_filter_of_head?_ne {l : List String} {n : String} (h : l.head? ≠ some n) :
    (l.filter fun b => b ≠ n).head? = l.head? := by
  cases l with
  | nil => rfl
  | cons a l =>
    have ha : a ≠ n := fun he => h (by rw [he, List.head?_cons])
    rw [List.filter_cons_of_pos (by simpa using ha), List.head?_cons, List.head?_cons]

theorem head?_filter_of_head? {l : List String} {n : String} (hl : l.Nodup)
    (h : l.head? = some n) : (l.filter fun b => b ≠ n).head? = (l.take 2)[1]? := by
  obtain ⟨rest, rfl⟩ := List.head?_eq_some_iff.mp h
  have hn := List.nodup_cons.mp hl
  have hrest : rest.filter (fun b => b ≠ n) = rest := by
    apply List.filter_eq_self.mpr
    intro b hb
    have hne : b ≠ n := fun he => hn.1 (he ▸ hb)
    simpa using hne
  rw [List.filter_cons_of_neg (by simp), hrest]
  cases rest <;> simp

/-- Removing a node moves only the keys it owned, each to its next replica in
order; adding a node moves keys only onto the new node. -/
theorem minimal_disruption (_hash : String → Nat) (r : HashRing) (n key : String) (k : Nat) :
    (r.removeNode n).getReplicas _hash key k =
        ((r.getReplicas _hash key (k + 1)).filter fun b => b ≠ n).take k ∧
      (r.getNode _hash key ≠ some n →
        (r.removeNode n).getNode _hash key = r.getNode _hash key) ∧
      (r.getNode _hash key = some n →
        (r.removeNode n).getNode _hash key = (r.getReplicas _hash key 2)[1]?) ∧
      (n ∉ r.nodes → (∀ h ∈ virtualHashes _hash r.virtualNodes n, h ∉ r.ring.keys) →
        r.getReplicas _hash key k =
            (((r.addNode _hash n).getReplicas _hash key (k + 1)).filter fun b => b ≠ n).take k ∧
          ((r.addNode _hash n).getNode _hash key = some n ∨
            (r.addNode _hash n).getNode _hash key = r.getNode _hash key)) := by
  refine ⟨getReplicas_removeNode _hash r n key k, ?_, ?_, ?_⟩
  · intro h
    rw [getNode_eq] at h
    rw [getNode_eq, getNode_eq, preference_removeNode, head?_filter_of_head?_ne h]
  · intro h
    rw [getNode_eq] at h
    rw [getNode_eq, getReplicas_eq, preference_removeNode,
      head?_filter_of_head? (preference_nodup _ _) h]
    rfl
  · intro hn hfresh
    refine ⟨getReplicas_addNode hn hfresh key k, ?_⟩
    rw [getNode_eq, getNode_eq, preference_addNode _hash hn hfresh]
    by_cases h : (preference (r.addNode _hash n).points (_hash key)).head? = some n
    · exact Or.inl h
    · exact Or.inr (head?_filter_of_head?_ne h).symm

/-- A hash that can be evaluated by hand: the sum of the character codes. -/
def letterSum (s : String) : Nat := (s.toList.map Char.toNat).sum

theorem minimal_disruption_letters :
    ((init letterSum ["a", "b"] 1).removeNode "b").getNode letterSum "k" =
        (init letterSum ["a", "b"] 1).getNode letterSum "k" ∧
      ((init letterSum ["a", "b"] 1).removeNode "a").getNode letterSum "k" =
        ((init letterSum ["a", "b"] 1).getReplicas letterSum "k" 2)[1]? ∧
      (init letterSum ["a", "b"] 1).getReplicas letterSum "k" 1 =
        ((((init letterSum ["a", "b"] 1).addNode letterSum "c").getReplicas letterSum "k"
          (1 + 1)).filter fun b => b ≠ "c").take 1 := by
  refine ⟨?_, ?_, ?_⟩
  · exact (minimal_disruption letterSum (init letterSum ["a", "b"] 1) "b" "k" 1).2.1 (by decide)
  · exact (minimal_disruption letterSum (init letterSum ["a", "b"] 1) "a" "k" 1).2.2.1 (by decide)
  · exact ((minimal_disruption letterSum (init letterSum ["a", "b"] 1) "c" "k" 1).2.2.2
      (by decide) (by decide)).1

end HashRing

end SelfHealingCache
