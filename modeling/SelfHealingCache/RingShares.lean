import Mathlib.Data.Finset.Sort
import Mathlib.Data.String.Basic
import SelfHealingCache.RingClockwise

namespace SelfHealingCache

namespace HashRing

def getKeysForNode (r : HashRing) (nodeId : String) : List (String × Nat) :=
  (r.ring.items.filter fun p => p.2 = nodeId).map fun p => (toString p.1, p.1)

def getAllNodes (r : HashRing) : List String := r.nodes.sort

/-- The hashes listed for a node are those that its removal deletes. -/
theorem getKeysForNode_hashes (r : HashRing) (n : String) :
    (r.getKeysForNode n).map Prod.snd = r.hashesToRemove n := by
  rw [getKeysForNode, hashesToRemove, List.map_map]
  rfl

theorem mem_getKeysForNode {r : HashRing} {n : String} {p : String × Nat} :
    p ∈ r.getKeysForNode n ↔ p.1 = toString p.2 ∧ r.ring.get? p.2 = some n := by
  rw [getKeysForNode, List.mem_map]
  constructor
  · rintro ⟨q, hq, rfl⟩
    obtain ⟨hmem, howner⟩ := List.mem_filter.mp hq
    have howner' : q.2 = n := by simpa using howner
    exact ⟨rfl, Dict.get?_eq_some.mpr (howner' ▸ hmem)⟩
  · intro h
    refine ⟨(p.2, n), List.mem_filter.mpr ⟨Dict.get?_eq_some.mp h.2, by simp⟩, ?_⟩
    rw [← h.1]

theorem getKeysForNode_eq_nil {r : HashRing} {n : String} (hn : n ∉ r.nodes) :
    r.getKeysForNode n = [] := by
  refine List.eq_nil_iff_forall_not_mem.mpr fun p hp => ?_
  have howner := (mem_getKeysForNode.mp hp).2
  exact hn (r.owners_mem n (Dict.mem_values_iff.mpr ⟨p.2, howner⟩))

theorem hashesToRemove_nodup (r : HashRing) (n : String) : (r.hashesToRemove n).Nodup :=
  r.ring.nodup.sublist (List.filter_sublist.map _)

theorem mem_getAllNodes {r : HashRing} {n : String} : n ∈ r.getAllNodes ↔ n ∈ r.nodes :=
  Finset.mem_sort _

/-- Every point of the ring is listed once, for its owner. -/
theorem shares_perm (r : HashRing) :
    (r.getAllNodes.flatMap fun n => (r.getKeysForNode n).map Prod.snd).Perm
      r.sortedKeys := by
  simp only [getKeysForNode_hashes]
  have hnodup : (r.getAllNodes.flatMap r.hashesToRemove).Nodup := by
    refine List.nodup_flatMap.mpr ⟨fun n _ => r.hashesToRemove_nodup n, ?_⟩
    refine (Finset.sort_nodup _ _).imp_of_mem fun {n m} _ _ hne h hn hm => ?_
    have howner := mem_hashesToRemove.mp hn
    rw [mem_hashesToRemove.mp hm] at howner
    exact hne (Option.some.inj howner).symm
  refine (List.perm_ext_iff_of_nodup hnodup (r.sortedKeys_pairwise.imp ne_of_lt)).mpr fun h => ?_
  rw [List.mem_flatMap, mem_sortedKeys, Dict.mem_keys_iff]
  constructor
  · rintro ⟨n, _, hn⟩
    exact ⟨n, mem_hashesToRemove.mp hn⟩
  · rintro ⟨n, hn⟩
    exact ⟨n, mem_getAllNodes.mpr (r.owners_mem n (Dict.mem_values_iff.mpr ⟨h, hn⟩)),
      mem_hashesToRemove.mpr hn⟩

theorem clockwiseDistance_inj {keyHash h h' : Nat} (hh : h < 2 ^ 128) (hh' : h' < 2 ^ 128)
    (heq : clockwiseDistance keyHash h = clockwiseDistance keyHash h') : h = h' := by
  unfold clockwiseDistance at heq
  omega

/-- A key belongs to the node that lists the first point behind it. -/
theorem getNode_iff {_hash : String → Nat} (hhash : ∀ s, _hash s < 2 ^ 128) {r : HashRing}
    (hr : r.OnCircle) (key n : String) :
    r.getNode _hash key = some n ↔ ∃ p ∈ r.getKeysForNode n, ∀ h ∈ r.sortedKeys,
      clockwiseDistance (_hash key) p.2 ≤ clockwiseDistance (_hash key) h := by
  rw [(looksUp_of_onCircle hhash hr key 0).node, clockwisePreference, head?_eraseDups,
    List.head?_map, head?_insertionSort (fun p : Nat × String => clockwiseDistance _ p.1)]
  have hmem : ∀ h, h ∈ r.sortedKeys ↔ ∃ owner, (h, owner) ∈ r.ring.items := by
    intro h
    rw [mem_sortedKeys, Dict.mem_keys_iff]
    simp only [Dict.get?_eq_some]
  constructor
  · intro h
    obtain ⟨p, hp, rfl⟩ := Option.map_eq_some_iff.mp h
    have hitem := List.argmin_mem hp
    refine ⟨(toString p.1, p.1), mem_getKeysForNode.mpr ⟨rfl, Dict.get?_eq_some.mpr hitem⟩, ?_⟩
    intro h' hh'
    obtain ⟨owner, howner⟩ := (hmem h').mp hh'
    have hle := List.le_of_mem_argmin howner hp
    exact hle
  · rintro ⟨p, hp, hfirst⟩
    have howner := (mem_getKeysForNode.mp hp).2
    have hitem : (p.2, n) ∈ r.ring.items := Dict.get?_eq_some.mp howner
    cases hargmin : List.argmin (fun p : Nat × String => clockwiseDistance (_hash key) p.1)
        r.ring.items with
    | none =>
      rw [List.argmin_eq_none.mp hargmin] at hitem
      cases hitem
    | some q =>
      have hq := Dict.get?_eq_some.mpr (List.argmin_mem hargmin)
      have hle := List.le_of_mem_argmin hitem hargmin
      have hge := hfirst q.1 ((hmem q.1).mpr ⟨q.2, List.argmin_mem hargmin⟩)
      have hsame := clockwiseDistance_inj (hr _ _ howner) (hr _ _ hq) (le_antisymm hge hle)
      rw [← hsame, howner] at hq
      rw [Option.map_some, ← Option.some.inj hq]

theorem items_dropHashes (hashes : List Nat) (ring : Dict Nat String) :
    (dropHashes hashes ring).items = ring.items.filter fun p => p.1 ∉ hashes := by
  induction hashes generalizing ring with
  | nil => simp [dropHashes]
  | cons h hashes ih =>
    have herase : (ring.erase h).items = ring.items.filter fun p => p.1 ≠ h := rfl
    have hstep : dropHashes (h :: hashes) ring = dropHashes hashes (ring.erase h) := rfl
    rw [hstep, ih, herase, List.filter_filter]
    refine List.filter_congr fun p _ => ?_
    simp [Bool.and_comm]

/-- A removal takes the points of its node and leaves the lists of all others alone. -/
theorem get_keys_removeNode (r : HashRing) (n m : String) :
    (r.removeNode n).getKeysForNode m = if m = n then [] else r.getKeysForNode m := by
  by_cases hm : m = n
  · rw [if_pos hm, hm]
    refine getKeysForNode_eq_nil ?_
    rw [removeNode_nodes]
    exact Finset.notMem_erase n r.nodes
  · rw [if_neg hm]
    unfold removeNode
    split
    next =>
      rw [getKeysForNode, getKeysForNode]
      dsimp only
      rw [items_dropHashes, List.filter_filter]
      congr 1
      refine List.filter_congr fun p hp => ?_
      have hkept : p.2 = m → p.1 ∉ r.hashesToRemove n := by
        intro howner hdropped
        have hget : r.ring.get? p.1 = some p.2 := Dict.get?_eq_some.mpr hp
        rw [mem_hashesToRemove.mp hdropped] at hget
        exact hm (howner.symm.trans (Option.some.inj hget).symm)
      simpa using hkept
    next => rfl

/-- Storing a point of another node takes at most a point away. -/
theorem assign_filter_sublist {n m : String} (hne : m ≠ n) (h : Nat) (items : List (Nat × String)) :
    ((Dict.assign h n items).filter fun p => p.2 = m).Sublist
      (items.filter fun p => p.2 = m) := by
  induction items with
  | nil => simp [Dict.assign, Ne.symm hne]
  | cons p items ih =>
    rw [Dict.assign]
    split
    next =>
      rw [List.filter_cons_of_neg (by simpa using Ne.symm hne)]
      exact (List.sublist_cons_self p items).filter _
    next =>
      by_cases hp : p.2 = m
      · rw [List.filter_cons_of_pos (by simpa using hp), List.filter_cons_of_pos (by simpa using hp)]
        exact ih.cons_cons p
      · rw [List.filter_cons_of_neg (by simpa using hp), List.filter_cons_of_neg (by simpa using hp)]
        exact ih

/-- An addition gives no point to any other node. -/
theorem get_keys_addNode (_hash : String → Nat) (r : HashRing) {n m : String} (hne : m ≠ n) :
    ((r.addNode _hash n).getKeysForNode m).Sublist (r.getKeysForNode m) := by
  have hplace : ∀ (is : List Nat) (ring : Dict Nat String),
      ((is.foldl (fun ring i => ring.set (_hash (virtualKey n i)) n) ring).items.filter
        fun p => p.2 = m).Sublist (ring.items.filter fun p => p.2 = m) := by
    intro is
    induction is with
    | nil => exact fun ring => List.Sublist.refl _
    | cons i is ih =>
      intro ring
      exact (ih _).trans (assign_filter_sublist hne _ ring.items)
  unfold addNode
  split
  next => exact List.Sublist.refl _
  next => exact (hplace _ r.ring).map _

theorem virtualHashes_nodup {_hash : String → Nat} {virtualNodes : Int} {involved : List String}
    (hc : CollisionFree _hash virtualNodes involved) {n : String} (hn : n ∈ involved) :
    (virtualHashes _hash virtualNodes n).Nodup := by
  refine List.Nodup.map_on ?_ List.nodup_range
  intro i hi j hj heq
  exact (virtualKey_inj (hc n hn n hn i (List.mem_range.mp hi) j (List.mem_range.mp hj) heq)).2

/-- Without collisions a member owns all of its virtual points. -/
theorem Placed.share {_hash : String → Nat} {r : HashRing} (hp : Placed _hash r) {n : String}
    (hn : n ∈ r.nodes) (hnodup : (virtualHashes _hash r.virtualNodes n).Nodup) :
    ((r.getKeysForNode n).map Prod.snd).Perm (virtualHashes _hash r.virtualNodes n) := by
  rw [getKeysForNode_hashes]
  refine (List.perm_ext_iff_of_nodup (r.hashesToRemove_nodup n) hnodup).mpr fun h => ?_
  rw [mem_hashesToRemove, hp h n]
  exact and_iff_right hn

/-- What `get_keys_for_node` says about the ring. -/
structure Shares (_hash : String → Nat) (r : HashRing) : Prop where
  nodes : r.getAllNodes.Pairwise (· < ·) ∧ ∀ n, n ∈ r.getAllNodes ↔ n ∈ r.nodes
  covered : (r.getAllNodes.flatMap fun n => (r.getKeysForNode n).map Prod.snd).Perm
    r.sortedKeys
  routed : ∀ key n, r.getNode _hash key = some n ↔
    ∃ p ∈ r.getKeysForNode n, ∀ h ∈ r.sortedKeys,
      clockwiseDistance (_hash key) p.2 ≤ clockwiseDistance (_hash key) h
  removed : ∀ n m, (r.removeNode n).getKeysForNode m =
    if m = n then [] else r.getKeysForNode m
  added : ∀ n m, m ≠ n →
    ((r.addNode _hash n).getKeysForNode m).Sublist (r.getKeysForNode m)

/-- After every history the lists of the nodes divide the circle among them as the lookups do,
and without collisions every member has its full number of points. -/
theorem shares_divide (_hash : String → Fin (2 ^ 128)) (start : List String)
    (virtualNodes : Int) (calls : List Membership) :
    Shares (fun s => (_hash s).val) (after (fun s => (_hash s).val) start virtualNodes calls) ∧
    (CollisionFree (fun s => (_hash s).val) virtualNodes (start ++ added calls) →
      ∀ n, ((after (fun s => (_hash s).val) start virtualNodes calls).getKeysForNode n).length =
        if n ∈ calls.foldl members start.toFinset then virtualNodes.toNat else 0) := by
  have hhash : ∀ s, (_hash s).val < 2 ^ 128 := fun s => (_hash s).isLt
  have hcircle := onCircle_after hhash start virtualNodes calls
  refine ⟨⟨⟨(Finset.sortedLT_sort _).pairwise, fun n => mem_getAllNodes⟩, shares_perm _,
    getNode_iff hhash hcircle, get_keys_removeNode _, fun n m hne => get_keys_addNode _ _ hne⟩,
    fun hc n => ?_⟩
  have hp := placed_after hc
  rw [← @after_nodes (fun s => (_hash s).val) start virtualNodes calls]
  split
  next hn =>
    have hvn := @after_virtualNodes (fun s => (_hash s).val) start virtualNodes calls
    have hnodup := virtualHashes_nodup hc (mem_after_nodes hn)
    rw [← hvn] at hnodup
    have hlength := (hp.share hn hnodup).length_eq
    rw [List.length_map, virtualHashes, List.length_map, List.length_range, hvn] at hlength
    exact hlength
  next hn => rw [getKeysForNode_eq_nil hn, List.length_nil]

/-- One of two members leaves and a third joins. -/
theorem shares_divide_letters : ∀ n,
    ((after (fun s => (Fin.ofNat (2 ^ 128) (letterSum s)).val) ["a", "d"] 2
      [.removeNode "a", .addNode "g"]).getKeysForNode n).length =
        if n = "d" ∨ n = "g" then 2 else 0 := by
  have hc : CollisionFree (fun s => (Fin.ofNat (2 ^ 128) (letterSum s)).val) 2
      ["a", "d", "g"] := by
    unfold CollisionFree
    decide +kernel
  intro n
  rw [(shares_divide (fun s => Fin.ofNat _ (letterSum s)) ["a", "d"] 2
    [.removeNode "a", .addNode "g"]).2 hc n]
  refine if_congr ?_ rfl rfl
  rw [show [Membership.removeNode "a", .addNode "g"].foldl members ["a", "d"].toFinset =
    {"g", "d"} from by decide +kernel, Finset.mem_insert, Finset.mem_singleton]
  exact or_comm

end HashRing

end SelfHealingCache
