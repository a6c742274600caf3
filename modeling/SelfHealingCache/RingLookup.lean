import SelfHealingCache.HashRing

namespace SelfHealingCache

namespace HashRing

/-- The ring as a list of points, ascending by hash. -/
def points (r : HashRing) : List (Nat × String) :=
  List.ofFn fun idx : Fin r.sortedKeys.length => (r.sortedKeys.get idx, r.ownerAt idx)

def owners (r : HashRing) : List String := r.points.map Prod.snd

theorem points_map_fst (r : HashRing) : r.points.map Prod.fst = r.sortedKeys := by
  rw [points, List.map_ofFn]
  exact List.ofFn_get r.sortedKeys

theorem points_length (r : HashRing) : r.points.length = r.sortedKeys.length := by
  rw [points, List.length_ofFn]

theorem owners_length (r : HashRing) : r.owners.length = r.sortedKeys.length := by
  rw [owners, List.length_map, points_length]

theorem mem_points {r : HashRing} {p : Nat × String} :
    p ∈ r.points ↔ r.ring.get? p.1 = some p.2 := by
  rw [points, List.mem_ofFn]
  constructor
  · rintro ⟨idx, rfl⟩
    exact r.get?_ownerAt idx
  · intro h
    have hm : p.1 ∈ r.sortedKeys := mem_sortedKeys.mpr (Dict.mem_keys_iff.mpr ⟨p.2, h⟩)
    obtain ⟨idx, hidx⟩ := List.mem_iff_get.mp hm
    have ho := r.get?_ownerAt idx
    rw [hidx, h] at ho
    exact ⟨idx, Prod.ext hidx (Option.some.inj ho).symm⟩

theorem points_pairwise (r : HashRing) : r.points.Pairwise (·.1 < ·.1) := by
  have h := r.sortedKeys_pairwise
  rw [← points_map_fst, List.pairwise_map] at h
  exact h

theorem points_eq_nil {r : HashRing} : r.points = [] ↔ r.ring.size = 0 := by
  rw [← List.length_eq_zero_iff, points_length, sortedKeys_length]

theorem owner_mem_nodes {r : HashRing} {h : Nat} {owner : String} (hm : (h, owner) ∈ r.points) :
    owner ∈ r.nodes :=
  r.owners_mem owner (Dict.mem_values_iff.mpr ⟨h, mem_points.mp hm⟩)

theorem bisectRight_eq (r : HashRing) (x : Nat) :
    bisectRight r.sortedKeys x = (r.points.takeWhile fun p => p.1 ≤ x).length := by
  rw [bisectRight, ← points_map_fst, List.takeWhile_map, List.length_map]
  rfl

theorem owners_get (r : HashRing) (idx : Fin r.sortedKeys.length) :
    r.owners[idx.val]? = some (r.ownerAt idx) := by
  simp [owners, points, idx.isLt]

/-- Turning the owners to the start index gives the clockwise lap from the key. -/
theorem rotate_startIndex (r : HashRing) (x : Nat) (h : r.ring.size ≠ 0) :
    r.owners.rotate (r.startIndex x h).val = (lapFrom r.points x).map Prod.snd := by
  rw [← rotate_takeWhile_eq_lapFrom r.points_pairwise, List.map_rotate, ← bisectRight_eq]
  change r.owners.rotate _ = r.owners.rotate _
  unfold startIndex
  split
  next => rfl
  next hi =>
    have hle : bisectRight r.sortedKeys x ≤ r.sortedKeys.length :=
      (List.takeWhile_prefix _).length_le
    have he : bisectRight r.sortedKeys x = r.owners.length := by
      rw [owners_length]
      omega
    rw [he, List.rotate_length, List.rotate_zero]

/-- The owners met in `left` steps from an index. -/
def visited (r : HashRing) : Nat → Fin r.sortedKeys.length → List String
  | 0, _ => []
  | left + 1, idx => r.ownerAt idx :: r.visited left (nextIndex idx)

theorem visited_eq (r : HashRing) (left : Nat) (idx : Fin r.sortedKeys.length)
    (h : left ≤ r.sortedKeys.length) :
    r.visited left idx = (r.owners.rotate idx.val).take left := by
  induction left generalizing idx with
  | zero => rfl
  | succ left ih =>
    have hlen : (r.owners.rotate idx.val).length = r.sortedKeys.length := by
      rw [List.length_rotate, owners_length]
    have hturn : r.owners.rotate (nextIndex idx).val = (r.owners.rotate idx.val).rotate 1 := by
      rw [List.rotate_rotate, ← List.rotate_mod r.owners (idx.val + 1), owners_length]
      rfl
    have hhead : (r.owners.rotate idx.val)[0]? = some (r.ownerAt idx) := by
      rw [List.getElem?_rotate (by rw [owners_length]; exact idx.pos), Nat.zero_add,
        Nat.mod_eq_of_lt (by rw [owners_length]; exact idx.isLt), owners_get]
    rw [visited, ih (nextIndex idx) (by omega), hturn]
    cases hc : r.owners.rotate idx.val with
    | nil => simp [hc] at hhead
    | cons a rest =>
      have ha : a = r.ownerAt idx := by simpa [hc] using hhead
      have hrest : left ≤ rest.length := by
        rw [hc, List.length_cons] at hlen
        omega
      rw [List.rotate_cons_succ, List.rotate_zero, List.take_append_of_le_length hrest,
        List.take_succ_cons, ha]

theorem replicaLoop_eq (r : HashRing) (replicationFactor : Int) (left : Nat)
    (idx : Fin r.sortedKeys.length) (replicas : List String) (seen : Finset String)
    (hs : ∀ node, node ∈ seen ↔ node ∈ replicas) :
    r.replicaLoop replicationFactor left idx replicas seen =
      collect replicationFactor.toNat (r.visited left idx) replicas := by
  induction left generalizing idx replicas seen with
  | zero => rfl
  | succ left ih =>
    have hc : (replicas.length : Int) < replicationFactor ↔
        replicas.length < replicationFactor.toNat := by omega
    rw [replicaLoop, visited, collect]
    by_cases hlt : replicas.length < replicationFactor.toNat
    · rw [if_pos (hc.mpr hlt), if_pos hlt]
      by_cases hm : r.ownerAt idx ∈ replicas
      · simp only [(hs _).mpr hm, hm, ↓reduceIte]
        exact ih _ _ _ hs
      · have hn : r.ownerAt idx ∉ seen := fun hh => hm ((hs _).mp hh)
        simp only [hn, hm, ↓reduceIte]
        apply ih
        intro node
        rw [Finset.mem_insert, List.mem_append, List.mem_singleton, hs, or_comm]
    · rw [if_neg (fun hh => hlt (hc.mp hh)), if_neg hlt]

section lookups

variable (_hash : String → Nat)

/-- `get_replicas` returns the first entries of the clockwise preference list. -/
theorem getReplicas_eq (r : HashRing) (key : String) (replicationFactor : Int) :
    r.getReplicas _hash key replicationFactor =
      (preference r.points (_hash key)).take replicationFactor.toNat := by
  unfold getReplicas
  split
  next h => rw [preference_eq_nil.mpr (points_eq_nil.mpr h), List.take_nil]
  next h =>
    have hall : (r.owners.rotate (r.startIndex (_hash key) h).val).take r.ring.size =
        r.owners.rotate (r.startIndex (_hash key) h).val := by
      apply List.take_of_length_le
      rw [List.length_rotate, owners_length, sortedKeys_length]
    rw [replicaLoop_eq r _ _ _ _ _ (by simp), visited_eq r _ _ (sortedKeys_length r).ge, hall,
      rotate_startIndex, collect_eq _ (Nat.zero_le _)]
    simp [preference]

/-- `get_node` returns the head of the clockwise preference list. -/
theorem getNode_eq (r : HashRing) (key : String) :
    r.getNode _hash key = (preference r.points (_hash key)).head? := by
  unfold getNode
  split
  next h => rw [preference_eq_nil.mpr (points_eq_nil.mpr h), List.head?_nil]
  next h =>
    rw [preference, head?_eraseDups, ← rotate_startIndex r (_hash key) h,
      List.head?_rotate (by rw [owners_length]; exact Fin.isLt _), owners_get]

theorem getReplicas_mem_nodes {r : HashRing} {key owner : String} {replicationFactor : Int}
    (h : owner ∈ r.getReplicas _hash key replicationFactor) : owner ∈ r.nodes := by
  rw [getReplicas_eq] at h
  obtain ⟨x, hx⟩ := mem_preference.mp (List.mem_of_mem_take h)
  exact owner_mem_nodes hx

theorem getNode_mem_nodes {r : HashRing} {key owner : String}
    (h : r.getNode _hash key = some owner) : owner ∈ r.nodes := by
  rw [getNode_eq] at h
  obtain ⟨x, hx⟩ := mem_preference.mp (List.mem_of_mem_head? h)
  exact owner_mem_nodes hx

theorem getNode_eq_none {r : HashRing} {key : String} :
    r.getNode _hash key = none ↔ r.ring.size = 0 := by
  unfold getNode
  split
  next h => simp [h]
  next h => simp [h]

end lookups

section updates

variable (_hash : String → Nat)

/-- Removing a node takes away its points and no others. -/
theorem points_removeNode (r : HashRing) (n : String) :
    (r.removeNode n).points = r.points.filter fun p => p.2 ≠ n := by
  apply points_ext (points_pairwise _) (r.points_pairwise.filter _)
  intro p
  rw [mem_points, List.mem_filter, mem_points, removeNode]
  split
  next hn =>
    simp only [get?_dropHashes, mem_hashesToRemove]
    by_cases ho : r.ring.get? p.1 = some n
    · simp only [ho, ↓reduceIte]
      constructor
      · intro h; cases h
      · rintro ⟨hp, hne⟩
        have he := Option.some.inj hp
        simp [he] at hne
    · rw [if_neg ho]
      refine ⟨fun hp => ⟨hp, ?_⟩, fun hp => hp.1⟩
      have hne : p.2 ≠ n := fun he => ho (he ▸ hp)
      simpa using hne
  next hn =>
    refine ⟨fun hp => ⟨hp, ?_⟩, fun hp => hp.1⟩
    have hne : p.2 ≠ n := by
      rintro rfl
      exact hn (owner_mem_nodes (mem_points.mpr hp))
    simpa using hne

/-- Adding a new node without hash collisions only inserts its own points. -/
theorem points_addNode {r : HashRing} {n : String} (hn : n ∉ r.nodes)
    (hfresh : ∀ h ∈ virtualHashes _hash r.virtualNodes n, h ∉ r.ring.keys) :
    r.points = (r.addNode _hash n).points.filter fun p => p.2 ≠ n := by
  apply points_ext r.points_pairwise ((points_pairwise _).filter _)
  intro p
  rw [mem_points, List.mem_filter, mem_points, addNode, if_neg hn]
  simp only [get?_placeVirtual]
  by_cases hv : p.1 ∈ virtualHashes _hash r.virtualNodes n
  · have hnone : r.ring.get? p.1 = none := Dict.get?_eq_none.mpr (hfresh _ hv)
    simp only [hnone, hv, ↓reduceIte]
    constructor
    · intro h; cases h
    · rintro ⟨hp, hne⟩
      have he := Option.some.inj hp
      simp [he] at hne
  · rw [if_neg hv]
    refine ⟨fun hp => ⟨hp, ?_⟩, fun hp => hp.1⟩
    have hne : p.2 ≠ n := by
      rintro rfl
      exact hn (owner_mem_nodes (mem_points.mpr hp))
    simpa using hne

theorem preference_removeNode (r : HashRing) (n : String) (x : Nat) :
    preference (r.removeNode n).points x = (preference r.points x).filter fun b => b ≠ n := by
  rw [points_removeNode, preference_filter_owner]

theorem preference_addNode {r : HashRing} {n : String} (hn : n ∉ r.nodes)
    (hfresh : ∀ h ∈ virtualHashes _hash r.virtualNodes n, h ∉ r.ring.keys) (x : Nat) :
    preference r.points x =
      (preference (r.addNode _hash n).points x).filter fun b => b ≠ n := by
  rw [← preference_filter_owner, ← points_addNode _hash hn hfresh]

end updates

end HashRing

end SelfHealingCache
