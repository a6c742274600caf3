import SelfHealingCache.Dict
import SelfHealingCache.Clockwise
import Mathlib.Data.Finset.Basic
import Mathlib.Data.List.OfFn

namespace SelfHealingCache

/-- `hash_ring.HashRing`. The two proof fields hold of every ring the class can
build: `sorted_keys` is recomputed after each change of `ring`, and only
registered nodes own points. -/
structure HashRing where
  virtualNodes : Int
  ring : Dict Nat String
  sortedKeys : List Nat
  nodes : Finset String
  sortedKeys_eq : sortedKeys = ring.keys.insertionSort (· ≤ ·)
  owners_mem : ∀ owner ∈ ring.values, owner ∈ nodes

namespace HashRing

/-- `bisect.bisect_right` on an ascending list. -/
def bisectRight (a : List Nat) (x : Nat) : Nat :=
  (a.takeWhile fun h => h ≤ x).length

def virtualKey (nodeId : String) (i : Nat) : String := nodeId ++ "#" ++ toString i

def empty (virtualNodes : Int) : HashRing where
  virtualNodes := virtualNodes
  ring := ∅
  sortedKeys := []
  nodes := ∅
  sortedKeys_eq := rfl
  owners_mem := fun _ h => absurd h List.not_mem_nil

section ringUpdates

variable (_hash : String → Nat)

/-- The loop of `add_node` over `range(virtual_nodes)`. -/
def placeVirtual (virtualNodes : Int) (nodeId : String) (ring : Dict Nat String) :
    Dict Nat String :=
  (List.range virtualNodes.toNat).foldl
    (fun ring i => ring.set (_hash (virtualKey nodeId i)) nodeId) ring

theorem get?_placeFold (nodeId : String) (is : List Nat) (ring : Dict Nat String) (h : Nat) :
    (is.foldl (fun ring i => ring.set (_hash (virtualKey nodeId i)) nodeId) ring).get? h =
      if h ∈ is.map (fun i => _hash (virtualKey nodeId i)) then some nodeId
      else ring.get? h := by
  induction is generalizing ring with
  | nil => simp
  | cons i is ih =>
    rw [List.foldl_cons, ih, Dict.get?_set, List.map_cons]
    by_cases hi : h ∈ is.map fun i => _hash (virtualKey nodeId i)
    · rw [if_pos hi, if_pos (List.mem_cons_of_mem _ hi)]
    · by_cases he : h = _hash (virtualKey nodeId i) <;> simp [hi, he]

def virtualHashes (virtualNodes : Int) (nodeId : String) : List Nat :=
  (List.range virtualNodes.toNat).map fun i => _hash (virtualKey nodeId i)

theorem get?_placeVirtual (virtualNodes : Int) (nodeId : String) (ring : Dict Nat String)
    (h : Nat) :
    (placeVirtual _hash virtualNodes nodeId ring).get? h =
      if h ∈ virtualHashes _hash virtualNodes nodeId then some nodeId else ring.get? h :=
  get?_placeFold _hash nodeId _ ring h

def addNode (r : HashRing) (nodeId : String) : HashRing :=
  if nodeId ∈ r.nodes then r
  else
    { virtualNodes := r.virtualNodes
      ring := placeVirtual _hash r.virtualNodes nodeId r.ring
      sortedKeys :=
        (placeVirtual _hash r.virtualNodes nodeId r.ring).keys.insertionSort (· ≤ ·)
      nodes := insert nodeId r.nodes
      sortedKeys_eq := rfl
      owners_mem := by
        intro owner hm
        obtain ⟨h, hg⟩ := Dict.mem_values_iff.mp hm
        rw [get?_placeVirtual] at hg
        split at hg
        next => exact Finset.mem_insert.mpr (Or.inl (Option.some.inj hg).symm)
        next =>
          exact Finset.mem_insert_of_mem (r.owners_mem owner (Dict.mem_values_iff.mpr ⟨h, hg⟩)) }

/-- `HashRing(nodes, virtual_nodes)`. -/
def init (nodes : List String) (virtualNodes : Int) : HashRing :=
  nodes.foldl (addNode _hash) (empty virtualNodes)

end ringUpdates

/-- The loop of `remove_node` over `hashes_to_remove`. -/
def dropHashes (hashes : List Nat) (ring : Dict Nat String) : Dict Nat String :=
  hashes.foldl Dict.erase ring

theorem get?_dropHashes (hashes : List Nat) (ring : Dict Nat String) (h : Nat) :
    (dropHashes hashes ring).get? h = if h ∈ hashes then none else ring.get? h :=
  Dict.get?_foldl_erase hashes ring h

def hashesToRemove (r : HashRing) (nodeId : String) : List Nat :=
  (r.ring.items.filter fun p => p.2 = nodeId).map Prod.fst

theorem mem_hashesToRemove {r : HashRing} {nodeId : String} {h : Nat} :
    h ∈ r.hashesToRemove nodeId ↔ r.ring.get? h = some nodeId := by
  rw [hashesToRemove, List.mem_map, Dict.get?_eq_some]
  constructor
  · rintro ⟨p, hp, rfl⟩
    have ho : p.2 = nodeId := by simpa using (List.mem_filter.mp hp).2
    exact ho ▸ (List.mem_filter.mp hp).1
  · intro hm
    exact ⟨(h, nodeId), List.mem_filter.mpr ⟨hm, by simp⟩, rfl⟩

def removeNode (r : HashRing) (nodeId : String) : HashRing :=
  if nodeId ∈ r.nodes then
    { virtualNodes := r.virtualNodes
      ring := dropHashes (r.hashesToRemove nodeId) r.ring
      sortedKeys := (dropHashes (r.hashesToRemove nodeId) r.ring).keys.insertionSort (· ≤ ·)
      nodes := r.nodes.erase nodeId
      sortedKeys_eq := rfl
      owners_mem := by
        intro owner hm
        obtain ⟨h, hg⟩ := Dict.mem_values_iff.mp hm
        rw [get?_dropHashes] at hg
        split at hg
        next => simp at hg
        next hn =>
          refine Finset.mem_erase.mpr ⟨?_, r.owners_mem owner (Dict.mem_values_iff.mpr ⟨h, hg⟩)⟩
          rintro rfl
          exact hn (mem_hashesToRemove.mpr hg) }
  else r

theorem mem_sortedKeys {r : HashRing} {h : Nat} : h ∈ r.sortedKeys ↔ h ∈ r.ring.keys := by
  rw [r.sortedKeys_eq, List.mem_insertionSort]

theorem sortedKeys_length (r : HashRing) : r.sortedKeys.length = r.ring.size := by
  rw [r.sortedKeys_eq, List.length_insertionSort, Dict.keys, List.length_map, Dict.size]

theorem sortedKeys_pairwise (r : HashRing) : r.sortedKeys.Pairwise (· < ·) := by
  rw [r.sortedKeys_eq]
  have hs := List.pairwise_insertionSort (· ≤ ·) r.ring.keys
  have hn : (r.ring.keys.insertionSort (· ≤ ·)).Nodup :=
    (List.perm_insertionSort (· ≤ ·) _).nodup_iff.mpr r.ring.keys_nodup
  exact hs.imp₂ (fun _ _ hle hne => lt_of_le_of_ne hle hne) hn

/-- `self.ring[self.sorted_keys[idx]]`. -/
def ownerAt (r : HashRing) (idx : Fin r.sortedKeys.length) : String :=
  (r.ring.get? (r.sortedKeys.get idx)).get (Option.isSome_iff_exists.mpr
    (Dict.mem_keys_iff.mp (mem_sortedKeys.mp (List.get_mem r.sortedKeys idx))))

theorem get?_ownerAt (r : HashRing) (idx : Fin r.sortedKeys.length) :
    r.ring.get? (r.sortedKeys.get idx) = some (r.ownerAt idx) :=
  (Option.some_get _).symm

/-- `bisect_right` followed by the wrap-around test. -/
def startIndex (r : HashRing) (keyHash : Nat) (h : r.ring.size ≠ 0) :
    Fin r.sortedKeys.length :=
  if hi : bisectRight r.sortedKeys keyHash < r.sortedKeys.length then
    ⟨bisectRight r.sortedKeys keyHash, hi⟩
  else ⟨0, by rw [sortedKeys_length]; omega⟩

def nextIndex {n : Nat} (idx : Fin n) : Fin n :=
  ⟨(idx.val + 1) % n, Nat.mod_lt _ idx.pos⟩

section lookups

variable (_hash : String → Nat)

def getNode (r : HashRing) (key : String) : Option String :=
  if h : r.ring.size = 0 then none
  else some (r.ownerAt (r.startIndex (_hash key) h))

/-- The `while` loop of `get_replicas`; the first argument is
`len(self.ring) - attempts`. -/
def replicaLoop (r : HashRing) (replicationFactor : Int) :
    Nat → Fin r.sortedKeys.length → List String → Finset String → List String
  | 0, _, replicas, _ => replicas
  | left + 1, idx, replicas, seenPhysicalNodes =>
    if (replicas.length : Int) < replicationFactor then
      let node := r.ownerAt idx
      if node ∈ seenPhysicalNodes then
        replicaLoop r replicationFactor left (nextIndex idx) replicas seenPhysicalNodes
      else
        replicaLoop r replicationFactor left (nextIndex idx) (replicas ++ [node])
          (insert node seenPhysicalNodes)
    else replicas

def getReplicas (r : HashRing) (key : String) (replicationFactor : Int) : List String :=
  if h : r.ring.size = 0 then []
  else replicaLoop r replicationFactor r.ring.size (r.startIndex (_hash key) h) [] ∅

end lookups

end HashRing

end SelfHealingCache
