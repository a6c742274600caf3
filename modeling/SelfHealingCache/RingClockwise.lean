import SelfHealingCache.RingHistory
import SelfHealingCache.Runs
import Mathlib.Algebra.Ring.Int.Defs
import Mathlib.Data.Finset.Card

namespace SelfHealingCache

namespace HashRing

/-- The clockwise distance from a key to a point, from 0 for the point right behind the key to
the last for a point on it. -/
def clockwiseDistance (keyHash h : Nat) : Int := ((h : Int) - keyHash - 1) % 2 ^ 128

/-- The owners of all virtual nodes by clockwise distance, each at its first occurrence. -/
def clockwisePreference (r : HashRing) (keyHash : Nat) : List String :=
  ((r.ring.items.insertionSort fun p q =>
    clockwiseDistance keyHash p.1 ≤ clockwiseDistance keyHash q.1).map Prod.snd).eraseDups

theorem clockwiseDistance_behind {keyHash h : Nat} (hlt : keyHash < h) (hh : h < 2 ^ 128) :
    clockwiseDistance keyHash h = (h : Int) - keyHash - 1 :=
  Int.emod_eq_of_lt (by omega) (by omega)

theorem clockwiseDistance_wrapped {keyHash h : Nat} (hle : h ≤ keyHash)
    (hk : keyHash < 2 ^ 128) :
    clockwiseDistance keyHash h = (h : Int) - keyHash - 1 + 2 ^ 128 := by
  rw [clockwiseDistance, ← Int.add_emod_right]
  exact Int.emod_eq_of_lt (by omega) (by omega)

/-- Every point of the ring lies on the circle. -/
def OnCircle (r : HashRing) : Prop := ∀ h owner, r.ring.get? h = some owner → h < 2 ^ 128

theorem onCircle_addNode {_hash : String → Nat} (hhash : ∀ s, _hash s < 2 ^ 128) {r : HashRing}
    (hr : r.OnCircle) (n : String) : (r.addNode _hash n).OnCircle := by
  intro h owner hg
  unfold addNode at hg
  split at hg
  next => exact hr h owner hg
  next =>
    simp only [get?_placeVirtual] at hg
    split at hg
    next hv =>
      obtain ⟨i, _, rfl⟩ := List.mem_map.mp hv
      exact hhash _
    next => exact hr h owner hg

theorem onCircle_removeNode {r : HashRing} (hr : r.OnCircle) (n : String) :
    (r.removeNode n).OnCircle := by
  intro h owner hg
  unfold removeNode at hg
  split at hg
  next =>
    simp only [get?_dropHashes] at hg
    split at hg
    next => cases hg
    next => exact hr h owner hg
  next => exact hr h owner hg

theorem onCircle_after {_hash : String → Nat} (hhash : ∀ s, _hash s < 2 ^ 128)
    (start : List String) (virtualNodes : Int) (calls : List Membership) :
    (after _hash start virtualNodes calls).OnCircle := by
  have hcall : ∀ (r : HashRing) c, r.OnCircle → (r.call _hash c).OnCircle := by
    intro r c hr
    cases c with
    | addNode n => exact onCircle_addNode hhash hr n
    | removeNode n => exact onCircle_removeNode hr n
  have hempty : (empty virtualNodes).OnCircle := by
    intro h owner hg
    cases hg
  rw [after, init_eq]
  exact foldl_invariant hcall calls (foldl_invariant hcall _ hempty)

/-- On the circle the lap from a key meets the points by clockwise distance. -/
theorem preference_eq_clockwise {r : HashRing} (hr : r.OnCircle) {keyHash : Nat}
    (hk : keyHash < 2 ^ 128) : preference r.points keyHash = r.clockwisePreference keyHash := by
  have hon : ∀ p ∈ r.points, p.1 < 2 ^ 128 := fun p hp => hr p.1 p.2 (mem_points.mp hp)
  have hperm : r.ring.items.Perm r.points := by
    have hitems : r.ring.items.Nodup := List.Nodup.of_map Prod.fst r.ring.nodup
    have hpoints : r.points.Nodup :=
      r.points_pairwise.imp fun hlt heq => absurd (congrArg Prod.fst heq) (ne_of_lt hlt)
    refine (List.perm_ext_iff_of_nodup hitems hpoints).mpr fun p => ?_
    rw [mem_points, Dict.get?_eq_some]
  have hlap : (lapFrom r.points keyHash).Pairwise fun p q =>
      clockwiseDistance keyHash p.1 < clockwiseDistance keyHash q.1 := by
    rw [lapFrom, List.pairwise_append]
    refine ⟨?_, ?_, ?_⟩
    · refine (r.points_pairwise.filter _).imp_of_mem ?_
      intro p q hp hq hlt
      obtain ⟨hp, hxp⟩ := List.mem_filter.mp hp
      obtain ⟨hq, hxq⟩ := List.mem_filter.mp hq
      rw [clockwiseDistance_behind (by simpa using hxp) (hon p hp),
        clockwiseDistance_behind (by simpa using hxq) (hon q hq)]
      omega
    · refine (r.points_pairwise.filter _).imp_of_mem ?_
      intro p q hp hq hlt
      obtain ⟨_, hxp⟩ := List.mem_filter.mp hp
      obtain ⟨_, hxq⟩ := List.mem_filter.mp hq
      rw [clockwiseDistance_wrapped (by simpa using hxp) hk,
        clockwiseDistance_wrapped (by simpa using hxq) hk]
      omega
    · intro p hp q hq
      obtain ⟨hp, hxp⟩ := List.mem_filter.mp hp
      obtain ⟨_, hxq⟩ := List.mem_filter.mp hq
      have hbound := hon p hp
      rw [clockwiseDistance_behind (by simpa using hxp) hbound,
        clockwiseDistance_wrapped (by simpa using hxq) hk]
      omega
  rw [preference, clockwisePreference, insertionSort_eq_lapFrom _ hperm hlap]

/-- What both lookups of a key return, by clockwise distance. -/
structure LooksUp (_hash : String → Nat) (r : HashRing) (key : String)
    (replicationFactor : Int) : Prop where
  node : r.getNode _hash key = (r.clockwisePreference (_hash key)).head?
  none_iff : r.getNode _hash key = none ↔ r.ring.size = 0
  replicas : r.getReplicas _hash key replicationFactor =
    (r.clockwisePreference (_hash key)).take replicationFactor.toNat
  nodup : (r.getReplicas _hash key replicationFactor).Nodup
  registered : ∀ node ∈ r.getReplicas _hash key replicationFactor, node ∈ r.nodes
  length : (r.getReplicas _hash key replicationFactor).length =
    min replicationFactor.toNat r.ring.values.toFinset.card
  primary : 1 ≤ replicationFactor →
    (r.getReplicas _hash key replicationFactor).head? = r.getNode _hash key

/-- The preference list names the distinct owners. -/
theorem preference_length (r : HashRing) (keyHash : Nat) :
    (preference r.points keyHash).length = r.ring.values.toFinset.card := by
  have howners : (preference r.points keyHash).toFinset = r.ring.values.toFinset := by
    ext owner
    rw [List.mem_toFinset, List.mem_toFinset, mem_preference, Dict.mem_values_iff]
    simp only [mem_points]
  rw [← howners, List.toFinset_card_of_nodup (preference_nodup _ _)]

theorem looksUp_of_onCircle {_hash : String → Nat} (hhash : ∀ s, _hash s < 2 ^ 128) {r : HashRing}
    (hr : r.OnCircle) (key : String) (replicationFactor : Int) :
    LooksUp _hash r key replicationFactor := by
  have hpref := preference_eq_clockwise hr (hhash key)
  have hnode := getNode_eq _hash r key
  have hreplicas := getReplicas_eq _hash r key replicationFactor
  refine
    { node := by rw [hnode, hpref]
      none_iff := getNode_eq_none _hash
      replicas := by rw [hreplicas, hpref]
      nodup := ?_
      registered := fun node hm => getReplicas_mem_nodes _hash hm
      length := by rw [hreplicas, List.length_take, preference_length]
      primary := ?_ }
  · rw [hreplicas]
    exact (preference_nodup _ _).sublist (List.take_sublist _ _)
  · intro hpos
    have hfirst : replicationFactor.toNat ≠ 0 := by omega
    rw [hreplicas, hnode, List.head?_take, if_neg hfirst]

/-- Both lookups follow the clockwise order on every ring that a history of additions and
removals can build. -/
theorem lookups_clockwise (_hash : String → Fin (2 ^ 128)) (start : List String)
    (virtualNodes : Int) (calls : List Membership) (key : String) (replicationFactor : Int) :
    LooksUp (fun s => (_hash s).val) (after (fun s => (_hash s).val) start virtualNodes calls) key
      replicationFactor := by
  have hhash : ∀ s, (_hash s).val < 2 ^ 128 := fun s => (_hash s).isLt
  exact looksUp_of_onCircle hhash (onCircle_after hhash start virtualNodes calls) key
    replicationFactor

end HashRing

end SelfHealingCache
