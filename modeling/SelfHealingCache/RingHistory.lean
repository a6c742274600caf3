import Mathlib.Data.Finset.Dedup
import Mathlib.Data.Finset.Lattice.Lemmas
import Mathlib.Data.List.TakeWhile
import SelfHealingCache.RingLookup
import SelfHealingCache.RingDisruption

namespace SelfHealingCache

/-- A separator that the right part does not contain splits a list in one way. -/
theorem append_cons_inj_right {α : Type} {x y : List α} {a : α} {z w : List α}
    (hz : a ∉ z) (hw : a ∉ w) (h : x ++ a :: z = y ++ a :: w) : x = y ∧ z = w := by
  induction x generalizing y with
  | nil =>
    cases y with
    | nil => exact ⟨rfl, (List.cons.inj h).2⟩
    | cons b y =>
      have ht : z = y ++ a :: w := (List.cons.inj h).2
      exact absurd (ht ▸ List.mem_append_right y List.mem_cons_self) hz
  | cons b x ih =>
    cases y with
    | nil =>
      have ht : x ++ a :: z = w := (List.cons.inj h).2
      exact absurd (ht ▸ List.mem_append_right x List.mem_cons_self) hw
    | cons c y =>
      obtain ⟨hb, ht⟩ := List.cons.inj h
      obtain ⟨hx, hzw⟩ := ih ht
      exact ⟨by rw [hb, hx], hzw⟩

namespace HashRing

theorem virtualKey_toList (nodeId : String) (i : Nat) :
    (virtualKey nodeId i).toList = nodeId.toList ++ '#' :: Nat.toDigits 10 i := by
  simp [virtualKey]

/-- The last `#` of a virtual key separates the node from the index, whatever
the node id contains. -/
theorem virtualKey_inj {n m : String} {i j : Nat} (h : virtualKey n i = virtualKey m j) :
    n = m ∧ i = j := by
  have hdigits : ∀ k : Nat, '#' ∉ Nat.toDigits 10 k := by
    intro k hk
    have hd := Nat.isDigit_of_mem_toDigits (by omega) (by omega) hk
    simp at hd
  have hl := congrArg String.toList h
  rw [virtualKey_toList, virtualKey_toList] at hl
  obtain ⟨hn, hi⟩ := append_cons_inj_right (hdigits i) (hdigits j) hl
  have hv := congrArg (fun cs => Nat.ofDigitChars 10 cs 0) hi
  simp only [Nat.ofDigitChars_ten_toDigits] at hv
  exact ⟨String.toList_inj.mp hn, hv⟩

/-- A call that changes the membership of a ring. -/
inductive Membership
  | addNode (nodeId : String)
  | removeNode (nodeId : String)

/-- What a call does to the set of members. -/
def members (nodes : Finset String) : Membership → Finset String
  | .addNode nodeId => insert nodeId nodes
  | .removeNode nodeId => nodes.erase nodeId

def added : List Membership → List String
  | [] => []
  | .addNode nodeId :: calls => nodeId :: added calls
  | .removeNode _ :: calls => added calls

section histories

variable (_hash : String → Nat)

def call (r : HashRing) : Membership → HashRing
  | .addNode nodeId => r.addNode _hash nodeId
  | .removeNode nodeId => r.removeNode nodeId

/-- `HashRing(start, virtual_nodes)` followed by the calls. -/
def after (start : List String) (virtualNodes : Int) (calls : List Membership) : HashRing :=
  calls.foldl (call _hash) (init _hash start virtualNodes)

/-- No two virtual keys of the nodes involved share a hash. -/
def CollisionFree (virtualNodes : Int) (involved : List String) : Prop :=
  ∀ n ∈ involved, ∀ m ∈ involved, ∀ i < virtualNodes.toNat, ∀ j < virtualNodes.toNat,
    _hash (virtualKey n i) = _hash (virtualKey m j) → virtualKey n i = virtualKey m j

/-- The ring map holds the virtual points of the members and nothing else. -/
def Placed (r : HashRing) : Prop :=
  ∀ h owner, r.ring.get? h = some owner ↔
    owner ∈ r.nodes ∧ h ∈ virtualHashes _hash r.virtualNodes owner

variable {_hash}

theorem CollisionFree.mono {virtualNodes : Int} {involved involved' : List String}
    (hc : CollisionFree _hash virtualNodes involved) (hs : ∀ n ∈ involved', n ∈ involved) :
    CollisionFree _hash virtualNodes involved' :=
  fun n hn m hm => hc n (hs n hn) m (hs m hm)

theorem CollisionFree.owner_unique {virtualNodes : Int} {involved : List String} {n m : String}
    {h : Nat} (hc : CollisionFree _hash virtualNodes involved) (hn : n ∈ involved)
    (hm : m ∈ involved) (hhn : h ∈ virtualHashes _hash virtualNodes n)
    (hhm : h ∈ virtualHashes _hash virtualNodes m) : n = m := by
  obtain ⟨i, hi, hni⟩ := List.mem_map.mp hhn
  obtain ⟨j, hj, hmj⟩ := List.mem_map.mp hhm
  have hk := hc n hn m hm i (List.mem_range.mp hi) j (List.mem_range.mp hj) (hni.trans hmj.symm)
  exact (virtualKey_inj hk).1

theorem placed_empty (virtualNodes : Int) : Placed _hash (empty virtualNodes) := by
  intro h owner
  simp [empty]

theorem Placed.addNode {r : HashRing} {involved : List String} {n : String}
    (hp : Placed _hash r) (hc : CollisionFree _hash r.virtualNodes involved)
    (hr : ∀ m ∈ r.nodes, m ∈ involved) (hn : n ∈ involved) :
    Placed _hash (r.addNode _hash n) := by
  by_cases hm : n ∈ r.nodes
  · rw [HashRing.addNode, if_pos hm]
    exact hp
  intro h owner
  rw [HashRing.addNode, if_neg hm]
  simp only [get?_placeVirtual, Finset.mem_insert]
  by_cases hv : h ∈ virtualHashes _hash r.virtualNodes n
  · rw [if_pos hv]
    constructor
    · intro he
      cases he
      exact ⟨Or.inl rfl, hv⟩
    · rintro ⟨rfl | ho, hvo⟩
      · rfl
      · rw [hc.owner_unique hn (hr owner ho) hv hvo]
  · rw [if_neg hv, hp h owner]
    constructor
    · rintro ⟨ho, hvo⟩
      exact ⟨Or.inr ho, hvo⟩
    · rintro ⟨rfl | ho, hvo⟩
      · exact absurd hvo hv
      · exact ⟨ho, hvo⟩

/-- Removal filters by owner, so it needs no assumption on the hashes. -/
theorem Placed.removeNode {r : HashRing} (n : String) (hp : Placed _hash r) :
    Placed _hash (r.removeNode n) := by
  by_cases hm : n ∈ r.nodes
  · intro h owner
    rw [HashRing.removeNode, if_pos hm]
    simp only [get?_dropHashes, mem_hashesToRemove, Finset.mem_erase]
    by_cases hn : r.ring.get? h = some n
    · rw [if_pos hn]
      have hne : ¬(owner ≠ n ∧ owner ∈ r.nodes ∧
          h ∈ virtualHashes _hash r.virtualNodes owner) := by
        rintro ⟨hne, ho⟩
        have he := ((hp h owner).mpr ho).symm.trans hn
        exact hne (Option.some.inj he)
      simp only [reduceCtorEq, false_iff, and_assoc]
      exact hne
    · rw [if_neg hn, hp h owner]
      constructor
      · rintro ⟨ho, hv⟩
        refine ⟨⟨?_, ho⟩, hv⟩
        rintro rfl
        exact hn ((hp h owner).mpr ⟨ho, hv⟩)
      · rintro ⟨⟨_, ho⟩, hv⟩
        exact ⟨ho, hv⟩
  · rw [HashRing.removeNode, if_neg hm]
    exact hp

theorem addNode_nodes (r : HashRing) (n : String) :
    (r.addNode _hash n).nodes = insert n r.nodes := by
  unfold addNode
  split
  next h => exact (Finset.insert_eq_of_mem h).symm
  next => rfl

theorem removeNode_nodes (r : HashRing) (n : String) :
    (r.removeNode n).nodes = r.nodes.erase n := by
  unfold removeNode
  split
  next => rfl
  next h => exact (Finset.erase_eq_of_notMem h).symm

theorem call_nodes (r : HashRing) (c : Membership) :
    (r.call _hash c).nodes = members r.nodes c := by
  cases c with
  | addNode n => exact r.addNode_nodes n
  | removeNode n => exact r.removeNode_nodes n

theorem call_virtualNodes (r : HashRing) (c : Membership) :
    (r.call _hash c).virtualNodes = r.virtualNodes := by
  cases c with
  | addNode n =>
    change (r.addNode _hash n).virtualNodes = _
    unfold addNode
    split <;> rfl
  | removeNode n =>
    change (r.removeNode n).virtualNodes = _
    unfold removeNode
    split <;> rfl

theorem foldl_call_nodes (r : HashRing) (calls : List Membership) :
    (calls.foldl (call _hash) r).nodes = calls.foldl members r.nodes := by
  induction calls generalizing r with
  | nil => rfl
  | cons c calls ih => rw [List.foldl_cons, List.foldl_cons, ih, call_nodes]

theorem foldl_call_virtualNodes (r : HashRing) (calls : List Membership) :
    (calls.foldl (call _hash) r).virtualNodes = r.virtualNodes := by
  induction calls generalizing r with
  | nil => rfl
  | cons c calls ih => rw [List.foldl_cons, ih, call_virtualNodes]

theorem Placed.foldl {involved : List String} (calls : List Membership) {r : HashRing}
    (hp : Placed _hash r) (hc : CollisionFree _hash r.virtualNodes involved)
    (hr : ∀ m ∈ r.nodes, m ∈ involved) (ha : ∀ m ∈ added calls, m ∈ involved) :
    Placed _hash (calls.foldl (call _hash) r) := by
  induction calls generalizing r with
  | nil => exact hp
  | cons c calls ih =>
    rw [List.foldl_cons]
    have hvn : (r.call _hash c).virtualNodes = r.virtualNodes := r.call_virtualNodes c
    cases c with
    | addNode n =>
      have hn : n ∈ involved := ha n List.mem_cons_self
      refine ih (hp.addNode hc hr hn) (hvn ▸ hc) ?_ fun m hm => ha m (List.mem_cons_of_mem n hm)
      intro m hm
      have hins : m ∈ insert n r.nodes := by
        rw [← r.addNode_nodes n]
        exact hm
      rcases Finset.mem_insert.mp hins with rfl | hm
      · exact hn
      · exact hr m hm
    | removeNode n =>
      refine ih (hp.removeNode n) (hvn ▸ hc) ?_ ha
      intro m hm
      exact hr m (Finset.mem_of_mem_erase (r.removeNode_nodes n ▸ hm))

theorem init_eq (start : List String) (virtualNodes : Int) :
    init _hash start virtualNodes =
      (start.map Membership.addNode).foldl (call _hash) (empty virtualNodes) := by
  rw [List.foldl_map]
  rfl

theorem init_nodes (start : List String) (virtualNodes : Int) :
    (init _hash start virtualNodes).nodes = start.toFinset := by
  have hfold : ∀ (l : List String) (nodes : Finset String),
      (l.map Membership.addNode).foldl members nodes = nodes ∪ l.toFinset := by
    intro l
    induction l with
    | nil => intro nodes; simp
    | cons n l ih =>
      intro nodes
      rw [List.map_cons, List.foldl_cons, ih, members, List.toFinset_cons,
        Finset.insert_union, Finset.union_insert]
  rw [init_eq, foldl_call_nodes, hfold]
  exact Finset.empty_union _

theorem init_virtualNodes (start : List String) (virtualNodes : Int) :
    (init _hash start virtualNodes).virtualNodes = virtualNodes := by
  rw [init_eq, foldl_call_virtualNodes]
  rfl

theorem added_adds (start : List String) : added (start.map Membership.addNode) = start := by
  induction start with
  | nil => rfl
  | cons n start ih => rw [List.map_cons, added, ih]

theorem placed_init {start : List String} {virtualNodes : Int}
    (hc : CollisionFree _hash virtualNodes start) :
    Placed _hash (init _hash start virtualNodes) := by
  rw [init_eq]
  refine (placed_empty virtualNodes).foldl _ hc (fun m hm => absurd hm (Finset.notMem_empty m)) ?_
  intro m hm
  rwa [added_adds] at hm

theorem after_nodes (start : List String) (virtualNodes : Int) (calls : List Membership) :
    (after _hash start virtualNodes calls).nodes = calls.foldl members start.toFinset := by
  rw [after, foldl_call_nodes, init_nodes]

theorem after_virtualNodes (start : List String) (virtualNodes : Int)
    (calls : List Membership) :
    (after _hash start virtualNodes calls).virtualNodes = virtualNodes := by
  rw [after, foldl_call_virtualNodes, init_virtualNodes]

/-- After every history the ring map is a function of the members alone. -/
theorem placed_after {start : List String} {virtualNodes : Int} {calls : List Membership}
    (hc : CollisionFree _hash virtualNodes (start ++ added calls)) :
    Placed _hash (after _hash start virtualNodes calls) := by
  have hstart : CollisionFree _hash virtualNodes start :=
    hc.mono fun n hn => List.mem_append_left _ hn
  have hvn : CollisionFree _hash (init _hash start virtualNodes).virtualNodes
      (start ++ added calls) := by
    rw [init_virtualNodes]
    exact hc
  refine (placed_init hstart).foldl calls hvn ?_ ?_
  · intro m hm
    rw [init_nodes, List.mem_toFinset] at hm
    exact List.mem_append_left _ hm
  · exact fun m hm => List.mem_append_right _ hm

theorem mem_foldl_members {calls : List Membership} {nodes : Finset String} {n : String}
    (h : n ∈ calls.foldl members nodes) : n ∈ nodes ∨ n ∈ added calls := by
  induction calls generalizing nodes with
  | nil => exact Or.inl h
  | cons c calls ih =>
    rcases ih h with hm | ha
    · cases c with
      | addNode m =>
        rcases Finset.mem_insert.mp hm with rfl | hm
        · exact Or.inr List.mem_cons_self
        · exact Or.inl hm
      | removeNode m => exact Or.inl (Finset.mem_of_mem_erase hm)
    · cases c with
      | addNode m => exact Or.inr (List.mem_cons_of_mem m ha)
      | removeNode m => exact Or.inr ha

theorem mem_after_nodes {start : List String} {virtualNodes : Int} {calls : List Membership}
    {n : String} (h : n ∈ (after _hash start virtualNodes calls).nodes) :
    n ∈ start ++ added calls := by
  rw [after_nodes] at h
  rcases mem_foldl_members h with hs | ha
  · exact List.mem_append_left _ (List.mem_toFinset.mp hs)
  · exact List.mem_append_right _ ha

/-- Rings that place the same members equally often are the same map. -/
theorem Placed.get?_eq {r r' : HashRing} (hp : Placed _hash r) (hp' : Placed _hash r')
    (hv : r.virtualNodes = r'.virtualNodes) (hn : r.nodes = r'.nodes) (h : Nat) :
    r.ring.get? h = r'.ring.get? h := by
  apply Option.ext
  intro owner
  rw [hp h owner, hp' h owner, hv, hn]

theorem points_eq {r r' : HashRing} (h : ∀ x, r.ring.get? x = r'.ring.get? x) :
    r.points = r'.points := by
  apply points_ext r.points_pairwise r'.points_pairwise
  intro p
  rw [mem_points, mem_points, h]

theorem sortedKeys_eq_of_points {r r' : HashRing} (h : r.points = r'.points) :
    r.sortedKeys = r'.sortedKeys := by
  rw [← points_map_fst, ← points_map_fst, h]

/-- Two rings with equal maps route alike. -/
theorem routes_eq {r r' : HashRing} (h : r.points = r'.points) (key : String) (k : Int) :
    r.getNode _hash key = r'.getNode _hash key ∧
      r.getReplicas _hash key k = r'.getReplicas _hash key k := by
  rw [getNode_eq, getNode_eq, getReplicas_eq, getReplicas_eq, h]
  exact ⟨rfl, rfl⟩

variable (_hash)

/-- A ring is determined by its members: after any history it equals the ring
built afresh from them in any order, and routes as every ring with the same
members does. -/
theorem history_independent (virtualNodes : Int) (start : List String)
    (calls : List Membership)
    (hc : CollisionFree _hash virtualNodes (start ++ added calls)) :
    (∀ order : List String,
        order.toFinset = (after _hash start virtualNodes calls).nodes →
      (∀ h, (after _hash start virtualNodes calls).ring.get? h =
          (init _hash order virtualNodes).ring.get? h) ∧
        (after _hash start virtualNodes calls).sortedKeys =
          (init _hash order virtualNodes).sortedKeys ∧
        (after _hash start virtualNodes calls).nodes =
          (init _hash order virtualNodes).nodes) ∧
      (after _hash start virtualNodes calls).nodes = calls.foldl members start.toFinset ∧
      (after _hash start virtualNodes calls).sortedKeys.Pairwise (· < ·) ∧
      (∀ h, h ∈ (after _hash start virtualNodes calls).sortedKeys ↔
        h ∈ (after _hash start virtualNodes calls).ring.keys) ∧
      (∀ (start' : List String) (calls' : List Membership),
        CollisionFree _hash virtualNodes (start' ++ added calls') →
        calls'.foldl members start'.toFinset = calls.foldl members start.toFinset →
        ∀ (key : String) (replicationFactor : Int),
          (after _hash start' virtualNodes calls').getNode _hash key =
              (after _hash start virtualNodes calls).getNode _hash key ∧
            (after _hash start' virtualNodes calls').getReplicas _hash key
                replicationFactor =
              (after _hash start virtualNodes calls).getReplicas _hash key
                replicationFactor) ∧
      ∀ (n m : String) (i j : Nat), virtualKey n i = virtualKey m j → n = m ∧ i = j := by
  have hp := placed_after hc
  refine ⟨?_, after_nodes start virtualNodes calls, sortedKeys_pairwise _,
    fun h => mem_sortedKeys, ?_, fun n m i j h => virtualKey_inj h⟩
  · intro order ho
    have hinvolved : ∀ n ∈ order, n ∈ start ++ added calls := by
      intro n hn
      have hm : n ∈ order.toFinset := List.mem_toFinset.mpr hn
      rw [ho] at hm
      exact mem_after_nodes hm
    have hnodes : (after _hash start virtualNodes calls).nodes =
        (init _hash order virtualNodes).nodes := by rw [init_nodes, ho]
    have hvn : (after _hash start virtualNodes calls).virtualNodes =
        (init _hash order virtualNodes).virtualNodes := by
      rw [after_virtualNodes, init_virtualNodes]
    have hring := hp.get?_eq (placed_init (hc.mono hinvolved)) hvn hnodes
    exact ⟨hring, sortedKeys_eq_of_points (points_eq hring), hnodes⟩
  · intro start' calls' hc' hm key replicationFactor
    have hnodes : (after _hash start' virtualNodes calls').nodes =
        (after _hash start virtualNodes calls).nodes := by rw [after_nodes, after_nodes, hm]
    have hvn : (after _hash start' virtualNodes calls').virtualNodes =
        (after _hash start virtualNodes calls).virtualNodes := by
      rw [after_virtualNodes, after_virtualNodes]
    have hring := (placed_after hc').get?_eq hp hvn hnodes
    exact routes_eq (points_eq hring) key replicationFactor

/-- A node added twice, one taken out and one never there: the ring is the one
built from the survivors in the other order. -/
theorem history_independent_letters :
    (after letterSum ["a", "d"] 2 [.addNode "g", .removeNode "a", .removeNode "x",
        .addNode "g"]).sortedKeys = (init letterSum ["g", "d"] 2).sortedKeys := by
  have hc : CollisionFree letterSum 2 ["a", "d", "g", "g"] := by
    unfold CollisionFree
    decide
  have ho : ["g", "d"].toFinset = (after letterSum ["a", "d"] 2 [.addNode "g",
      .removeNode "a", .removeNode "x", .addNode "g"]).nodes := by
    rw [after_nodes]
    decide
  exact ((history_independent letterSum 2 ["a", "d"] [.addNode "g", .removeNode "a",
    .removeNode "x", .addNode "g"] hc).1 ["g", "d"] ho).2.1

end histories

end HashRing

end SelfHealingCache
