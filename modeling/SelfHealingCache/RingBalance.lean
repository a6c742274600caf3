import Mathlib.GroupTheory.Perm.Finite
import SelfHealingCache.Exchange
import SelfHealingCache.RingHistory

namespace SelfHealingCache

namespace HashRing

/-- The virtual keys of a fleet. -/
def virtualKeys (virtualNodes : Int) (fleet : List String) : Finset String :=
  fleet.toFinset.biUnion fun n => (Finset.range virtualNodes.toNat).image (virtualKey n)

theorem mem_virtualKeys {virtualNodes : Int} {fleet : List String} {s : String} :
    s ∈ virtualKeys virtualNodes fleet ↔
      ∃ n ∈ fleet, ∃ i < virtualNodes.toNat, virtualKey n i = s := by
  simp [virtualKeys]

/-- The strings that a ring of the fleet hashes to look the keys up. -/
def hashed (virtualNodes : Int) (fleet : List String) (keys : Finset String) : Finset String :=
  virtualKeys virtualNodes fleet ∪ keys

instance (_hash : String → Nat) (virtualNodes : Int) (involved : List String) :
    Decidable (CollisionFree _hash virtualNodes involved) := by
  unfold CollisionFree
  infer_instance

section hashFunctions

variable {virtualNodes : Int} {fleet : List String} {keys : Finset String}

/-- A hash of some strings, read as a hash of every string. -/
def digest {names : Finset String} (f : names → Fin (2 ^ 128)) (s : String) : Nat :=
  if h : s ∈ names then (f ⟨s, h⟩).val else 0

/-- All hash functions without collisions among the virtual keys of the fleet. -/
def hashes (virtualNodes : Int) (fleet : List String) (keys : Finset String) :
    Finset (hashed virtualNodes fleet keys → Fin (2 ^ 128)) :=
  Finset.univ.filter fun f => CollisionFree (digest f) virtualNodes fleet

theorem mem_hashes {f : hashed virtualNodes fleet keys → Fin (2 ^ 128)} :
    f ∈ hashes virtualNodes fleet keys ↔ CollisionFree (digest f) virtualNodes fleet := by
  simp [hashes]

theorem virtualKey_mem {n : String} (hn : n ∈ fleet) {i : Nat} (hi : i < virtualNodes.toNat) :
    virtualKey n i ∈ virtualKeys virtualNodes fleet :=
  mem_virtualKeys.mpr ⟨n, hn, i, hi, rfl⟩

theorem virtualKey_mem_hashed {n : String} (hn : n ∈ fleet) {i : Nat}
    (hi : i < virtualNodes.toNat) : virtualKey n i ∈ hashed virtualNodes fleet keys :=
  Finset.mem_union_left _ (virtualKey_mem hn hi)

/-- How often, over all these hash functions, a key meets a condition. -/
def occurrences (virtualNodes : Int) (fleet : List String) (keys : Finset String)
    (holds : (String → Nat) → String → Prop) [∀ _hash key, Decidable (holds _hash key)] : Nat :=
  ∑ f ∈ hashes virtualNodes fleet keys, (keys.filter fun key => holds (digest f) key).card

theorem occurrences_congr {holds holds' : (String → Nat) → String → Prop}
    [∀ _hash key, Decidable (holds _hash key)] [∀ _hash key, Decidable (holds' _hash key)]
    (h : ∀ _hash, CollisionFree _hash virtualNodes fleet →
      ∀ key, holds _hash key ↔ holds' _hash key) :
    occurrences virtualNodes fleet keys holds = occurrences virtualNodes fleet keys holds' := by
  refine Finset.sum_congr rfl fun f hf => congrArg Finset.card ?_
  exact Finset.filter_congr fun key _ => h _ (mem_hashes.mp hf) key

/-- As long as the circle has room for the fleet, there are such hash functions. -/
theorem hashes_nonempty (hroom : (virtualKeys virtualNodes fleet).card ≤ 2 ^ 128) :
    (hashes virtualNodes fleet keys).Nonempty := by
  obtain ⟨place⟩ : Nonempty (virtualKeys virtualNodes fleet ↪ Fin (2 ^ 128)) := by
    apply Function.Embedding.nonempty_of_card_le
    rw [Fintype.card_coe, Fintype.card_fin]
    exact hroom
  refine ⟨fun s => if h : s.val ∈ virtualKeys virtualNodes fleet then
    place ⟨s.val, h⟩ else 0, mem_hashes.mpr ?_⟩
  intro n hn m hm i hi j hj heq
  rw [digest, dif_pos (virtualKey_mem_hashed hn hi), digest,
    dif_pos (virtualKey_mem_hashed hm hj)] at heq
  simp only [virtualKey_mem hn hi, virtualKey_mem hm hj, ↓reduceDIte] at heq
  exact congrArg Subtype.val (place.injective (Fin.val_injective heq))

end hashFunctions

section exchange

variable {k : Nat} {n m : String}

theorem virtualKey_injective (k : Nat) :
    Function.Injective fun p : String × Fin k => virtualKey p.1 p.2 := by
  intro p q h
  obtain ⟨hn, hi⟩ := virtualKey_inj h
  exact Prod.ext hn (Fin.ext hi)

open Classical in
/-- The strings with the first `k` virtual keys of two nodes exchanged. -/
noncomputable def exchange (k : Nat) (n m : String) : Equiv.Perm String :=
  Equiv.Perm.extendDomain ((Equiv.swap n m).prodCongr (Equiv.refl (Fin k)))
    (Equiv.ofInjective _ (virtualKey_injective k))

theorem exchange_virtualKey (x : String) {i : Nat} (hi : i < k) :
    exchange k n m (virtualKey x i) = virtualKey (Equiv.swap n m x) i := by
  classical
  exact Equiv.Perm.extendDomain_apply_image _ (Equiv.ofInjective _ (virtualKey_injective k))
    (x, (⟨i, hi⟩ : Fin k))

/-- All other strings keep their names. -/
theorem exchange_other {s : String} (hs : ∀ i < k, s ≠ virtualKey n i ∧ s ≠ virtualKey m i) :
    exchange k n m s = s := by
  classical
  by_cases hv : ∃ x, ∃ i < k, virtualKey x i = s
  · obtain ⟨x, i, hi, rfl⟩ := hv
    have hn : x ≠ n := fun h => (hs i hi).1 (by rw [h])
    have hm : x ≠ m := fun h => (hs i hi).2 (by rw [h])
    rw [exchange_virtualKey x hi, Equiv.swap_apply_of_ne_of_ne hn hm]
  · refine Equiv.Perm.extendDomain_apply_not_subtype _ _ ?_
    rintro ⟨⟨x, i⟩, h⟩
    exact hv ⟨x, i, i.isLt, h⟩

end exchange

section exchanged

variable {_hash _hash' : String → Nat} {virtualNodes : Int} {n m : String}

/-- The second hash treats each virtual key as the first one does with the nodes exchanged. -/
def Exchanges (_hash _hash' : String → Nat) (virtualNodes : Int) (n m : String) : Prop :=
  ∀ x, ∀ i < virtualNodes.toNat,
    _hash' (virtualKey x i) = _hash (virtualKey (Equiv.swap n m x) i)

theorem Exchanges.symm (h : Exchanges _hash _hash' virtualNodes n m) :
    Exchanges _hash' _hash virtualNodes n m := by
  intro x i hi
  rw [h _ i hi, Equiv.swap_apply_self]

theorem Exchanges.virtualHashes (h : Exchanges _hash _hash' virtualNodes n m) (x : String) :
    virtualHashes _hash' virtualNodes x =
      HashRing.virtualHashes _hash virtualNodes (Equiv.swap n m x) :=
  List.map_congr_left fun i hi => h x i (List.mem_range.mp hi)

theorem Exchanges.collisionFree {involved : List String}
    (h : Exchanges _hash _hash' virtualNodes n m) (hn : n ∈ involved) (hm : m ∈ involved)
    (hc : CollisionFree _hash virtualNodes involved) :
    CollisionFree _hash' virtualNodes involved := by
  have hswap : ∀ x ∈ involved, Equiv.swap n m x ∈ involved := by
    intro x hx
    rw [← List.mem_toFinset] at hn hm hx ⊢
    exact (swap_mem hn hm x).mpr hx
  intro x hx y hy i hi j hj heq
  rw [h x i hi, h y j hj] at heq
  obtain ⟨hxy, hij⟩ := virtualKey_inj (hc _ (hswap x hx) _ (hswap y hy) i hi j hj heq)
  rw [(Equiv.swap n m).injective hxy, hij]

/-- The two rings have the same points, those of the two nodes exchanged. -/
theorem Exchanges.points {start : List String} {calls : List Membership} {fleet : List String}
    (h : Exchanges _hash _hash' virtualNodes n m) (hc : CollisionFree _hash virtualNodes fleet)
    (hfleet : ∀ x ∈ start ++ added calls, x ∈ fleet)
    (hn : n ∈ calls.foldl members start.toFinset) (hm : m ∈ calls.foldl members start.toFinset) :
    (after _hash' start virtualNodes calls).points =
      (after _hash start virtualNodes calls).points.map
        fun p => (p.1, Equiv.swap n m p.2) := by
  have hinvolved : ∀ x ∈ calls.foldl members start.toFinset, x ∈ fleet := by
    intro x hx
    apply hfleet
    rcases mem_foldl_members hx with hs | ha
    · exact List.mem_append_left _ (List.mem_toFinset.mp hs)
    · exact List.mem_append_right _ ha
  have hc' := h.collisionFree (hinvolved n hn) (hinvolved m hm) hc
  have hp := placed_after (hc.mono hfleet)
  have hp' := placed_after (hc'.mono hfleet)
  refine points_ext (points_pairwise _) ?_ fun p => ?_
  · rw [List.pairwise_map]
    exact points_pairwise _
  have hback : p ∈ (after _hash start virtualNodes calls).points.map
      (fun q => (q.1, Equiv.swap n m q.2)) ↔
      (p.1, Equiv.swap n m p.2) ∈ (after _hash start virtualNodes calls).points := by
    rw [List.mem_map]
    constructor
    · rintro ⟨q, hq, rfl⟩
      rw [Equiv.swap_apply_self]
      exact hq
    · intro hq
      exact ⟨_, hq, Prod.ext rfl (Equiv.swap_apply_self n m p.2)⟩
  rw [hback, mem_points, mem_points, hp', hp, after_nodes, after_nodes, after_virtualNodes,
    after_virtualNodes, h.virtualHashes, swap_mem hn hm]

/-- One node is a replica under one hash exactly when the other one is under the other. -/
theorem Exchanges.mem_replicas {start : List String} {calls : List Membership}
    {fleet : List String} (h : Exchanges _hash _hash' virtualNodes n m)
    (hc : CollisionFree _hash virtualNodes fleet) (hfleet : ∀ x ∈ start ++ added calls, x ∈ fleet)
    (hn : n ∈ calls.foldl members start.toFinset) (hm : m ∈ calls.foldl members start.toFinset)
    {key : String} (hkey : _hash' key = _hash key) (r : Int) :
    m ∈ (after _hash' start virtualNodes calls).getReplicas _hash' key r ↔
      n ∈ (after _hash start virtualNodes calls).getReplicas _hash key r := by
  have hswap : Equiv.swap n m n ∈
      ((after _hash start virtualNodes calls).getReplicas _hash key r).map (Equiv.swap n m) ↔
        n ∈ (after _hash start virtualNodes calls).getReplicas _hash key r :=
    List.mem_map_of_injective (Equiv.swap n m).injective
  rw [Equiv.swap_apply_left, getReplicas_eq, List.map_take] at hswap
  rw [getReplicas_eq, getReplicas_eq, hkey, h.points hc hfleet hn hm,
    preference_rename (Equiv.swap n m).injective]
  exact hswap

end exchanged

section counted

variable {_hash : String → Nat}

/-- As many replicas as asked for, as long as there are members. -/
theorem Placed.card_replicas {r : HashRing} (hp : Placed _hash r) (hpos : 0 < r.virtualNodes)
    (key : String) (k : Int) :
    (r.nodes.filter fun n => n ∈ r.getReplicas _hash key k).card = min k.toNat r.nodes.card := by
  have hall : (preference r.points (_hash key)).toFinset = r.nodes := by
    ext n
    rw [List.mem_toFinset, mem_preference]
    constructor
    · rintro ⟨h, hn⟩
      exact owner_mem_nodes hn
    · intro hn
      refine ⟨_hash (virtualKey n 0), mem_points.mpr ((hp _ _).mpr ⟨hn, ?_⟩)⟩
      exact List.mem_map.mpr ⟨0, List.mem_range.mpr (by omega), rfl⟩
  have hlength : (preference r.points (_hash key)).length = r.nodes.card := by
    rw [← hall, List.toFinset_card_of_nodup (preference_nodup _ _)]
  have hreplicas : (r.nodes.filter fun n => n ∈ r.getReplicas _hash key k) =
      (r.getReplicas _hash key k).toFinset := by
    ext n
    rw [Finset.mem_filter, List.mem_toFinset]
    exact ⟨fun h => h.2, fun h => ⟨getReplicas_mem_nodes _hash h, h⟩⟩
  rw [hreplicas, getReplicas_eq, List.toFinset_card_of_nodup
    ((preference_nodup _ _).sublist (List.take_sublist _ _)), List.length_take, hlength]

/-- Without collisions the virtual points of a new node are free. -/
theorem Placed.fresh {r : HashRing} {fleet : List String} {n : String} (hp : Placed _hash r)
    (hc : CollisionFree _hash r.virtualNodes fleet) (hr : ∀ m ∈ r.nodes, m ∈ fleet)
    (hn : n ∈ fleet) (hnew : n ∉ r.nodes) :
    ∀ h ∈ virtualHashes _hash r.virtualNodes n, h ∉ r.ring.keys := by
  intro h hh hkeys
  obtain ⟨owner, howner⟩ := Dict.mem_keys_iff.mp hkeys
  obtain ⟨hmember, hpoint⟩ := (hp h owner).mp howner
  rw [hc.owner_unique hn (hr owner hmember) hh hpoint] at hnew
  exact hnew hmember

theorem getNode_iff_first (r : HashRing) (key n : String) :
    r.getNode _hash key = some n ↔ n ∈ r.getReplicas _hash key 1 := by
  rw [getNode_eq, getReplicas_eq]
  cases preference r.points (_hash key) with
  | nil => simp
  | cons m rest =>
    simp only [List.head?_cons, Option.some.injEq, Int.toNat_one, List.take_succ_cons,
      List.take_zero, List.mem_singleton]
    exact eq_comm

/-- A removal moves exactly the keys of the node. -/
theorem moved_by_removal (r : HashRing) (key n : String) :
    (r.removeNode n).getNode _hash key ≠ r.getNode _hash key ↔
      r.getNode _hash key = some n := by
  constructor
  · intro hmoved
    by_contra hne
    rw [getNode_eq] at hne
    apply hmoved
    rw [getNode_eq, getNode_eq, preference_removeNode, head?_filter_of_head?_ne hne]
  · intro howned hsame
    rw [howned] at hsame
    have hmem := getNode_mem_nodes _hash hsame
    rw [removeNode_nodes] at hmem
    exact Finset.notMem_erase n r.nodes hmem

/-- An addition moves exactly the keys that the new node takes. -/
theorem moved_by_addition {r : HashRing} {n : String} (hn : n ∉ r.nodes)
    (hfresh : ∀ h ∈ virtualHashes _hash r.virtualNodes n, h ∉ r.ring.keys) (key : String) :
    (r.addNode _hash n).getNode _hash key ≠ r.getNode _hash key ↔
      (r.addNode _hash n).getNode _hash key = some n := by
  constructor
  · intro hmoved
    by_contra hne
    rw [getNode_eq] at hne
    apply hmoved
    rw [getNode_eq, getNode_eq, preference_addNode _hash hn hfresh,
      head?_filter_of_head?_ne hne]
  · intro htaken hsame
    rw [htaken] at hsame
    exact hn (getNode_mem_nodes _hash hsame.symm)

end counted

section averages

variable {virtualNodes : Int} {fleet : List String} {keys : Finset String}

theorem exchange_mem_hashed (hkeys : Disjoint keys (virtualKeys virtualNodes fleet))
    {n m : String} (hn : n ∈ fleet) (hm : m ∈ fleet) :
    (∀ key ∈ keys, exchange virtualNodes.toNat n m key = key) ∧
      ∀ s ∈ hashed virtualNodes fleet keys,
        exchange virtualNodes.toNat n m s ∈ hashed virtualNodes fleet keys := by
  have hfixed : ∀ key ∈ keys, exchange virtualNodes.toNat n m key = key := by
    intro key hkey
    have hnot := Finset.disjoint_left.mp hkeys hkey
    refine exchange_other fun i hi => ⟨?_, ?_⟩
    · rintro rfl
      exact hnot (virtualKey_mem hn hi)
    · rintro rfl
      exact hnot (virtualKey_mem hm hi)
  refine ⟨hfixed, fun s hs => ?_⟩
  rcases Finset.mem_union.mp hs with hs | hs
  · obtain ⟨x, hx, i, hi, rfl⟩ := mem_virtualKeys.mp hs
    rw [exchange_virtualKey x hi]
    refine Finset.mem_union_left _ (virtualKey_mem ?_ hi)
    rw [← List.mem_toFinset] at hn hm hx ⊢
    exact (swap_mem hn hm x).mpr hx
  · rw [hfixed s hs]
    exact Finset.mem_union_right _ hs

/-- Every hash function has a partner under which two nodes change places. -/
theorem exists_exchanged (hkeys : Disjoint keys (virtualKeys virtualNodes fleet))
    {n m : String} (hn : n ∈ fleet) (hm : m ∈ fleet) :
    ∃ e : Equiv.Perm (hashed virtualNodes fleet keys → Fin (2 ^ 128)),
      ∀ f, Exchanges (digest f) (digest (e f)) virtualNodes n m ∧
        ∀ key ∈ keys, digest (e f) key = digest f key := by
  obtain ⟨hfixed, hnames⟩ := exchange_mem_hashed hkeys hn hm
  obtain ⟨e, he⟩ : ∃ e : Equiv.Perm (hashed virtualNodes fleet keys),
      ∀ s, (e s).val = exchange virtualNodes.toNat n m s.val :=
    ⟨Equiv.Perm.subtypePermOfFintype _ hnames, fun s => rfl⟩
  have hdigest : ∀ (f : hashed virtualNodes fleet keys → Fin (2 ^ 128)),
      ∀ s ∈ hashed virtualNodes fleet keys,
        digest (Equiv.arrowCongr e.symm (Equiv.refl _) f) s =
          digest f (exchange virtualNodes.toNat n m s) := by
    intro f s hs
    rw [digest, dif_pos hs, digest, dif_pos (hnames s hs)]
    exact congrArg (fun s => (f s).val) (Subtype.ext (he ⟨s, hs⟩))
  refine ⟨Equiv.arrowCongr e.symm (Equiv.refl _), fun f => ⟨fun x i hi => ?_, fun key hkey => ?_⟩⟩
  · by_cases hs : virtualKey x i ∈ hashed virtualNodes fleet keys
    · rw [← exchange_virtualKey x hi]
      exact hdigest f _ hs
    · have hx : x ∉ fleet := fun hx => hs (virtualKey_mem_hashed hx hi)
      have hxn : x ≠ n := fun h => hx (h ▸ hn)
      have hxm : x ≠ m := fun h => hx (h ▸ hm)
      rw [Equiv.swap_apply_of_ne_of_ne hxn hxm, digest, dif_neg hs, digest, dif_neg hs]
  · have hs := hdigest f key (Finset.mem_union_right _ hkey)
    rw [hfixed key hkey] at hs
    exact hs

theorem added_append (calls calls' : List Membership) :
    added (calls ++ calls') = added calls ++ added calls' := by
  induction calls with
  | nil => rfl
  | cons c calls ih =>
    cases c with
    | addNode n => rw [List.cons_append, added, ih, added, List.cons_append]
    | removeNode n => rw [List.cons_append, added, ih, added]

theorem mem_fleet_of_member {start : List String} {calls : List Membership}
    (hfleet : ∀ n ∈ start ++ added calls, n ∈ fleet) {n : String}
    (hn : n ∈ calls.foldl members start.toFinset) : n ∈ fleet := by
  apply hfleet
  rcases mem_foldl_members hn with hs | ha
  · exact List.mem_append_left _ (List.mem_toFinset.mp hs)
  · exact List.mem_append_right _ ha

section members

variable {start : List String} {calls : List Membership}

/-- Over all hash functions a member is a replica as often as every other one. -/
theorem card_replica (hpos : 0 < virtualNodes)
    (hkeys : Disjoint keys (virtualKeys virtualNodes fleet))
    (hfleet : ∀ n ∈ start ++ added calls, n ∈ fleet) {n : String}
    (hn : n ∈ calls.foldl members start.toFinset) (r : Int) :
    (calls.foldl members start.toFinset).card * occurrences virtualNodes fleet keys
        (fun _hash key => n ∈ (after _hash start virtualNodes calls).getReplicas _hash key r) =
      min r.toNat (calls.foldl members start.toFinset).card *
        (keys.card * (hashes virtualNodes fleet keys).card) := by
  have hone : ∀ key ∈ keys, (calls.foldl members start.toFinset).card *
      ((hashes virtualNodes fleet keys).filter fun f =>
        n ∈ (after (digest f) start virtualNodes calls).getReplicas (digest f) key r).card =
      min r.toNat (calls.foldl members start.toFinset).card *
        (hashes virtualNodes fleet keys).card := by
    intro key hkey
    refine card_wins (fun f x => x ∈ (after (digest f) start virtualNodes calls).getReplicas
      (digest f) key r) ?_ ?_ hn
    · intro f hf
      have hp := placed_after ((mem_hashes.mp hf).mono hfleet)
      have hcard := hp.card_replicas (by rw [after_virtualNodes]; exact hpos) key r
      rw [after_nodes] at hcard
      exact hcard
    · intro x hx y hy
      have hxf := mem_fleet_of_member hfleet hx
      have hyf := mem_fleet_of_member hfleet hy
      obtain ⟨e, he⟩ := exists_exchanged hkeys hxf hyf
      refine ⟨e, fun f => ⟨?_, fun hf => ?_⟩⟩
      · rw [mem_hashes, mem_hashes]
        exact ⟨(he f).1.symm.collisionFree hxf hyf, (he f).1.collisionFree hxf hyf⟩
      · exact (he f).1.mem_replicas (mem_hashes.mp hf) hfleet hx hy ((he f).2 key hkey) r
  have hcount := Finset.sum_card_bipartiteAbove_eq_sum_card_bipartiteBelow
    (fun f key => n ∈ (after (digest f) start virtualNodes calls).getReplicas (digest f) key r)
    (s := hashes virtualNodes fleet keys) (t := keys)
  calc (calls.foldl members start.toFinset).card * occurrences virtualNodes fleet keys
          (fun _hash key => n ∈ (after _hash start virtualNodes calls).getReplicas _hash key r)
      = ∑ key ∈ keys, (calls.foldl members start.toFinset).card *
          ((hashes virtualNodes fleet keys).filter fun f => n ∈ (after (digest f) start
            virtualNodes calls).getReplicas (digest f) key r).card := by
        rw [← Finset.mul_sum]
        exact congrArg _ hcount
    _ = min r.toNat (calls.foldl members start.toFinset).card *
          (keys.card * (hashes virtualNodes fleet keys).card) := by
        rw [Finset.sum_congr rfl hone, Finset.sum_const, Nat.nsmul_eq_mul, Nat.mul_left_comm]

/-- Over all hash functions a member owns one share of the keys. -/
theorem card_owned (hpos : 0 < virtualNodes)
    (hkeys : Disjoint keys (virtualKeys virtualNodes fleet))
    (hfleet : ∀ n ∈ start ++ added calls, n ∈ fleet) {n : String}
    (hn : n ∈ calls.foldl members start.toFinset) :
    (calls.foldl members start.toFinset).card * occurrences virtualNodes fleet keys
        (fun _hash key => (after _hash start virtualNodes calls).getNode _hash key = some n) =
      keys.card * (hashes virtualNodes fleet keys).card := by
  have hsome : 0 < (calls.foldl members start.toFinset).card := Finset.card_pos.mpr ⟨n, hn⟩
  have hfirst : min (1 : Int).toNat (calls.foldl members start.toFinset).card = 1 := by omega
  rw [occurrences_congr fun _hash _ key => getNode_iff_first _ key n,
    card_replica hpos hkeys hfleet hn 1, hfirst, Nat.one_mul]

end members

/-- Over all hash functions every member is a replica of the same share of the keys, and a node
that leaves or joins moves on average one share: `k / N` of `k` keys on a ring with `N` nodes. -/
theorem keys_balanced (hpos : 0 < virtualNodes)
    (hkeys : Disjoint keys (virtualKeys virtualNodes fleet)) {start : List String}
    {calls : List Membership} (hfleet : ∀ n ∈ start ++ added calls, n ∈ fleet) :
    ((virtualKeys virtualNodes fleet).card ≤ 2 ^ 128 →
      (hashes virtualNodes fleet keys).Nonempty) ∧
    (∀ n ∈ calls.foldl members start.toFinset,
      (calls.foldl members start.toFinset).card * occurrences virtualNodes fleet keys
          (fun _hash key => (after _hash start virtualNodes calls).getNode _hash key = some n) =
        keys.card * (hashes virtualNodes fleet keys).card ∧
      (∀ r : Int, (calls.foldl members start.toFinset).card * occurrences virtualNodes fleet keys
          (fun _hash key =>
            n ∈ (after _hash start virtualNodes calls).getReplicas _hash key r) =
        min r.toNat (calls.foldl members start.toFinset).card *
          (keys.card * (hashes virtualNodes fleet keys).card)) ∧
      (calls.foldl members start.toFinset).card * occurrences virtualNodes fleet keys
          (fun _hash key =>
            ((after _hash start virtualNodes calls).removeNode n).getNode _hash key ≠
              (after _hash start virtualNodes calls).getNode _hash key) =
        keys.card * (hashes virtualNodes fleet keys).card) ∧
    ∀ n ∈ fleet, n ∉ calls.foldl members start.toFinset →
      ((calls.foldl members start.toFinset).card + 1) * occurrences virtualNodes fleet keys
          (fun _hash key =>
            ((after _hash start virtualNodes calls).addNode _hash n).getNode _hash key ≠
              (after _hash start virtualNodes calls).getNode _hash key) =
        keys.card * (hashes virtualNodes fleet keys).card := by
  refine ⟨hashes_nonempty, fun n hn => ⟨card_owned hpos hkeys hfleet hn,
    card_replica hpos hkeys hfleet hn, ?_⟩, fun n hn hnew => ?_⟩
  · rw [occurrences_congr fun _hash _ key => moved_by_removal _ key n]
    exact card_owned hpos hkeys hfleet hn
  · have hjoined : ∀ m ∈ start ++ added (calls ++ [.addNode n]), m ∈ fleet := by
      intro m hm
      rw [added_append, ← List.append_assoc] at hm
      rcases List.mem_append.mp hm with hm | hm
      · exact hfleet m hm
      · rw [List.mem_singleton.mp hm]
        exact hn
    have hshare := card_owned hpos hkeys hjoined (n := n) (by
      rw [List.foldl_append]
      exact Finset.mem_insert_self n _)
    rw [List.foldl_append, List.foldl_cons, List.foldl_nil, members,
      Finset.card_insert_of_notMem hnew] at hshare
    rw [← hshare]
    refine congrArg _ (occurrences_congr fun _hash hc key => ?_)
    have hp := placed_after (hc.mono hfleet)
    rw [← after_virtualNodes start virtualNodes calls] at hc
    rw [← @after_nodes _hash start virtualNodes calls] at hnew
    have hfresh := hp.fresh hc (fun m hm => hfleet m (mem_after_nodes hm)) hn hnew
    rw [moved_by_addition hnew hfresh key, after, after, List.foldl_append]
    rfl

/-- Of two keys on two nodes, each node owns one on average, and a third one takes two thirds
of a key. -/
theorem keys_balanced_two_nodes :
    (hashes 2 ["a", "b", "c"] {"k", "l"}).Nonempty ∧
    2 * occurrences 2 ["a", "b", "c"] {"k", "l"} (fun _hash key =>
        (after _hash ["a", "b"] 2 []).getNode _hash key = some "a") =
      2 * (hashes 2 ["a", "b", "c"] {"k", "l"}).card ∧
    3 * occurrences 2 ["a", "b", "c"] {"k", "l"} (fun _hash key =>
        ((after _hash ["a", "b"] 2 []).addNode _hash "c").getNode _hash key ≠
          (after _hash ["a", "b"] 2 []).getNode _hash key) =
      2 * (hashes 2 ["a", "b", "c"] {"k", "l"}).card := by
  have hkeys : Disjoint {"k", "l"} (virtualKeys 2 ["a", "b", "c"]) := by decide +kernel
  have hfleet : ∀ n ∈ ["a", "b"] ++ added [], n ∈ ["a", "b", "c"] := by decide
  have hnodes : (([] : List Membership).foldl members ["a", "b"].toFinset).card = 2 := by decide
  have hcount : ({"k", "l"} : Finset String).card = 2 := by decide
  obtain ⟨hroom, hmembers, hjoins⟩ := keys_balanced (by decide) hkeys hfleet
  have howned := (hmembers "a" (by decide)).1
  have hmoved := hjoins "c" (by decide) (by decide)
  rw [hnodes, hcount] at howned hmoved
  rw [show 2 + 1 = 3 from rfl] at hmoved
  exact ⟨hroom (by decide +kernel), howned, hmoved⟩

end averages

end HashRing

end SelfHealingCache
