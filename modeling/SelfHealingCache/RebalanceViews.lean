import SelfHealingCache.CacheTransfer
import SelfHealingCache.RebalancePlan
import SelfHealingCache.RebalanceSteps
import SelfHealingCache.RingLookup

namespace SelfHealingCache

section owners

variable (_hash : String → Nat)

/-- The address of the node that owns a key. -/
def ownerAddress (ring : HashRing) (nodeEndpoints : Dict String Address) (key : String) :
    Option Address :=
  (ring.getNode _hash key).bind nodeEndpoints.get?

variable {_hash}

theorem ownerAddress_exists {ring : HashRing} {nodeEndpoints : Dict String Address}
    (hring : ring.ring.size ≠ 0) (hcover : ∀ n ∈ ring.nodes, n ∈ nodeEndpoints.keys)
    (key : String) : ∃ a, ownerAddress _hash ring nodeEndpoints key = some a := by
  cases howner : ring.getNode _hash key with
  | none => exact absurd ((HashRing.getNode_eq_none _hash).mp howner) hring
  | some n =>
    obtain ⟨a, ha⟩ := Dict.mem_keys_iff.mp (hcover n (HashRing.getNode_mem_nodes _hash howner))
    exact ⟨a, by rw [ownerAddress, howner, Option.bind_some, ha]⟩

theorem ownerAddress_mem {ring : HashRing} {nodeEndpoints : Dict String Address} {key : String}
    {a : Address} (h : ownerAddress _hash ring nodeEndpoints key = some a) :
    a ∈ nodeEndpoints.values := by
  obtain ⟨n, _, hn⟩ := Option.bind_eq_some_iff.mp h
  exact Dict.mem_values_iff.mpr ⟨n, hn⟩

theorem Migration.source_eq {ring : HashRing} {nodeEndpoints : Dict String Address}
    {m : Migration} {key : String} {a : Address} (howner : ring.getNode _hash key = m.oldOwner)
    (ha : ownerAddress _hash ring nodeEndpoints key = some a) : m.source nodeEndpoints = a := by
  unfold ownerAddress at ha
  rw [howner] at ha
  rw [Migration.source, endpoint, ha, Option.getD_some]

theorem Migration.target_eq {ring : HashRing} {nodeEndpoints : Dict String Address}
    {m : Migration} {key : String} {a : Address} (howner : ring.getNode _hash key = m.newOwner)
    (ha : ownerAddress _hash ring nodeEndpoints key = some a) : m.target nodeEndpoints = a := by
  unfold ownerAddress at ha
  rw [howner] at ha
  rw [Migration.target, endpoint, ha, Option.getD_some]

end owners

/-- A step of a rebalance whose requests all succeed. -/
def FaultFree : RebalanceEvent → Prop
  | .keys _ ok => ok = true
  | .snapshot _ ok => ok = true
  | .bulkLoad _ reply => reply = .answered
  | _ => True

namespace World

/-- What a read of `key` at the node `a` would return now. -/
def live (w : World) (a : Address) (key : String) : Option String :=
  (w.nodes a).bind fun c => c.live (w.clock a) key

theorem live_of_node {w : World} {a : Address} {c : LruStore String String}
    (h : w.nodes a = some c) (key : String) : w.live a key = c.live (w.clock a) key := by
  rw [live, h, Option.bind_some]

theorem live_eq_some {w : World} {a : Address} {key value : String} :
    w.live a key = some value ↔ ∃ c, w.nodes a = some c ∧ c.live (w.clock a) key = some value :=
  Option.bind_eq_some_iff

theorem live_setNode {w : World} {a : Address} {c : LruStore String String} (b : Address)
    (key : String) :
    (w.setNode a c).live b key = if b = a then c.live (w.clock a) key else w.live b key := by
  unfold live setNode
  by_cases hb : b = a
  · subst hb
    simp
  · simp [hb]

/-- Time only takes entries away. -/
theorem live_tick {w : World} {elapsed : Address → Nat} {a : Address} {key value : String}
    (h : ({ w with clock := fun a => w.clock a + elapsed a } : World).live a key = some value) :
    w.live a key = some value := by
  obtain ⟨c, hc, hl⟩ := live_eq_some.mp h
  exact live_eq_some.mpr
    ⟨c, hc, LruStore.live_earlier (Int.le_add_of_nonneg_right (Int.natCast_nonneg _)) hl⟩

/-- The batch of a task: the entries of its keys that are live at its source. -/
structure Batch (source : String → Option String) (m : Migration)
    (filtered : List (String × String × UInt32)) : Prop where
  mem : ∀ key value, (∃ ttl, (key, value, ttl) ∈ filtered) ↔
    key ∈ m.keys ∧ source key = some value
  nodup : (filtered.map Prod.fst).Nodup

theorem Batch.of_snapshot {w : World} {a : Address} {c : LruStore String String} (m : Migration)
    (h : w.nodes a = some c) :
    Batch (w.live a) m (m.filtered (c.snapshot (w.clock a) fun _ => w.clock a)) := by
  refine ⟨?_, ?_⟩
  · intro key value
    rw [live_of_node h, ← LruStore.mem_snapshot_iff]
    unfold Migration.filtered
    constructor
    · intro ⟨ttl, hm⟩
      obtain ⟨hm, hkey⟩ := List.mem_filter.mp hm
      exact ⟨by simpa using hkey, ttl, hm⟩
    · intro ⟨hkey, ttl, hm⟩
      exact ⟨ttl, List.mem_filter.mpr ⟨hm, by simpa using hkey⟩⟩
  · exact (LruStore.snapshot_keys_nodup c _ _).sublist (List.filter_sublist.map Prod.fst)

theorem Batch.congr {source source' : String → Option String} {m : Migration}
    {filtered : List (String × String × UInt32)} (h : Batch source m filtered)
    (heq : ∀ key ∈ m.keys, source' key = source key) : Batch source' m filtered := by
  refine ⟨?_, h.nodup⟩
  intro key value
  rw [h.mem]
  exact and_congr_right fun hkey => by rw [heq key hkey]

theorem Batch.mem_keys {source : String → Option String} {m : Migration}
    {filtered : List (String × String × UInt32)} (h : Batch source m filtered) {key : String} :
    key ∈ filtered.map Prod.fst ↔ key ∈ m.keys ∧ ∃ value, source key = some value := by
  constructor
  · intro hk
    obtain ⟨⟨k, value, ttl⟩, hm, rfl⟩ := List.mem_map.mp hk
    obtain ⟨hkey, hsource⟩ := (h.mem k value).mp ⟨ttl, hm⟩
    exact ⟨hkey, value, hsource⟩
  · intro ⟨hkey, value, hsource⟩
    obtain ⟨ttl, hm⟩ := (h.mem key value).mpr ⟨hkey, hsource⟩
    exact List.mem_map.mpr ⟨_, hm, rfl⟩

theorem Batch.length {source : String → Option String} {m : Migration}
    {filtered : List (String × String × UInt32)} (h : Batch source m filtered)
    (hn : m.keys.Nodup) :
    filtered.length = (m.keys.filter fun key => (source key).isSome).length := by
  have hperm : (filtered.map Prod.fst).Perm (m.keys.filter fun key => (source key).isSome) := by
    refine (List.perm_ext_iff_of_nodup h.nodup (hn.filter _)).mpr ?_
    intro key
    rw [h.mem_keys, List.mem_filter, Option.isSome_iff_exists]
  rw [← hperm.length_eq, List.length_map]

/-- Every node asked for its keys has an outstanding request, or its live keys are
among those found. -/
def Fetched (w : World) (nodeEndpoints : Dict String Address) (requests : List Address)
    (allKeys : List String) : Prop :=
  ∀ a ∈ nodeEndpoints.values, a ∈ requests ∨ ∀ key value, w.live a key = some value →
    key ∈ allKeys

theorem Fetched.mono {w w' : World} {nodeEndpoints : Dict String Address}
    {requests : List Address} {allKeys : List String}
    (h : w.Fetched nodeEndpoints requests allKeys)
    (hlive : ∀ a key value, w'.live a key = some value → w.live a key = some value) :
    w'.Fetched nodeEndpoints requests allKeys := by
  intro a ha
  refine (h a ha).imp id ?_
  intro hall key value hl
  exact hall key value (hlive a key value hl)

/-- An answered request moves its node from the first case to the second. -/
theorem Fetched.answer {w : World} {nodeEndpoints : Dict String Address}
    {requests : List Address} {allKeys : List String} {i : Nat} {a : Address}
    {c : LruStore String String} (h : w.Fetched nodeEndpoints requests allKeys)
    (hi : requests[i]? = some a) (hc : w.nodes a = some c) :
    w.Fetched nodeEndpoints (requests.eraseIdx i)
      (allKeys ++ c.keys fun _ => w.clock a) := by
  intro b hb
  obtain ⟨hlt, heq⟩ := List.getElem?_eq_some_iff.mp hi
  have hperm := List.getElem_cons_eraseIdx_perm hlt
  rw [heq] at hperm
  by_cases hba : b = a
  · subst hba
    right
    intro key value hl
    rw [live_of_node hc] at hl
    exact List.mem_append_right _ (LruStore.mem_keys.mpr ⟨value, hl⟩)
  · rcases h b hb with hreq | hall
    · exact .inl ((List.mem_cons.mp (hperm.mem_iff.mpr hreq)).resolve_left hba)
    · exact .inr fun key value hl => List.mem_append_left _ (hall key value hl)

end World

end SelfHealingCache
