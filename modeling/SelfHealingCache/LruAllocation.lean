import SelfHealingCache.LruFreshness

namespace SelfHealingCache

/-- What `put` allocates: room for the value copied over an old one, the strings of `entry`, the
list node, and the node of `map_`. -/
inductive Allocation
  | valueCopy
  | entryCopy
  | listNode
  | mapNode
  deriving DecidableEq

/-- A call, or a put some of whose allocations fail. -/
inductive Attempt (κ ν : Type)
  | call (op : Op κ ν)
  | put (fails : Allocation → Bool) (now : TimePoint) (key : κ) (value : ν) (ttlSeconds : UInt32)

variable {κ ν : Type} [DecidableEq κ]

namespace Memory

omit [DecidableEq κ] in
theorem storeNext_some {m m' : Memory κ ν} {p v : Option Ptr} (h : m.storeNext p v = some m') :
    ∃ q, p = some q ∧ m' = m.setLinks q fun l => { l with next := v } := by
  obtain ⟨q, hq, h⟩ := Option.bind_eq_some_iff.mp h
  obtain ⟨_, _, h⟩ := Option.bind_eq_some_iff.mp h
  exact ⟨q, hq, (Option.some.inj h).symm⟩

omit [DecidableEq κ] in
theorem storePrev_some {m m' : Memory κ ν} {p v : Option Ptr} (h : m.storePrev p v = some m') :
    ∃ q, p = some q ∧ m' = m.setLinks q fun l => { l with prev := v } := by
  obtain ⟨q, hq, h⟩ := Option.bind_eq_some_iff.mp h
  obtain ⟨_, _, h⟩ := Option.bind_eq_some_iff.mp h
  exact ⟨q, hq, (Option.some.inj h).symm⟩

omit [DecidableEq κ] in
/-- Whatever the list was before, `attach_front` makes the node its first and keeps the entries. -/
theorem attachFront_some {m m' : Memory κ ν} {p : Option Ptr} (h : m.attachFront p = some m') :
    m'.nextOf .head = p ∧ m'.entryOf = m.entryOf := by
  obtain ⟨m₁, h₁, h⟩ := Option.bind_eq_some_iff.mp h
  obtain ⟨m₂, h₂, h⟩ := Option.bind_eq_some_iff.mp h
  obtain ⟨m₃, h₃, h₄⟩ := Option.bind_eq_some_iff.mp h
  obtain ⟨_, _, rfl⟩ := storeNext_some h₁
  obtain ⟨_, _, rfl⟩ := storePrev_some h₂
  obtain ⟨_, _, rfl⟩ := storePrev_some h₃
  obtain ⟨q, hq, rfl⟩ := storeNext_some h₄
  cases Option.some.inj hq
  refine ⟨rfl, ?_⟩
  rw [entryOf_setLinks, entryOf_setLinks, entryOf_setLinks, entryOf_setLinks]

end Memory

namespace LRUCache

/-- The end of `put` for a new key, while the allocations in `fails` throw; inserting into a map
has no effect when it throws. -/
def insertFailing (fails : Allocation → Bool) (c : LRUCache κ ν) (entry : CacheEntry κ ν) :
    Option (LRUCache κ ν × Bool) :=
  if fails .entryCopy then some (c, false)
  else if fails .listNode then some (c, false)
  else do
    let node := c.memory.nextAddr
    let m ← (c.memory.newNode entry).attachFront (some (.node node))
    if fails .mapNode then some ({ c with memory := m }, false)
    else
      some ({ c with
        memory := m
        map_ := c.map_.set entry.key node
        metrics_ := c.metrics_.addPut }, true)

/-- `put` while the allocations in `fails` throw. Returns the state left behind and whether the
call returned; assigning to a string has no effect when it throws. -/
def putFailing (fails : Allocation → Bool) (c : LRUCache κ ν) (now : TimePoint) (key : κ)
    (value : ν) (ttlSeconds : UInt32) : Option (LRUCache κ ν × Bool) :=
  let expiry := putExpiry now c.defaultTtlS_ ttlSeconds
  match c.map_.get? key with
  | some node =>
    if fails .valueCopy then some (c, false)
    else do
      let m ← c.memory.storeEntry node value expiry
      let m ← m.detach (some (.node node))
      let m ← m.attachFront (some (.node node))
      some ({ c with memory := m, metrics_ := c.metrics_.addPut }, true)
  | none =>
    (if c.capacity_ ≤ c.map_.size then c.evictLru else some c).bind fun c =>
      c.insertFailing fails ⟨key, value, expiry⟩

/-- One attempt, with the history of what has taken place before it. -/
def attempt (s : LRUCache κ ν × List (Happening κ ν)) :
    Attempt κ ν → Option (LRUCache κ ν × List (Happening κ ν))
  | .call op => step s op
  | .put fails now key value ttlSeconds => do
    let (c, returned) ← s.1.putFailing fails now key value ttlSeconds
    some (c, s.2 ++ if returned then [.put now key value ttlSeconds] else [])

def attempts (c : LRUCache κ ν) (as : List (Attempt κ ν)) :
    Option (LRUCache κ ν × List (Happening κ ν)) := runs attempt (c, []) as

/-- The put of a new key has its node in the list when the insertion into `map_` throws. -/
def Orphans (s : LRUCache κ ν) : Attempt κ ν → Prop
  | .call _ => False
  | .put fails _ key _ _ => key ∉ s.map_.keys ∧ fails .entryCopy = false ∧
      fails .listNode = false ∧ fails .mapNode = true

/-- The list and the map correspond, every read returns what was last put, and an eviction takes no
map entry but that of the node it deletes. -/
structure Sound (s : LRUCache κ ν) (history : List (Happening κ ν)) : Prop where
  corresponds : ∃ visited, s.WellFormed visited ∧
    ∀ a ∈ visited, ∃ e, s.memory.entryOf a = some e ∧ s.map_.get? e.key = some a
  last : ∀ t key value s', s.get t key = some (s', some value) →
    ∃ t₀ ttl, lastPut key history = some (t₀, value, ttl)
  evicts : ∀ s', s.evictLru = some s' → ∀ key a, s.map_.get? key = some a →
    s'.map_.get? key = none → s.memory.tail_.prev = some (.node a)

/-- Without a failure it is the put. -/
theorem putFailing_none (c : LRUCache κ ν) (now : TimePoint) (key : κ) (value : ν)
    (ttlSeconds : UInt32) :
    c.putFailing (fun _ => false) now key value ttlSeconds =
      (c.put now key value ttlSeconds).map fun c => (c, true) := by
  unfold putFailing put
  cases c.map_.get? key with
  | some node =>
    simp only [Bool.false_eq_true, if_false, Option.bind_eq_bind, Option.map_bind,
      Function.comp_def, Option.map_some]
  | none =>
    by_cases hfull : c.capacity_ ≤ c.map_.size
    · simp only [hfull, if_true, insertFailing, Bool.false_eq_true, if_false, Option.bind_eq_bind,
        Option.map_bind, Function.comp_def, Option.map_some]
    · simp only [hfull, if_false, insertFailing, Bool.false_eq_true, Option.bind_eq_bind,
        Option.bind_some, Option.map_bind, Function.comp_def, Option.map_some]

/-- Only the allocations of the branch taken matter. -/
theorem putFailing_updates {fails : Allocation → Bool} {c : LRUCache κ ν} {key : κ} {node : Nat}
    (hk : c.map_.get? key = some node) (hcopy : fails .valueCopy = false) (now : TimePoint)
    (value : ν) (ttlSeconds : UInt32) :
    c.putFailing fails now key value ttlSeconds =
      (c.put now key value ttlSeconds).map fun c => (c, true) := by
  rw [← putFailing_none, putFailing, putFailing, hk]
  simp [hcopy]

theorem putFailing_inserts {fails : Allocation → Bool} {c : LRUCache κ ν} {key : κ}
    (hk : c.map_.get? key = none) (hentry : fails .entryCopy = false)
    (hnode : fails .listNode = false) (hmap : fails .mapNode = false) (now : TimePoint)
    (value : ν) (ttlSeconds : UInt32) :
    c.putFailing fails now key value ttlSeconds =
      (c.put now key value ttlSeconds).map fun c => (c, true) := by
  rw [← putFailing_none, putFailing, putFailing, hk]
  simp [insertFailing, hentry, hnode, hmap]

/-- In a well-formed cache the map sends the key of every listed node to this node. -/
theorem WellFormed.image {s : LRUCache κ ν} {visited : List Nat} (h : s.WellFormed visited)
    {a : Nat} (ha : a ∈ visited) :
    ∃ e, s.memory.entryOf a = some e ∧ s.map_.get? e.key = some a := by
  obtain ⟨e, he⟩ := Option.ne_none_iff_exists'.mp (h.allocated a ha)
  have hkey : e.key ∈ s.map_.keys := (h.domain e.key).mpr ⟨a, ha, e, he, rfl⟩
  obtain ⟨b, hb⟩ := Dict.mem_keys_iff.mp hkey
  obtain ⟨hmem, e', he', hsame⟩ := h.index e.key b hb
  have hnode := h.keys_distinct b hmem a ha e' e he' he hsame
  exact ⟨e, he, hnode ▸ hb⟩

theorem evictLru_keys {s s' : LRUCache κ ν} (h : s.evictLru = some s') {k : κ}
    (hk : k ∈ s'.map_.keys) : k ∈ s.map_.keys := by
  unfold evictLru at h
  dsimp only at h
  split at h
  next =>
    cases Option.some.inj h
    exact hk
  next =>
    obtain ⟨entry, _, h⟩ := Option.bind_eq_some_iff.mp h
    obtain ⟨m₁, _, h⟩ := Option.bind_eq_some_iff.mp h
    obtain ⟨m₂, _, h⟩ := Option.bind_eq_some_iff.mp h
    cases Option.some.inj h
    obtain ⟨a, ha⟩ := Dict.mem_keys_iff.mp hk
    rw [Dict.get?_erase] at ha
    split at ha
    next => cases ha
    next => exact Dict.mem_keys_iff.mpr ⟨a, ha⟩

/-- An orphan is the first node of the list, and its key is not in the map. -/
theorem orphan_not_wellFormed {fails : Allocation → Bool} {s s' : LRUCache κ ν} {now : TimePoint}
    {key : κ} {value : ν} {ttlSeconds : UInt32} {returned : Bool}
    (horphan : s.Orphans (.put fails now key value ttlSeconds))
    (hput : s.putFailing fails now key value ttlSeconds = some (s', returned))
    (visited : List Nat) : ¬s'.WellFormed visited := by
  intro hwell
  obtain ⟨hkey, hentry, hnode, hmap⟩ := horphan
  rw [putFailing, Dict.get?_eq_none.mpr hkey] at hput
  obtain ⟨c, hroom, hput⟩ := Option.bind_eq_some_iff.mp hput
  rw [insertFailing, hentry, hnode, if_neg Bool.false_ne_true, if_neg Bool.false_ne_true] at hput
  obtain ⟨m, hattach, hput⟩ := Option.bind_eq_some_iff.mp hput
  rw [if_pos hmap] at hput
  cases Option.some.inj hput
  obtain ⟨hfirst, hentries⟩ := Memory.attachFront_some hattach
  have hfewer : key ∉ c.map_.keys := by
    intro hk
    split at hroom
    next => exact hkey (evictLru_keys hroom hk)
    next =>
      cases Option.some.inj hroom
      exact hkey hk
  -- the chain of the list starts with the new node
  have hchain := hwell.forward
  obtain ⟨rest, hrest⟩ := map_node_append_tail visited
  rw [hrest] at hchain
  have hhead := (List.isChain_cons_cons.mp hchain).1
  rw [hfirst] at hhead
  cases visited with
  | nil => cases Option.some.inj hhead
  | cons a visited =>
    cases Option.some.inj hhead
    have hstored : m.entryOf c.memory.nextAddr =
        some ⟨key, value, putExpiry now s.defaultTtlS_ ttlSeconds⟩ := by
      rw [hentries, (Memory.newNode_spec _ _).1, Function.update_self]
    exact hfewer ((hwell.domain key).mpr ⟨_, List.mem_cons_self, _, hstored, rfl⟩)

end LRUCache

/-- Making room leaves a part of the entries. -/
theorem room_refines {s : LRUCache κ ν} {c : LruStore κ ν} (h : Refines s c) :
    ∃ s₁ c₁, (if s.capacity_ ≤ s.map_.size then s.evictLru else some s) = some s₁ ∧
      Refines s₁ c₁ ∧ LruStore.SameConfig c c₁ ∧ c₁.entries ⊆ c.entries := by
  obtain ⟨nodes, hrep, hparts⟩ := h
  obtain ⟨s₁, nodes₁, hroom, hrep₁, _, hentries₁, hcap₁, httl₁, hmetrics₁⟩ := room_spec hrep hparts
  obtain ⟨hcap, httl, _, _⟩ := LruStore.parts_eq.mp hparts
  refine ⟨s₁, c.restrict c.makeRoom c.makeRoom_sublist
    (if c.capacity ≤ c.entries.length then c.metrics.addEviction else c.metrics), hroom,
    ⟨nodes₁, hrep₁, LruStore.parts_eq.mpr ⟨?_, ?_, hentries₁, hmetrics₁.symm⟩⟩, ⟨rfl, rfl⟩,
    c.makeRoom_sublist.subset⟩
  · exact hcap.trans hcap₁.symm
  · exact httl.trans httl₁.symm

/-- A put that leaves no orphan either takes place or only makes room. -/
theorem putFailing_refines {s : LRUCache κ ν} {c : LruStore κ ν} (h : Refines s c)
    {fails : Allocation → Bool} {now : TimePoint} {key : κ} {value : ν} {ttlSeconds : UInt32}
    (hsafe : ¬s.Orphans (.put fails now key value ttlSeconds)) :
    ∃ s' returned c', s.putFailing fails now key value ttlSeconds = some (s', returned) ∧
      Refines s' c' ∧ if returned then c' = c.put now key value ttlSeconds
        else LruStore.SameConfig c c' ∧ c'.entries ⊆ c.entries := by
  obtain ⟨s₁, hput, h₁⟩ := put_refines h now key value ttlSeconds
  cases hk : s.map_.get? key with
  | some node =>
    cases hcopy : fails .valueCopy with
    | true =>
      refine ⟨s, false, c, ?_, h, ⟨rfl, rfl⟩, List.Subset.refl _⟩
      rw [LRUCache.putFailing, hk]
      exact if_pos hcopy
    | false =>
      refine ⟨s₁, true, _, ?_, h₁, rfl⟩
      rw [LRUCache.putFailing_updates hk hcopy, hput]
      rfl
  | none =>
    by_cases hfails : fails .entryCopy = true ∨ fails .listNode = true
    · obtain ⟨s₂, c₂, hroom, h₂, hleft⟩ := room_refines h
      refine ⟨s₂, false, c₂, ?_, h₂, hleft⟩
      rw [LRUCache.putFailing, hk]
      dsimp only
      rw [hroom, Option.bind_some, LRUCache.insertFailing]
      rcases hfails with hentry | hnode
      · rw [if_pos hentry]
      · rw [if_pos hnode, ite_self]
    · rw [not_or, Bool.not_eq_true, Bool.not_eq_true] at hfails
      obtain ⟨hentry, hnode⟩ := hfails
      have hmap : fails .mapNode = false := by
        by_contra hmap
        have hkey : key ∉ s.map_.keys := Dict.get?_eq_none.mp hk
        exact hsafe ⟨hkey, hentry, hnode, by simpa using hmap⟩
      refine ⟨s₁, true, _, ?_, h₁, rfl⟩
      rw [LRUCache.putFailing_inserts hk hentry hnode hmap, hput]
      rfl

/-- An eviction erases the key of the last node. -/
theorem evictLru_erases {s s' : LRUCache κ ν} {c : LruStore κ ν} (h : Refines s c)
    (hevict : s.evictLru = some s') {key : κ} {a : Nat} (ha : s.map_.get? key = some a)
    (hgone : s'.map_.get? key = none) : s.memory.tail_.prev = some (.node a) := by
  obtain ⟨nodes, hrep, _⟩ := h
  obtain ⟨e, he, hkey⟩ := (hrep.index key a).mp ha
  cases nodes using List.reverseRecOn with
  | nil => cases he
  | append_singleton nodes last =>
    obtain ⟨s'', hevict', hrep', _⟩ := evictLru_spec hrep
    rw [hevict] at hevict'
    cases hevict'
    have hout : (a, e) ∉ nodes := by
      intro hin
      have hkept := (hrep'.index key a).mpr ⟨e, hin, hkey⟩
      rw [hgone] at hkept
      cases hkept
    have hlast := List.mem_singleton.mp ((List.mem_append.mp he).resolve_left hout)
    have hprev := hrep.shape.tail_prev
    rw [← hlast] at hprev
    simpa [Memory.prevOf, Memory.links] using hprev

theorem sound_of_refines {s : LRUCache κ ν} {c : LruStore κ ν} {history : List (Happening κ ν)}
    (h : Refines s c) (hstored : c.Stored history) : s.Sound history := by
  obtain ⟨visited, hwell⟩ := h.wellFormed
  refine ⟨⟨visited, hwell, fun a ha => hwell.image ha⟩, ?_,
    fun s' hevict key a => evictLru_erases h hevict⟩
  intro t key value s' hget
  obtain ⟨s'', hget', _⟩ := get_refines h t key
  rw [hget] at hget'
  have hread := congrArg Prod.snd (Option.some.inj hget')
  obtain ⟨e, hf, _, rfl⟩ := LruStore.get_some hread.symm
  obtain ⟨he, rfl⟩ := LruStore.find?_eq_some.mp hf
  obtain ⟨t₀, ttl, hlast, _⟩ := hstored e he
  exact ⟨t₀, ttl, hlast⟩

theorem attempt_refines {s : LRUCache κ ν} {c : LruStore κ ν} {history : List (Happening κ ν)}
    (h : Refines s c) (hstored : c.Stored history) {a : Attempt κ ν} (hsafe : ¬s.Orphans a) :
    ∃ s' history' c', LRUCache.attempt (s, history) a = some (s', history') ∧ Refines s' c' ∧
      c'.Stored history' := by
  cases a with
  | call op =>
    obtain ⟨s', hstep, h'⟩ := step_refines h history op
    have hreads : op.Reads fun _ => True := by cases op <;> simp [Op.Reads]
    exact ⟨s', _, _, hstep, h', LruStore.stored_invariant.step hreads hstored⟩
  | put fails now key value ttlSeconds =>
    obtain ⟨s', returned, c', hput, h', hleft⟩ := putFailing_refines h hsafe
    refine ⟨s', history ++ if returned then [.put now key value ttlSeconds] else [], c', ?_, h', ?_⟩
    · simp [LRUCache.attempt, hput]
    · cases returned with
      | true =>
        rw [if_pos rfl] at hleft
        rw [if_pos rfl, hleft]
        exact LruStore.stored_invariant.put c history now key value ttlSeconds trivial hstored
      | false =>
        rw [if_neg Bool.false_ne_true] at hleft
        rw [if_neg Bool.false_ne_true, List.append_nil]
        exact hstored.subset hleft.1 hleft.2

theorem attempts_refines {start : LRUCache κ ν} {c : LruStore κ ν} (h : Refines start c)
    (hstored : c.Stored []) {as : List (Attempt κ ν)}
    (hsafe : ∀ past a, past ++ [a] <+: as → ∀ s history, start.attempts past = some (s, history) →
      ¬s.Orphans a) :
    ∃ s history c', start.attempts as = some (s, history) ∧ Refines s c' ∧ c'.Stored history := by
  induction as using List.reverseRecOn with
  | nil => exact ⟨start, [], c, rfl, h, hstored⟩
  | append_singleton past a ih =>
    obtain ⟨mid, history, c', hrun, hmid, hstored'⟩ :=
      ih fun past' a' hp => hsafe past' a' (hp.trans (List.prefix_append _ _))
    have hlast := hsafe past a (List.prefix_refl _) mid history hrun
    obtain ⟨s', history', c'', hstep, h', hstored''⟩ := attempt_refines hmid hstored' hlast
    exact ⟨s', history', c'', runs_snoc_eq_some.mpr ⟨_, hrun, hstep⟩, h', hstored''⟩

namespace LRUCache

/-- Whatever allocations fail in a run, the list and the map correspond and reads return what was
last put all along it, exactly if no put has its node in the list when its insertion into the map
throws. -/
theorem put_survives_iff (capacity : Nat) (defaultTtlS : UInt32) {start : LRUCache κ ν}
    (hstart : construct capacity defaultTtlS = .ok start) (as : List (Attempt κ ν)) :
    (∀ past, past <+: as →
        ∃ s history, start.attempts past = some (s, history) ∧ s.Sound history) ↔
      ∀ past a, past ++ [a] <+: as → ∀ s history, start.attempts past = some (s, history) →
        ¬s.Orphans a := by
  constructor
  · intro hsound past a hp s history hrun horphan
    obtain ⟨s', history', hrun', hsound'⟩ := hsound (past ++ [a]) hp
    obtain ⟨mid, hmid, hstep⟩ := runs_snoc_eq_some.mp hrun'
    have hsame : mid = (s, history) := Option.some.inj (hmid.symm.trans hrun)
    subst hsame
    cases a with
    | call op => exact horphan
    | put fails now key value ttlSeconds =>
      obtain ⟨left, hput, hleft⟩ := Option.bind_eq_some_iff.mp hstep
      obtain ⟨visited, hwell, _⟩ := hsound'.corresponds
      cases Option.some.inj hleft
      exact orphan_not_wellFormed horphan hput visited hwell
  · intro hsafe past hp
    obtain ⟨hcap, hinit⟩ := construct_ok hstart
    have hempty : (LruStore.init (κ := κ) (ν := ν) capacity defaultTtlS hcap).Stored [] := by
      intro e he
      cases he
    obtain ⟨s, history, c, hrun, h, hstored⟩ := attempts_refines hinit hempty
      fun past' a hp' => hsafe past' a (hp'.trans hp)
    exact ⟨s, history, hrun, sound_of_refines h hstored⟩

/-- The orphan of a failed put, evicted later, takes with it the map entry of the node that a
second put of its key made, while this node is the most recently used. -/
theorem orphan_erases_newer : ∃ (start left s : LRUCache String String)
    (history : List (Happening String String)), construct 2 0 = .ok start ∧
    start.attempts [.put (fun a => a = .mapNode) 0 "a" "x" 0] = some (left, []) ∧
    (∀ visited, ¬left.WellFormed visited) ∧
    start.attempts [.put (fun a => a = .mapNode) 0 "a" "x" 0, .call (.put 1 "a" "y" 0),
      .call (.put 2 "b" "z" 0), .call (.get 3 "a"), .call (.put 4 "c" "w" 0)] = some (s, history) ∧
    s.contains 5 "a" = some false ∧ s.contains 5 "b" = some true := by
  have horphan : ∀ start : LRUCache String String, construct 2 0 = .ok start →
      start.Orphans (.put (fun a => a = .mapNode) 0 "a" "x" 0) := by
    intro start hstart
    cases hstart
    exact ⟨List.not_mem_nil, rfl, rfl, rfl⟩
  exact ⟨_, _, _, _, rfl, rfl, orphan_not_wellFormed (horphan _ rfl) rfl, rfl, rfl, rfl⟩

/-- A full cache whose third put fails to make its list node. -/
theorem put_survives_list_node : ∃ start : LRUCache String String, construct 2 0 = .ok start ∧
    ∀ past, past <+: [Attempt.call (.put 0 "a" "x" 0), .call (.put 1 "b" "y" 0),
      .put (fun a => a = .listNode) 2 "c" "z" 0] →
      ∃ s history, start.attempts past = some (s, history) ∧ s.Sound history := by
  obtain ⟨start, hstart, _⟩ :=
    refines_construct (κ := String) (ν := String) 0 (show 0 < 2 by decide)
  refine ⟨start, hstart, (put_survives_iff 2 0 hstart _).mpr ?_⟩
  intro past a hp s history _ horphan
  have hmem : a ∈ [Attempt.call (.put 0 "a" "x" 0), .call (.put 1 "b" "y" 0),
      .put (fun a => a = .listNode) 2 "c" "z" 0] := hp.subset (List.mem_append_right _ (by simp))
  simp only [List.mem_cons, List.not_mem_nil, or_false] at hmem
  rcases hmem with rfl | rfl | rfl
  · exact horphan
  · exact horphan
  · exact Bool.false_ne_true horphan.2.2.2

end LRUCache

end SelfHealingCache
