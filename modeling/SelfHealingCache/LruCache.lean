import SelfHealingCache.Dict
import SelfHealingCache.LruMemory
import SelfHealingCache.Runs

namespace SelfHealingCache

/-- The members of the class; `map_` holds heap addresses. -/
structure LRUCache (κ ν : Type) where
  capacity_ : Nat
  defaultTtlS_ : UInt32
  memory : Memory κ ν
  map_ : Dict κ Nat
  metrics_ : CacheMetrics

/-- The calls that change a cache, each with the clock readings it may make: one
for `get` and `put`, one per visited node for `purge_expired`, one per entry for
`bulk_load`. -/
inductive Op (κ ν : Type)
  | get (now : TimePoint) (key : κ)
  | put (now : TimePoint) (key : κ) (value : ν) (ttlSeconds : UInt32)
  | remove (key : κ)
  | purgeExpired (now : Nat → TimePoint)
  | bulkLoad (now : Nat → TimePoint) (entries : List (κ × ν × UInt32))
  | clear

/-- What a history records: the puts (those of a bulk load one by one), the
reads that returned a value, the removes and the clears. -/
inductive Happening (κ ν : Type)
  | put (now : TimePoint) (key : κ) (value : ν) (ttlSeconds : UInt32)
  | hit (key : κ)
  | remove (key : κ)
  | clear
  deriving DecidableEq

/-- The puts a bulk load makes. -/
def loadPuts {κ ν : Type} (now : Nat → TimePoint) : List (κ × ν × UInt32) → List (Happening κ ν)
  | [] => []
  | (key, value, ttl) :: entries =>
    .put (now 0) key value ttl :: loadPuts (fun i => now (i + 1)) entries

namespace LRUCache

variable {κ ν : Type} [DecidableEq κ]

def construct (capacity : Nat) (defaultTtlS : UInt32) : Except String (LRUCache κ ν) :=
  if capacity = 0 then .error "LRUCache capacity must be > 0"
  else .ok
    { capacity_ := capacity
      defaultTtlS_ := defaultTtlS
      memory := Memory.init
      map_ := ∅
      metrics_ := {} }

/-- The methods fail (`none`) where the source would follow a null or dangling
pointer, free memory twice or not return. -/
def get (c : LRUCache κ ν) (now : TimePoint) (key : κ) : Option (LRUCache κ ν × Option ν) :=
  match c.map_.get? key with
  | none => some ({ c with metrics_ := c.metrics_.addMiss }, none)
  | some node => do
    let entry ← c.memory.entry (some (.node node))
    if isExpired now entry then
      let m ← c.memory.detach (some (.node node))
      let m ← m.delete (some (.node node))
      some ({ c with
        memory := m
        map_ := c.map_.erase key
        metrics_ := c.metrics_.addMiss.addExpiration }, none)
    else
      let m ← c.memory.detach (some (.node node))
      let m ← m.attachFront (some (.node node))
      let entry ← m.entry (some (.node node))
      some ({ c with memory := m, metrics_ := c.metrics_.addHit }, some entry.value)

def evictLru (c : LRUCache κ ν) : Option (LRUCache κ ν) :=
  let lru := c.memory.tail_.prev
  if lru = some .head then some c
  else do
    let entry ← c.memory.entry lru
    let m ← c.memory.detach lru
    let m ← m.delete lru
    some { c with
      memory := m
      map_ := c.map_.erase entry.key
      metrics_ := c.metrics_.addEviction }

def put (c : LRUCache κ ν) (now : TimePoint) (key : κ) (value : ν) (ttlSeconds : UInt32) :
    Option (LRUCache κ ν) :=
  let expiry := putExpiry now c.defaultTtlS_ ttlSeconds
  match c.map_.get? key with
  | some node => do
    let m ← c.memory.storeEntry node value expiry
    let m ← m.detach (some (.node node))
    let m ← m.attachFront (some (.node node))
    some { c with memory := m, metrics_ := c.metrics_.addPut }
  | none => do
    let c ← if c.capacity_ ≤ c.map_.size then c.evictLru else some c
    let node := c.memory.nextAddr
    let m ← (c.memory.newNode ⟨key, value, expiry⟩).attachFront (some (.node node))
    some { c with memory := m, map_ := c.map_.set key node, metrics_ := c.metrics_.addPut }

def remove (c : LRUCache κ ν) (key : κ) : Option (LRUCache κ ν × Bool) :=
  match c.map_.get? key with
  | none => some (c, false)
  | some node => do
    let m ← c.memory.detach (some (.node node))
    let m ← m.delete (some (.node node))
    some ({ c with
      memory := m
      map_ := c.map_.erase key
      metrics_ := c.metrics_.addDel }, true)

/-- The traversal of `purge_expired`, with `now i` read at the `i`-th node. -/
def purgeLoop : Nat → (Nat → TimePoint) → LRUCache κ ν → Option Ptr → Nat →
    Option (LRUCache κ ν × Nat)
  | 0, _, _, _, _ => none
  | fuel + 1, now, c, curr, count =>
    if curr = some .tail then some (c, count)
    else do
      let links ← c.memory.load curr
      let entry ← c.memory.entry curr
      if isExpired (now 0) entry then
        let m ← c.memory.detach curr
        let m ← m.delete curr
        purgeLoop fuel (fun i => now (i + 1))
          { c with
            memory := m
            map_ := c.map_.erase entry.key
            metrics_ := c.metrics_.addExpiration } links.next (count + 1)
      else purgeLoop fuel (fun i => now (i + 1)) c links.next count

/-- At most `nextAddr` nodes can be visited, so the fuel never runs out on a list
that ends at `tail_`. -/
def purgeExpired (c : LRUCache κ ν) (now : Nat → TimePoint) : Option (LRUCache κ ν × Nat) :=
  purgeLoop (c.memory.nextAddr + 1) now c c.memory.head_.next 0

/-- The traversal of `snapshot`: `start` is its own reading, `now i` the one of
`is_expired` at the `i`-th node. -/
def snapshotLoop (start : TimePoint) : Nat → (Nat → TimePoint) → Memory κ ν → Option Ptr →
    Option (List (κ × ν × UInt32))
  | 0, _, _, _ => none
  | fuel + 1, now, m, curr =>
    if curr = some .tail then some []
    else do
      let entry ← m.entry curr
      let links ← m.load curr
      let result ← snapshotLoop start fuel (fun i => now (i + 1)) m links.next
      some (if isExpired (now 0) entry then result
        else (entry.key, entry.value, remainingTtl start entry) :: result)

def snapshot (c : LRUCache κ ν) (start : TimePoint) (now : Nat → TimePoint) :
    Option (List (κ × ν × UInt32)) :=
  snapshotLoop start (c.memory.nextAddr + 1) now c.memory c.memory.head_.next

def keysLoop (m : Memory κ ν) : (Nat → TimePoint) → List (κ × Nat) → Option (List κ)
  | _, [] => some []
  | now, (key, node) :: rest => do
    let entry ← m.entry (some (.node node))
    let result ← keysLoop m (fun i => now (i + 1)) rest
    some (if isExpired (now 0) entry then result else key :: result)

/-- `keys`; the order of an `unordered_map` is not specified, here it is that of
the insertions. -/
def keys (c : LRUCache κ ν) (now : Nat → TimePoint) : Option (List κ) :=
  keysLoop c.memory now c.map_.items

def contains (c : LRUCache κ ν) (now : TimePoint) (key : κ) : Option Bool :=
  match c.map_.get? key with
  | none => some false
  | some node => do
    let entry ← c.memory.entry (some (.node node))
    some (!isExpired now entry)

def bulkLoad : (Nat → TimePoint) → List (κ × ν × UInt32) → LRUCache κ ν → Option (LRUCache κ ν)
  | _, [], c => some c
  | now, (key, value, ttl) :: entries, c => do
    let c ← c.put (now 0) key value ttl
    bulkLoad (fun i => now (i + 1)) entries c

/-- The traversal of `clear`, which frees without unlinking. -/
def clearLoop : Nat → Memory κ ν → Option Ptr → Option (Memory κ ν)
  | 0, _, _ => none
  | fuel + 1, m, curr =>
    if curr = some .tail then some m
    else do
      let links ← m.load curr
      let m ← m.delete curr
      clearLoop fuel m links.next

def clear (c : LRUCache κ ν) : Option (LRUCache κ ν) := do
  let m ← clearLoop (c.memory.nextAddr + 1) c.memory c.memory.head_.next
  let m ← m.storeNext (some .head) (some .tail)
  let m ← m.storePrev (some .tail) (some .head)
  some { c with memory := m, map_ := ∅ }

/-- One call, with the history of the calls before it. -/
def step (s : LRUCache κ ν × List (Happening κ ν)) :
    Op κ ν → Option (LRUCache κ ν × List (Happening κ ν))
  | .get now key => do
    let (c, result) ← s.1.get now key
    some (c, s.2 ++ if result.isSome then [.hit key] else [])
  | .put now key value ttlSeconds => do
    let c ← s.1.put now key value ttlSeconds
    some (c, s.2 ++ [.put now key value ttlSeconds])
  | .remove key => do
    let (c, _) ← s.1.remove key
    some (c, s.2 ++ [.remove key])
  | .purgeExpired now => do
    let (c, _) ← s.1.purgeExpired now
    some (c, s.2)
  | .bulkLoad now entries => do
    let c ← bulkLoad now entries s.1
    some (c, s.2 ++ loadPuts now entries)
  | .clear => do
    let c ← s.1.clear
    some (c, s.2 ++ [.clear])

def run (c : LRUCache κ ν) (ops : List (Op κ ν)) : Option (LRUCache κ ν × List (Happening κ ν)) :=
  runs step (c, []) ops

end LRUCache

end SelfHealingCache
