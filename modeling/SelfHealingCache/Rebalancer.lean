import Mathlib.Algebra.GroupWithZero.Nat
import SelfHealingCache.Grouping
import SelfHealingCache.HashRing
import SelfHealingCache.LruContents
import SelfHealingCache.Runs

namespace SelfHealingCache

/-- `(host, port)` of a cache node. -/
abbrev Address := String × Int

/-- The arguments of one `_migrate_keys` task. An owner is `None` on an empty ring. -/
structure Migration where
  oldOwner : Option String
  newOwner : Option String
  keys : List String
  deriving DecidableEq

/-- Where a task stands: before its `GET /snapshot`, in its `POST /bulk-load` of the
filtered entries, of which some are still to be stored, or returned with the number of
migrated keys. -/
inductive Progress
  | snapshotting
  | loading (filtered remaining : List (String × String × UInt32))
  | returned (migrated : Nat)
  deriving DecidableEq

/-- Where the running `rebalance` call stands, with the locals it still needs:
the `/keys` requests not answered yet and the keys found, or the tasks of
`_execute_migrations`. -/
inductive Phase
  | idle
  | fetching (oldRing newRing : HashRing) (nodeEndpoints : Dict String Address)
      (requests : List Address) (allKeys : List String)
  | migrating (nodeEndpoints : Dict String Address) (tasks : List (Migration × Progress))

inductive RebalanceResult
  | alreadyInProgress
  | completed (migratedKeys : Nat) (affectedNodes : Finset (Option String))
  deriving DecidableEq

/-- The members of the class, with the state of its running call. -/
structure Rebalancer where
  inProgress : Bool := false
  migratedKeys : Nat := 0
  affectedNodes : Finset (Option String) := ∅
  phase : Phase := .idle

/-- What the gateway acknowledged to a client. -/
inductive Acked
  | put (key value : String)
  | delete (key : String)
  deriving DecidableEq

/-- The cache nodes with their clocks, the nodes registered at the gateway, the
rebalancer with the results it has returned, and the acknowledged operations. -/
structure World where
  nodes : Address → Option (LruStore String String)
  clock : Address → TimePoint
  registry : Dict String Address
  rebalancer : Rebalancer := {}
  results : List RebalanceResult := []
  acked : List Acked := []

/-- How a `POST /bulk-load` ends: answered, carried out with the answer lost, or failed,
whatever has been stored by then. -/
inductive Reply
  | answered
  | lost
  | failed
  deriving DecidableEq

/-- One step: time passes, `rebalance` is called, one of its requests is served
(`ok` is `false` when it fails), its tasks are planned from the set of keys in some
order, a node stores the next entry of a bulk load, the call returns, or a client
operation routed by `ring` is served. -/
inductive RebalanceEvent
  | tick (elapsed : Address → Nat)
  | rebalance (oldRing newRing : HashRing) (nodeEndpoints : Dict String Address)
  | keys (i : Nat) (ok : Bool)
  | plan (allKeys : List String)
  | snapshot (i : Nat) (ok : Bool)
  | loadPut (i : Nat)
  | bulkLoad (i : Nat) (reply : Reply)
  | finish
  | put (ring : HashRing) (key value : String) (ttl : UInt32)
  | delete (ring : HashRing) (key : String)

variable (_hash : String → Nat)

/-- The loop over `all_keys`: the migrations by new owner and the affected nodes. -/
def planKey (oldRing newRing : HashRing)
    (s : Dict (Option String) (List (String × Option String)) × Finset (Option String))
    (key : String) : Dict (Option String) (List (String × Option String)) × Finset (Option String) :=
  let oldOwner := oldRing.getNode _hash key
  let newOwner := newRing.getNode _hash key
  if oldOwner = newOwner then s
  else (s.1.appendTo newOwner (key, oldOwner), insert newOwner (insert oldOwner s.2))

def planKeys (oldRing newRing : HashRing) (allKeys : List String) :
    Dict (Option String) (List (String × Option String)) × Finset (Option String) :=
  allKeys.foldl (planKey _hash oldRing newRing) (∅, ∅)

/-- `by_old_owner`. -/
def byOldOwner (keysAndOwners : List (String × Option String)) :
    Dict (Option String) (List String) :=
  Dict.group Prod.snd Prod.fst keysAndOwners

/-- The tasks of `_execute_migrations`. -/
def migrationTasks (migrations : Dict (Option String) (List (String × Option String))) :
    List Migration :=
  migrations.items.flatMap fun m =>
    (byOldOwner m.2).items.map fun g => ⟨g.1, m.1, g.2⟩

/-- `node_endpoints.get(owner, default)`. -/
def endpoint (nodeEndpoints : Dict String Address) (owner : Option String) (default : Address) :
    Address :=
  (owner.bind nodeEndpoints.get?).getD default

def Migration.source (nodeEndpoints : Dict String Address) (m : Migration) : Address :=
  endpoint nodeEndpoints m.oldOwner ("localhost", 8001)

def Migration.target (nodeEndpoints : Dict String Address) (m : Migration) : Address :=
  endpoint nodeEndpoints m.newOwner ("localhost", 8002)

/-- The entries of a snapshot that a task asks for; through JSON it is `transfer`
that yields them. -/
def Migration.filtered (m : Migration) (snap : List (String × String × UInt32)) :
    List (String × String × UInt32) :=
  snap.filter fun e => e.1 ∈ m.keys

/-- What a task does with the answer to its snapshot request. -/
def afterSnapshot (filtered : List (String × String × UInt32)) : Progress :=
  if filtered = [] then .returned 0 else .loading filtered filtered

namespace World

def setPhase (w : World) (phase : Phase) : World :=
  { w with rebalancer := { w.rebalancer with phase := phase } }

def setNode (w : World) (a : Address) (c : LruStore String String) : World :=
  { w with nodes := Function.update w.nodes a (some c) }

def setTask (w : World) (nodeEndpoints : Dict String Address)
    (tasks : List (Migration × Progress)) (i : Nat) (m : Migration) (p : Progress) : World :=
  w.setPhase (.migrating nodeEndpoints (tasks.set i (m, p)))

/-- The call of `rebalance` up to its first requests. -/
def rebalance (w : World) (oldRing newRing : HashRing) (nodeEndpoints : Dict String Address) :
    World :=
  if w.rebalancer.inProgress then
    { w with results := w.results ++ [.alreadyInProgress] }
  else
    { w with rebalancer :=
      { inProgress := true
        migratedKeys := 0
        affectedNodes := ∅
        phase := .fetching oldRing newRing nodeEndpoints nodeEndpoints.values [] } }

/-- `_fetch_keys_from_node`: the `i`-th outstanding request. -/
def fetchKeys (w : World) (i : Nat) (ok : Bool) : Option World :=
  match w.rebalancer.phase with
  | .fetching oldRing newRing nodeEndpoints requests allKeys => do
    let a ← requests[i]?
    if ok then
      let c ← w.nodes a
      some (w.setPhase (.fetching oldRing newRing nodeEndpoints (requests.eraseIdx i)
        (allKeys ++ c.keys fun _ => w.clock a)))
    else
      some (w.setPhase (.fetching oldRing newRing nodeEndpoints (requests.eraseIdx i) allKeys))
  | _ => none

/-- Once all requests are answered: the tasks, from an enumeration of the set of keys. -/
def plan (w : World) (order : List String) : Option World :=
  match w.rebalancer.phase with
  | .fetching oldRing newRing nodeEndpoints [] allKeys =>
    if order.Nodup ∧ order ⊆ allKeys ∧ allKeys ⊆ order then
      let planned := planKeys _hash oldRing newRing order
      some { w with rebalancer := { w.rebalancer with
        affectedNodes := planned.2
        phase := .migrating nodeEndpoints
          ((migrationTasks planned.1).map fun m => (m, .snapshotting)) } }
    else none
  | _ => none

/-- The first request of the `i`-th `_migrate_keys`. -/
def takeSnapshot (w : World) (i : Nat) (ok : Bool) : Option World :=
  match w.rebalancer.phase with
  | .migrating nodeEndpoints tasks =>
    match tasks[i]? with
    | some (m, .snapshotting) =>
      if ok then do
        let a := m.source nodeEndpoints
        let c ← w.nodes a
        let filtered := m.filtered (c.snapshot (w.clock a) fun _ => w.clock a)
        some (w.setTask nodeEndpoints tasks i m (afterSnapshot filtered))
      else some (w.setTask nodeEndpoints tasks i m (.returned 0))
    | _ => none
  | _ => none

/-- One turn of the loop of `bulk_load` at the target of the `i`-th task. -/
def loadPut (w : World) (i : Nat) : Option World :=
  match w.rebalancer.phase with
  | .migrating nodeEndpoints tasks =>
    match tasks[i]? with
    | some (m, .loading filtered ((key, value, ttl) :: remaining)) => do
      let a := m.target nodeEndpoints
      let c ← w.nodes a
      let stored := w.setNode a (c.put (w.clock a) key value ttl)
      some (stored.setTask nodeEndpoints tasks i m (.loading filtered remaining))
    | _ => none
  | _ => none

/-- The end of its second request, which is answered once all entries are stored. -/
def load (w : World) (i : Nat) (reply : Reply) : Option World :=
  match w.rebalancer.phase with
  | .migrating nodeEndpoints tasks =>
    match tasks[i]? with
    | some (m, .loading filtered remaining) =>
      if reply = .failed then some (w.setTask nodeEndpoints tasks i m (.returned 0))
      else if remaining = [] then
        some (w.setTask nodeEndpoints tasks i m
          (.returned (if reply = .answered then filtered.length else 0)))
      else none
    | _ => none
  | _ => none

/-- The results of the tasks, once all have returned. -/
def migrated (tasks : List (Migration × Progress)) : Option (List Nat) :=
  tasks.mapM fun t =>
    match t.2 with
    | .returned migrated => some migrated
    | _ => none

/-- The end of `rebalance`. -/
def finish (w : World) : Option World :=
  match w.rebalancer.phase with
  | .migrating _ tasks => do
    let counts ← migrated tasks
    let migratedKeys := w.rebalancer.migratedKeys + counts.sum
    some { w with
      rebalancer :=
        { inProgress := false
          migratedKeys := migratedKeys
          affectedNodes := w.rebalancer.affectedNodes
          phase := .idle }
      results := w.results ++ [.completed migratedKeys w.rebalancer.affectedNodes] }
  | _ => none

/-- The node a client operation on `key` reaches. -/
def primary (w : World) (ring : HashRing) (key : String) : Option Address :=
  (ring.getNode _hash key).bind w.registry.get?

/-- `put_key`, when it is acknowledged. -/
def putKey (w : World) (ring : HashRing) (key value : String) (ttl : UInt32) : Option World := do
  let a ← w.primary _hash ring key
  let c ← w.nodes a
  let stored := w.setNode a (c.put (w.clock a) key value ttl)
  some { stored with acked := w.acked ++ [.put key value] }

/-- `delete_key`; a key that is not there is answered with 404. -/
def deleteKey (w : World) (ring : HashRing) (key : String) : Option World := do
  let a ← w.primary _hash ring key
  let c ← w.nodes a
  if (c.remove key).2 then
    some { w.setNode a (c.remove key).1 with acked := w.acked ++ [.delete key] }
  else some w

def step (w : World) : RebalanceEvent → Option World
  | .tick elapsed => some { w with clock := fun a => w.clock a + elapsed a }
  | .rebalance oldRing newRing nodeEndpoints =>
    some (w.rebalance oldRing newRing nodeEndpoints)
  | .keys i ok => w.fetchKeys i ok
  | .plan order => w.plan _hash order
  | .snapshot i ok => w.takeSnapshot i ok
  | .loadPut i => w.loadPut i
  | .bulkLoad i reply => w.load i reply
  | .finish => w.finish
  | .put ring key value ttl => w.putKey _hash ring key value ttl
  | .delete ring key => w.deleteKey _hash ring key

def run (w : World) (events : List RebalanceEvent) : Option World := runs (step _hash) w events

end World

end SelfHealingCache
