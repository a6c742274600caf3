import SelfHealingCache.ClusterSingleCopy
import SelfHealingCache.ClusterStats
import SelfHealingCache.GatewayStaleness
import Mathlib.Data.String.Basic

namespace SelfHealingCache

namespace ClusterManager

/-- `get_all_nodes`; `sorted` orders strings by their code points. -/
def getAllNodes (cm : ClusterManager) : List (Option NodeInfo) :=
  (cm.nodes.keys.insertionSort fun a b => a ≤ b).map cm.getNodeInfo

/-- `GET /api/cluster/nodes/{node_id}`. -/
def getNode (cm : ClusterManager) (nodeId : String) : Except HTTPException NodeInfo :=
  match cm.getNodeInfo nodeId with
  | none => .error ⟨404, "Node " ++ nodeId ++ " not found"⟩
  | some info => .ok info

/-- The effect of a call on the host and port last reported for a node. -/
def addressStep (x : String) (old : Option (String × Int)) : Event → Option (String × Int)
  | .registerNode _ nodeId host port _ _ => if x = nodeId then some (host, port) else old
  | .deregisterNode _ nodeId => if x = nodeId then none else old
  | .heartbeat _ _ payload =>
    if x = payload.nodeId then some (payload.host, payload.port) else old
  | .processHeartbeat _ _ _ | .checkHeartbeatTimeouts _ => old

def reportedAddress (x : String) (history : List Event) : Option (String × Int) :=
  history.foldl (addressStep x) none

/-- The effect of a call on the zone that a node is registered with; a heartbeat registers a node
that is not, and says nothing about the zone of one that is. -/
def zoneStep (x : String) (old : Option String) : Event → Option String
  | .registerNode _ nodeId _ _ zone _ => if x = nodeId then some zone else old
  | .deregisterNode _ nodeId => if x = nodeId then none else old
  | .heartbeat _ _ payload => if x = payload.nodeId then some (old.getD payload.zone) else old
  | .processHeartbeat _ _ _ | .checkHeartbeatTimeouts _ => old

def registeredZone (x : String) (history : List Event) : Option String :=
  history.foldl (zoneStep x) none

/-- The record of `x` names it, its address and its zone. -/
structure Names (x : String) (address : Option (String × Int)) (zone : Option String)
    (record : Option NodeMetadata) : Prop where
  address : record.map (fun node => (node.host, node.port)) = address
  zone : record.map NodeMetadata.zone = zone
  nodeId : ∀ node, record = some node → node.nodeId = x

/-- The list shows every registered node once, in order, at the address that it reported last and
in the zone that it registered with, and agrees with the single lookups and the statistics. -/
structure Listed (history : List Event) (cm : ClusterManager) (infos : List NodeInfo) : Prop where
  complete : cm.getAllNodes = infos.map some
  sorted : (infos.map NodeInfo.nodeId).Pairwise (· < ·)
  looked_up : ∀ n info, cm.getNode n = .ok info ↔ info ∈ infos ∧ info.nodeId = n
  not_found : ∀ n, cm.getNode n = .error ⟨404, "Node " ++ n ++ " not found"⟩ ↔
    n ∉ registeredNodes history
  addresses : ∀ info ∈ infos, reportedAddress info.nodeId history = some (info.host, info.port)
  zones : ∀ info ∈ infos, registeredZone info.nodeId history = some info.zone
  totalNodes : cm.getClusterStats.totalNodes = infos.length
  aliveNodes : cm.getClusterStats.aliveNodes = infos.countP fun info => info.status = .ALIVE
  deadNodes : cm.getClusterStats.deadNodes = infos.countP fun info => info.status = .DEAD
  suspectNodes :
    cm.getClusterStats.suspectNodes = infos.countP fun info => info.status = .SUSPECT
  totalCacheSize : cm.getClusterStats.totalCacheSize = (infos.map NodeInfo.cacheSize).sum
  totalCapacity : cm.getClusterStats.totalCapacity = (infos.map NodeInfo.cacheCapacity).sum

theorem reportedAddress_snoc (x : String) (past : List Event) (event : Event) :
    reportedAddress x (past ++ [event]) = addressStep x (reportedAddress x past) event := by
  simp [reportedAddress]

theorem registeredZone_snoc (x : String) (past : List Event) (event : Event) :
    registeredZone x (past ++ [event]) = zoneStep x (registeredZone x past) event := by
  simp [registeredZone]

/-- An update of a record that changes neither its name nor its address nor its zone. -/
structure Renews (f : NodeMetadata → NodeMetadata) : Prop where
  nodeId : ∀ node, (f node).nodeId = node.nodeId
  host : ∀ node, (f node).host = node.host
  port : ∀ node, (f node).port = node.port
  zone : ∀ node, (f node).zone = node.zone

theorem renews_scan (timeout : Int) (now : Time) : Renews fun node => node.scan timeout now := by
  have hscan : ∀ node : NodeMetadata, (node.scan timeout now).nodeId = node.nodeId ∧
      (node.scan timeout now).host = node.host ∧ (node.scan timeout now).port = node.port ∧
      (node.scan timeout now).zone = node.zone := by
    intro node
    unfold NodeMetadata.scan
    split
    next =>
      split
      next => exact ⟨rfl, rfl, rfl, rfl⟩
      next => split <;> exact ⟨rfl, rfl, rfl, rfl⟩
    next => exact ⟨rfl, rfl, rfl, rfl⟩
  exact ⟨fun node => (hscan node).1, fun node => (hscan node).2.1,
    fun node => (hscan node).2.2.1, fun node => (hscan node).2.2.2⟩

theorem Names.map {x : String} {address : Option (String × Int)} {zone : Option String}
    {record : Option NodeMetadata} (h : Names x address zone record)
    {f : NodeMetadata → NodeMetadata} (hf : Renews f) : Names x address zone (record.map f) where
  address := by
    rw [← h.address, Option.map_map]
    refine Option.map_congr fun node _ => ?_
    rw [Function.comp_apply, hf.host, hf.port]
  zone := by
    rw [← h.zone, Option.map_map]
    exact Option.map_congr fun node _ => hf.zone node
  nodeId := by
    intro node hnode
    obtain ⟨old, hold, rfl⟩ := Option.map_eq_some_iff.mp hnode
    exact (hf.nodeId old).trans (h.nodeId old hold)

theorem names_step {timeout : Int} {x : String} {address : Option (String × Int)}
    {zone : Option String} {record : Option NodeMetadata} (h : Names x address zone record)
    (event : Event) : Names x (addressStep x address event) (zoneStep x zone event)
      (recordStep timeout x record event) := by
  cases event with
  | registerNode now nodeId host port zone cacheCapacity =>
    rw [addressStep, zoneStep, recordStep]
    by_cases hx : x = nodeId
    · rw [if_pos hx, if_pos hx, if_pos hx]
      refine ⟨rfl, rfl, fun node hnode => ?_⟩
      cases hnode
      exact hx.symm
    · rw [if_neg hx, if_neg hx, if_neg hx]
      exact h
  | deregisterNode now nodeId =>
    rw [addressStep, zoneStep, recordStep]
    by_cases hx : x = nodeId
    · rw [if_pos hx, if_pos hx, if_pos hx]
      exact ⟨rfl, rfl, fun node hnode => by cases hnode⟩
    · rw [if_neg hx, if_neg hx, if_neg hx]
      exact h
  | processHeartbeat now nodeId metrics =>
    rw [addressStep, zoneStep, recordStep]
    by_cases hx : x = nodeId
    · rw [if_pos hx]
      exact h.map ⟨fun _ => rfl, fun _ => rfl, fun _ => rfl, fun _ => rfl⟩
    · rw [if_neg hx]
      exact h
  | heartbeat registeredAt now payload =>
    rw [addressStep, zoneStep, recordStep]
    by_cases hx : x = payload.nodeId
    · rw [if_pos hx, if_pos hx, if_pos hx]
      obtain ⟨_, rfl, hname⟩ := h
      cases record with
      | none =>
        refine ⟨rfl, rfl, fun node hnode => ?_⟩
        cases hnode
        exact hx.symm
      | some old =>
        refine ⟨rfl, rfl, fun node hnode => ?_⟩
        cases hnode
        exact hname old rfl
    · rw [if_neg hx, if_neg hx, if_neg hx]
      exact h
  | checkHeartbeatTimeouts now => exact h.map (renews_scan timeout now)

variable (_hash : String → Nat)

theorem names_run (heartbeatTimeoutS replicationFactor : Int) (history : List Event)
    (x : String) : Names x (reportedAddress x history) (registeredZone x history)
      (((init heartbeatTimeoutS replicationFactor).run _hash history).nodes.get? x) := by
  rw [get?_run]
  refine foldl_history (I := fun past record =>
    Names x (reportedAddress x past) (registeredZone x past) record) ?_ ?_ history
  · exact ⟨rfl, rfl, fun node hnode => by cases hnode⟩
  · intro past event ih
    rw [reportedAddress_snoc, registeredZone_snoc]
    exact names_step ih event

end ClusterManager

/-- `NodeInfo` of a record. -/
def NodeMetadata.info (n : NodeMetadata) : NodeInfo where
  nodeId := n.nodeId
  host := n.host
  port := n.port
  zone := n.zone
  status := n.status
  cacheSize := n.cacheSize
  cacheCapacity := n.cacheCapacity
  hitRatio := n.hitRatio
  memoryBytes := n.memoryBytes
  uptimeS := n.uptimeS
  lastHeartbeat := n.lastHeartbeat

namespace ClusterManager

theorem getNodeInfo_eq (cm : ClusterManager) (nodeId : String) :
    cm.getNodeInfo nodeId = (cm.nodes.get? nodeId).map NodeMetadata.info := by
  unfold getNodeInfo
  cases cm.nodes.get? nodeId with
  | none => rfl
  | some n => rfl

theorem getNode_ok {cm : ClusterManager} {n : String} {info : NodeInfo} :
    cm.getNode n = .ok info ↔ cm.getNodeInfo n = some info := by
  unfold getNode
  cases cm.getNodeInfo n with
  | none => exact iff_of_false (fun h => by cases h) (fun h => by cases h)
  | some found => exact ⟨fun h => by cases h; rfl, fun h => by cases h; rfl⟩

theorem getNode_error {cm : ClusterManager} {n : String} :
    cm.getNode n = .error ⟨404, "Node " ++ n ++ " not found"⟩ ↔ cm.nodes.get? n = none := by
  unfold getNode
  rw [getNodeInfo_eq]
  cases cm.nodes.get? n with
  | none => exact iff_of_true rfl rfl
  | some found => exact iff_of_false (fun h => by cases h) (fun h => by cases h)

/-- Answers that are all there. -/
theorem exists_answers {α β : Type} {f : α → Option β} {keys : List α}
    (h : ∀ k ∈ keys, ∃ v, f k = some v) : ∃ vs : List β, keys.map f = vs.map some := by
  induction keys with
  | nil => exact ⟨[], rfl⟩
  | cons k keys ih =>
    obtain ⟨v, hv⟩ := h k List.mem_cons_self
    obtain ⟨vs, hvs⟩ := ih fun k' hk' => h k' (List.mem_cons_of_mem k hk')
    exact ⟨v :: vs, by rw [List.map_cons, List.map_cons, hv, hvs]⟩

/-- The records in the order of the list. -/
theorem exists_records (cm : ClusterManager) : ∃ records : List NodeMetadata,
    records.Perm cm.nodes.values ∧
      (cm.nodes.keys.insertionSort fun a b => a ≤ b).map cm.nodes.get? = records.map some := by
  have hsort := List.perm_insertionSort (fun a b : String => a ≤ b) cm.nodes.keys
  obtain ⟨records, hrecords⟩ : ∃ records : List NodeMetadata,
      (cm.nodes.keys.insertionSort fun a b => a ≤ b).map cm.nodes.get? = records.map some :=
    exists_answers fun k hk => Dict.mem_keys_iff.mp (hsort.mem_iff.mp hk)
  have hget : cm.nodes.keys.map cm.nodes.get? = cm.nodes.values.map some := by
    rw [Dict.keys, Dict.values, List.map_map, List.map_map]
    exact List.map_congr_left fun p hp => Dict.get?_eq_some.mpr hp
  have hperm := hsort.map cm.nodes.get?
  rw [hrecords, hget] at hperm
  exact ⟨records, (List.map_perm_map_iff (Option.some_injective _)).mp hperm, hrecords⟩

/-- In every reachable state all views of the cluster agree with each other and with the addresses
and zones that the nodes gave. -/
theorem views_agree (heartbeatTimeoutS replicationFactor : Int) (history : List Event) :
    ∃ infos, Listed history
      ((init heartbeatTimeoutS replicationFactor).run _hash history) infos := by
  obtain ⟨cm, hrun⟩ : ∃ cm, (init heartbeatTimeoutS replicationFactor).run _hash history = cm :=
    ⟨_, rfl⟩
  rw [hrun]
  have hnames : ∀ x, Names x (reportedAddress x history) (registeredZone x history)
      (cm.nodes.get? x) := fun x => hrun ▸ names_run _hash heartbeatTimeoutS replicationFactor history x
  have hregistered : ∀ x, x ∈ registeredNodes history ↔ (cm.nodes.get? x).isSome := fun x =>
    hrun ▸ (stored_run _hash heartbeatTimeoutS replicationFactor history x).1
  obtain ⟨records, hperm, hrecords⟩ := cm.exists_records
  have hmem : ∀ node, node ∈ records ↔ cm.nodes.get? node.nodeId = some node := by
    intro node
    rw [hperm.mem_iff, Dict.mem_values_iff]
    constructor
    · intro ⟨k, hk⟩
      rw [(hnames k).nodeId node hk]
      exact hk
    · exact fun hk => ⟨_, hk⟩
  refine ⟨records.map NodeMetadata.info, ?_, ?_, ?_, ?_, ?_, ?_, ?_, ?_, ?_, ?_, ?_, ?_⟩
  · have hall := congrArg (List.map (Option.map NodeMetadata.info)) hrecords
    rw [List.map_map, List.map_map] at hall
    rw [getAllNodes, List.map_map]
    refine Eq.trans (List.map_congr_left fun k _ => ?_) hall
    exact cm.getNodeInfo_eq k
  · have hkeys : records.map NodeMetadata.nodeId =
        cm.nodes.keys.insertionSort fun a b => a ≤ b := by
      have hids := congrArg (List.map (Option.map NodeMetadata.nodeId)) hrecords
      rw [List.map_map, List.map_map] at hids
      refine (Option.some_injective _).list_map ?_
      rw [List.map_map]
      refine Eq.trans (Eq.trans hids.symm (List.map_congr_left fun k hk => ?_)) rfl
      obtain ⟨node, hnode⟩ := Dict.mem_keys_iff.mp ((List.mem_insertionSort _).mp hk)
      rw [Function.comp_apply, hnode, Option.map_some, (hnames k).nodeId node hnode]
    have hids : (records.map NodeMetadata.info).map NodeInfo.nodeId =
        records.map NodeMetadata.nodeId := by
      rw [List.map_map]
      rfl
    have hnodup : (cm.nodes.keys.insertionSort fun a b => a ≤ b).Nodup :=
      (List.perm_insertionSort _ _).nodup_iff.mpr cm.nodes.keys_nodup
    rw [hids, hkeys]
    exact ((List.pairwise_insertionSort _ cm.nodes.keys).and hnodup).imp fun h =>
      lt_of_le_of_ne h.1 h.2
  · intro n info
    rw [getNode_ok, getNodeInfo_eq, Option.map_eq_some_iff, List.mem_map]
    constructor
    · intro ⟨node, hnode, heq⟩
      have hname := (hnames n).nodeId node hnode
      exact ⟨⟨node, (hmem node).mpr (hname.symm ▸ hnode), heq⟩, heq ▸ hname⟩
    · intro ⟨⟨node, hnode, heq⟩, hname⟩
      have hid : node.nodeId = n := by rw [← hname, ← heq]; rfl
      exact ⟨node, hid ▸ (hmem node).mp hnode, heq⟩
  · intro n
    rw [getNode_error, hregistered, Option.not_isSome_iff_eq_none]
  · intro info hinfo
    obtain ⟨node, hnode, rfl⟩ := List.mem_map.mp hinfo
    have haddress := (hnames node.nodeId).address
    rw [(hmem node).mp hnode] at haddress
    exact haddress.symm
  · intro info hinfo
    obtain ⟨node, hnode, rfl⟩ := List.mem_map.mp hinfo
    have hzone := (hnames node.nodeId).zone
    rw [(hmem node).mp hnode] at hzone
    exact hzone.symm
  · rw [List.length_map, hperm.length_eq]
    exact (List.length_map _).symm
  · rw [List.countP_map, hperm.countP_eq]
    rfl
  · rw [List.countP_map, hperm.countP_eq]
    rfl
  · rw [List.countP_map, hperm.countP_eq]
    rfl
  · rw [List.map_map, (hperm.map _).sum_eq]
    rfl
  · rw [List.map_map, (hperm.map _).sum_eq]
    rfl

end ClusterManager

namespace Gateway

variable (_hash : String → Nat)

/-- Every request of every run has the URL of its key at the address its node reported last; if
both are plain, it is a request to that address for this key. -/
theorem sent_to_reported_address {heartbeatTimeoutS replicationFactor failureThreshold
    timeoutS : Int} {events : List Event} {g : Gateway} (hrun : runs (step _hash)
      (init heartbeatTimeoutS replicationFactor failureThreshold timeoutS) events = some g)
    {event : Event} {call : PendingCall} {request : HttpRequest}
    (hsent : g.sent _hash event = some (call, request)) :
    event.key = some call.key ∧ ∃ host port,
      ClusterManager.reportedAddress call.nodeId (events.filterMap clusterEvent) =
        some (host, port) ∧
      request.url = "http://" ++ host ++ ":" ++ toString port ++ "/cache/" ++ call.key ∧
      ∀ wire legal, Wire.Faithful wire legal → PlainAuthority (host ++ ":" ++ toString port) →
        PlainKey call.key → wire.host request.url = host ++ ":" ++ toString port ∧
          wire.key request.url = some (text call.key) := by
  obtain ⟨hkey, _, hfound, hurl⟩ := sent_url _hash hsent
  refine ⟨hkey, ?_⟩
  have hcluster : g.clusterManager = (ClusterManager.init heartbeatTimeoutS
      replicationFactor).run _hash (events.filterMap clusterEvent) := runs_cluster hrun
  have haddress := (ClusterManager.names_run _hash heartbeatTimeoutS replicationFactor
    (events.filterMap clusterEvent) call.nodeId).address
  rw [← hcluster] at haddress
  rw [authority, ClusterManager.getNodeInfo_eq, Option.map_map] at hfound
  obtain ⟨node, hnode, rfl⟩ := Option.map_eq_some_iff.mp hfound
  rw [hnode, Option.map_some] at haddress
  refine ⟨node.host, node.port, haddress.symm, ?_, fun wire legal hwire hplain hclean => ?_⟩
  · rw [hurl]
    simp only [Function.comp_apply, NodeMetadata.info, String.append_assoc]
  · rw [hurl]
    exact ⟨hwire.host _ call.key hplain, hclean.wire_key hwire hplain⟩

/-- The node comes back under another address. -/
def movedNode : List Event :=
  [.registerNode 0 "a" "h" 1 "z" 5,
    .heartbeat 1 1 ⟨"a", "i", 2, "y", "alive", 0, 5, 0, 0, 0, 0⟩]

theorem sent_to_reported_address_moved_node : ∃ g call request,
    runs (step fun _ => 0) (init 10 3 5 30) movedNode = some g ∧
    g.sent (fun _ => 0) (.getKey 2 "k" none) = some (call, request) ∧ ∃ host port,
      ClusterManager.reportedAddress call.nodeId (movedNode.filterMap clusterEvent) =
        some (host, port) ∧
      request.url = "http://" ++ host ++ ":" ++ toString port ++ "/cache/" ++ call.key := by
  obtain ⟨g, hrun⟩ := Option.isSome_iff_exists.mp
    (show (runs (step fun _ => 0) (init 10 3 5 30) movedNode).isSome from by decide +kernel)
  have hmade : ((runs (step fun _ => 0) (init 10 3 5 30) movedNode).bind fun g =>
      g.sent (fun _ => 0) (.getKey 2 "k" none)).isSome = true := by decide +kernel
  rw [hrun, Option.bind_some] at hmade
  obtain ⟨made, hsent⟩ := Option.isSome_iff_exists.mp hmade
  obtain ⟨_, host, port, haddress, hurl, _⟩ := sent_to_reported_address _ hrun hsent
  exact ⟨g, made.1, made.2, hrun, hsent, host, port, haddress, hurl⟩

end Gateway

end SelfHealingCache
