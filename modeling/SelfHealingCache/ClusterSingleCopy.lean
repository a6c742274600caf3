import SelfHealingCache.ClusterCalls
import SelfHealingCache.ClusterRegister

namespace SelfHealingCache

/-- `httpx` and the HTTP server as they treat the URLs of the gateway. -/
structure Wire.Faithful (wire : Wire) (legal : Char → Bool) : Prop where
  httpx : HttpxPath legal wire.rawPath
  percent : PercentDecodes wire.decode
  host : ∀ authority key, PlainAuthority authority →
    wire.host ("http://" ++ authority ++ ("/cache/" ++ key)) = authority

/-- A key of the gateway's routes that reaches a node as it is. -/
structure PlainKey (key : String) : Prop where
  nonempty : key ≠ ""
  segment : '/' ∉ key.toList
  transparent : Transparent key

theorem PlainKey.wire_key {wire : Wire} {legal : Char → Bool} (hwire : wire.Faithful legal)
    {authority key : String} (ha : PlainAuthority authority) (hkey : PlainKey key) :
    wire.key ("http://" ++ authority ++ ("/cache/" ++ key)) = some (text key) :=
  (received_iff hwire.httpx hwire.percent ha hkey.segment hkey.nonempty).mpr hkey.transparent

theorem httpWire_faithful : httpWire.Faithful pathChar where
  httpx := httpPath_httpx
  percent := percentDecode_decodes
  host := by
    intro authority key ha
    have hscheme : "http://".toList = ['h', 't', 't', 'p', ':', '/', '/'] := by decide
    have hcache : "/cache/".toList = ['/', 'c', 'a', 'c', 'h', 'e', '/'] := by decide
    have hhost : ∀ c ∈ authority.toList, decide (c ≠ '/') = true :=
      fun c hc => decide_eq_true (ha c hc).1
    change String.ofList ((("http://" ++ authority ++ ("/cache/" ++ key)).toList.drop 7).takeWhile
      fun c => c ≠ '/') = authority
    rw [String.toList_append, String.toList_append, String.toList_append, hscheme, hcache]
    change String.ofList ((authority.toList ++ '/' :: ('c' :: 'a' :: 'c' :: 'h' :: 'e' :: '/' ::
      key.toList)).takeWhile fun c => c ≠ '/') = authority
    rw [List.takeWhile_append_of_pos hhost, List.takeWhile_cons_of_neg (by decide), List.append_nil,
      String.ofList_toList]

namespace Gateway

/-- The event may change the membership or the ring. -/
def Event.membership : Event → Bool
  | .heartbeat _ _ _ | .registerNode _ _ _ _ _ _ | .failureDetection _ _ | .healthCheck _ => true
  | _ => false

theorem step_members (_hash : String → Nat) {g g' : Gateway} {event : Event}
    (h : g.step _hash event = some g') (hevent : event.membership = false) :
    g'.clusterManager = g.clusterManager := by
  cases event with
  | getKey now key xClientZone =>
    cases Option.some.inj h
    exact (getKey_breaker _hash g now key xClientZone).1
  | putKey now key request xClientZone =>
    cases Option.some.inj h
    exact (callPrimary_breaker _hash g now _ _ key xClientZone _).1
  | deleteKey now key =>
    cases Option.some.inj h
    exact (callPrimary_breaker _hash g now _ _ key none none).1
  | reply now call outcome =>
    rw [step] at h
    split at h
    next =>
      cases Option.some.inj h
      exact (reply_fields g now call outcome).1
    next => cases h
  | updateLatency nodeId latencyMs =>
    cases Option.some.inj h
    rfl
  | cleanupExpiredPins now =>
    cases Option.some.inj h
    rfl
  | _ => cases hevent

section copies

variable (_hash : String → Nat)

/-- The key has one replica, which answers at the address. -/
structure SingleCopy (g : Gateway) (key nodeId address : String) : Prop where
  replicas : g.replicas _hash key = [nodeId]
  address : g.authority nodeId = some address
  plain : ∀ n a, g.authority n = some a → PlainAuthority a

theorem callPrimary_node {g : Gateway} {now : Time} {handler : Handler} {method : Method}
    {key : String} {xClientZone : Option String} {body : Option Json}
    {made : PendingCall × HttpRequest}
    (h : (g.callPrimary _hash now handler method key xClientZone body).2.toOption = some made) :
    made.1.key = key ∧ g.clusterManager.getNodeForKey _hash key = some made.1.nodeId := by
  unfold callPrimary at h
  dsimp only at h
  split at h
  next => cases h
  next hprimary =>
    split at h
    next =>
      obtain ⟨hcall, _⟩ := send_request h
      rw [hcall]
      cases hn : g.clusterManager.getNodeForKey _hash key with
      | none => exact absurd (by rw [hn]; rfl) hprimary
      | some n => exact ⟨rfl, rfl⟩
    next => cases h

/-- Every request goes to a replica of its key or to the primary. -/
theorem sent_node {g : Gateway} {event : Event} {call : PendingCall} {request : HttpRequest}
    (h : g.sent _hash event = some (call, request)) :
    call.nodeId ∈ g.replicas _hash call.key ∨
      g.clusterManager.getNodeForKey _hash call.key = some call.nodeId := by
  cases event with
  | getKey now key xClientZone =>
    rw [sent] at h
    rcases getKey_cases _hash g now key xClientZone with ⟨_, e, _, hget⟩ | ⟨n, _, hn, hget⟩
    · rw [hget] at h
      cases h
    · rw [hget] at h
      obtain ⟨hcall, _⟩ := send_request h
      dsimp only at hcall
      rw [hcall]
      exact Or.inl (List.mem_of_mem_filter hn.1)
  | putKey now key put xClientZone =>
    obtain ⟨hkey, hnode⟩ := callPrimary_node _hash h
    dsimp only at hkey hnode
    rw [hkey]
    exact Or.inr hnode
  | deleteKey now key =>
    obtain ⟨hkey, hnode⟩ := callPrimary_node _hash h
    dsimp only at hkey hnode
    rw [hkey]
    exact Or.inr hnode
  | _ => cases h

variable {_hash}

theorem SingleCopy.of_members {g g' : Gateway} {key nodeId address : String}
    (hg : g.SingleCopy _hash key nodeId address)
    (h : g'.clusterManager = g.clusterManager) : g'.SingleCopy _hash key nodeId address := by
  have hauthority : g'.authority = g.authority := by
    unfold authority
    rw [h]
  have hreplicas : g'.replicas _hash key = g.replicas _hash key := by
    unfold Gateway.replicas
    rw [h]
  exact ⟨hreplicas.trans hg.replicas, hauthority ▸ hg.address, hauthority ▸ hg.plain⟩

theorem SingleCopy.node {g : Gateway} {key nodeId address : String}
    (hg : g.SingleCopy _hash key nodeId address) {event : Event} {call : PendingCall}
    {request : HttpRequest} (h : g.sent _hash event = some (call, request))
    (hkey : call.key = key) : call.nodeId = nodeId := by
  have hreplicas : g.clusterManager.getReplicasForKey _hash key = [nodeId] := hg.replicas
  rcases sent_node _hash h with hmem | hprimary
  · rw [hkey] at hmem
    have hone : call.nodeId ∈ [nodeId] := hreplicas ▸ hmem
    exact List.mem_singleton.mp hone
  · have hne : g.clusterManager.getReplicasForKey _hash key ≠ [] := by simp [hreplicas]
    have hhead := ClusterManager.head?_getReplicasForKey _hash hne
    rw [hkey] at hprimary
    rw [hprimary, hreplicas] at hhead
    exact (Option.some.inj hhead).symm

end copies

end Gateway

namespace ClusterSystem

/-- The calls of one key of the clients. -/
def ofKey (key : String) (call : PendingCall) (_request : HttpRequest) : Bool := call.key = key

section single

variable {_hash : String → Nat} {wire : Wire} {legal : Char → Bool}

/-- With one copy of a key, a request is one for this key exactly if it is one for its entry
on that node. -/
theorem sent_alike (hwire : wire.Faithful legal) {g : Gateway} {key nodeId address : String}
    (hg : g.SingleCopy _hash key nodeId address) {event : Gateway.Event}
    (hclean : ∀ k, event.key = some k → PlainKey k) {call : PendingCall} {request : HttpRequest}
    (hsent : g.sent _hash event = some (call, request)) :
    ofKey key call request = atNode wire address (text key) call request := by
  obtain ⟨hkey, authority, hauthority, hurl⟩ := Gateway.sent_url _hash hsent
  dsimp only at hkey hauthority hurl
  have hplain := hg.plain call.nodeId authority hauthority
  have hreceived := (hclean call.key hkey).wire_key hwire hplain
  have hhost := hwire.host authority call.key hplain
  rw [← hurl] at hreceived hhost
  rw [Bool.eq_iff_iff, atNode_iff, ofKey, decide_eq_true_iff]
  constructor
  · intro hcall
    have hnode := hg.node hsent hcall
    rw [hnode, hg.address] at hauthority
    cases Option.some.inj hauthority
    rw [hcall] at hreceived
    exact ⟨hhost, hreceived⟩
  · intro ht
    have hsame := hreceived.symm.trans ht.2
    exact text_inj.mp (Option.some.inj hsame)

/-- Two ways to watch agree on the requests under way. -/
def Alike (watch watch' : PendingCall → HttpRequest → Bool) (s : ClusterSystem) : Prop :=
  ∀ c message, s.messages.get? c = some message →
    watch message.call message.request = watch' message.call message.request

section alike

variable {watch watch' : PendingCall → HttpRequest → Bool} {s s' : ClusterSystem} {event : Event}

theorem Alike.point (h : Alike watch watch' s)
    (hsent : ∀ e call request, event = .gateway e → s.gateway.sent _hash e = some (call, request) →
      watch call request = watch' call request) :
    s.point _hash wire watch event = s.point _hash wire watch' event := by
  cases event with
  | gateway e =>
    cases hmade : s.gateway.sent _hash e with
    | none => simp only [ClusterSystem.point, hmade, Option.bind_eq_bind, Option.bind_none]
    | some made =>
      have hsame := hsent e made.1 made.2 rfl hmade
      simp only [ClusterSystem.point, hmade, Option.bind_eq_bind, Option.bind_some, hsame]
  | handle c now =>
    cases hm : s.messages.get? c with
    | none => simp only [ClusterSystem.point, hm, Option.bind_eq_bind, Option.bind_none]
    | some message =>
      have hsame := h c message hm
      simp only [ClusterSystem.point, hm, Option.bind_eq_bind, Option.bind_some, hsame]
  | respond c now =>
    cases hm : s.messages.get? c with
    | none => simp only [ClusterSystem.point, hm, Option.bind_eq_bind, Option.bind_none]
    | some message =>
      have hsame := h c message hm
      simp only [ClusterSystem.point, hm, Option.bind_eq_bind, Option.bind_some, hsame]
  | _ => rfl

/-- Every request under way was one before, or is sent now. -/
theorem mem_messages_step (hstep : s.step _hash wire event = some s') {c : Nat} {message : Message}
    (hm : s'.messages.get? c = some message) :
    (∃ c' before, s.messages.get? c' = some before ∧ before.call = message.call ∧
      before.request = message.request) ∨
    ∃ e, event = .gateway e ∧ s.gateway.sent _hash e = some (message.call, message.request) := by
  cases event with
  | gateway e =>
    obtain ⟨gateway, _, rfl⟩ := step_gateway hstep
    cases hmade : s.gateway.sent _hash e with
    | none =>
      rw [hmade] at hm
      exact Or.inl ⟨c, message, hm, rfl, rfl⟩
    | some made =>
      rw [hmade] at hm
      change (s.messages.set s.connections _).get? c = some message at hm
      rw [Dict.get?_set] at hm
      split at hm
      next =>
        cases hm
        exact Or.inr ⟨e, rfl, hmade⟩
      next => exact Or.inl ⟨c, message, hm, rfl, rfl⟩
  | handle c' now =>
    obtain ⟨before, hbefore, hstep⟩ := Option.bind_eq_some_iff.mp hstep
    obtain ⟨server, _, hstep⟩ := Option.bind_eq_some_iff.mp hstep
    obtain ⟨handled, _, hstep⟩ := Option.bind_eq_some_iff.mp hstep
    cases Option.some.inj hstep
    dsimp only at hm
    rw [Dict.get?_set] at hm
    split at hm
    next =>
      cases hm
      exact Or.inl ⟨c', before, hbefore, rfl, rfl⟩
    next => exact Or.inl ⟨c, message, hm, rfl, rfl⟩
  | respond c' now =>
    obtain ⟨before, _, hstep⟩ := Option.bind_eq_some_iff.mp hstep
    split at hstep
    next =>
      obtain ⟨gateway, _, hstep⟩ := Option.bind_eq_some_iff.mp hstep
      cases Option.some.inj hstep
      dsimp only at hm
      rw [Dict.get?_erase] at hm
      split at hm
      next => cases hm
      next => exact Or.inl ⟨c, message, hm, rfl, rfl⟩
    next => cases hstep
  | fail c' now e =>
    obtain ⟨before, hbefore, hstep⟩ := Option.bind_eq_some_iff.mp hstep
    split at hstep
    next =>
      obtain ⟨gateway, _, hstep⟩ := Option.bind_eq_some_iff.mp hstep
      cases Option.some.inj hstep
      dsimp only at hm
      rw [Dict.get?_set] at hm
      split at hm
      next =>
        cases hm
        exact Or.inl ⟨c', before, hbefore, rfl, rfl⟩
      next => exact Or.inl ⟨c, message, hm, rfl, rfl⟩
    next => cases hstep
  | start restarted config =>
    rw [step] at hstep
    split at hstep
    next => cases hstep
    next =>
      cases Option.some.inj hstep
      dsimp only at hm
      rw [Dict.get?_updateAll] at hm
      obtain ⟨before, hbefore, rfl⟩ := Option.map_eq_some_iff.mp hm
      refine Or.inl ⟨c, before, hbefore, ?_⟩
      rcases before.lose_cases wire restarted with hsame | ⟨hrequest, hcall, _⟩
      · rw [hsame]
        exact ⟨rfl, rfl⟩
      · exact ⟨hcall.symm, hrequest.symm⟩
  | purge purged times =>
    obtain ⟨server, _, hstep⟩ := Option.bind_eq_some_iff.mp hstep
    obtain ⟨handled, _, hstep⟩ := Option.bind_eq_some_iff.mp hstep
    cases Option.some.inj hstep
    exact Or.inl ⟨c, message, hm, rfl, rfl⟩

theorem Alike.step (h : Alike watch watch' s)
    (hsent : ∀ e call request, event = .gateway e → s.gateway.sent _hash e = some (call, request) →
      watch call request = watch' call request)
    (hstep : s.step _hash wire event = some s') : Alike watch watch' s' := by
  intro c message hm
  rcases mem_messages_step hstep hm with ⟨c', before, hbefore, hcall, hrequest⟩ | ⟨e, he, hmade⟩
  · rw [← hcall, ← hrequest]
    exact h c' before hbefore
  · exact hsent e message.call message.request he hmade

end alike

/-- While a key has one copy, the whole cluster is linearizable for the clients of the key,
whatever fails, times out, restarts or is evicted: it is one register that may forget. -/
theorem single_copy_linearizable (hwire : wire.Faithful legal) {gateway : Gateway}
    {key nodeId address : String} {events : List Event} {s' : ClusterSystem}
    (h : runs (step _hash wire) (init gateway) events = some s')
    (hclean : ∀ e k, .gateway e ∈ events → e.key = some k → PlainKey k)
    (hcopy : ∀ past rest mid, events = past ++ rest →
      runs (step _hash wire) (init gateway) past = some mid →
      mid.gateway.SingleCopy _hash key nodeId address) :
    Linearizable Lossy none (clientHistory _hash wire (ofKey key) (init gateway) events) := by
  have hsent : ∀ past event rest mid, events = past ++ event :: rest →
      runs (step _hash wire) (init gateway) past = some mid → ∀ e call request,
      event = .gateway e → mid.gateway.sent _hash e = some (call, request) →
      ofKey key call request = atNode wire address (text key) call request := by
    intro past event rest mid hsplit hrun e call request hevent hmade
    have hmem : Event.gateway e ∈ events := by simp [hsplit, hevent]
    exact sent_alike hwire (hcopy past (event :: rest) mid hsplit hrun)
      (fun k hk => hclean e k hmem hk) hmade
  have halike : ∀ past rest mid, events = past ++ rest →
      runs (step _hash wire) (init gateway) past = some mid →
      Alike (ofKey key) (atNode wire address (text key)) mid := by
    intro past rest mid hsplit hrun
    refine runs_history (I := fun _ (s : ClusterSystem) =>
      Alike (ofKey key) (atNode wire address (text key)) s) ?_ ?_ hrun
    · intro c message hm
      cases hm
    · intro p event r m next hpast hrunp ih hstep
      have hsplit' : events = p ++ event :: (r ++ rest) := by simp [hsplit, hpast]
      exact ih.step (hsent p event (r ++ rest) m hsplit' hrunp) hstep
  have hsame : observations (step _hash wire) (point _hash wire (ofKey key)) (init gateway) events =
      observations (step _hash wire) (point _hash wire (atNode wire address (text key)))
        (init gateway) events := by
    refine observations_congr (fun past event rest mid hsplit hrun => ?_) h
    exact (halike past (event :: rest) mid hsplit hrun).point (hsent past event rest mid hsplit hrun)
  rw [clientHistory, hsame]
  exact linearizable_runs (simulates_init gateway) (fun _ _ _ _ hm hstep => hm.step hstep) h

/-- No event of the run changes the membership or the ring. -/
theorem runs_members {s s' : ClusterSystem} {events : List Event}
    (h : runs (step _hash wire) s events = some s')
    (hevents : ∀ e, .gateway e ∈ events → e.membership = false) :
    s'.gateway.clusterManager = s.gateway.clusterManager := by
  refine runs_history (I := fun _ (mid : ClusterSystem) =>
    mid.gateway.clusterManager = s.gateway.clusterManager) rfl ?_ h
  intro past event rest mid next hsplit _ ih hstep
  have hproject := step_projects hstep
  rw [← ih]
  cases hevent : mid.gatewayEvent event with
  | none =>
    rw [hevent] at hproject
    rw [hproject]
  | some e =>
    rw [hevent] at hproject
    refine Gateway.step_members _hash hproject ?_
    cases event with
    | gateway e' =>
      cases hevent
      exact hevents e (by simp [hsplit])
    | respond c now =>
      obtain ⟨message, _, hreply⟩ := Option.bind_eq_some_iff.mp hevent
      split at hreply
      next =>
        cases hreply
        rfl
      next => cases hreply
    | fail c now error =>
      obtain ⟨message, _, hreply⟩ := Option.bind_eq_some_iff.mp hevent
      cases hreply
      rfl
    | _ => cases hevent

theorem single_copy_write_then_read :
    (clientHistory (fun _ => 0) httpWire (ofKey "k") (init Gateway.oneNode)
      writeThenRead).length = 4 ∧
    Linearizable Lossy none (clientHistory (fun _ => 0) httpWire (ofKey "k")
      (init Gateway.oneNode) writeThenRead) := by
  refine ⟨by decide +kernel, ?_⟩
  obtain ⟨s', hrun⟩ := Option.isSome_iff_exists.mp
    (show (runs (step (fun _ => 0) httpWire) (init Gateway.oneNode) writeThenRead).isSome from
      by decide +kernel)
  have hescape : ¬HasEscape "k".toList := fun h => absurd ((length_bytes_tokens _).2 h) (by decide)
  have hkey : PlainKey "k" := by
    refine ⟨by decide, by decide, ?_⟩
    exact ⟨by decide, by decide, by decide, by decide, hescape, by decide⟩
  have haddress : Gateway.oneNode.authority "a" = some "h:1" := by decide +kernel
  have hcopy : Gateway.oneNode.SingleCopy (fun _ => 0) "k" "a" "h:1" := by
    refine ⟨by decide +kernel, haddress, ?_⟩
    intro n authority hauthority
    obtain ⟨info, hinfo, _⟩ := Option.map_eq_some_iff.mp hauthority
    have hn : n ∈ Gateway.oneNode.clusterManager.nodes.keys := by
      by_contra hmissing
      rw [ClusterManager.getNodeInfo, Dict.get?_eq_none.mpr hmissing] at hinfo
      cases hinfo
    have hkeys : Gateway.oneNode.clusterManager.nodes.keys = ["a"] := by decide +kernel
    rw [hkeys, List.mem_singleton] at hn
    rw [hn, haddress] at hauthority
    cases hauthority
    simp [PlainAuthority]
  have hclient : ∀ e, .gateway e ∈ writeThenRead → e.membership = false ∧ e.key = some "k" := by
    intro e he
    simp only [writeThenRead, List.mem_cons, List.not_mem_nil, Event.gateway.injEq, reduceCtorEq,
      false_or, or_false] at he
    rcases he with rfl | rfl
    · exact ⟨rfl, rfl⟩
    · exact ⟨rfl, rfl⟩
  have hcopies : ∀ past rest mid, writeThenRead = past ++ rest →
      runs (step (fun _ => 0) httpWire) (init Gateway.oneNode) past = some mid →
      mid.gateway.SingleCopy (fun _ => 0) "k" "a" "h:1" := by
    intro past rest mid hsplit hpast
    exact hcopy.of_members (runs_members hpast fun e he => (hclient e (by simp [hsplit, he])).1)
  refine single_copy_linearizable httpWire_faithful hrun (fun e k he hk => ?_) hcopies
  rw [(hclient e he).2] at hk
  exact Option.some.inj hk ▸ hkey

end single

end ClusterSystem

end SelfHealingCache
