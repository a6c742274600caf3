import SelfHealingCache.ClusterSystem

namespace SelfHealingCache

namespace Gateway

section pending

variable (_hash : String → Nat)

theorem send_pending (g : Gateway) (call : PendingCall) (method : Method) (body : Option Json) :
    (g.send call method body).1.pending =
      g.pending ++ ((g.send call method body).2.toOption.map Prod.fst).toList := by
  unfold send
  split
  next => exact (List.append_nil _).symm
  next => rfl

theorem callPrimary_pending (g : Gateway) (now : Time) (handler : Handler) (method : Method)
    (key : String) (xClientZone : Option String) (body : Option Json) :
    (g.callPrimary _hash now handler method key xClientZone body).1.pending = g.pending ++
      ((g.callPrimary _hash now handler method key xClientZone body).2.toOption.map
        Prod.fst).toList := by
  unfold callPrimary
  dsimp only
  split
  next => exact (List.append_nil _).symm
  next =>
    split
    next => exact send_pending { g with circuitBreaker := _ } _ _ _
    next => exact (List.append_nil _).symm

/-- A handler waits from the moment its request is sent. -/
theorem step_pending {g g' : Gateway} {event : Event} (hstep : g.step _hash event = some g')
    (hreply : ∀ now call outcome, event ≠ .reply now call outcome) :
    g'.pending = g.pending ++ ((g.sent _hash event).map Prod.fst).toList := by
  cases event with
  | getKey now key xClientZone =>
    cases Option.some.inj hstep
    rw [sent]
    rcases getKey_cases _hash g now key xClientZone with ⟨_, e, _, h⟩ | ⟨n, _, _, h⟩
    · rw [h]
      exact (List.append_nil _).symm
    · rw [h]
      exact send_pending (g.asked _hash now key) _ _ _
  | putKey now key request xClientZone =>
    cases Option.some.inj hstep
    exact callPrimary_pending _hash g now _ _ key xClientZone _
  | deleteKey now key =>
    cases Option.some.inj hstep
    exact callPrimary_pending _hash g now _ _ key none none
  | reply now call outcome => exact absurd rfl (hreply now call outcome)
  | _ =>
    cases Option.some.inj hstep
    exact (List.append_nil _).symm

end pending

end Gateway

namespace ClusterSystem

/-- The calls that handlers of the gateway wait for, over the requests under way. -/
def waitingCalls (messages : Dict Nat Message) : List PendingCall :=
  messages.items.filterMap fun p => if p.2.waiting then some p.2.call else none

/-- The event ends a call. -/
def Event.endsCall : Event → Bool
  | .respond _ _ | .fail _ _ _ => true
  | _ => false

/-- What an event of the system is for the gateway. -/
def gatewayEvent (s : ClusterSystem) : Event → Option Gateway.Event
  | .gateway event => some event
  | .respond connection now => do
    let message ← s.messages.get? connection
    match message.flight with
    | .answered reply => some (.reply now message.call (.response reply.response))
    | _ => none
  | .fail connection now e => do
    let message ← s.messages.get? connection
    some (.reply now message.call (.error e))
  | _ => none

section calls

variable {messages : Dict Nat Message} {message message' : Message} {c : Nat}

theorem waitingCalls_set (messages : Dict Nat Message) (c : Nat) (message : Message) :
    (waitingCalls (messages.set c message)).Perm
      ((if message.waiting then [message.call] else []) ++ waitingCalls (messages.erase c)) := by
  have hperm := (messages.items_set_perm c message).filterMap
    fun p => if p.2.waiting then some p.2.call else none
  cases hw : message.waiting <;> simpa [waitingCalls, hw] using hperm

theorem waitingCalls_of_get? (h : messages.get? c = some message) :
    (waitingCalls messages).Perm
      ((if message.waiting then [message.call] else []) ++ waitingCalls (messages.erase c)) := by
  have hperm := (Dict.items_perm_of_get? h).filterMap
    fun p => if p.2.waiting then some p.2.call else none
  cases hw : message.waiting <;> simpa [waitingCalls, hw] using hperm

/-- What does not end a call leaves the handlers waiting. -/
theorem waitingCalls_same (h : messages.get? c = some message) (hcall : message'.call = message.call)
    (hwaiting : message'.waiting = message.waiting) :
    (waitingCalls (messages.set c message')).Perm (waitingCalls messages) := by
  have hset := waitingCalls_set messages c message'
  rw [hcall, hwaiting] at hset
  exact hset.trans (waitingCalls_of_get? h).symm

theorem waitingCalls_new (h : messages.get? c = none) (hwaiting : message.waiting = true) :
    (waitingCalls (messages.set c message)).Perm (waitingCalls messages ++ [message.call]) := by
  have hset := waitingCalls_set messages c message
  have hrest : waitingCalls (messages.erase c) = waitingCalls messages := by
    rw [waitingCalls, waitingCalls, Dict.erase_of_get?_none h]
  rw [hwaiting, if_pos rfl, hrest] at hset
  exact hset.trans List.perm_append_comm

/-- The call of a handler that has its answer, or has given up, is one that waited. -/
theorem waitingCalls_ended (h : messages.get? c = some message) (hwaiting : message.waiting = true) :
    (waitingCalls messages).Perm (message.call :: waitingCalls (messages.erase c)) := by
  have hget := waitingCalls_of_get? h
  rw [hwaiting, if_pos rfl] at hget
  exact hget

theorem waitingCalls_given_up (messages : Dict Nat Message) (c : Nat) (message : Message)
    (e : RequestError) :
    (waitingCalls (messages.set c (message.giveUp e))).Perm (waitingCalls (messages.erase c)) :=
  waitingCalls_set messages c (message.giveUp e)

theorem waitingCalls_lose (messages : Dict Nat Message) (wire : Wire) (address : String) :
    waitingCalls (messages.updateAll (·.lose wire address)) = waitingCalls messages := by
  unfold waitingCalls Dict.updateAll
  dsimp only
  rw [List.filterMap_map]
  refine List.filterMap_congr fun p _ => ?_
  obtain ⟨hcall, hwaiting⟩ := p.2.lose_call wire address
  simp only [Function.comp, hcall, hwaiting]

end calls

section runs

variable {_hash : String → Nat} {wire : Wire} {s s' : ClusterSystem}

/-- No call is lost or ended twice: the gateway waits for the calls whose requests wait for it,
and every connection belongs to a call that has ended or to one of these. -/
structure Conserved (events : List Event) (s : ClusterSystem) : Prop where
  fresh : ∀ c, s.connections ≤ c → s.messages.get? c = none
  pending : s.gateway.pending.Perm (waitingCalls s.messages)
  connections : s.connections = events.countP Event.endsCall + (waitingCalls s.messages).length

theorem Conserved.lt {events : List Event} (h : Conserved events s) {c : Nat} {message : Message}
    (hc : s.messages.get? c = some message) : c < s.connections := by
  by_contra hge
  have hnone := h.fresh c (by omega)
  rw [hc] at hnone
  cases hnone

theorem Conserved.mem {events : List Event} (h : Conserved events s) {c : Nat} {message : Message}
    (hc : s.messages.get? c = some message) (hwaiting : message.waiting = true) :
    message.call ∈ s.gateway.pending :=
  h.pending.mem_iff.mpr ((waitingCalls_ended hc hwaiting).mem_iff.mpr List.mem_cons_self)

/-- A step that neither sends a request nor ends a call. -/
theorem Conserved.quiet {events : List Event} (h : Conserved events s) {event : Event}
    (hends : event.endsCall = false) (hfresh : ∀ c, s.connections ≤ c → s'.messages.get? c = none)
    (hpending : s'.gateway.pending = s.gateway.pending) (hconnections : s'.connections = s.connections)
    (hcalls : (waitingCalls s'.messages).Perm (waitingCalls s.messages)) :
    Conserved (events ++ [event]) s' where
  fresh := fun c hc => hfresh c (by omega)
  pending := by
    rw [hpending]
    exact h.pending.trans hcalls.symm
  connections := by
    have hcount : (events ++ [event]).countP Event.endsCall = events.countP Event.endsCall := by
      simp [List.countP_append, hends]
    rw [hcount, hconnections, hcalls.length_eq]
    exact h.connections

/-- A step that ends the call of one connection. -/
theorem Conserved.ended {events : List Event} (h : Conserved events s) {event : Event}
    (hends : event.endsCall = true) {c : Nat} {message : Message}
    (hc : s.messages.get? c = some message) (hwaiting : message.waiting = true)
    (hfresh : ∀ c, s.connections ≤ c → s'.messages.get? c = none)
    (hpending : s'.gateway.pending = s.gateway.pending.erase message.call)
    (hconnections : s'.connections = s.connections)
    (hcalls : (waitingCalls s'.messages).Perm (waitingCalls (s.messages.erase c))) :
    Conserved (events ++ [event]) s' := by
  have hbefore := waitingCalls_ended hc hwaiting
  refine ⟨fun c hc => hfresh c (by omega), ?_, ?_⟩
  · have herase := (h.pending.trans hbefore).erase message.call
    rw [List.erase_cons_head] at herase
    rw [hpending]
    exact herase.trans hcalls.symm
  · have hlen := hbefore.length_eq
    have hlen' := hcalls.length_eq
    have hcount : (events ++ [event]).countP Event.endsCall =
        events.countP Event.endsCall + 1 := by
      simp [List.countP_append, hends]
    have hbalance := h.connections
    rw [List.length_cons] at hlen
    omega

/-- A step of the gateway opens a connection for the call that it makes, if it makes one. -/
theorem Conserved.gateway {events : List Event} (h : Conserved events s) {e : Gateway.Event}
    (hstep : s.step _hash wire (.gateway e) = some s') :
    Conserved (events ++ [.gateway e]) s' := by
  have hreply : ∀ now call outcome, e ≠ .reply now call outcome := by
    rintro now call outcome rfl
    cases hstep
  obtain ⟨gateway, hgateway, rfl⟩ := step_gateway hstep
  have hpending := Gateway.step_pending _hash hgateway hreply
  cases hsent : s.gateway.sent _hash e with
  | none =>
    rw [hsent, Option.map_none, Option.toList_none, List.append_nil] at hpending
    exact h.quiet rfl h.fresh hpending rfl (List.Perm.refl _)
  | some made =>
    rw [hsent, Option.map_some, Option.toList_some] at hpending
    have hnew : (waitingCalls (s.messages.set s.connections ⟨made.1, made.2, true, .sent⟩)).Perm
        (waitingCalls s.messages ++ [made.1]) :=
      waitingCalls_new (h.fresh s.connections (Nat.le_refl _)) rfl
    have hlen := hnew.length_eq
    have hbalance := h.connections
    refine ⟨fun c hc => ?_, ?_, ?_⟩
    · have hc' : s.connections + 1 ≤ c := hc
      change (s.messages.set s.connections _).get? c = none
      rw [Dict.get?_set, if_neg (by omega), h.fresh c (by omega)]
    · change gateway.pending.Perm _
      rw [hpending]
      exact (h.pending.append_right _).trans hnew.symm
    · have hcount : (events ++ [Event.gateway e]).countP Event.endsCall =
          events.countP Event.endsCall := by
        simp [List.countP_append, Event.endsCall]
      change s.connections + 1 = _
      rw [hcount]
      change _ = _ + (waitingCalls (s.messages.set s.connections _)).length
      rw [List.length_append, List.length_singleton] at hlen
      omega

theorem Conserved.handle {events : List Event} (h : Conserved events s) {c : Nat} {now : TimePoint}
    (hstep : s.step _hash wire (.handle c now) = some s') :
    Conserved (events ++ [.handle c now]) s' := by
  obtain ⟨message, hmessage, hstep⟩ := Option.bind_eq_some_iff.mp hstep
  obtain ⟨server, _, hstep⟩ := Option.bind_eq_some_iff.mp hstep
  obtain ⟨handled, _, hstep⟩ := Option.bind_eq_some_iff.mp hstep
  cases Option.some.inj hstep
  refine h.quiet rfl (fun j hj => ?_) rfl rfl (waitingCalls_same hmessage rfl rfl)
  have hlt := h.lt hmessage
  rw [Dict.get?_set, if_neg (by omega), h.fresh j hj]

/-- The answer of a node ends the call that waits for it. -/
theorem Conserved.respond {events : List Event} (h : Conserved events s) {c : Nat} {now : Time}
    (hstep : s.step _hash wire (.respond c now) = some s') :
    Conserved (events ++ [.respond c now]) s' := by
  obtain ⟨message, hmessage, hstep⟩ := Option.bind_eq_some_iff.mp hstep
  split at hstep
  next reply hwaiting _ =>
    obtain ⟨gateway, hgateway, hstep⟩ := Option.bind_eq_some_iff.mp hstep
    cases Option.some.inj hstep
    rw [Gateway.step, if_pos (h.mem hmessage hwaiting)] at hgateway
    cases Option.some.inj hgateway
    refine h.ended rfl hmessage hwaiting (fun j hj => ?_)
      (Gateway.reply_fields s.gateway now message.call _).2.2 rfl (List.Perm.refl _)
    dsimp only
    rw [Dict.get?_erase, h.fresh j hj, ite_self]
  next => cases hstep

/-- A call that fails leaves its request behind, which nobody waits for. -/
theorem Conserved.fail {events : List Event} (h : Conserved events s) {c : Nat} {now : Time}
    {e : RequestError} (hstep : s.step _hash wire (.fail c now e) = some s') :
    Conserved (events ++ [.fail c now e]) s' := by
  obtain ⟨message, hmessage, hstep⟩ := Option.bind_eq_some_iff.mp hstep
  split at hstep
  next hwaiting =>
    obtain ⟨gateway, hgateway, hstep⟩ := Option.bind_eq_some_iff.mp hstep
    cases Option.some.inj hstep
    rw [Gateway.step, if_pos (h.mem hmessage hwaiting)] at hgateway
    cases Option.some.inj hgateway
    refine h.ended rfl hmessage hwaiting (fun j hj => ?_)
      (Gateway.reply_fields s.gateway now message.call _).2.2 rfl
      (waitingCalls_given_up s.messages c message e)
    have hlt := h.lt hmessage
    dsimp only
    rw [Dict.get?_set, if_neg (by omega), h.fresh j hj]
  next => cases hstep

theorem Conserved.step {events : List Event} (h : Conserved events s) {event : Event}
    (hstep : s.step _hash wire event = some s') : Conserved (events ++ [event]) s' := by
  cases event with
  | gateway e => exact h.gateway hstep
  | handle c now => exact h.handle hstep
  | respond c now => exact h.respond hstep
  | fail c now e => exact h.fail hstep
  | start restarted config =>
    rw [ClusterSystem.step] at hstep
    split at hstep
    next => cases hstep
    next =>
      cases Option.some.inj hstep
      refine h.quiet rfl (fun j hj => ?_) rfl rfl ?_
      · dsimp only
        rw [Dict.get?_updateAll, h.fresh j hj, Option.map_none]
      · rw [waitingCalls_lose]
  | purge purged times =>
    obtain ⟨server, _, hstep⟩ := Option.bind_eq_some_iff.mp hstep
    obtain ⟨handled, _, hstep⟩ := Option.bind_eq_some_iff.mp hstep
    cases Option.some.inj hstep
    exact h.quiet rfl h.fresh rfl rfl (List.Perm.refl _)

/-- The gateway takes its own steps, in which a response is one that its node has given. -/
theorem step_projects {event : Event} (hstep : s.step _hash wire event = some s') :
    match s.gatewayEvent event with
    | none => s'.gateway = s.gateway
    | some e => s.gateway.step _hash e = some s'.gateway := by
  cases event with
  | gateway e =>
    obtain ⟨gateway, hgateway, rfl⟩ := step_gateway hstep
    rw [gatewayEvent]
    dsimp only
    rw [hgateway]
    cases s.gateway.sent _hash e <;> rfl
  | handle c now =>
    obtain ⟨message, hmessage, hstep⟩ := Option.bind_eq_some_iff.mp hstep
    obtain ⟨server, _, hstep⟩ := Option.bind_eq_some_iff.mp hstep
    obtain ⟨handled, _, hstep⟩ := Option.bind_eq_some_iff.mp hstep
    cases Option.some.inj hstep
    rfl
  | respond c now =>
    obtain ⟨message, hmessage, hstep⟩ := Option.bind_eq_some_iff.mp hstep
    split at hstep
    next reply hwaiting hanswered =>
      obtain ⟨gateway, hgateway, hstep⟩ := Option.bind_eq_some_iff.mp hstep
      cases Option.some.inj hstep
      simp only [gatewayEvent, hmessage, Option.bind_eq_bind, Option.bind_some, hanswered]
      exact hgateway
    next => cases hstep
  | fail c now e =>
    obtain ⟨message, hmessage, hstep⟩ := Option.bind_eq_some_iff.mp hstep
    split at hstep
    next =>
      obtain ⟨gateway, hgateway, hstep⟩ := Option.bind_eq_some_iff.mp hstep
      cases Option.some.inj hstep
      simp only [gatewayEvent, hmessage, Option.bind_eq_bind, Option.bind_some]
      exact hgateway
    next => cases hstep
  | start restarted config =>
    rw [step] at hstep
    split at hstep
    next => cases hstep
    next =>
      cases Option.some.inj hstep
      rfl
  | purge purged times =>
    obtain ⟨server, _, hstep⟩ := Option.bind_eq_some_iff.mp hstep
    obtain ⟨handled, _, hstep⟩ := Option.bind_eq_some_iff.mp hstep
    cases Option.some.inj hstep
    rfl

/-- Every run of the cluster is one of the gateway. -/
theorem runs_project {events : List Event} (h : runs (step _hash wire) s events = some s') :
    runs (Gateway.step _hash) s.gateway
      (observations (step _hash wire) gatewayEvent s events) = some s'.gateway := by
  refine runs_history (I := fun past (mid : ClusterSystem) => runs (Gateway.step _hash) s.gateway
    (observations (step _hash wire) gatewayEvent s past) = some mid.gateway) rfl ?_ h
  intro past event rest mid next _ hrun ih hstep
  have hproject := step_projects hstep
  rw [observations_snoc hrun]
  cases hevent : mid.gatewayEvent event with
  | none =>
    rw [hevent] at hproject
    dsimp only at hproject
    rw [Option.toList_none, List.append_nil, ih, hproject]
  | some e =>
    rw [hevent] at hproject
    exact runs_snoc_eq_some.mpr ⟨mid.gateway, ih, hproject⟩

/-- In every run of the cluster, whatever is lost, late or fails, no call of a handler is lost
and none ends twice: the gateway runs by its own steps; it waits for exactly the calls whose
requests wait for it; every connection opened belongs to a call that has ended or to one of
these; and each of these can end, by its answer once the node has given one, or by an error. -/
theorem calls_conserved {gateway : Gateway} (hg : gateway.pending = []) {events : List Event}
    (h : runs (step _hash wire) (init gateway) events = some s') :
    runs (Gateway.step _hash) gateway
        (observations (step _hash wire) gatewayEvent (init gateway) events) = some s'.gateway ∧
      s'.gateway.pending.Perm (waitingCalls s'.messages) ∧
      s'.connections = events.countP Event.endsCall + (waitingCalls s'.messages).length ∧
      ∀ c message, s'.messages.get? c = some message → message.waiting = true → ∀ now,
        (∀ reply, message.flight = .answered reply →
          ∃ next, s'.step _hash wire (.respond c now) = some next) ∧
        ∀ e, ∃ next, s'.step _hash wire (.fail c now e) = some next := by
  have hconserved : Conserved events s' := by
    refine runs_history (I := Conserved) ⟨fun c _ => rfl, ?_, rfl⟩ ?_ h
    · change gateway.pending.Perm []
      rw [hg]
    · intro past event rest mid next _ _ ih hstep
      exact ih.step hstep
  refine ⟨runs_project h, hconserved.pending, hconserved.connections, ?_⟩
  intro c message hc hwaiting now
  have hmem := hconserved.mem hc hwaiting
  refine ⟨fun reply hanswered => ?_, fun e => ?_⟩
  · simp [step, hc, hwaiting, hanswered, Gateway.step, hmem]
  · simp [step, hc, hwaiting, Gateway.step, hmem]

/-- The second call is given up before the node has seen its request. -/
theorem calls_conserved_given_up :
    ∃ s', runs (step (fun _ => 0) httpWire) (init Gateway.oneNode)
        [.start "h:1" CacheServer.oneSlot, .gateway (.putKey 1 "k" ⟨"v", none⟩ none),
          .gateway (.getKey 2 "k" none), .fail 1 7 .ReadTimeout] = some s' ∧
      s'.connections = 1 + (waitingCalls s'.messages).length := by
  obtain ⟨s', hrun⟩ := Option.isSome_iff_exists.mp
    (show (runs (step (fun _ => 0) httpWire) (init Gateway.oneNode)
      [.start "h:1" CacheServer.oneSlot, .gateway (.putKey 1 "k" ⟨"v", none⟩ none),
        .gateway (.getKey 2 "k" none), .fail 1 7 .ReadTimeout]).isSome from by decide +kernel)
  have hconserved := calls_conserved (by decide +kernel : Gateway.oneNode.pending = []) hrun
  exact ⟨s', hrun, hconserved.2.2.1⟩

end runs

end ClusterSystem

end SelfHealingCache
