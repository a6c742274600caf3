import SelfHealingCache.GatewaySteps

namespace SelfHealingCache

namespace Gateway

section reads

variable (_hash : String → Nat)

/-- The node that the request of a GET is sent to. -/
def contacted (g : Gateway) (now : Time) (key : String) (xClientZone : Option String) :
    Option String :=
  match (g.getKey _hash now key xClientZone).2 with
  | .error _ => none
  | .ok sent => some sent.1.nodeId

/-- A GET handled to its end: the call, if there is one, ends with `outcome`. -/
def handleGet (g : Gateway) (now : Time) (key : String) (xClientZone : Option String)
    (returned : Time) (outcome : Outcome) : Gateway :=
  match g.getKey _hash now key xClientZone with
  | (g', .error _) => g'
  | (g', .ok sent) => (g'.reply returned sent.1 outcome).1

/-- A replica is read before another: it is nearer, or as near and earlier in the list. -/
def Before (g : Gateway) (key n m : String) : Prop :=
  g.zoneRouter.latency n < g.zoneRouter.latency m ∨
    g.zoneRouter.latency n = g.zoneRouter.latency m ∧
      (g.replicas _hash key).idxOf n ≤ (g.replicas _hash key).idxOf m

/-- The replica is read before every replica that the breaker lets through. -/
def Nearest (g : Gateway) (now : Time) (key n : String) : Prop :=
  ∀ m ∈ g.replicas _hash key, (g.circuitBreaker.isAvailable now m).2 = true →
    g.Before _hash key n m

theorem mem_choices {g : Gateway} {now : Time} {key n : String} :
    n ∈ g.choices _hash now key ↔
      n ∈ g.replicas _hash key ∧ (g.circuitBreaker.isAvailable now n).2 = true :=
  List.mem_filter

theorem preferred_iff {g : Gateway} {now : Time} {key n : String} :
    g.zoneRouter.Preferred (g.choices _hash now key) n ↔
      n ∈ g.choices _hash now key ∧ g.Nearest _hash now key n := by
  refine and_congr_right fun hn => ?_
  have ha := (mem_choices _hash).mp hn
  have hidx : ∀ m, (g.circuitBreaker.isAvailable now m).2 = true →
      ((g.choices _hash now key).idxOf n ≤ (g.choices _hash now key).idxOf m ↔
        (g.replicas _hash key).idxOf n ≤ (g.replicas _hash key).idxOf m) :=
    fun m hm => idxOf_filter_le_iff (p := fun x => (g.circuitBreaker.isAvailable now x).2) ha.2 hm
  constructor
  · intro h m hm hav
    rcases h m ((mem_choices _hash).mpr ⟨hm, hav⟩) with hlt | ⟨heq, hle⟩
    · exact Or.inl hlt
    · exact Or.inr ⟨heq, (hidx m hav).mp hle⟩
  · intro h m hm
    obtain ⟨hm, hav⟩ := (mem_choices _hash).mp hm
    rcases h m hm hav with hlt | ⟨heq, hle⟩
    · exact Or.inl hlt
    · exact Or.inr ⟨heq, (hidx m hav).mpr hle⟩

/-- At most one replica is preferred. -/
theorem preferred_unique {zr : ZoneRouter} {replicas : List String} {n m : String}
    (hn : zr.Preferred replicas n) (hm : zr.Preferred replicas m) : n = m := by
  have hne : replicas ≠ [] := List.ne_nil_of_mem hn.1
  have hpn : zr.pickReplica replicas none n = some n := (ZoneRouter.pickReplica_iff hne).mpr hn
  have hpm : zr.pickReplica replicas none n = some m := (ZoneRouter.pickReplica_iff hne).mpr hm
  exact Option.some.inj (hpn.symm.trans hpm)

/-- A GET contacts the nearest of the available replicas, if that is registered. -/
theorem contacted_iff {g : Gateway} {now : Time} {key : String} {xClientZone : Option String}
    {n : String} : g.contacted _hash now key xClientZone = some n ↔
      g.Registered n ∧ g.zoneRouter.Preferred (g.choices _hash now key) n := by
  unfold contacted
  rcases getKey_cases _hash g now key xClientZone with ⟨hnone, e, _, h⟩ | ⟨m, _, hm, h⟩
  · rw [h]
    refine iff_of_false (by simp) fun hp => ?_
    have hmem := hp.2.1
    rw [hnone] at hmem
    cases hmem
  · rw [h]
    by_cases hr : g.Registered m
    · obtain ⟨request, hsend⟩ := send_of_registered (g := g.asked _hash now key)
        ⟨.getKey, m, key, xClientZone⟩ hr .GET none
      rw [hsend]
      constructor
      · intro hn
        have hmn : m = n := Option.some.inj hn
        rw [← hmn]
        exact ⟨hr, hm⟩
      · intro hn
        exact congrArg some (preferred_unique hm hn.2)
    · have hsend := send_of_not_registered (g := g.asked _hash now key)
        ⟨.getKey, m, key, xClientZone⟩ hr .GET none
      rw [hsend]
      refine iff_of_false (by simp) fun hn => ?_
      rw [preferred_unique hn.2 hm] at hn
      exact hr hn.1

/-- A GET starts a probe of every replica that has cooled down, contacted or not. -/
theorem view_handleGet {g : Gateway} {now : Time} {key : String} {xClientZone : Option String}
    {returned : Time} {outcome : Outcome} {n : String}
    (hn : g.contacted _hash now key xClientZone ≠ some n) :
    (g.handleGet _hash now key xClientZone returned outcome).circuitBreaker.view n =
      if n ∈ g.replicas _hash key ∧ g.circuitBreaker.CooledDown now n then (.HALF_OPEN, 0)
      else g.circuitBreaker.view n := by
  have hbreaker := (getKey_breaker _hash g now key xClientZone).2
  have hview := view_availableReplicas g.circuitBreaker now (g.replicas _hash key) n
  rw [availableReplicas_eq] at hview
  unfold contacted at hn
  unfold handleGet
  rw [← hview]
  cases h : g.getKey _hash now key xClientZone with
  | mk g' result =>
    rw [h] at hn hbreaker
    dsimp only at hbreaker
    cases result with
    | error e =>
      dsimp only
      rw [hbreaker]
    | ok sent =>
      have hother : n ≠ sent.1.nodeId := fun he => hn (congrArg some he.symm)
      have hreply := (reply_fields g' returned sent.1 outcome).2.1
      dsimp only
      rw [hreply, view_callNodeFinish hother, hbreaker]

end reads

/-- Two replicas, the circuit of the second one open. -/
def failedReplica : Gateway where
  __ := ((init 10 3 1 30).registerNode String.length 0 "a" "h" 1 "z" 5).registerNode
    String.length 0 "bb" "h" 2 "z" 5
  circuitBreaker := (CircuitBreaker.init 1 30).run [.recordFailure 0 "bb"]

section pins

variable (_hash : String → Nat)

/-- A GET is sent to the primary, or refused, as long as its write is pinned. -/
def ReadYourWrites (g₀ : Gateway) (events : List Event) : Prop :=
  ∀ past now key xClientZone rest g p,
    events = past ++ .getKey now key xClientZone :: rest →
    runs (step _hash) g₀ past = some g →
    g.clusterManager.getNodeForKey _hash key = some p →
    (g.zoneRouter.isPinnedToPrimary now key p).2 = true →
    (∃ e : HTTPException, (g.getKey _hash now key xClientZone).2 = .error e ∧
      e.statusCode = 503) ∨
    g.contacted _hash now key xClientZone = some p

/-- The replicas other than the primary give the read no reason to leave it. -/
def PrimaryWins (g : Gateway) (now : Time) (key p : String) : Prop :=
  (∀ m ∈ g.replicas _hash key, (g.circuitBreaker.isAvailable now m).2 = false) ∨
  (g.circuitBreaker.isAvailable now p).2 = true ∧
    ∀ m ∈ g.replicas _hash key, (g.circuitBreaker.isAvailable now m).2 = true →
      g.zoneRouter.latency p ≤ g.zoneRouter.latency m

instance (g : Gateway) (now : Time) (key p : String) : Decidable (g.PrimaryWins _hash now key p) :=
  inferInstanceAs (Decidable (_ ∨ _ ∧ _))

theorem choices_eq_nil {g : Gateway} {now : Time} {key : String} :
    g.choices _hash now key = [] ↔
      ∀ m ∈ g.replicas _hash key, (g.circuitBreaker.isAvailable now m).2 = false := by
  rw [choices, List.filter_eq_nil_iff]
  refine forall₂_congr fun m _ => ?_
  rw [Bool.not_eq_true]

/-- In a state whose ring is registered, a GET is refused or contacts a node. -/
theorem refused_iff {g : Gateway} (hg : g.clusterManager.RoutingInv) {now : Time} {key : String}
    {xClientZone : Option String} :
    (∃ e : HTTPException, (g.getKey _hash now key xClientZone).2 = .error e ∧
      e.statusCode = 503) ↔ g.choices _hash now key = [] := by
  rcases getKey_cases _hash g now key xClientZone with ⟨hnone, e, he, h⟩ | ⟨m, hne, hm, h⟩
  · rw [h]
    exact iff_of_true ⟨e, rfl, he⟩ hnone
  · have hr : g.Registered m := registered_of_replica _hash hg ((mem_choices _hash).mp hm.1).1
    obtain ⟨request, hsend⟩ := send_of_registered (g := g.asked _hash now key)
        ⟨.getKey, m, key, xClientZone⟩ hr .GET none
    rw [h, hsend]
    refine iff_of_false ?_ hne
    intro ⟨e, he, _⟩
    cases he

/-- Where the read of a key goes, against its primary. -/
theorem goes_to_primary_iff {g : Gateway} (hg : g.clusterManager.RoutingInv) {now : Time}
    {key : String} {xClientZone : Option String} {p : String}
    (hp : g.clusterManager.getNodeForKey _hash key = some p) :
    ((∃ e : HTTPException, (g.getKey _hash now key xClientZone).2 = .error e ∧
      e.statusCode = 503) ∨ g.contacted _hash now key xClientZone = some p) ↔
      g.PrimaryWins _hash now key p := by
  rw [refused_iff _hash hg, choices_eq_nil, contacted_iff]
  refine or_congr_right' fun hsome => ?_
  have hne : g.replicas _hash key ≠ [] := by
    intro hnil
    apply hsome
    rw [hnil]
    simp
  have hhead : (g.replicas _hash key).head? = some p :=
    (ClusterManager.head?_getReplicasForKey _hash hne).trans hp
  have hmem : p ∈ g.replicas _hash key := List.mem_of_mem_head? hhead
  have hr : g.Registered p := registered_of_replica _hash hg hmem
  have hfirst : ∀ m, (g.replicas _hash key).idxOf p ≤ (g.replicas _hash key).idxOf m := by
    intro m
    obtain ⟨rest, hrest⟩ := List.head?_eq_some_iff.mp hhead
    rw [hrest, List.idxOf_cons_self]
    exact Nat.zero_le _
  rw [preferred_iff, mem_choices]
  constructor
  · intro ⟨_, ⟨_, hav⟩, hnear⟩
    refine ⟨hav, fun m hm hm' => ?_⟩
    rcases hnear m hm hm' with hlt | ⟨heq, _⟩
    · exact hlt.le
    · exact heq.le
  · intro ⟨hav, hle⟩
    refine ⟨hr, ⟨hmem, hav⟩, fun m hm hm' => ?_⟩
    rcases lt_or_eq_of_le (hle m hm hm') with hlt | heq
    · exact Or.inl hlt
    · exact Or.inr ⟨heq, hfirst m⟩

/-- Reads see the pinned writes exactly in the runs in which breaker and latencies happen to
prefer the primary at every GET of a pinned key. -/
theorem read_your_writes_iff (heartbeatTimeoutS replicationFactor : Int) (g₀ : Gateway)
    (hstart : g₀.clusterManager = ClusterManager.init heartbeatTimeoutS replicationFactor)
    (events : List Event) :
    ReadYourWrites _hash g₀ events ↔
      ∀ past now key xClientZone rest g p,
        events = past ++ .getKey now key xClientZone :: rest →
        runs (step _hash) g₀ past = some g →
        g.clusterManager.getNodeForKey _hash key = some p →
        (g.zoneRouter.isPinnedToPrimary now key p).2 = true →
        g.PrimaryWins _hash now key p := by
  have hinv : ∀ past g, runs (step _hash) g₀ past = some g → g.clusterManager.RoutingInv := by
    intro past g hrun
    refine routingInv_runs _hash ?_ hrun
    rw [hstart]
    exact ClusterManager.routingInv_init heartbeatTimeoutS replicationFactor
  constructor
  · intro h past now key xClientZone rest g p hsplit hrun hp hpin
    exact (goes_to_primary_iff _hash (hinv past g hrun) hp).mp
      (h past now key xClientZone rest g p hsplit hrun hp hpin)
  · intro h past now key xClientZone rest g p hsplit hrun hp hpin
    exact (goes_to_primary_iff _hash (hinv past g hrun) hp).mpr
      (h past now key xClientZone rest g p hsplit hrun hp hpin)

end pins

/-- Two replicas, the second one nearer; a write that is acknowledged, and a read right after. -/
def writtenThenRead (latencyMs : ℚ) : List Event := [
  .registerNode 0 "a" "h" 1 "z" 5, .registerNode 0 "bb" "h" 2 "z" 5,
  .updateLatency "bb" latencyMs, .putKey 1 "k" ⟨"v", none⟩ none,
  .reply 1 ⟨.putKey, "a", "k", none⟩ (.response ⟨201, some .null⟩), .getKey 1 "k" none]

theorem read_your_writes_far_replica :
    ReadYourWrites String.length (init 10 3 5 30) (writtenThenRead 200) := by
  refine (read_your_writes_iff String.length 10 3 (init 10 3 5 30) rfl _).mpr ?_
  intro past now key xClientZone rest g p hsplit hrun hp _
  obtain ⟨hpast, hget⟩ := split_at hsplit
  -- the only read of the run is its last event
  have hlast : past.length = 5 := by
    generalize past.length = n at hget
    rcases n with _ | _ | _ | _ | _ | _ | n <;> simp [writtenThenRead] at hget ⊢
  have hstate : (runs (step String.length) (init 10 3 5 30) ((writtenThenRead 200).take 5)).map
      (fun g => (g.clusterManager.getNodeForKey String.length "k",
        decide (g.PrimaryWins String.length 1 "k" "a"))) = some (some "a", true) := by
    decide +kernel
  rw [hlast] at hpast hget
  rw [← hpast, hrun, Option.map_some, Option.some.injEq, Prod.mk.injEq, decide_eq_true_eq] at hstate
  have hread : Event.getKey 1 "k" none = .getKey now key xClientZone := Option.some.inj hget
  cases hread
  rw [hstate.1] at hp
  cases hp
  exact hstate.2

/-- The read of a pinned key goes to the nearer replica. -/
theorem pinned_read_elsewhere :
    ¬ReadYourWrites String.length (init 10 3 5 30) (writtenThenRead 5) := by
  intro h
  have hstate : (runs (step String.length) (init 10 3 5 30) ((writtenThenRead 5).take 5)).map
      (fun g => (g.clusterManager.getNodeForKey String.length "k",
        (g.zoneRouter.isPinnedToPrimary 1 "k" "a").2,
        g.contacted String.length 1 "k" none)) = some (some "a", true, some "bb") := by
    decide +kernel
  obtain ⟨g, hrun, hg⟩ := Option.map_eq_some_iff.mp hstate
  rw [Prod.mk.injEq, Prod.mk.injEq] at hg
  obtain ⟨hp, hpin, hcontacted⟩ := hg
  rcases h _ 1 "k" none [] g "a" rfl hrun hp hpin with ⟨e, he, _⟩ | hprimary
  · rw [contacted, he] at hcontacted
    cases hcontacted
  · rw [hcontacted] at hprimary
    exact absurd hprimary (by decide)

end Gateway

end SelfHealingCache
