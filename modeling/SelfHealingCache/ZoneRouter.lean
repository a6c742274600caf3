import SelfHealingCache.ClusterManager
import SelfHealingCache.Firsts

namespace SelfHealingCache

structure ZoneRouter where
  latencyMap : Dict String ℚ
  recentWrites : Dict String (String × Time)

namespace ZoneRouter

def readYourWritesPinMs : ℚ := 500

def init : ZoneRouter where
  latencyMap := ∅
  recentWrites := ∅

def updateLatency (zr : ZoneRouter) (nodeId : String) (latencyMs : ℚ) : ZoneRouter :=
  match zr.latencyMap.get? nodeId with
  | none => { zr with latencyMap := zr.latencyMap.set nodeId latencyMs }
  | some old =>
    let alpha : ℚ := 3 / 10
    { zr with latencyMap := zr.latencyMap.set nodeId (alpha * latencyMs + (1 - alpha) * old) }

/-- The sort key of `_pick_by_latency`. -/
def latency (zr : ZoneRouter) (nodeId : String) : ℚ := (zr.latencyMap.get? nodeId).getD 100

/-- The sort of Python is stable; `None` is returned for no nodes. -/
def pickByLatency (zr : ZoneRouter) (nodes : List String) : Option String :=
  (nodes.insertionSort fun a b => zr.latency a ≤ zr.latency b).head?

def pickReplica (zr : ZoneRouter) (replicas : List String) (clientZone : Option String)
    (primary : String) : Option String :=
  if replicas = [] then some primary
  else if clientZone = none ∨ clientZone = some "" then zr.pickByLatency replicas
  else zr.pickByLatency replicas

def pinWrite (zr : ZoneRouter) (now : Time) (key primary _clientZone : String) : ZoneRouter :=
  { zr with recentWrites := zr.recentWrites.set key (primary, now) }

/-- The write is older than the window of the pin. -/
def Expired (now writeTime : Time) : Prop := readYourWritesPinMs < (now - writeTime) * 1000

instance (now writeTime : Time) : Decidable (Expired now writeTime) :=
  inferInstanceAs (Decidable (readYourWritesPinMs < (now - writeTime) * 1000))

/-- Returns the new state and the answer. -/
def isPinnedToPrimary (zr : ZoneRouter) (now : Time) (key primary : String) :
    ZoneRouter × Bool :=
  match zr.recentWrites.get? key with
  | none => (zr, false)
  | some (pinnedNode, writeTime) =>
    if pinnedNode ≠ primary then (zr, false)
    else if Expired now writeTime then
      ({ zr with recentWrites := zr.recentWrites.erase key }, false)
    else (zr, true)

/-- Returns the new state and the number of pins removed. -/
def cleanupExpiredPins (zr : ZoneRouter) (now : Time) : ZoneRouter × Nat :=
  let expiredKeys :=
    (zr.recentWrites.items.filter fun p => Expired now p.2.2).map Prod.fst
  ({ zr with recentWrites := expiredKeys.foldl Dict.erase zr.recentWrites }, expiredKeys.length)

theorem pickByLatency_eq (zr : ZoneRouter) (nodes : List String) :
    zr.pickByLatency nodes = nodes.argmin zr.latency := head?_insertionSort zr.latency nodes

theorem pickReplica_eq {zr : ZoneRouter} {replicas : List String} (h : replicas ≠ [])
    (clientZone : Option String) (primary : String) :
    zr.pickReplica replicas clientZone primary = replicas.argmin zr.latency := by
  rw [pickReplica, if_neg h, ite_self, pickByLatency_eq]

/-- The replica is read in preference to all others: it has the lowest latency, and among those
with this latency it comes first. -/
def Preferred (zr : ZoneRouter) (replicas : List String) (n : String) : Prop :=
  n ∈ replicas ∧ ∀ m ∈ replicas, zr.latency n < zr.latency m ∨
    zr.latency n = zr.latency m ∧ replicas.idxOf n ≤ replicas.idxOf m

theorem pickReplica_iff {zr : ZoneRouter} {replicas : List String} (h : replicas ≠ [])
    {clientZone : Option String} {primary n : String} :
    zr.pickReplica replicas clientZone primary = some n ↔ zr.Preferred replicas n := by
  rw [pickReplica_eq h, ← Option.mem_def, List.mem_argmin_iff]
  constructor
  · intro ⟨hn, hle, hfirst⟩
    refine ⟨hn, fun m hm => ?_⟩
    rcases lt_or_eq_of_le (hle m hm) with hlt | heq
    · exact Or.inl hlt
    · exact Or.inr ⟨heq, hfirst m hm heq.ge⟩
  · intro ⟨hn, hbest⟩
    refine ⟨hn, fun m hm => ?_, fun m hm hge => ?_⟩
    · rcases hbest m hm with hlt | ⟨heq, _⟩
      · exact hlt.le
      · exact heq.le
    · rcases hbest m hm with hlt | ⟨_, hfirst⟩
      · exact absurd hge (not_le.mpr hlt)
      · exact hfirst

/-- Some replica is read as long as one is left. -/
theorem exists_preferred (zr : ZoneRouter) {replicas : List String} (h : replicas ≠ [])
    (clientZone : Option String) (primary : String) :
    ∃ n, zr.pickReplica replicas clientZone primary = some n ∧ n ∈ replicas := by
  cases hp : zr.pickReplica replicas clientZone primary with
  | none =>
    rw [pickReplica_eq h, List.argmin_eq_none] at hp
    exact absurd hp h
  | some n => exact ⟨n, rfl, ((pickReplica_iff h).mp hp).1⟩

end ZoneRouter

end SelfHealingCache
