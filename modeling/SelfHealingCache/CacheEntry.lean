import Mathlib.Data.List.Basic

namespace SelfHealingCache

/-- `steady_clock::time_point`, counted in nanoseconds. -/
abbrev TimePoint := Int

/-- `std::chrono::seconds(n)` in ticks of the clock. -/
def seconds (n : UInt32) : Int := n.toNat * 1000000000

structure CacheEntry (κ ν : Type) where
  key : κ
  value : ν
  expiresAt : Option TimePoint
  deriving DecidableEq

structure CacheMetrics where
  hits : UInt64 := 0
  misses : UInt64 := 0
  evictions : UInt64 := 0
  expirations : UInt64 := 0
  totalPuts : UInt64 := 0
  totalDels : UInt64 := 0
  deriving DecidableEq

namespace CacheMetrics

def addHit (m : CacheMetrics) : CacheMetrics := { m with hits := m.hits + 1 }

def addMiss (m : CacheMetrics) : CacheMetrics := { m with misses := m.misses + 1 }

def addEviction (m : CacheMetrics) : CacheMetrics := { m with evictions := m.evictions + 1 }

def addExpiration (m : CacheMetrics) : CacheMetrics := { m with expirations := m.expirations + 1 }

def addPut (m : CacheMetrics) : CacheMetrics := { m with totalPuts := m.totalPuts + 1 }

def addDel (m : CacheMetrics) : CacheMetrics := { m with totalDels := m.totalDels + 1 }

end CacheMetrics

/-- `is_expired` at the clock reading `now`; without a deadline no reading is made. -/
def isExpired {κ ν : Type} (now : TimePoint) (entry : CacheEntry κ ν) : Bool :=
  match entry.expiresAt with
  | none => false
  | some expiresAt => expiresAt ≤ now

def effectiveTtl (defaultTtlS ttlSeconds : UInt32) : UInt32 :=
  if 0 < ttlSeconds then ttlSeconds else defaultTtlS

/-- The expiry computed at the head of `put`. -/
def putExpiry (now : TimePoint) (defaultTtlS ttlSeconds : UInt32) : Option TimePoint :=
  if 0 < effectiveTtl defaultTtlS ttlSeconds then
    some (now + seconds (effectiveTtl defaultTtlS ttlSeconds))
  else none

/-- The time `snapshot` reports: whole seconds, rounded towards zero and cast to
`uint32_t`; 0 without a deadline. -/
def remainingTtl {κ ν : Type} (now : TimePoint) (entry : CacheEntry κ ν) : UInt32 :=
  match entry.expiresAt with
  | none => 0
  | some expiresAt =>
    if 0 < (expiresAt - now).tdiv 1000000000 then
      UInt32.ofNat ((expiresAt - now).tdiv 1000000000).toNat
    else 0

theorem isExpired_mono {κ ν : Type} {entry : CacheEntry κ ν} {t t' : TimePoint} (h : t ≤ t')
    (he : isExpired t entry = true) : isExpired t' entry = true := by
  unfold isExpired at he ⊢
  split at he
  next => cases he
  next d _ =>
    have hd : d ≤ t := by simpa using he
    simpa using Int.le_trans hd h

theorem not_expired_before {κ ν : Type} {e : CacheEntry κ ν} {t now : TimePoint} (hnow : now ≤ t)
    (h : isExpired t e = false) : isExpired now e = false := by
  cases hexp : isExpired now e with
  | false => rfl
  | true =>
    have ht := isExpired_mono hnow hexp
    rw [h] at ht
    cases ht

end SelfHealingCache
