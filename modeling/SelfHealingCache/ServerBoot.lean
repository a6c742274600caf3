import SelfHealingCache.CacheServer
import SelfHealingCache.DecimalText

namespace SelfHealingCache

/-- The environment of the process. -/
abbrev Environment := String → Option Bytes

def envOr (env : Environment) (name : String) (fallback : Bytes) : Bytes :=
  (env name).getD fallback

/-- `std::stoi`; `none` where it throws. -/
def stoi (s : Bytes) : Option Int32 := do
  let n ← strtol s
  if -2 ^ 31 ≤ n ∧ n < 2 ^ 31 then some (Int32.ofInt n) else none

def envInt (env : Environment) (name : String) (fallback : Int32) : Int32 :=
  match env name with
  | none => fallback
  | some val => (stoi val).getD fallback

/-- `static_cast<size_t>`. -/
def toSize (n : Int32) : Nat := (n.toInt % 2 ^ 64).toNat

/-- The configuration with the members that only the threads read. -/
structure BootConfig extends NodeConfig where
  clusterManagerUrl : Bytes
  heartbeatIntervalS : UInt32
  purgeIntervalS : UInt32

/-- The configuration that `main` reads. -/
def mainConfig (env : Environment) : BootConfig where
  nodeId := envOr env "NODE_ID" (text "node-1")
  host := envOr env "NODE_HOST" (text "0.0.0.0")
  port := envInt env "NODE_PORT" 8001
  zone := envOr env "NODE_ZONE" (text "default")
  cacheCapacity := toSize (envInt env "CACHE_CAPACITY" 1000)
  defaultTtlS := (envInt env "DEFAULT_TTL_S" 0).toUInt32
  clusterManagerUrl := envOr env "CLUSTER_MANAGER" (text "http://gateway:8000")
  heartbeatIntervalS := (envInt env "HEARTBEAT_S" 5).toUInt32
  purgeIntervalS := (envInt env "PURGE_INTERVAL_S" 30).toUInt32

/-- The server that `main` starts, or the exception that ends it with status 1. -/
def boot (env : Environment) : Except String CacheServer :=
  CacheServer.construct (mainConfig env).toNodeConfig

/-- What a variable stands for where a number is expected. -/
inductive Setting (env : Environment) (name : String) (fallback : Int32) : Int32 → Prop
  | unset : env name = none → Setting env name fallback fallback
  | number (val : Bytes) (n : Int32) : env name = some val → Denotes val n.toInt →
      Setting env name fallback n
  | no_number (val : Bytes) : env name = some val → (∀ n, ¬Denotes val n) →
      Setting env name fallback fallback
  | too_large (val : Bytes) (n : Int) : env name = some val → Denotes val n →
      n < -2 ^ 31 ∨ 2 ^ 31 ≤ n → Setting env name fallback fallback

section settings

variable {env : Environment} {name : String} {fallback n : Int32}

theorem int32_range (n : Int32) : -2 ^ 31 ≤ n.toInt ∧ n.toInt < 2 ^ 31 :=
  ⟨n.le_toInt, n.toInt_lt⟩

/-- `stoi` reads the number at the start of the text if it is an `int`. -/
theorem stoi_iff {s : Bytes} : stoi s = some n ↔ Denotes s n.toInt := by
  unfold stoi
  constructor
  · intro h
    obtain ⟨m, hm, h⟩ := Option.bind_eq_some_iff.mp h
    split at h
    next hrange =>
      have hn : (Int32.ofInt m).toInt = m := Int32.toInt_ofInt_of_le hrange.1 hrange.2
      rw [← Option.some.inj h, hn]
      exact strtol_iff.mp hm
    next => cases h
  · intro h
    refine Option.bind_eq_some_iff.mpr ⟨n.toInt, strtol_iff.mpr h, ?_⟩
    rw [if_pos (int32_range n), Int32.ofInt_toInt]

theorem envInt_iff : envInt env name fallback = n ↔ Setting env name fallback n := by
  unfold envInt
  constructor
  · rintro rfl
    split
    next hval => exact .unset hval
    next val hval =>
      cases hstoi : stoi val with
      | some m => exact .number val m hval (stoi_iff.mp hstoi)
      | none =>
        by_cases hnone : ∃ m, Denotes val m
        · obtain ⟨m, hm⟩ := hnone
          refine .too_large val m hval hm ?_
          by_contra hrange
          have hin : -2 ^ 31 ≤ m ∧ m < 2 ^ 31 := by omega
          have hread : stoi val = some (Int32.ofInt m) := by
            rw [stoi_iff, Int32.toInt_ofInt_of_le hin.1 hin.2]
            exact hm
          rw [hstoi] at hread
          cases hread
        · exact .no_number val hval fun m hm => hnone ⟨m, hm⟩
  · intro h
    cases h with
    | unset hval => rw [hval]
    | number val n hval hn =>
      rw [hval]
      dsimp only
      rw [stoi_iff.mpr hn, Option.getD_some]
    | no_number val hval hnone =>
      rw [hval]
      cases hstoi : stoi val with
      | none =>
        dsimp only
        rw [hstoi, Option.getD_none]
      | some m => exact absurd (stoi_iff.mp hstoi) (hnone _)
    | too_large val m hval hm hrange =>
      rw [hval]
      cases hstoi : stoi val with
      | none =>
        dsimp only
        rw [hstoi, Option.getD_none]
      | some k =>
        have hk := int32_range k
        rw [denotes_unique hm (stoi_iff.mp hstoi)] at hrange
        omega

end settings

theorem toSize_eq (n : Int32) :
    (toSize n : Int) = if 0 ≤ n.toInt then n.toInt else 2 ^ 64 + n.toInt := by
  have hrange := int32_range n
  unfold toSize
  split <;> omega

theorem toSize_eq_zero {n : Int32} : toSize n = 0 ↔ n = 0 := by
  have hrange := int32_range n
  rw [← Int32.toInt_inj]
  unfold toSize
  have hzero : (0 : Int32).toInt = 0 := rfl
  omega

theorem to_uint32_eq (n : Int32) : (n.toUInt32.toNat : Int) =
    if 0 ≤ n.toInt then n.toInt else 2 ^ 32 + n.toInt := by
  have hbits : n.toInt = if 2 * n.toUInt32.toNat < 2 ^ 32 then (n.toUInt32.toNat : Int)
      else (n.toUInt32.toNat : Int) - 2 ^ 32 := BitVec.toInt_eq_toNat_cond n.toBitVec
  have hlt : n.toUInt32.toNat < 2 ^ 32 := n.toUInt32.toNat_lt
  rw [hbits]
  split <;> split <;> omega

theorem boot_ok {env : Environment} :
    (∃ server, boot env = .ok server) ↔ envInt env "CACHE_CAPACITY" 1000 ≠ 0 := by
  have hcapacity : (mainConfig env).cacheCapacity =
      toSize (envInt env "CACHE_CAPACITY" 1000) := rfl
  rw [ne_eq, ← toSize_eq_zero, ← hcapacity]
  unfold boot CacheServer.construct LRUCache.construct
  constructor
  · rintro ⟨server, h⟩ hzero
    rw [if_pos hzero] at h
    cases h
  · intro hpos
    rw [if_neg hpos]
    exact ⟨_, rfl⟩

theorem boot_cache {env : Environment} {server : CacheServer} (h : boot env = .ok server) :
    server.config_ = (mainConfig env).toNodeConfig ∧
      server.cache_.capacity_ = toSize (envInt env "CACHE_CAPACITY" 1000) ∧
      server.cache_.defaultTtlS_ = (envInt env "DEFAULT_TTL_S" 0).toUInt32 := by
  unfold boot CacheServer.construct LRUCache.construct at h
  split at h
  next => cases h
  next cache hcache =>
    cases h
    split at hcache
    next => cases hcache
    next =>
      cases hcache
      exact ⟨rfl, rfl, rfl⟩

/-- A node starts unless its capacity reads as zero, and runs with what its variables stand for;
negative numbers wrap around. -/
theorem boot_settings (env : Environment) :
    (∀ name fallback n, envInt env name fallback = n ↔ Setting env name fallback n) ∧
    (∀ name fallback (n : Int32), env name = some (text (toString n.toInt)) →
      envInt env name fallback = n) ∧
    ((∃ server, boot env = .ok server) ↔ ¬Setting env "CACHE_CAPACITY" 1000 0) ∧
    ∀ server, boot env = .ok server → ∃ capacity ttl : Int32,
      Setting env "CACHE_CAPACITY" 1000 capacity ∧ Setting env "DEFAULT_TTL_S" 0 ttl ∧
      Setting env "NODE_PORT" 8001 server.config_.port ∧
      (server.cache_.capacity_ : Int) =
        (if 0 ≤ capacity.toInt then capacity.toInt else 2 ^ 64 + capacity.toInt) ∧
      (server.cache_.defaultTtlS_.toNat : Int) =
        (if 0 ≤ ttl.toInt then ttl.toInt else 2 ^ 32 + ttl.toInt) := by
  refine ⟨fun name fallback n => envInt_iff, fun name fallback n hval => ?_, ?_,
    fun server hserver => ?_⟩
  · exact envInt_iff.mpr (.number _ n hval (denotes_toString n.toInt))
  · rw [boot_ok, ne_eq, envInt_iff]
  · obtain ⟨hconfig, hcapacity, httl⟩ := boot_cache hserver
    refine ⟨_, _, envInt_iff.mp rfl, envInt_iff.mp rfl, ?_, ?_, ?_⟩
    · rw [hconfig]
      exact envInt_iff.mp rfl
    · rw [hcapacity]
      exact toSize_eq _
    · rw [httl]
      exact to_uint32_eq _

/-- A negative capacity with something behind it. -/
def minusOne : Environment :=
  fun name => if name = "CACHE_CAPACITY" then some (text " -1x") else none

theorem boot_settings_minus_one : ∃ server, boot minusOne = .ok server ∧
    (server.cache_.capacity_ : Int) = 2 ^ 64 - 1 := by
  obtain ⟨hread, _, hstarts, hserver⟩ := boot_settings minusOne
  have hvalue : envInt minusOne "CACHE_CAPACITY" 1000 = -1 := by decide +kernel
  have hpos : ¬Setting minusOne "CACHE_CAPACITY" 1000 0 := by
    rw [← hread, hvalue]
    decide
  obtain ⟨server, hboot⟩ := hstarts.mpr hpos
  obtain ⟨capacity, ttl, hcapacity, _, _, hsize, _⟩ := hserver server hboot
  have heq : -1 = capacity := hvalue.symm.trans ((hread _ _ _).mpr hcapacity)
  refine ⟨server, hboot, ?_⟩
  rw [hsize, ← heq]
  decide

end SelfHealingCache
