import SelfHealingCache.HeartbeatRoute
import SelfHealingCache.LruAccounting
import SelfHealingCache.ServerReplies

namespace SelfHealingCache

section replies

variable (config_ : NodeConfig) (metrics : CacheMetrics) (size capacity : Nat)

/-- What `handle_health` answers. -/
def healthReply (measured : Measured) : HttpReply :=
  respond 200 (.object
    [(text "status", .string (text "alive")), (text "node_id", .string config_.nodeId),
      (text "zone", .string config_.zone), (text "port", .numberInteger config_.port.toInt),
      (text "uptime_s", .numberInteger measured.uptime),
      (text "cache_size", .numberInteger size), (text "cache_capacity", .numberInteger capacity),
      (text "hit_ratio", .numberFloat metrics.hitRatio),
      (text "memory_bytes", .numberInteger measured.memoryBytes),
      (text "timestamp", .numberInteger measured.timestamp)])

def metricsToJson (memoryBytes : Nat) (totalRequests : UInt64) : JsonValue :=
  .object
    [(text "node_id", .string config_.nodeId), (text "zone", .string config_.zone),
      (text "hits", .numberInteger metrics.hits.toNat),
      (text "misses", .numberInteger metrics.misses.toNat),
      (text "evictions", .numberInteger metrics.evictions.toNat),
      (text "expirations", .numberInteger metrics.expirations.toNat),
      (text "total_puts", .numberInteger metrics.totalPuts.toNat),
      (text "total_deletes", .numberInteger metrics.totalDels.toNat),
      (text "hit_ratio", .numberFloat metrics.hitRatio),
      (text "cache_size", .numberInteger size), (text "cache_capacity", .numberInteger capacity),
      (text "memory_bytes", .numberInteger memoryBytes),
      (text "total_requests", .numberInteger totalRequests.toNat)]

/-- What `handle_metrics` answers. -/
def metricsReply (memoryBytes : Nat) (totalRequests : UInt64) : HttpReply :=
  respond 200 (metricsToJson config_ metrics size capacity memoryBytes totalRequests)

end replies

/-- A request to `/cache` that has been answered. -/
structure Served where
  method : Method
  status : Nat
  deriving DecidableEq

/-- A request to `/cache` that has been counted and not been answered. -/
inductive Begun
  | get (key : Bytes)
  | put (key : Bytes) (body : Option Document)
  | stores (put : WaitingPut)
  | delete (key : Bytes)

inductive Report
  | health
  | metrics

/-- A report under way: the counters are read first, then the size. -/
structure Reading where
  report : Report
  metrics : CacheMetrics
  size : Option Nat

/-- A node with its counter of requests, the requests, loads and reports under way, and the
answers and reports given. -/
structure Traffic where
  server : CacheServer
  requestCount_ : UInt64
  begun : List Begun
  loading : List (List (Bytes × Bytes × UInt32))
  loaded : Nat
  answers : List Served
  readings : List Reading
  reports : List HttpReply

/-- What can happen next: a request arrives, or one of those under way makes its next access
to the cache. -/
inductive TrafficEvent
  | get (key : Bytes)
  | put (key : Bytes) (body : Option Document)
  | delete (key : Bytes)
  | gets (i : Nat) (now : TimePoint)
  | checks (i : Nat) (now : TimePoint)
  | stores (i : Nat) (now : TimePoint)
  | deletes (i : Nat)
  | bulkLoad (body : Option Document)
  | loads (i : Nat) (now : TimePoint)
  | purgeExpired (now : Nat → TimePoint)
  | report (report : Report)
  | sizes (i : Nat)
  | writes (i : Nat) (measured : Measured)

namespace Traffic

def start (server : CacheServer) : Traffic := ⟨server, 0, [], [], 0, [], [], []⟩

/-- The requests to `/cache` so far. -/
def dispatched (s : Traffic) : Nat := s.begun.length + s.answers.length

def beginRequest (s : Traffic) (request : Begun) : Traffic :=
  { s with requestCount_ := s.requestCount_ + 1, begun := s.begun ++ [request] }

def answer (s : Traffic) (i : Nat) (server : CacheServer) (served : Served) : Traffic :=
  { s with server := server, begun := s.begun.eraseIdx i, answers := s.answers ++ [served] }

def step (s : Traffic) : TrafficEvent → Option Traffic
  | .get key => some (s.beginRequest (.get key))
  | .put key body => some (s.beginRequest (.put key body))
  | .delete key => some (s.beginRequest (.delete key))
  | .gets i now =>
    match s.begun[i]? with
    | some (.get key) => do
      let (server, reply) ← s.server.handleGet now key
      some (s.answer i server ⟨.GET, reply.status⟩)
    | _ => none
  | .checks i now =>
    match s.begun[i]? with
    | some (.put key body) =>
      match parsePut body with
      | .error reply => some (s.answer i s.server ⟨.PUT, reply.status⟩)
      | .ok (value, ttl) => do
        let existed ← s.server.cache_.contains now key
        some { s with begun := s.begun.set i (.stores ⟨key, value, ttl, existed⟩) }
    | _ => none
  | .stores i now =>
    match s.begun[i]? with
    | some (.stores put) => do
      let cache ← s.server.cache_.put now put.key put.value put.ttl
      some (s.answer i { s.server with cache_ := cache }
        ⟨.PUT, (putReply s.server.config_ put.key put.existed).status⟩)
    | _ => none
  | .deletes i =>
    match s.begun[i]? with
    | some (.delete key) => do
      let (server, reply) ← s.server.handleDelete key
      some (s.answer i server ⟨.DELETE, reply.status⟩)
    | _ => none
  | .bulkLoad body =>
    match parseLoad body with
    | .error _ => some s
    | .ok entries => some { s with loading := s.loading ++ [entries] }
  | .loads i now =>
    match s.loading[i]? with
    | some ((key, value, ttl) :: entries) => do
      let cache ← s.server.cache_.put now key value ttl
      some
        { s with
          server := { s.server with cache_ := cache }
          loading := s.loading.set i entries
          loaded := s.loaded + 1 }
    | _ => none
  | .purgeExpired now => do
    let (server, _) ← s.server.handlePurgeExpired now
    some { s with server := server }
  | .report report =>
    some { s with readings := s.readings ++ [⟨report, s.server.cache_.metrics_, none⟩] }
  | .sizes i =>
    match s.readings[i]? with
    | some ⟨report, metrics, none⟩ =>
      some
        { s with
          readings := s.readings.set i ⟨report, metrics, some s.server.cache_.map_.size⟩ }
    | _ => none
  | .writes i measured =>
    match s.readings[i]? with
    | some ⟨report, metrics, some size⟩ =>
      let reply :=
        match report with
        | .health =>
          healthReply s.server.config_ metrics size s.server.cache_.capacity_ measured
        | .metrics =>
          metricsReply s.server.config_ metrics size s.server.cache_.capacity_
            measured.memoryBytes s.requestCount_
      some { s with readings := s.readings.eraseIdx i, reports := s.reports ++ [reply] }
    | _ => none

end Traffic

/-- The counters agree with the answers; a request answered 500 may have been counted. -/
structure Shown (metrics : CacheMetrics) (answers : List Served) (loaded : Nat) : Prop where
  reads : ∃ found ≤ answers.count ⟨.GET, 500⟩,
    metrics.hits = UInt64.ofNat (answers.count ⟨.GET, 200⟩ + found) ∧
    metrics.misses =
      UInt64.ofNat (answers.count ⟨.GET, 404⟩ + (answers.count ⟨.GET, 500⟩ - found))
  puts : ∃ stored ≤ answers.count ⟨.PUT, 500⟩, metrics.totalPuts = UInt64.ofNat
    (answers.count ⟨.PUT, 200⟩ + answers.count ⟨.PUT, 201⟩ + stored + loaded)
  dels : ∃ removed ≤ answers.count ⟨.DELETE, 500⟩,
    metrics.totalDels = UInt64.ofNat (answers.count ⟨.DELETE, 200⟩ + removed)

/-- The counters are those of a moment up to which some of these answers had been given. -/
def Seen (metrics : CacheMetrics) (answers : List Served) (loaded : Nat) : Prop :=
  ∃ before loadedBefore, before.IsPrefix answers ∧ loadedBefore ≤ loaded ∧
    Shown metrics before loadedBefore

section counters

/-- Different values occur in different places. -/
theorem sum_count_le {α : Type} [DecidableEq α] (values : List α) (hnodup : values.Nodup)
    (xs : List α) : (values.map fun a => xs.count a).sum ≤ xs.length := by
  induction values generalizing xs with
  | nil => simp
  | cons a values ih =>
    obtain ⟨ha, hrest⟩ := List.nodup_cons.mp hnodup
    have hcounts : (values.map fun b => xs.count b) =
        values.map fun b => (xs.filter fun x => x ≠ a).count b := by
      refine List.map_congr_left fun b hb => ?_
      have hne : b ≠ a := fun heq => ha (heq ▸ hb)
      exact (List.count_filter (by simpa using hne)).symm
    have hle := ih hrest (xs.filter fun x => x ≠ a)
    have hsplit := List.length_eq_length_filter_add (l := xs) fun x => x ≠ a
    have hcount : (xs.filter fun x => !decide (x ≠ a)).length = xs.count a := by
      rw [← List.countP_eq_length_filter, List.count]
      refine List.countP_congr fun x _ => ?_
      simp
    rw [List.map_cons, List.sum_cons, hcounts]
    omega

theorem add_one_eq {x : UInt64} {n m : Nat} (hx : x = UInt64.ofNat n) (hm : m = n + 1) :
    x + 1 = UInt64.ofNat m := by
  rw [hx, hm, UInt64.ofNat_add, UInt64.ofNat_one]

variable {metrics metrics' : CacheMetrics} {answers : List Served} {loaded status : Nat}

/-- The counted reads and removals are among the answers. -/
theorem Shown.le_answers (h : Shown metrics answers loaded) :
    metrics.hits.toNat + metrics.misses.toNat + metrics.totalDels.toNat ≤ answers.length := by
  obtain ⟨found, hfound, hhits, hmisses⟩ := h.reads
  obtain ⟨removed, hremoved, hdels⟩ := h.dels
  have hcount := sum_count_le [⟨.GET, 200⟩, ⟨.GET, 404⟩, ⟨.GET, 500⟩, ⟨.DELETE, 200⟩,
    ⟨.DELETE, 500⟩] (by decide) answers
  simp only [List.map_cons, List.map_nil, List.sum_cons, List.sum_nil] at hcount
  have hle : ∀ n, (UInt64.ofNat n).toNat ≤ n := fun n => by
    rw [UInt64.toNat_ofNat']
    exact Nat.mod_le _ _
  have hhits' := hle (answers.count ⟨.GET, 200⟩ + found)
  have hmisses' := hle (answers.count ⟨.GET, 404⟩ + (answers.count ⟨.GET, 500⟩ - found))
  have hdels' := hle (answers.count ⟨.DELETE, 200⟩ + removed)
  rw [hhits, hmisses, hdels]
  omega

theorem Shown.seen (h : Shown metrics answers loaded) : Seen metrics answers loaded :=
  ⟨answers, loaded, List.prefix_rfl, le_rfl, h⟩

theorem Seen.mono (h : Seen metrics answers loaded) {answers' : List Served} {loaded' : Nat}
    (hanswers : answers.IsPrefix answers') (hloaded : loaded ≤ loaded') :
    Seen metrics answers' loaded' := by
  obtain ⟨before, loadedBefore, hbefore, hle, hshown⟩ := h
  exact ⟨before, loadedBefore, hbefore.trans hanswers, hle.trans hloaded, hshown⟩

theorem Seen.le_answers (h : Seen metrics answers loaded) :
    metrics.hits.toNat + metrics.misses.toNat + metrics.totalDels.toNat ≤ answers.length := by
  obtain ⟨before, loadedBefore, hbefore, _, hshown⟩ := h
  exact hshown.le_answers.trans hbefore.length_le

theorem Shown.loads (h : Shown metrics answers loaded) (hhits : metrics'.hits = metrics.hits)
    (hmisses : metrics'.misses = metrics.misses)
    (hputs : metrics'.totalPuts = metrics.totalPuts + 1)
    (hdels : metrics'.totalDels = metrics.totalDels) : Shown metrics' answers (loaded + 1) := by
  obtain ⟨hreads, ⟨n, hn, hstored⟩, hremovals⟩ := h
  rw [← hhits, ← hmisses] at hreads
  rw [← hdels] at hremovals
  exact ⟨hreads, ⟨n, hn, hputs ▸ add_one_eq hstored (by omega)⟩, hremovals⟩

theorem Shown.congr (h : Shown metrics answers loaded) (hhits : metrics'.hits = metrics.hits)
    (hmisses : metrics'.misses = metrics.misses)
    (hputs : metrics'.totalPuts = metrics.totalPuts)
    (hdels : metrics'.totalDels = metrics.totalDels) : Shown metrics' answers loaded := by
  obtain ⟨hreads, hstores, hremovals⟩ := h
  rw [← hhits, ← hmisses] at hreads
  rw [← hputs] at hstores
  rw [← hdels] at hremovals
  exact ⟨hreads, hstores, hremovals⟩

theorem respond_status_cases (status : Nat) (body : JsonValue) :
    (respond status body).status = status ∨ (respond status body).status = 500 := by
  unfold respond
  split
  next => exact Or.inr rfl
  next => exact Or.inl rfl

theorem count_snoc (a b : Served) :
    (answers ++ [b]).count a = answers.count a + if b = a then 1 else 0 := by
  rw [List.count_append, List.count_singleton]
  simp only [beq_iff_eq]

theorem Shown.hit (h : Shown metrics answers loaded) (hhits : metrics'.hits = metrics.hits + 1)
    (hmisses : metrics'.misses = metrics.misses)
    (hputs : metrics'.totalPuts = metrics.totalPuts)
    (hdels : metrics'.totalDels = metrics.totalDels) (hstatus : status = 200 ∨ status = 500) :
    Shown metrics' (answers ++ [⟨.GET, status⟩]) loaded := by
  obtain ⟨⟨n, hn, hfound, hmissed⟩, hstores, hremovals⟩ := h
  rw [← hmisses] at hmissed
  rw [← hputs] at hstores
  rw [← hdels] at hremovals
  rcases hstatus with rfl | rfl
  · constructor <;> simp only [count_snoc, Served.mk.injEq, reduceCtorEq, Nat.reduceEqDiff,
      false_and, and_self, and_false, ↓reduceIte, Nat.add_zero]
    · exact ⟨n, hn, hhits ▸ add_one_eq hfound (by omega), hmissed⟩
    · exact hstores
    · exact hremovals
  · constructor <;> simp only [count_snoc, Served.mk.injEq, reduceCtorEq, Nat.reduceEqDiff,
      false_and, and_self, and_false, ↓reduceIte, Nat.add_zero]
    · refine ⟨n + 1, by omega, hhits ▸ add_one_eq hfound (by omega), ?_⟩
      rw [hmissed]
      congr 1
      omega
    · exact hstores
    · exact hremovals

theorem Shown.miss (h : Shown metrics answers loaded) (hhits : metrics'.hits = metrics.hits)
    (hmisses : metrics'.misses = metrics.misses + 1)
    (hputs : metrics'.totalPuts = metrics.totalPuts)
    (hdels : metrics'.totalDels = metrics.totalDels) (hstatus : status = 404 ∨ status = 500) :
    Shown metrics' (answers ++ [⟨.GET, status⟩]) loaded := by
  obtain ⟨⟨n, hn, hfound, hmissed⟩, hstores, hremovals⟩ := h
  rw [← hhits] at hfound
  rw [← hputs] at hstores
  rw [← hdels] at hremovals
  rcases hstatus with rfl | rfl
  · constructor <;> simp only [count_snoc, Served.mk.injEq, reduceCtorEq, Nat.reduceEqDiff,
      and_self, and_false, ↓reduceIte, Nat.add_zero]
    · exact ⟨n, hn, hfound, hmisses ▸ add_one_eq hmissed (by omega)⟩
    · exact hstores
    · exact hremovals
  · constructor <;> simp only [count_snoc, Served.mk.injEq, reduceCtorEq, Nat.reduceEqDiff,
      false_and, and_self, and_false, ↓reduceIte, Nat.add_zero]
    · exact ⟨n, by omega, hfound, hmisses ▸ add_one_eq hmissed (by omega)⟩
    · exact hstores
    · exact hremovals

/-- One more PUT that reached the cache. -/
theorem Shown.stored (h : Shown metrics answers loaded) (hhits : metrics'.hits = metrics.hits)
    (hmisses : metrics'.misses = metrics.misses)
    (hputs : metrics'.totalPuts = metrics.totalPuts + 1)
    (hdels : metrics'.totalDels = metrics.totalDels)
    (hstatus : status = 200 ∨ status = 201 ∨ status = 500) :
    Shown metrics' (answers ++ [⟨.PUT, status⟩]) loaded := by
  obtain ⟨hreads, ⟨n, hn, hstored⟩, hremovals⟩ := h
  rw [← hhits, ← hmisses] at hreads
  rw [← hdels] at hremovals
  rcases hstatus with rfl | rfl | rfl
  all_goals constructor
  all_goals simp only [count_snoc, Served.mk.injEq, reduceCtorEq, Nat.reduceEqDiff, false_and,
    and_self, and_false, ↓reduceIte, Nat.add_zero]
  any_goals exact hreads
  any_goals exact hremovals
  · exact ⟨n, hn, hputs ▸ add_one_eq hstored (by omega)⟩
  · exact ⟨n, hn, hputs ▸ add_one_eq hstored (by omega)⟩
  · exact ⟨n + 1, by omega, hputs ▸ add_one_eq hstored (by omega)⟩

/-- A PUT refused before it reached the cache. -/
theorem Shown.refused (h : Shown metrics answers loaded) (hstatus : status = 400 ∨ status = 500) :
    Shown metrics (answers ++ [⟨.PUT, status⟩]) loaded := by
  obtain ⟨hreads, ⟨n, hn, hstored⟩, hremovals⟩ := h
  rcases hstatus with rfl | rfl
  all_goals constructor
  all_goals simp only [count_snoc, Served.mk.injEq, reduceCtorEq, Nat.reduceEqDiff, false_and,
    and_self, and_false, ↓reduceIte, Nat.add_zero]
  any_goals exact hreads
  any_goals exact hremovals
  · exact ⟨n, hn, hstored⟩
  · exact ⟨n, by omega, hstored⟩

theorem Shown.removed (h : Shown metrics answers loaded) (hhits : metrics'.hits = metrics.hits)
    (hmisses : metrics'.misses = metrics.misses)
    (hputs : metrics'.totalPuts = metrics.totalPuts)
    (hdels : metrics'.totalDels = metrics.totalDels + 1)
    (hstatus : status = 200 ∨ status = 500) :
    Shown metrics' (answers ++ [⟨.DELETE, status⟩]) loaded := by
  obtain ⟨hreads, hstores, ⟨n, hn, hremoved⟩⟩ := h
  rw [← hhits, ← hmisses] at hreads
  rw [← hputs] at hstores
  rcases hstatus with rfl | rfl
  all_goals constructor
  all_goals simp only [count_snoc, Served.mk.injEq, reduceCtorEq, Nat.reduceEqDiff, false_and,
    and_self, and_false, ↓reduceIte, Nat.add_zero]
  any_goals exact hreads
  any_goals exact hstores
  · exact ⟨n, hn, hdels ▸ add_one_eq hremoved (by omega)⟩
  · exact ⟨n + 1, by omega, hdels ▸ add_one_eq hremoved (by omega)⟩

/-- A DELETE that found nothing. -/
theorem Shown.absent (h : Shown metrics answers loaded) (hstatus : status = 404 ∨ status = 500) :
    Shown metrics (answers ++ [⟨.DELETE, status⟩]) loaded := by
  obtain ⟨hreads, hstores, ⟨n, hn, hremoved⟩⟩ := h
  rcases hstatus with rfl | rfl
  all_goals constructor
  all_goals simp only [count_snoc, Served.mk.injEq, reduceCtorEq, Nat.reduceEqDiff, false_and,
    and_self, and_false, ↓reduceIte, Nat.add_zero]
  any_goals exact hreads
  any_goals exact hstores
  · exact ⟨n, hn, hremoved⟩
  · exact ⟨n, by omega, hremoved⟩

end counters

namespace LruStore

variable (c : LruStore Bytes Bytes) (now : TimePoint) (key : Bytes)

theorem get_metrics :
    (∃ value, (c.get now key).2 = some value ∧ (c.get now key).1.metrics = c.metrics.addHit) ∨
    (c.get now key).2 = none ∧ ((c.get now key).1.metrics = c.metrics.addMiss ∨
      (c.get now key).1.metrics = c.metrics.addMiss.addExpiration) := by
  cases hf : c.find? key with
  | none =>
    obtain ⟨hnone, hparts⟩ := get_missing hf now
    exact Or.inr ⟨hnone, Or.inl (parts_eq.mp hparts).2.2.2⟩
  | some e =>
    cases hexp : isExpired now e with
    | true =>
      obtain ⟨hnone, hparts⟩ := get_expired hf hexp
      exact Or.inr ⟨hnone, Or.inr (parts_eq.mp hparts).2.2.2⟩
    | false =>
      obtain ⟨hsome, hparts⟩ := get_hit hf hexp
      exact Or.inl ⟨e.value, hsome, (parts_eq.mp hparts).2.2.2⟩

theorem put_metrics (value : Bytes) (ttl : UInt32) :
    (c.put now key value ttl).metrics = c.metrics.addPut ∨
      (c.put now key value ttl).metrics = c.metrics.addEviction.addPut := by
  cases hf : c.find? key with
  | some e => exact Or.inl (parts_eq.mp (put_update hf now value ttl)).2.2.2
  | none =>
    have hmetrics := (parts_eq.mp (put_insert hf now value ttl)).2.2.2
    split at hmetrics
    next => exact Or.inr hmetrics
    next => exact Or.inl hmetrics

end LruStore

/-- What a report under way has read, with these answers so far. -/
structure Reading.Within (config : NodeConfig) (answers : List Served) (loaded : Nat)
    (r : Reading) : Prop where
  seen : Seen r.metrics answers loaded
  size : ∀ size, r.size = some size → size ≤ config.cacheCapacity

namespace Traffic

/-- A report whose numbers fit together: those of the counters are from a moment before these
answers were all given. -/
def Consistent (config : NodeConfig) (answers : List Served) (loaded : Nat) (reply : HttpReply) :
    Prop :=
  ∃ metrics size measured, Seen metrics answers loaded ∧ size ≤ config.cacheCapacity ∧
    metrics.hitRatio = (metrics.hits.toNat : ℚ) / (metrics.hits.toNat + metrics.misses.toNat) ∧
    (reply = healthReply config metrics size config.cacheCapacity measured ∨
      ∃ totalRequests, metrics.hits.toNat + metrics.misses.toNat + metrics.totalDels.toNat ≤
        totalRequests.toNat ∧ reply = metricsReply config metrics size config.cacheCapacity
          measured.memoryBytes totalRequests)

structure Accounted (config : NodeConfig) (s : Traffic) : Prop where
  configured : s.server.config_ = config
  holds : ∃ c, s.server.Holds c
  shown : Shown s.server.cache_.metrics_ s.answers s.loaded
  requests : s.requestCount_ = UInt64.ofNat s.dispatched
  readings : ∀ r ∈ s.readings, Reading.Within config s.answers s.loaded r
  reports : s.dispatched < 2 ^ 64 →
    ∀ reply ∈ s.reports, Consistent config s.answers s.loaded reply

/-- The hit ratio of counters that have not wrapped around. -/
theorem hitRatio_eq {m : CacheMetrics} (h : m.hits.toNat + m.misses.toNat < 2 ^ 64) :
    m.hitRatio = (m.hits.toNat : ℚ) / (m.hits.toNat + m.misses.toNat) := by
  have htotal : (m.hits + m.misses).toNat = m.hits.toNat + m.misses.toNat := by
    rw [UInt64.toNat_add, Nat.mod_eq_of_lt h]
  unfold CacheMetrics.hitRatio
  dsimp only
  split
  next hzero =>
    rw [hzero] at htotal
    have hhits : m.hits.toNat = 0 := by
      have hz : (0 : UInt64).toNat = 0 := rfl
      omega
    rw [hhits, Nat.cast_zero, zero_div]
  next => rw [htotal, Nat.cast_add]

namespace Accounted

variable {config : NodeConfig} {s s' : Traffic}

/-- A step that leaves the reports alone. -/
theorem move (h : Accounted config s) (hconfig : s'.server.config_ = s.server.config_)
    (hholds : ∃ c, s'.server.Holds c)
    (hshown : Shown s'.server.cache_.metrics_ s'.answers s'.loaded)
    (hrequests : s'.requestCount_ = UInt64.ofNat s'.dispatched)
    (hreadings : s'.readings = s.readings) (hreports : s'.reports = s.reports)
    (hanswers : s.answers.IsPrefix s'.answers) (hloaded : s.loaded ≤ s'.loaded)
    (hle : s.dispatched ≤ s'.dispatched) : Accounted config s' where
  configured := hconfig.trans h.configured
  holds := hholds
  shown := hshown
  requests := hrequests
  readings := by
    intro r hr
    rw [hreadings] at hr
    exact ⟨(h.readings r hr).seen.mono hanswers hloaded, (h.readings r hr).size⟩
  reports := by
    intro hlt reply hreply
    rw [hreports] at hreply
    obtain ⟨metrics, size, measured, hseen, hrest⟩ :=
      h.reports (Nat.lt_of_le_of_lt hle hlt) reply hreply
    exact ⟨metrics, size, measured, hseen.mono hanswers hloaded, hrest⟩

theorem beginRequest (h : Accounted config s) (request : Begun) :
    Accounted config (s.beginRequest request) := by
  have hmore : (s.beginRequest request).dispatched = s.dispatched + 1 := by
    simp only [Traffic.beginRequest, dispatched, List.length_append, List.length_singleton]
    omega
  refine h.move rfl h.holds h.shown ?_ rfl rfl List.prefix_rfl le_rfl (by omega)
  rw [hmore]
  exact add_one_eq h.requests rfl

/-- A request under way is answered. -/
theorem answered (h : Accounted config s) {i : Nat} {request : Begun}
    (hi : s.begun[i]? = some request) {server : CacheServer} {served : Served}
    (hconfig : server.config_ = s.server.config_) {c : LruStore Bytes Bytes}
    (hholds : server.Holds c) (hshown : Shown c.metrics (s.answers ++ [served]) s.loaded) :
    Accounted config (s.answer i server served) := by
  obtain ⟨hlt, _⟩ := List.getElem?_eq_some_iff.mp hi
  have hsame : (s.answer i server served).dispatched = s.dispatched := by
    simp only [answer, dispatched, List.length_append, List.length_singleton]
    rw [List.length_eraseIdx_of_lt hlt]
    omega
  refine h.move hconfig ⟨c, hholds⟩ ?_ ?_ rfl rfl (List.prefix_append _ _) le_rfl hsame.ge
  · rw [← hholds.refines.metrics_eq] at hshown
    exact hshown
  · rw [hsame]
    exact h.requests

theorem shown_store (h : Accounted config s) {c : LruStore Bytes Bytes}
    (hc : s.server.Holds c) : Shown c.metrics s.answers s.loaded := by
  rw [← hc.refines.metrics_eq]
  exact h.shown

theorem gets (h : Accounted config s) {i : Nat} {now : TimePoint}
    (hstep : s.step (.gets i now) = some s') : Accounted config s' := by
  rw [Traffic.step] at hstep
  split at hstep
  next key hi =>
    obtain ⟨c, hc⟩ := h.holds
    obtain ⟨server, hget, hconfig, hholds⟩ := CacheServer.handle_holds hc (.get now key)
    rw [CacheServer.handle] at hget
    rw [hget] at hstep
    cases hstep
    refine h.answered hi hconfig hholds ?_
    have hshown := h.shown_store hc
    rcases c.get_metrics now key with ⟨value, hvalue, hmetrics⟩ | ⟨hnone, hmetrics⟩
    · simp only [LruStore.serve, hvalue, hmetrics]
      exact hshown.hit rfl rfl rfl rfl (respond_status_cases 200 _)
    · simp only [LruStore.serve, hnone]
      rcases hmetrics with hmetrics | hmetrics
      · rw [hmetrics]
        exact hshown.miss rfl rfl rfl rfl (respond_status_cases 404 _)
      · rw [hmetrics]
        exact hshown.miss rfl rfl rfl rfl (respond_status_cases 404 _)
  next => cases hstep

theorem deletes (h : Accounted config s) {i : Nat} (hstep : s.step (.deletes i) = some s') :
    Accounted config s' := by
  rw [Traffic.step] at hstep
  split at hstep
  next key hi =>
    obtain ⟨c, hc⟩ := h.holds
    obtain ⟨server, hdelete, hconfig, hholds⟩ := CacheServer.handle_holds hc (.delete key)
    rw [CacheServer.handle] at hdelete
    rw [hdelete] at hstep
    cases hstep
    refine h.answered hi hconfig hholds ?_
    have hshown := h.shown_store hc
    cases hf : c.find? key with
    | none =>
      simp only [LruStore.serve, LruStore.remove_missing hf, deleteReply]
      exact hshown.absent (respond_status_cases 404 _)
    | some e =>
      obtain ⟨hremoved, hparts⟩ := LruStore.remove_found hf
      simp only [LruStore.serve, hremoved, deleteReply, (LruStore.parts_eq.mp hparts).2.2.2]
      exact hshown.removed rfl rfl rfl rfl (respond_status_cases 200 _)
  next => cases hstep

theorem parsePut_status {body : Option Document} {reply : HttpReply}
    (h : parsePut body = .error reply) : reply.status = 400 ∨ reply.status = 500 := by
  unfold parsePut at h
  split at h
  next =>
    cases h
    exact respond_status_cases 400 _
  next =>
    split at h
    next =>
      split at h
      next =>
        cases h
        exact Or.inr rfl
      next => cases h
    next =>
      cases h
      exact respond_status_cases 400 _

/-- The first access of a PUT: it is refused, or it looks for its key. -/
theorem checks (h : Accounted config s) {i : Nat} {now : TimePoint}
    (hstep : s.step (.checks i now) = some s') : Accounted config s' := by
  rw [Traffic.step] at hstep
  split at hstep
  next key body hi =>
    split at hstep
    next reply hparse =>
      cases hstep
      obtain ⟨c, hc⟩ := h.holds
      exact h.answered hi rfl hc ((h.shown_store hc).refused (parsePut_status hparse))
    next value ttl hparse =>
      obtain ⟨existed, _, hstep⟩ := Option.bind_eq_some_iff.mp hstep
      cases hstep
      have hsame : s.dispatched =
          (s.begun.set i (.stores ⟨key, value, ttl, existed⟩)).length + s.answers.length := by
        rw [List.length_set, dispatched]
      exact h.move rfl h.holds h.shown (h.requests.trans (congrArg UInt64.ofNat hsame)) rfl rfl
        List.prefix_rfl le_rfl hsame.le
  next => cases hstep

/-- A put into the cache, by a PUT or by a load. -/
theorem store_put (h : Accounted config s) (now : TimePoint) (key value : Bytes) (ttl : UInt32) :
    ∃ cache c c', s.server.cache_.put now key value ttl = some cache ∧ s.server.Holds c ∧
      { s.server with cache_ := cache }.Holds c' ∧
      (c'.metrics = c.metrics.addPut ∨ c'.metrics = c.metrics.addEviction.addPut) := by
  obtain ⟨c, hc⟩ := h.holds
  obtain ⟨cache, hput, hrefines⟩ := put_refines hc.refines now key value ttl
  obtain ⟨hcap, httl⟩ := LruStore.put_sameConfig c now key value ttl
  exact ⟨cache, c, _, hput, hc, ⟨hrefines, hcap.trans hc.capacity, httl.trans hc.defaultTtlS⟩,
    c.put_metrics now key value ttl⟩

theorem stores (h : Accounted config s) {i : Nat} {now : TimePoint}
    (hstep : s.step (.stores i now) = some s') : Accounted config s' := by
  rw [Traffic.step] at hstep
  split at hstep
  next put hi =>
    obtain ⟨cache, c, c', hput, hc, hc', hmetrics⟩ := h.store_put now put.key put.value put.ttl
    rw [hput] at hstep
    cases hstep
    have hstatus : (putReply s.server.config_ put.key put.existed).status = 200 ∨
        (putReply s.server.config_ put.key put.existed).status = 201 ∨
          (putReply s.server.config_ put.key put.existed).status = 500 := by
      rw [putReply]
      cases put.existed with
      | true => exact (respond_status_cases 200 _).imp_right Or.inr
      | false => exact Or.inr (respond_status_cases 201 _)
    refine h.answered hi rfl hc' ?_
    rcases hmetrics with hmetrics | hmetrics
    · rw [hmetrics]
      exact (h.shown_store hc).stored rfl rfl rfl rfl hstatus
    · rw [hmetrics]
      exact (h.shown_store hc).stored rfl rfl rfl rfl hstatus
  next => cases hstep

theorem loads (h : Accounted config s) {i : Nat} {now : TimePoint}
    (hstep : s.step (.loads i now) = some s') : Accounted config s' := by
  rw [Traffic.step] at hstep
  split at hstep
  next key value ttl entries hi =>
    obtain ⟨cache, c, c', hput, hc, hc', hmetrics⟩ := h.store_put now key value ttl
    rw [hput] at hstep
    rw [← Option.some.inj hstep]
    refine h.move rfl ⟨c', hc'⟩ ?_ h.requests rfl rfl List.prefix_rfl (Nat.le_succ _) le_rfl
    have heq : cache.metrics_ = c'.metrics := hc'.refines.metrics_eq
    dsimp only
    rw [heq]
    rcases hmetrics with hmetrics | hmetrics
    · rw [hmetrics]
      exact (h.shown_store hc).loads rfl rfl rfl rfl
    · rw [hmetrics]
      exact (h.shown_store hc).loads rfl rfl rfl rfl
  next => cases hstep

theorem purges (h : Accounted config s) {now : Nat → TimePoint}
    (hstep : s.step (.purgeExpired now) = some s') : Accounted config s' := by
  obtain ⟨c, hc⟩ := h.holds
  obtain ⟨server, hpurge, hconfig, hholds⟩ := CacheServer.handle_holds hc (.purgeExpired now)
  rw [CacheServer.handle] at hpurge
  rw [Traffic.step, hpurge] at hstep
  cases hstep
  refine h.move hconfig ⟨_, hholds⟩ ?_ h.requests rfl rfl List.prefix_rfl le_rfl le_rfl
  have hmetrics : (c.purgeExpired now).1.metrics = { c.metrics with
      expirations := c.metrics.expirations +
        UInt64.ofNat (expiredCount now c.entries) } :=
    LruStore.iterate_addExpiration _ _
  have heq : server.cache_.metrics_ = (c.purgeExpired now).1.metrics :=
    hholds.refines.metrics_eq
  dsimp only
  rw [heq, hmetrics]
  exact (h.shown_store hc).congr rfl rfl rfl rfl

theorem size_le (h : Accounted config s) : s.server.cache_.map_.size ≤ config.cacheCapacity := by
  obtain ⟨c, hc⟩ := h.holds
  rw [hc.refines.size_eq, ← h.configured, ← hc.capacity]
  exact c.length_le

theorem capacity_eq (h : Accounted config s) : s.server.cache_.capacity_ = config.cacheCapacity := by
  obtain ⟨c, hc⟩ := h.holds
  obtain ⟨nodes, hrep, hparts⟩ := hc.refines
  rw [← h.configured, ← hc.capacity]
  exact (LruStore.parts_eq.mp hparts).1.symm

/-- A step of a report. -/
theorem reading (h : Accounted config s) {readings : List Reading} {reports : List HttpReply}
    (hreadings : ∀ r ∈ readings, r ∈ s.readings ∨ Reading.Within config s.answers s.loaded r)
    (hreports : s.dispatched < 2 ^ 64 →
      ∀ reply ∈ reports, reply ∈ s.reports ∨ Consistent config s.answers s.loaded reply) :
    Accounted config { s with readings := readings, reports := reports } where
  configured := h.configured
  holds := h.holds
  shown := h.shown
  requests := h.requests
  readings := fun r hr => (hreadings r hr).elim (h.readings r) id
  reports := fun hlt reply hreply => (hreports hlt reply hreply).elim (h.reports hlt reply) id

/-- A report begins with the counters. -/
theorem reports_on (h : Accounted config s) {report : Report}
    (hstep : s.step (.report report) = some s') : Accounted config s' := by
  cases hstep
  refine h.reading (fun r hr => ?_) fun _ reply hreply => Or.inl hreply
  rcases List.mem_append.mp hr with hr | hr
  · exact Or.inl hr
  · rw [List.mem_singleton.mp hr]
    exact Or.inr ⟨h.shown.seen, fun size hsize => by cases hsize⟩

theorem sizes (h : Accounted config s) {i : Nat} (hstep : s.step (.sizes i) = some s') :
    Accounted config s' := by
  rw [Traffic.step] at hstep
  split at hstep
  next report metrics hi =>
    cases hstep
    have hold := h.readings _ (List.mem_of_getElem? hi)
    refine h.reading (fun r hr => ?_) fun _ reply hreply => Or.inl hreply
    rcases List.mem_or_eq_of_mem_set hr with hr | rfl
    · exact Or.inl hr
    · refine Or.inr ⟨hold.seen, fun size hsize => ?_⟩
      cases hsize
      exact h.size_le
  next => cases hstep

/-- The counters were read before the requests are: none of them has been overtaken. -/
theorem consistent (h : Accounted config s) {report : Report} {metrics : CacheMetrics} {size : Nat}
    (hr : Reading.Within config s.answers s.loaded ⟨report, metrics, some size⟩)
    (hlt : s.dispatched < 2 ^ 64) (measured : Measured) :
    Consistent config s.answers s.loaded (match report with
      | .health => healthReply s.server.config_ metrics size s.server.cache_.capacity_ measured
      | .metrics => metricsReply s.server.config_ metrics size s.server.cache_.capacity_
          measured.memoryBytes s.requestCount_) := by
  have hcounted : metrics.hits.toNat + metrics.misses.toNat + metrics.totalDels.toNat ≤
      s.answers.length := hr.seen.le_answers
  have htotal : s.requestCount_.toNat = s.dispatched := by
    rw [h.requests, UInt64.toNat_ofNat', Nat.mod_eq_of_lt hlt]
  rw [dispatched] at htotal hlt
  rw [h.configured, h.capacity_eq]
  refine ⟨metrics, size, measured, hr.seen, hr.size size rfl, hitRatio_eq (by omega), ?_⟩
  cases report with
  | health => exact Or.inl rfl
  | metrics => exact Or.inr ⟨s.requestCount_, by omega, rfl⟩

theorem writes (h : Accounted config s) {i : Nat} {measured : Measured}
    (hstep : s.step (.writes i measured) = some s') : Accounted config s' := by
  rw [Traffic.step] at hstep
  split at hstep
  next report metrics size hi =>
    cases hstep
    have hold := h.readings _ (List.mem_of_getElem? hi)
    refine h.reading (fun r hr => Or.inl (List.mem_of_mem_eraseIdx hr)) fun hlt reply hreply => ?_
    rcases List.mem_append.mp hreply with hreply | hreply
    · exact Or.inl hreply
    · rw [List.mem_singleton.mp hreply]
      exact Or.inr (h.consistent hold hlt measured)
  next => cases hstep

theorem bulkLoad (h : Accounted config s) {body : Option Document}
    (hstep : s.step (.bulkLoad body) = some s') : Accounted config s' := by
  rw [Traffic.step] at hstep
  split at hstep
  next =>
    cases hstep
    exact h
  next =>
    cases hstep
    exact h.move rfl h.holds h.shown h.requests rfl rfl List.prefix_rfl le_rfl le_rfl

theorem step (h : Accounted config s) {event : TrafficEvent} (hstep : s.step event = some s') :
    Accounted config s' := by
  cases event with
  | get key =>
    cases hstep
    exact h.beginRequest _
  | put key body =>
    cases hstep
    exact h.beginRequest _
  | delete key =>
    cases hstep
    exact h.beginRequest _
  | gets i now => exact h.gets hstep
  | checks i now => exact h.checks hstep
  | stores i now => exact h.stores hstep
  | deletes i => exact h.deletes hstep
  | bulkLoad body => exact h.bulkLoad hstep
  | loads i now => exact h.loads hstep
  | purgeExpired now => exact h.purges hstep
  | report report => exact h.reports_on hstep
  | sizes i => exact h.sizes hstep
  | writes i measured => exact h.writes hstep

end Accounted

/-- In every interleaving of requests, loads, purges and reports the counters are the answers
counted, and every report shows the counters of an earlier moment and numbers that fit together:
no more reads and removals than requests, their true hit ratio, and no more entries than the
capacity. -/
theorem metrics_account {config : NodeConfig} {server : CacheServer}
    (hconstruct : CacheServer.construct config = .ok server) {events : List TrafficEvent}
    {s : Traffic} (hrun : runs step (start server) events = some s) :
    Shown s.server.cache_.metrics_ s.answers s.loaded ∧
      s.requestCount_ = UInt64.ofNat (s.begun.length + s.answers.length) ∧
      (s.begun.length + s.answers.length < 2 ^ 64 →
        ∀ reply ∈ s.reports, Consistent config s.answers s.loaded reply) := by
  obtain ⟨hcap, hconfig, hholds⟩ := CacheServer.construct_holds hconstruct
  have hinit : Accounted config (start server) :=
    { configured := hconfig
      holds := ⟨_, hholds⟩
      shown := by
        have heq : server.cache_.metrics_ = {} := hholds.refines.metrics_eq
        change Shown server.cache_.metrics_ [] 0
        rw [heq]
        exact ⟨⟨0, le_rfl, rfl, rfl⟩, ⟨0, le_rfl, rfl⟩, ⟨0, le_rfl, rfl⟩⟩
      requests := rfl
      readings := fun r hr => by cases hr
      reports := fun _ reply hreply => by cases hreply }
  have h : Accounted config s :=
    runs_history (I := fun _ s => Accounted config s) hinit
      (fun _ _ _ _ _ _ _ hmid hstep => hmid.step hstep) hrun
  exact ⟨h.shown, h.requests, h.reports⟩

/-- A read is answered while a report is under way. -/
def readDuringReport : List TrafficEvent :=
  [.get (text "k"), .report .metrics, .gets 0 0, .sizes 0, .writes 0 ⟨1, 1, 1⟩]

theorem metrics_account_read_during_report : ∃ server s,
    CacheServer.construct CacheServer.oneSlot = .ok server ∧
    runs step (start server) readDuringReport = some s ∧
    s.answers = [⟨.GET, 404⟩] ∧ s.reports.length = 1 ∧
    ∀ reply ∈ s.reports, Consistent CacheServer.oneSlot s.answers s.loaded reply := by
  obtain ⟨server, hserver, s, hrun, hanswers, hreports, hbegun⟩ : ∃ server,
      CacheServer.construct CacheServer.oneSlot = .ok server ∧ ∃ s,
        runs step (start server) readDuringReport = some s ∧ s.answers = [⟨.GET, 404⟩] ∧
          s.reports.length = 1 ∧ s.begun.length = 0 := ⟨_, rfl, _, rfl, rfl, rfl, rfl⟩
  refine ⟨server, s, hserver, hrun, hanswers, hreports, (metrics_account hserver hrun).2.2 ?_⟩
  rw [hbegun, hanswers]
  decide

end Traffic

end SelfHealingCache
