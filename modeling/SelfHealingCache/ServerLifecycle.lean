import SelfHealingCache.HeartbeatRoute
import SelfHealingCache.LruLifetime

namespace SelfHealingCache

/-- The background threads of the server. -/
inductive Thread
  | heartbeat
  | purge
  deriving DecidableEq

/-- Where a background thread is: at `while (running_)`, in its sleep, at the check after it, at
its work. -/
inductive Worker
  | absent
  | looping
  | sleeping
  | awake
  | working
  | returned
  | joined
  deriving DecidableEq

/-- `std::thread::joinable`. -/
def Worker.joinable : Worker → Bool
  | .absent | .joined => false
  | _ => true

/-- Where the owner of the server is: in `start` it launches the threads and listens, in the
destructor it calls `stop`, which joins them, and destroys the members. -/
inductive Owner
  | constructed
  | launching (t : Thread)
  | listening
  | unwinding
  | joining (t : Thread)
  | stopped
  | destroyed
  deriving DecidableEq

/-- A server with its threads; `stopper` is the join at which the call of `stop` is that another
thread has made while the owner listens. -/
structure ServerProcess where
  server : CacheServer
  running_ : Bool
  owner : Owner
  stopper : Option Thread
  workers : Thread → Worker

/-- The steps of the owner, of the handlers while it listens, of other threads that call `stop`,
and of the background threads. -/
inductive ProcessEvent
  | start
  | launch (t : Thread) (launched : Bool)
  | handlerCall (op : Op Bytes Bytes)
  | leaveScope
  | exchange
  | join (t : Thread)
  | destroy
  | stop
  | stopJoin (t : Thread)
  | check (t : Thread)
  | wake (t : Thread)
  | sendHeartbeat (measured : Measured)
  | purgeExpired (now : Nat → TimePoint)

/-- What follows on the join of a thread in `stop`. -/
def nextJoin : Thread → Option Thread
  | .heartbeat => some .purge
  | .purge => none

namespace ServerProcess

def init (server : CacheServer) : ServerProcess :=
  ⟨server, false, .constructed, none, fun _ => .absent⟩

def setCache (s : ServerProcess) (cache : LRUCache Bytes Bytes) : ServerProcess :=
  { s with server := { s.server with cache_ := cache } }

def setWorker (s : ServerProcess) (t : Thread) (w : Worker) : ServerProcess :=
  { s with workers := Function.update s.workers t w }

/-- What follows on the launch of a thread. -/
def launched : Thread → Owner
  | .heartbeat => .launching .purge
  | .purge => .listening

/-- What follows on the join of a thread in the destructor. -/
def joined (t : Thread) : Owner := (nextJoin t).elim .stopped .joining

/-- A thread that is not joinable is skipped, any other is waited for. -/
def joinWorker (s : ServerProcess) (t : Thread) : Option ServerProcess :=
  match s.workers t with
  | .absent | .joined => some s
  | .returned => some (s.setWorker t .joined)
  | _ => none

/-- A step that is not possible is `none`, and so is one that ends in a fault or in an exception
that leaves its thread. The server goes out of scope once no call of `stop` is on its way. -/
def step (s : ServerProcess) : ProcessEvent → Option ServerProcess
  | .start =>
    if s.owner = .constructed then some { s with running_ := true, owner := .launching .heartbeat }
    else none
  | .launch t ok =>
    if s.owner = .launching t then
      -- `std::thread` throws when it cannot launch, and `start` is left
      some (if ok then { s.setWorker t .looping with owner := launched t }
        else { s with owner := .unwinding })
    else none
  | .handlerCall op =>
    if s.owner = .listening then do
      let (cache, _) ← LRUCache.step (s.server.cache_, []) op
      some (s.setCache cache)
    else none
  | .leaveScope =>
    if (s.owner = .constructed ∨ s.owner = .listening) ∧ s.stopper = none then
      some { s with owner := .unwinding }
    else none
  | .exchange =>
    if s.owner = .unwinding then
      some { s with
        running_ := false
        owner := if s.running_ then .joining .heartbeat else .stopped }
    else none
  | .join t =>
    if s.owner = .joining t then (s.joinWorker t).map fun s' => { s' with owner := joined t }
    else none
  | .destroy =>
    if s.owner = .stopped then do
      let memory ← s.server.cache_.destruct
      some { s.setCache { s.server.cache_ with memory := memory } with owner := .destroyed }
    else none
  | .stop =>
    if s.owner = .constructed ∨ s.owner = .listening then
      -- only the call that has found `running_` set joins, any other returns at once
      some (if s.running_ then { s with running_ := false, stopper := some .heartbeat } else s)
    else none
  | .stopJoin t =>
    if s.stopper = some t then (s.joinWorker t).map fun s' => { s' with stopper := nextJoin t }
    else none
  | .check t =>
    match s.workers t with
    | .looping => some (s.setWorker t (if s.running_ then .sleeping else .returned))
    | .awake => some (s.setWorker t (if s.running_ then .working else .returned))
    | _ => none
  | .wake t => if s.workers t = .sleeping then some (s.setWorker t .awake) else none
  | .sendHeartbeat measured =>
    if s.workers .heartbeat = .working then do
      let _ ← s.server.heartbeatPost measured
      some (s.setWorker .heartbeat .looping)
    else none
  | .purgeExpired now =>
    if s.workers .purge = .working then do
      let (cache, _) ← s.server.cache_.purgeExpired now
      some ((s.setCache cache).setWorker .purge .looping)
    else none

@[simp] theorem setWorker_workers (s : ServerProcess) (t : Thread) (w : Worker) :
    (s.setWorker t w).workers = Function.update s.workers t w := rfl

@[simp] theorem setWorker_owner (s : ServerProcess) (t : Thread) (w : Worker) :
    (s.setWorker t w).owner = s.owner := rfl

@[simp] theorem setWorker_stopper (s : ServerProcess) (t : Thread) (w : Worker) :
    (s.setWorker t w).stopper = s.stopper := rfl

@[simp] theorem setCache_workers (s : ServerProcess) (cache : LRUCache Bytes Bytes) :
    (s.setCache cache).workers = s.workers := rfl

@[simp] theorem setCache_stopper (s : ServerProcess) (cache : LRUCache Bytes Bytes) :
    (s.setCache cache).stopper = s.stopper := rfl

@[simp] theorem setCache_owner (s : ServerProcess) (cache : LRUCache Bytes Bytes) :
    (s.setCache cache).owner = s.owner := rfl

/-- A step of a background thread that leaves the server as it is. -/
inductive WorkerStep (running_ : Bool) : ProcessEvent → Thread → Worker → Worker → Prop
  | looped {t : Thread} :
    WorkerStep running_ (.check t) t .looping (if running_ then .sleeping else .returned)
  | checked {t : Thread} :
    WorkerStep running_ (.check t) t .awake (if running_ then .working else .returned)
  | woke {t : Thread} : WorkerStep running_ (.wake t) t .sleeping .awake
  | reported {measured : Measured} :
    WorkerStep running_ (.sendHeartbeat measured) .heartbeat .working .looping

/-- What a step does, and where it is possible. -/
inductive Move (s : ServerProcess) : ProcessEvent → ServerProcess → Prop
  | started (howner : s.owner = .constructed) :
    Move s .start { s with running_ := true, owner := .launching .heartbeat }
  | launched {t : Thread} (howner : s.owner = .launching t) :
    Move s (.launch t true) { s.setWorker t .looping with owner := launched t }
  | thrown {t : Thread} (howner : s.owner = .launching t) :
    Move s (.launch t false) { s with owner := .unwinding }
  | handled {op : Op Bytes Bytes} {called : LRUCache Bytes Bytes × List (Happening Bytes Bytes)}
    (howner : s.owner = .listening) (hcall : LRUCache.step (s.server.cache_, []) op = some called) :
    Move s (.handlerCall op) (s.setCache called.1)
  | left_scope (howner : s.owner = .constructed ∨ s.owner = .listening) (hstopper : s.stopper = none) :
    Move s .leaveScope { s with owner := .unwinding }
  | exchanged (howner : s.owner = .unwinding) :
    Move s .exchange { s with
      running_ := false
      owner := if s.running_ then .joining .heartbeat else .stopped }
  | joined {t : Thread} {s' : ServerProcess} (howner : s.owner = .joining t)
    (hjoin : s.joinWorker t = some s') : Move s (.join t) { s' with owner := joined t }
  | destroyed {memory : Memory Bytes Bytes} (howner : s.owner = .stopped)
    (hmemory : s.server.cache_.destruct = some memory) :
    Move s .destroy { s.setCache { s.server.cache_ with memory := memory } with owner := .destroyed }
  | stopped (howner : s.owner = .constructed ∨ s.owner = .listening) :
    Move s .stop (if s.running_ then { s with running_ := false, stopper := some .heartbeat } else s)
  | stop_joined {t : Thread} {s' : ServerProcess} (hstopper : s.stopper = some t)
    (hjoin : s.joinWorker t = some s') : Move s (.stopJoin t) { s' with stopper := nextJoin t }
  | worked {event : ProcessEvent} {t : Thread} {w : Worker}
    (hworker : WorkerStep s.running_ event t (s.workers t) w) : Move s event (s.setWorker t w)
  | purged {now : Nat → TimePoint} {purged : LRUCache Bytes Bytes × Nat}
    (hworker : s.workers .purge = .working)
    (hpurge : s.server.cache_.purgeExpired now = some purged) :
    Move s (.purgeExpired now) ((s.setCache purged.1).setWorker .purge .looping)

theorem step_move {s s' : ServerProcess} {event : ProcessEvent} (h : s.step event = some s') :
    Move s event s' := by
  cases event with
  | start =>
    obtain ⟨howner, h⟩ := Option.ite_none_right_eq_some.mp h
    cases h
    exact .started howner
  | launch t ok =>
    obtain ⟨howner, h⟩ := Option.ite_none_right_eq_some.mp h
    cases h
    cases ok with
    | true => exact .launched howner
    | false => exact .thrown howner
  | handlerCall op =>
    obtain ⟨howner, h⟩ := Option.ite_none_right_eq_some.mp h
    obtain ⟨called, hcall, h⟩ := Option.bind_eq_some_iff.mp h
    cases h
    exact .handled howner hcall
  | leaveScope =>
    obtain ⟨⟨howner, hstopper⟩, h⟩ := Option.ite_none_right_eq_some.mp h
    cases h
    exact .left_scope howner hstopper
  | exchange =>
    obtain ⟨howner, h⟩ := Option.ite_none_right_eq_some.mp h
    cases h
    exact .exchanged howner
  | join t =>
    obtain ⟨howner, h⟩ := Option.ite_none_right_eq_some.mp h
    obtain ⟨next, hjoin, rfl⟩ := Option.map_eq_some_iff.mp h
    exact .joined howner hjoin
  | destroy =>
    obtain ⟨howner, h⟩ := Option.ite_none_right_eq_some.mp h
    obtain ⟨memory, hmemory, h⟩ := Option.bind_eq_some_iff.mp h
    cases h
    exact .destroyed howner hmemory
  | stop =>
    obtain ⟨howner, h⟩ := Option.ite_none_right_eq_some.mp h
    cases h
    exact .stopped howner
  | stopJoin t =>
    obtain ⟨hstopper, h⟩ := Option.ite_none_right_eq_some.mp h
    obtain ⟨next, hjoin, rfl⟩ := Option.map_eq_some_iff.mp h
    exact .stop_joined hstopper hjoin
  | check t =>
    rw [step] at h
    split at h
    next hw =>
      cases h
      exact .worked (hw ▸ .looped)
    next hw =>
      cases h
      exact .worked (hw ▸ .checked)
    next => cases h
  | wake t =>
    obtain ⟨hw, h⟩ := Option.ite_none_right_eq_some.mp h
    cases h
    exact .worked (hw ▸ .woke)
  | sendHeartbeat measured =>
    obtain ⟨hw, h⟩ := Option.ite_none_right_eq_some.mp h
    obtain ⟨_, _, h⟩ := Option.bind_eq_some_iff.mp h
    cases h
    exact .worked (hw ▸ .reported)
  | purgeExpired now =>
    obtain ⟨hw, h⟩ := Option.ite_none_right_eq_some.mp h
    obtain ⟨purged, hpurge, h⟩ := Option.bind_eq_some_iff.mp h
    cases h
    exact .purged hw hpurge

/-- A step of a background thread starts and ends with a thread to be joined. -/
theorem WorkerStep.joinable {running_ : Bool} {event : ProcessEvent} {t : Thread} {old w : Worker}
    (h : WorkerStep running_ event t old w) : old.joinable = true ∧ w.joinable = true := by
  cases h with
  | looped => cases running_ <;> exact ⟨rfl, rfl⟩
  | checked => cases running_ <;> exact ⟨rfl, rfl⟩
  | woke => exact ⟨rfl, rfl⟩
  | reported => exact ⟨rfl, rfl⟩

/-- What a join changes. -/
theorem joinWorker_some {s s' : ServerProcess} {t : Thread} (h : s.joinWorker t = some s') :
    ((s.workers t).joinable = false ∧ s' = s) ∨
      (s.workers t = .returned ∧ s' = s.setWorker t .joined) := by
  unfold joinWorker at h
  split at h
  next hw =>
    cases h
    exact Or.inl ⟨by rw [hw]; rfl, rfl⟩
  next hw =>
    cases h
    exact Or.inl ⟨by rw [hw]; rfl, rfl⟩
  next hw =>
    cases h
    exact Or.inr ⟨hw, rfl⟩
  next => cases h

theorem joinWorker_frame {s s' : ServerProcess} {t : Thread} (h : s.joinWorker t = some s') :
    s'.server = s.server ∧ s'.running_ = s.running_ ∧ s'.stopper = s.stopper ∧
      s'.owner = s.owner := by
  rcases joinWorker_some h with ⟨_, rfl⟩ | ⟨_, rfl⟩
  · exact ⟨rfl, rfl, rfl, rfl⟩
  · exact ⟨rfl, rfl, rfl, rfl⟩

/-- The threads as a call of `stop` finds them before a join: those it has joined are no longer
joinable, those it has not come to are not joined by anyone else. -/
def Joining (workers : Thread → Worker) : Option Thread → Prop
  | some .heartbeat => ∀ t, workers t ≠ .joined
  | some .purge => (workers .heartbeat).joinable = false ∧ workers .purge ≠ .joined
  | none => ∀ t, (workers t).joinable = false

/-- What the owner may rely on: whether the server runs, where a call of `stop` is, and which
threads are there. -/
def InPhase (running_ : Bool) (stopper : Option Thread) (workers : Thread → Worker) : Owner → Prop
  | .constructed => running_ = false ∧ stopper = none ∧ ∀ t, workers t = .absent
  | .launching .heartbeat => running_ = true ∧ stopper = none ∧ ∀ t, workers t = .absent
  | .launching .purge =>
    running_ = true ∧ stopper = none ∧ workers .heartbeat ≠ .joined ∧ workers .purge = .absent
  | .listening =>
    (running_ = true → stopper = none ∧ ∀ t, workers t ≠ .joined) ∧
      (running_ = false → Joining workers stopper)
  | .unwinding =>
    stopper = none ∧ (running_ = true → ∀ t, workers t ≠ .joined) ∧
      (running_ = false → Joining workers none)
  | .joining t => running_ = false ∧ stopper = none ∧ Joining workers (some t)
  | .stopped | .destroyed => running_ = false ∧ stopper = none ∧ Joining workers none

section phases

variable {workers : Thread → Worker} {t : Thread} {w : Worker}

theorem not_joined_update (h : ∀ u, workers u ≠ .joined) (hw : w ≠ .joined) (u : Thread) :
    Function.update workers t w u ≠ .joined := by
  rw [Function.update_apply]
  split
  next => exact hw
  next => exact h u

/-- A background thread that moves on stays joinable. -/
theorem Joining.move {next : Option Thread} (h : Joining workers next)
    (hold : (workers t).joinable = true) (hnew : w.joinable = true) :
    Joining (Function.update workers t w) next := by
  have hjoined : w ≠ .joined := fun heq => by simp [heq, Worker.joinable] at hnew
  cases next with
  | none =>
    rw [h t] at hold
    cases hold
  | some u =>
    cases u with
    | heartbeat => exact not_joined_update h hjoined
    | purge =>
      cases t with
      | heartbeat =>
        rw [h.1] at hold
        cases hold
      | purge => exact ⟨by simpa using h.1, by simpa using hjoined⟩

theorem InPhase.move {running_ : Bool} {stopper : Option Thread} {owner : Owner}
    (h : InPhase running_ stopper workers owner) (hold : (workers t).joinable = true)
    (hnew : w.joinable = true) : InPhase running_ stopper (Function.update workers t w) owner := by
  have habsent : workers t ≠ .absent := fun heq => by simp [heq, Worker.joinable] at hold
  have hjoined : w ≠ .joined := fun heq => by simp [heq, Worker.joinable] at hnew
  cases owner with
  | constructed => exact absurd (h.2.2 t) habsent
  | launching u =>
    cases u with
    | heartbeat => exact absurd (h.2.2 t) habsent
    | purge =>
      obtain ⟨hrunning, hstopper, hheartbeat, hpurge⟩ := h
      cases t with
      | heartbeat => exact ⟨hrunning, hstopper, by simpa using hjoined, by simpa using hpurge⟩
      | purge => exact absurd hpurge habsent
  | listening =>
    refine ⟨fun hr => ⟨(h.1 hr).1, not_joined_update (h.1 hr).2 hjoined⟩, fun hr => ?_⟩
    exact (h.2 hr).move hold hnew
  | unwinding =>
    refine ⟨h.1, fun hr => not_joined_update (h.2.1 hr) hjoined, fun hr => ?_⟩
    exact (h.2.2 hr).move hold hnew
  | joining u => exact ⟨h.1, h.2.1, h.2.2.move hold hnew⟩
  | stopped => exact ⟨h.1, h.2.1, h.2.2.move hold hnew⟩
  | destroyed => exact ⟨h.1, h.2.1, h.2.2.move hold hnew⟩

/-- After a join the call of `stop` is at the next one. -/
theorem Joining.join {s s' : ServerProcess} (h : Joining s.workers (some t))
    (hjoin : s.joinWorker t = some s') : Joining s'.workers (nextJoin t) := by
  have hgone : (s'.workers t).joinable = false ∧ ∀ u, u ≠ t → s'.workers u = s.workers u := by
    rcases joinWorker_some hjoin with ⟨hw, rfl⟩ | ⟨_, rfl⟩
    · exact ⟨hw, fun _ _ => rfl⟩
    · exact ⟨by simp [Worker.joinable], fun u hu => Function.update_of_ne hu _ _⟩
  cases t with
  | heartbeat =>
    refine ⟨hgone.1, ?_⟩
    rw [hgone.2 .purge (by decide)]
    exact h .purge
  | purge =>
    intro u
    cases u with
    | heartbeat =>
      rw [hgone.2 .heartbeat (by decide)]
      exact h.1
    | purge => exact hgone.1

end phases

/-- The configuration never changes, the threads are where their owner and a caller of `stop`
expect them, and the cache is sound until its destructor frees all its nodes. -/
structure Coherent (config : NodeConfig) (s : ServerProcess) : Prop where
  config_ : s.server.config_ = config
  phase : InPhase s.running_ s.stopper s.workers s.owner
  cache : s.owner ≠ .destroyed → Sturdy config.cacheCapacity 0 s.server.cache_
  freed : s.owner = .destroyed → ∀ a, s.server.cache_.memory.cells a = none

theorem coherent_init {config : NodeConfig} {server : CacheServer}
    (h : CacheServer.construct config = .ok server) :
    Coherent config (init server) ∧ 0 < config.cacheCapacity := by
  unfold CacheServer.construct LRUCache.construct at h
  by_cases hcap : config.cacheCapacity = 0
  · rw [if_pos hcap] at h
    cases h
  · rw [if_neg hcap] at h
    cases h
    exact ⟨⟨rfl, ⟨rfl, rfl, fun _ => rfl⟩, fun _ => ⟨rfl, [], owned_init, by simp, by simp⟩,
      fun hd => by cases hd⟩, Nat.pos_of_ne_zero hcap⟩

section coherent

variable {config : NodeConfig} {s s' : ServerProcess} {t : Thread}

/-- A change of the threads and of the phase alone. -/
theorem Coherent.enter (h : Coherent config s) (hserver : s'.server = s.server)
    (halive : s.owner ≠ .destroyed) (halive' : s'.owner ≠ .destroyed)
    (hphase : InPhase s'.running_ s'.stopper s'.workers s'.owner) : Coherent config s' where
  config_ := by
    rw [hserver]
    exact h.config_
  phase := hphase
  cache := by
    rw [hserver]
    exact fun _ => h.cache halive
  freed := fun hd => absurd hd halive'

/-- A background thread that runs finds the members alive. -/
theorem Coherent.alive (h : Coherent config s) (ht : (s.workers t).joinable = true) :
    s.owner ≠ .destroyed := by
  intro hd
  have hphase := h.phase
  rw [hd] at hphase
  rw [hphase.2.2 t] at ht
  cases ht

theorem Coherent.move (h : Coherent config s) {w : Worker} (hold : (s.workers t).joinable = true)
    (hnew : w.joinable = true) : Coherent config (s.setWorker t w) :=
  h.enter rfl (h.alive hold) (h.alive hold) (h.phase.move hold hnew)

/-- A call keeps the cache sound. -/
theorem Coherent.call (h : Coherent config s) {cache : LRUCache Bytes Bytes}
    (hd : s.owner ≠ .destroyed) (hcache : Sturdy config.cacheCapacity 0 cache) :
    Coherent config (s.setCache cache) :=
  ⟨h.config_, h.phase, fun _ => hcache, fun hdestroyed => absurd hdestroyed hd⟩

theorem Coherent.started (h : Coherent config s) (howner : s.owner = .constructed) :
    Coherent config { s with running_ := true, owner := .launching .heartbeat } := by
  have hphase := h.phase
  rw [howner] at hphase
  exact h.enter rfl (by simp [howner]) (by simp) ⟨rfl, hphase.2⟩

theorem Coherent.launched (h : Coherent config s) (howner : s.owner = .launching t) :
    Coherent config { s.setWorker t .looping with owner := launched t } := by
  have hphase := h.phase
  rw [howner] at hphase
  cases t with
  | heartbeat =>
    obtain ⟨hrunning, hstopper, habsent⟩ := hphase
    exact h.enter rfl (by simp [howner]) (by simp [ServerProcess.launched])
      ⟨hrunning, hstopper, by simp, by simp [habsent]⟩
  | purge =>
    obtain ⟨hrunning, hstopper, hheartbeat, _⟩ := hphase
    refine h.enter rfl (by simp [howner]) (by simp [ServerProcess.launched])
      ⟨fun _ => ⟨hstopper, fun u => ?_⟩, fun hr => absurd (hrunning.symm.trans hr) (by decide)⟩
    cases u with
    | heartbeat => simpa using hheartbeat
    | purge => simp

/-- `start` is left by an exception. -/
theorem Coherent.thrown (h : Coherent config s) (howner : s.owner = .launching t) :
    Coherent config { s with owner := .unwinding } := by
  have hphase := h.phase
  rw [howner] at hphase
  cases t with
  | heartbeat =>
    obtain ⟨hrunning, hstopper, habsent⟩ := hphase
    exact h.enter rfl (by simp [howner]) (by simp)
      ⟨hstopper, fun _ u => by simp [habsent u], fun hr => by simp [hrunning] at hr⟩
  | purge =>
    obtain ⟨hrunning, hstopper, hheartbeat, hpurge⟩ := hphase
    refine h.enter rfl (by simp [howner]) (by simp)
      ⟨hstopper, fun _ u => ?_, fun hr => by simp [hrunning] at hr⟩
    cases u with
    | heartbeat => exact hheartbeat
    | purge => simp [hpurge]

theorem Coherent.handled (h : Coherent config s) (hpos : 0 < config.cacheCapacity)
    {op : Op Bytes Bytes} {called : LRUCache Bytes Bytes × List (Happening Bytes Bytes)}
    (howner : s.owner = .listening)
    (hcall : LRUCache.step (s.server.cache_, []) op = some called) :
    Coherent config (s.setCache called.1) := by
  have halive : s.owner ≠ .destroyed := by simp [howner]
  obtain ⟨cache, _, hop, hcache⟩ := (h.cache halive).step hpos [] op
  rw [hop] at hcall
  cases hcall
  exact h.call halive hcache

theorem Coherent.left_scope (h : Coherent config s)
    (howner : s.owner = .constructed ∨ s.owner = .listening) (hstopper : s.stopper = none) :
    Coherent config { s with owner := .unwinding } := by
  have hphase := h.phase
  rcases howner with howner | howner
  · rw [howner] at hphase
    obtain ⟨hrunning, _, habsent⟩ := hphase
    exact h.enter rfl (by simp [howner]) (by simp) ⟨hstopper,
      fun hr => by simp [hrunning] at hr, fun _ u => by simp [habsent u, Worker.joinable]⟩
  · rw [howner] at hphase
    refine h.enter rfl (by simp [howner]) (by simp)
      ⟨hstopper, fun hr => (hphase.1 hr).2, fun hr => ?_⟩
    have hjoining := hphase.2 hr
    rw [hstopper] at hjoining
    exact hjoining

theorem Coherent.exchanged (h : Coherent config s) (howner : s.owner = .unwinding) :
    Coherent config { s with
      running_ := false
      owner := if s.running_ then .joining .heartbeat else .stopped } := by
  have hphase := h.phase
  rw [howner] at hphase
  obtain ⟨hstopper, hrunning, hstopped⟩ := hphase
  cases hr : s.running_ with
  | true => exact h.enter rfl (by simp [howner]) (by simp) ⟨rfl, hstopper, hrunning hr⟩
  | false => exact h.enter rfl (by simp [howner]) (by simp) ⟨rfl, hstopper, hstopped hr⟩

theorem Coherent.joined (h : Coherent config s) (howner : s.owner = .joining t)
    (hjoin : s.joinWorker t = some s') : Coherent config { s' with owner := joined t } := by
  have hphase := h.phase
  rw [howner] at hphase
  obtain ⟨hrunning, hstopper, hjoining⟩ := hphase
  obtain ⟨hserver, hrunning', hstopper', _⟩ := joinWorker_frame hjoin
  have hnext := hjoining.join hjoin
  rw [← hrunning'] at hrunning
  rw [← hstopper'] at hstopper
  refine h.enter ?_ (by simp [howner]) ?_ ?_
  · exact hserver
  · cases t <;> exact fun heq => by cases heq
  · cases t <;> exact ⟨hrunning, hstopper, hnext⟩

theorem Coherent.destroyed (h : Coherent config s) {memory : Memory Bytes Bytes}
    (howner : s.owner = .stopped) (hmemory : s.server.cache_.destruct = some memory) :
    Coherent config
      { s.setCache { s.server.cache_ with memory := memory } with owner := .destroyed } := by
  obtain ⟨m, hm, hfreed⟩ := (h.cache (by simp [howner])).destruct
  rw [hm] at hmemory
  cases hmemory
  have hphase := h.phase
  rw [howner] at hphase
  exact ⟨h.config_, hphase, fun hd => absurd rfl hd, fun _ => hfreed⟩

/-- Another thread calls `stop`. -/
theorem Coherent.stopped (h : Coherent config s)
    (howner : s.owner = .constructed ∨ s.owner = .listening) :
    Coherent config
      (if s.running_ then { s with running_ := false, stopper := some .heartbeat } else s) := by
  have hphase := h.phase
  split
  next hr =>
    rcases howner with howner | howner
    · rw [howner] at hphase
      rw [hphase.1] at hr
      cases hr
    · rw [howner] at hphase
      refine h.enter rfl (by simp [howner]) (by simp [howner]) ?_
      dsimp only
      rw [howner]
      exact ⟨(fun hrunning => by cases hrunning), fun _ => (hphase.1 hr).2⟩
  next => exact h

/-- A call of `stop` is under way only while the owner listens. -/
theorem Coherent.listening (h : Coherent config s) (hstopper : s.stopper = some t) :
    s.owner = .listening ∧ s.running_ = false ∧ Joining s.workers (some t) := by
  have hphase := h.phase
  cases howner : s.owner with
  | listening =>
    rw [howner] at hphase
    cases hr : s.running_ with
    | true =>
      rw [(hphase.1 hr).1] at hstopper
      cases hstopper
    | false => exact ⟨rfl, rfl, hstopper ▸ hphase.2 hr⟩
  | launching u =>
    rw [howner] at hphase
    cases u with
    | heartbeat =>
      rw [hphase.2.1] at hstopper
      cases hstopper
    | purge =>
      rw [hphase.2.1] at hstopper
      cases hstopper
  | unwinding =>
    rw [howner] at hphase
    rw [hphase.1] at hstopper
    cases hstopper
  | _ =>
    rw [howner] at hphase
    rw [hphase.2.1] at hstopper
    cases hstopper

theorem Coherent.stop_joined (h : Coherent config s) (hstopper : s.stopper = some t)
    (hjoin : s.joinWorker t = some s') : Coherent config { s' with stopper := nextJoin t } := by
  obtain ⟨howner, hrunning, hjoining⟩ := h.listening hstopper
  obtain ⟨hserver, hrunning', _, howner'⟩ := joinWorker_frame hjoin
  refine h.enter ?_ (by simp [howner]) (by simp [howner', howner]) ?_
  · exact hserver
  · dsimp only
    rw [howner', hrunning', howner, hrunning]
    exact ⟨(fun hr => by cases hr), fun _ => hjoining.join hjoin⟩

theorem Coherent.purged (h : Coherent config s) (hw : s.workers .purge = .working)
    {now : Nat → TimePoint} {purged : LRUCache Bytes Bytes × Nat}
    (hpurge : s.server.cache_.purgeExpired now = some purged) :
    Coherent config ((s.setCache purged.1).setWorker .purge .looping) := by
  have hjoinable : (s.workers .purge).joinable = true := by simp [hw, Worker.joinable]
  obtain ⟨cache, n, hcall, hcache⟩ := (h.cache (h.alive hjoinable)).purgeExpired now
  rw [hcall] at hpurge
  cases hpurge
  exact (h.call (h.alive hjoinable) hcache).move hjoinable rfl

theorem coherent_step (h : Coherent config s) (hpos : 0 < config.cacheCapacity)
    {event : ProcessEvent} (hstep : s.step event = some s') : Coherent config s' := by
  cases step_move hstep with
  | started howner => exact h.started howner
  | launched howner => exact h.launched howner
  | thrown howner => exact h.thrown howner
  | handled howner hcall => exact h.handled hpos howner hcall
  | left_scope howner hstopper => exact h.left_scope howner hstopper
  | exchanged howner => exact h.exchanged howner
  | joined howner hjoin => exact h.joined howner hjoin
  | destroyed howner hmemory => exact h.destroyed howner hmemory
  | stopped howner => exact h.stopped howner
  | stop_joined hstopper hjoin => exact h.stop_joined hstopper hjoin
  | worked hworker => exact h.move hworker.joinable.1 hworker.joinable.2
  | purged hw hpurge => exact h.purged hw hpurge

theorem coherent_run {server : CacheServer} (hconstruct : CacheServer.construct config = .ok server)
    {events : List ProcessEvent} (hrun : runs step (init server) events = some s) :
    Coherent config s := by
  obtain ⟨hinit, hpos⟩ := coherent_init hconstruct
  refine runs_history (I := fun _ s => Coherent config s) hinit ?_ hrun
  intro _ event _ mid next _ _ hmid hstep
  exact coherent_step hmid hpos hstep

end coherent

end ServerProcess

end SelfHealingCache
