import SelfHealingCache.ServerLifecycle

namespace SelfHealingCache

/-- The work of a thread. -/
def ProcessEvent.works (t : Thread) : ProcessEvent → Bool
  | .sendHeartbeat _ => t = .heartbeat
  | .purgeExpired _ => t = .purge
  | _ => false

/-- A step of a background thread, of a join, or the destruction of the members. -/
def ProcessEvent.closes : ProcessEvent → Bool
  | .join _ | .stopJoin _ | .destroy => true
  | .check _ | .wake _ | .sendHeartbeat _ | .purgeExpired _ => true
  | _ => false

/-- The steps a thread can still take once `running_` is false. -/
def Worker.left : Worker → Nat
  | .absent | .returned | .joined => 0
  | .looping | .awake => 1
  | .sleeping | .working => 2

/-- The joins that are left in a call of `stop`. -/
def joinsLeft : Option Thread → Nat
  | some .heartbeat => 2
  | some .purge => 1
  | none => 0

/-- The joins and the destruction that are left for the owner once `running_` is false. -/
def Owner.left : Owner → Nat
  | .joining t => joinsLeft (some t) + 1
  | .destroyed => 0
  | _ => 1

/-- The work a thread still does once `running_` is false. -/
def Worker.due : Worker → Nat
  | .working => 1
  | _ => 0

/-- `start` has launched the threads, or was left. -/
def Owner.started : Owner → Bool
  | .constructed | .launching _ => false
  | _ => true

/-- In the destructor, after the exchange. -/
def Owner.closing : Owner → Bool
  | .joining _ | .stopped | .destroyed => true
  | _ => false

namespace ServerProcess

/-- The steps of the joins, the background threads and the destruction that are left. -/
def left (s : ServerProcess) : Nat :=
  s.owner.left + joinsLeft s.stopper + (s.workers .heartbeat).left + (s.workers .purge).left

/-- A thread that is alone in moving on leaves the counts of the others. -/
theorem left_setWorker {s : ServerProcess} {t : Thread} {w : Worker} {n : Nat}
    (h : w.left + n = (s.workers t).left) : (s.setWorker t w).left + n = s.left := by
  cases t with
  | heartbeat =>
    simp only [left, setWorker_owner, setWorker_stopper, setWorker_workers,
      Function.update_self, Function.update_of_ne (show Thread.purge ≠ .heartbeat by decide)]
    omega
  | purge =>
    simp only [left, setWorker_owner, setWorker_stopper, setWorker_workers,
      Function.update_self, Function.update_of_ne (show Thread.heartbeat ≠ .purge by decide)]
    omega

theorem due_setWorker {s : ServerProcess} {t : Thread} {w : Worker} {worked : Thread → Nat}
    (hself : worked t + w.due = (s.workers t).due) (hother : ∀ u, u ≠ t → worked u = 0)
    (u : Thread) : worked u + ((s.setWorker t w).workers u).due = (s.workers u).due := by
  rw [setWorker_workers]
  by_cases hu : u = t
  · rw [hu, Function.update_self]
    exact hself
  · rw [Function.update_of_ne hu, hother u hu, Nat.zero_add]

/-- Once `running_` is false a thread goes one of its last steps, and works only if it has come to
its work. -/
theorem WorkerStep.left {event : ProcessEvent} {t : Thread} {old w : Worker}
    (h : WorkerStep false event t old w) : event.closes = true ∧ w.left + 1 = old.left ∧
      (event.works t).toNat + w.due = old.due ∧ ∀ u, u ≠ t → (event.works u).toNat = 0 := by
  cases h with
  | looped => exact ⟨rfl, rfl, rfl, fun _ _ => rfl⟩
  | checked => exact ⟨rfl, rfl, rfl, fun _ _ => rfl⟩
  | woke => exact ⟨rfl, rfl, rfl, fun _ _ => rfl⟩
  | reported => exact ⟨rfl, rfl, rfl, fun u hu => by simp [ProcessEvent.works, hu]⟩

theorem WorkerStep.left_closes {running_ : Bool} {event : ProcessEvent} {t : Thread} {old w : Worker}
    (h : WorkerStep running_ event t old w) : event.closes = true := by
  cases h <;> rfl

theorem joinsLeft_next (t : Thread) : joinsLeft (some t) = joinsLeft (nextJoin t) + 1 := by
  cases t <;> rfl

theorem left_joined (t : Thread) :
    (joined t).closing = true ∧ (joined t).left = joinsLeft (nextJoin t) + 1 := by
  cases t <;> exact ⟨rfl, rfl⟩

/-- A join changes nothing that the threads still do. -/
theorem joinWorker_left {s s' : ServerProcess} {t : Thread} (h : s.joinWorker t = some s') :
    (∀ u, (s'.workers u).left = (s.workers u).left) ∧
      ∀ u, (s'.workers u).due = (s.workers u).due := by
  rcases joinWorker_some h with ⟨_, rfl⟩ | ⟨hw, rfl⟩
  · exact ⟨fun _ => rfl, fun _ => rfl⟩
  · refine ⟨fun u => ?_, fun u => ?_⟩
    · rw [setWorker_workers, Function.update_apply]
      split
      next hu =>
        rw [hu, hw]
        rfl
      next => rfl
    · rw [setWorker_workers, Function.update_apply]
      split
      next hu =>
        rw [hu, hw]
        rfl
      next => rfl

/-- `running_` is cleared, and `start`, which sets it, is behind. -/
structure Closing (s : ServerProcess) : Prop where
  running_ : s.running_ = false
  started : s.owner.started = true

/-- What a step may do then: it is one of those that are left or touches none of them, and no
thread comes to its work again. -/
structure Closes (s : ServerProcess) (event : ProcessEvent) (s' : ServerProcess) : Prop where
  closing : Closing s'
  left : s'.left + event.closes.toNat = s.left
  due : ∀ t, (event.works t).toNat + (s'.workers t).due = (s.workers t).due
  kept : event.closes = true → s'.owner.closing = s.owner.closing

section closing

variable {config : NodeConfig} {s s' : ServerProcess} {event : ProcessEvent} {t : Thread}

/-- A step that moves no thread and joins none. -/
theorem Closing.quiet (h : Closing s') (hcloses : event.closes = false)
    (hworks : ∀ t, event.works t = false) (hleft : s'.left = s.left)
    (hworkers : s'.workers = s.workers) : Closes s event s' where
  closing := h
  left := by
    rw [hcloses, Bool.toNat_false, Nat.add_zero, hleft]
  due := by
    intro t
    rw [hworks, Bool.toNat_false, Nat.zero_add, hworkers]
  kept := by
    intro hc
    rw [hcloses] at hc
    cases hc

theorem Closing.joined (h : Closing s) (howner : s.owner = .joining t)
    (hjoin : s.joinWorker t = some s') :
    Closes s (.join t) { s' with owner := joined t } := by
  obtain ⟨_, hrunning, hstopper, _⟩ := joinWorker_frame hjoin
  obtain ⟨hleft, hdue⟩ := joinWorker_left hjoin
  obtain ⟨hclosing, howned⟩ := left_joined t
  refine ⟨⟨hrunning.trans h.running_, ?_⟩, ?_, fun u => ?_, fun _ => ?_⟩
  · cases t <;> rfl
  · have hbefore : s.owner.left = joinsLeft (nextJoin t) + 2 := by
      rw [howner, Owner.left, joinsLeft_next]
    simp only [ServerProcess.left, hbefore, howned, hleft, hstopper, ProcessEvent.closes,
      Bool.toNat_true]
    omega
  · exact (Nat.zero_add _).trans (hdue u)
  · rw [howner]
    exact hclosing

theorem Closing.stop_joined (h : Closing s) (hstopper : s.stopper = some t)
    (hjoin : s.joinWorker t = some s') :
    Closes s (.stopJoin t) { s' with stopper := nextJoin t } := by
  obtain ⟨_, hrunning, _, howner⟩ := joinWorker_frame hjoin
  obtain ⟨hleft, hdue⟩ := joinWorker_left hjoin
  refine ⟨⟨hrunning.trans h.running_, ?_⟩, ?_, fun u => ?_, fun _ => ?_⟩
  · dsimp only
    rw [howner]
    exact h.started
  · simp only [ServerProcess.left, howner, hleft, hstopper, joinsLeft_next t,
      ProcessEvent.closes, Bool.toNat_true]
    omega
  · exact (Nat.zero_add _).trans (hdue u)
  · dsimp only
    rw [howner]

theorem Closing.destroyed (h : Closing s) {memory : Memory Bytes Bytes}
    (howner : s.owner = .stopped) : Closes s .destroy
      { s.setCache { s.server.cache_ with memory := memory } with owner := .destroyed } := by
  refine ⟨⟨h.running_, rfl⟩, ?_, fun u => Nat.zero_add _, fun _ => ?_⟩
  · simp only [ServerProcess.left, howner, Owner.left, ProcessEvent.closes, Bool.toNat_true,
      setCache_workers, setCache_stopper]
    omega
  · rw [howner]
    rfl

theorem Closing.left_scope (h : Closing s)
    (howner : s.owner = .constructed ∨ s.owner = .listening) :
    Closes s .leaveScope { s with owner := .unwinding } := by
  refine Closing.quiet ⟨h.running_, rfl⟩ rfl (fun _ => rfl) ?_ rfl
  rcases howner with howner | howner <;> simp only [ServerProcess.left, howner, Owner.left]

theorem Closing.exchanged (h : Closing s) (howner : s.owner = .unwinding) :
    Closes s .exchange { s with
      running_ := false
      owner := if s.running_ then .joining .heartbeat else .stopped } := by
  rw [h.running_, if_neg (by decide)]
  refine Closing.quiet ⟨rfl, rfl⟩ rfl (fun _ => rfl) ?_ rfl
  simp only [ServerProcess.left, howner, Owner.left]

theorem Closing.worked (h : Closing s) {w : Worker}
    (hworker : WorkerStep s.running_ event t (s.workers t) w) :
    Closes s event (s.setWorker t w) := by
  rw [h.running_] at hworker
  obtain ⟨hcloses, hleft, hdue, hother⟩ := hworker.left
  refine ⟨⟨h.running_, h.started⟩, ?_, due_setWorker hdue hother, fun _ => rfl⟩
  rw [hcloses]
  exact left_setWorker hleft

theorem Closing.purged (h : Closing s) {now : Nat → TimePoint} {cache : LRUCache Bytes Bytes}
    (hw : s.workers .purge = .working) :
    Closes s (.purgeExpired now) ((s.setCache cache).setWorker .purge .looping) := by
  refine ⟨⟨h.running_, h.started⟩, ?_, ?_, fun _ => rfl⟩
  · exact left_setWorker (s := s.setCache cache) (n := 1) (by rw [setCache_workers, hw]; rfl)
  · exact due_setWorker (s := s.setCache cache) (by rw [setCache_workers, hw]; rfl)
      fun u hu => by simp [ProcessEvent.works, hu]

theorem closing_step (h : Closing s) (hstep : s.step event = some s') : Closes s event s' := by
  have hstarted := h.started
  cases step_move hstep with
  | started howner =>
    rw [howner] at hstarted
    cases hstarted
  | launched howner =>
    rw [howner] at hstarted
    cases hstarted
  | thrown howner =>
    rw [howner] at hstarted
    cases hstarted
  | handled => exact Closing.quiet ⟨h.running_, h.started⟩ rfl (fun _ => rfl) rfl rfl
  | left_scope howner => exact h.left_scope howner
  | exchanged howner => exact h.exchanged howner
  | joined howner hjoin => exact h.joined howner hjoin
  | destroyed howner => exact h.destroyed howner
  | stopped =>
    rw [h.running_, if_neg (by decide)]
    exact Closing.quiet h rfl (fun _ => rfl) rfl rfl
  | stop_joined hstopper hjoin => exact h.stop_joined hstopper hjoin
  | worked hworker => exact h.worked hworker
  | purged hw => exact h.purged hw

/-- A call of `stop` on a server that was started. -/
theorem stop_closing (hstarted : s.owner.started = true)
    (hstop : event = .exchange ∨ event = .stop) (hstep : s.step event = some s') : Closing s' := by
  rcases hstop with rfl | rfl
  · cases step_move hstep with
    | exchanged howner => exact ⟨rfl, by dsimp only; split <;> rfl⟩
    | worked hworker => cases hworker
  · cases step_move hstep with
    | stopped howner =>
      split
      next => exact ⟨rfl, hstarted⟩
      next hr => exact ⟨by simpa using hr, hstarted⟩
    | worked hworker => cases hworker

/-- The whole run after `running_` was cleared. -/
theorem closing_run {first : ServerProcess} (h : Closing first) {rest : List ProcessEvent}
    (hrun : runs step first rest = some s) :
    Closing s ∧ rest.countP ProcessEvent.closes + s.left = first.left ∧
      ∀ t, rest.countP (ProcessEvent.works t) + (s.workers t).due = (first.workers t).due := by
  refine runs_history (I := fun past (s : ServerProcess) =>
    Closing s ∧ past.countP ProcessEvent.closes + s.left = first.left ∧
      ∀ t, past.countP (ProcessEvent.works t) + (s.workers t).due = (first.workers t).due)
    ⟨h, by simp, by simp⟩ ?_ hrun
  intro past event _ mid next _ _ ih hstep
  obtain ⟨hmid, hcount, hworks⟩ := ih
  have hcloses := closing_step hmid hstep
  have hone : ∀ p : ProcessEvent → Bool,
      (past ++ [event]).countP p = past.countP p + (p event).toNat := by
    intro p
    rw [List.countP_append, List.countP_singleton]
    cases p event <;> rfl
  refine ⟨hcloses.closing, ?_, fun t => ?_⟩
  · have hleft := hcloses.left
    rw [hone]
    omega
  · have hbefore := hworks t
    have hdue := hcloses.due t
    rw [hone]
    omega

/-- A background thread has returned, or it can move. -/
theorem worker_progress (h : Coherent config s)
    (htext : IsText config.nodeId ∧ IsText config.host ∧ IsText config.zone)
    (ht : (s.workers t).joinable = true) : s.workers t = .returned ∨
      ∃ event s', event.closes = true ∧ s.step event = some s' := by
  cases hw : s.workers t with
  | returned => exact Or.inl rfl
  | looping => exact Or.inr ⟨.check t, _, rfl, by rw [step, hw]⟩
  | awake => exact Or.inr ⟨.check t, _, rfl, by rw [step, hw]⟩
  | sleeping => exact Or.inr ⟨.wake t, _, rfl, by rw [step, if_pos hw]⟩
  | working =>
    cases t with
    | heartbeat =>
      have hratio : (JsonValue.numberFloat s.server.cache_.metrics_.hitRatio).valid = true := rfl
      have hvalid : (s.server.heartbeatPayload ⟨0, 0, 0⟩).valid = true := by
        simp [CacheServer.heartbeatPayload, h.config_, htext.1, htext.2.1, htext.2.2, hratio,
          JsonValue.valid_object, isText_text]
      refine Or.inr ⟨.sendHeartbeat ⟨0, 0, 0⟩, s.setWorker .heartbeat .looping, rfl, ?_⟩
      rw [step, if_pos hw, CacheServer.heartbeatPost, JsonValue.dump_of_valid hvalid]
      rfl
    | purge =>
      obtain ⟨cache, n, hcall, _⟩ := (h.cache (h.alive ht)).purgeExpired fun _ => 0
      exact Or.inr ⟨.purgeExpired fun _ => 0, _, rfl, by rw [step, if_pos hw, hcall]; rfl⟩
  | absent =>
    rw [hw] at ht
    cases ht
  | joined =>
    rw [hw] at ht
    cases ht

/-- A join is possible, or the thread that it waits for can move. -/
theorem join_progress (h : Coherent config s)
    (htext : IsText config.nodeId ∧ IsText config.host ∧ IsText config.zone) (t : Thread) :
    (∃ s', s.joinWorker t = some s') ∨
      ∃ event s', event.closes = true ∧ s.step event = some s' := by
  cases ht : (s.workers t).joinable with
  | true =>
    rcases worker_progress h htext ht with hreturned | hmoves
    · exact Or.inl ⟨_, by rw [joinWorker, hreturned]⟩
    · exact Or.inr hmoves
  | false =>
    cases hw : s.workers t with
    | absent => exact Or.inl ⟨s, by rw [joinWorker, hw]⟩
    | joined => exact Or.inl ⟨s, by rw [joinWorker, hw]⟩
    | _ =>
      rw [hw] at ht
      cases ht

/-- No call of `stop` is on its way, and the destructor, if it has begun, is at its end. -/
def Settled (s : ServerProcess) : Prop :=
  s.stopper = none ∧ (s.owner.closing = true → s.owner = .destroyed)

theorem closing_progress (h : Coherent config s)
    (htext : IsText config.nodeId ∧ IsText config.host ∧ IsText config.zone)
    (hunsettled : ¬Settled s) : ∃ event s', event.closes = true ∧ s.step event = some s' := by
  cases hstopper : s.stopper with
  | some t =>
    rcases join_progress h htext t with ⟨s', hjoin⟩ | hmoves
    · exact ⟨.stopJoin t, _, rfl, by rw [step, if_pos hstopper, hjoin]; rfl⟩
    · exact hmoves
  | none =>
    cases howner : s.owner with
    | joining t =>
      rcases join_progress h htext t with ⟨s', hjoin⟩ | hmoves
      · exact ⟨.join t, _, rfl, by rw [step, if_pos howner, hjoin]; rfl⟩
      · exact hmoves
    | stopped =>
      obtain ⟨m, hm, _⟩ := (h.cache (by simp [howner])).destruct
      exact ⟨.destroy, _, rfl, by rw [step, if_pos howner, hm]; rfl⟩
    | destroyed => exact absurd ⟨hstopper, fun _ => howner⟩ hunsettled
    | _ =>
      refine absurd ⟨hstopper, fun hclosing => ?_⟩ hunsettled
      rw [howner] at hclosing
      cases hclosing

/-- Then no background thread is left. -/
theorem settled_joined (h : Coherent config s) (hclosing : Closing s) (hsettled : Settled s)
    (t : Thread) : (s.workers t).joinable = false := by
  have hphase := h.phase
  obtain ⟨hstopper, hdestroyed⟩ := hsettled
  obtain ⟨hrunning, hstarted⟩ := hclosing
  cases howner : s.owner with
  | listening =>
    rw [howner] at hphase
    have hjoining := hphase.2 hrunning
    rw [hstopper] at hjoining
    exact hjoining t
  | unwinding =>
    rw [howner] at hphase
    exact hphase.2.2 hrunning t
  | destroyed =>
    rw [howner] at hphase
    exact hphase.2.2 t
  | joining u =>
    have hend := hdestroyed (by rw [howner]; rfl)
    rw [howner] at hend
    cases hend
  | stopped =>
    have hend := hdestroyed (by rw [howner]; rfl)
    rw [howner] at hend
    cases hend
  | constructed =>
    rw [howner] at hstarted
    cases hstarted
  | launching u =>
    rw [howner] at hstarted
    cases hstarted

/-- The steps left lead to the end, by induction on their number. -/
theorem closing_ends (hpos : 0 < config.cacheCapacity)
    (htext : IsText config.nodeId ∧ IsText config.host ∧ IsText config.zone) (n : Nat)
    (h : Coherent config s) (hclosing : Closing s) (hleft : s.left = n) :
    ∃ more s', (∀ e ∈ more, e.closes = true) ∧ runs step s more = some s' ∧ Coherent config s' ∧
      Closing s' ∧ Settled s' ∧ s'.owner.closing = s.owner.closing := by
  induction n generalizing s with
  | zero =>
    by_cases hsettled : Settled s
    · exact ⟨[], s, by simp, rfl, h, hclosing, hsettled, rfl⟩
    · obtain ⟨event, s', hcloses, hstep⟩ := closing_progress h htext hsettled
      have hless := (closing_step hclosing hstep).left
      rw [hcloses, Bool.toNat_true] at hless
      omega
  | succ n ih =>
    by_cases hsettled : Settled s
    · exact ⟨[], s, by simp, rfl, h, hclosing, hsettled, rfl⟩
    · obtain ⟨event, s', hcloses, hstep⟩ := closing_progress h htext hsettled
      have hcase := closing_step hclosing hstep
      have hless := hcase.left
      rw [hcloses, Bool.toNat_true] at hless
      obtain ⟨more, last, hall, hrun, hlast, hend, hdone, howner⟩ :=
        ih (coherent_step h hpos hstep) hcase.closing (by omega)
      refine ⟨event :: more, last, ?_, ?_, hlast, hend, hdone, howner.trans (hcase.kept hcloses)⟩
      · intro e he
        rcases List.mem_cons.mp he with rfl | he
        · exact hcloses
        · exact hall e he
      · rw [runs_cons, hstep]
        exact hrun

/-- The end of the destructor. -/
theorem unwinding_destroyed (h : Coherent config s) (hrunning : s.running_ = false)
    (howner : s.owner = .unwinding) :
    ∃ s', runs step s [.exchange, .destroy] = some s' ∧ s'.owner = .destroyed := by
  obtain ⟨m, hm, _⟩ := (h.cache (by simp [howner])).destruct
  have hexchange : s.step .exchange = some { s with running_ := false, owner := .stopped } := by
    rw [step, if_pos howner, hrunning, if_neg (by decide)]
  refine ⟨{ s.setCache { s.server.cache_ with memory := m } with
    running_ := false, owner := .destroyed }, ?_, rfl⟩
  rw [runs_cons, hexchange, Option.bind_some, runs_cons, step, if_pos rfl, hm]
  rfl

/-- From there the owner can leave and get to the end of the destructor. -/
theorem settled_destroyed (h : Coherent config s) (hpos : 0 < config.cacheCapacity)
    (hclosing : Closing s) (hsettled : Settled s) :
    ∃ more s', runs step s more = some s' ∧ s'.owner = .destroyed := by
  obtain ⟨hstopper, hdestroyed⟩ := hsettled
  obtain ⟨hrunning, hstarted⟩ := hclosing
  cases howner : s.owner with
  | listening =>
    have hleave : s.step .leaveScope = some { s with owner := .unwinding } := by
      rw [step, if_pos ⟨Or.inr howner, hstopper⟩]
    obtain ⟨s', hrun, hend⟩ := unwinding_destroyed (coherent_step h hpos hleave) hrunning rfl
    refine ⟨[.leaveScope, .exchange, .destroy], s', ?_, hend⟩
    rw [runs_cons, hleave]
    exact hrun
  | unwinding =>
    obtain ⟨s', hrun, hend⟩ := unwinding_destroyed h hrunning howner
    exact ⟨_, s', hrun, hend⟩
  | destroyed => exact ⟨[], s, rfl, howner⟩
  | joining u =>
    rw [howner] at hdestroyed
    cases hdestroyed rfl
  | stopped =>
    rw [howner] at hdestroyed
    cases hdestroyed rfl
  | constructed =>
    rw [howner] at hstarted
    cases hstarted
  | launching u =>
    rw [howner] at hstarted
    cases hstarted

theorem left_le (h : Coherent config s) : s.left ≤ 7 := by
  have hworker : ∀ w : Worker, w.left ≤ 2 := fun w => by cases w <;> decide
  have hheartbeat := hworker (s.workers .heartbeat)
  have hpurge := hworker (s.workers .purge)
  have howner : s.owner.left + joinsLeft s.stopper ≤ 3 := by
    cases hstopper : s.stopper with
    | some t =>
      rw [(h.listening hstopper).1]
      cases t <;> decide
    | none =>
      cases s.owner with
      | joining t => cases t <;> decide
      | launching t => exact (show 1 ≤ 3 by decide)
      | _ => decide
  unfold left
  omega

/-- Nothing happens after the members are destroyed. -/
theorem destroyed_final (h : Coherent config s) (hd : s.owner = .destroyed) :
    (∀ t, (s.workers t).joinable = false) ∧ ∀ event, s.step event = none := by
  have hphase := h.phase
  rw [hd] at hphase
  obtain ⟨hrunning, hstopper, hgone⟩ := hphase
  refine ⟨hgone, fun event => Option.eq_none_iff_forall_ne_some.mpr fun s' hstep => ?_⟩
  have hidle : ∀ t, (s.workers t).left = 0 := by
    intro t
    have ht := hgone t
    cases hw : s.workers t <;> rw [hw] at ht <;> first | rfl | cases ht
  have hnone : s.left = 0 := by
    rw [left, hd, hstopper, hidle, hidle]
    rfl
  have hcase := closing_step ⟨hrunning, by rw [hd]; rfl⟩ hstep
  have hleft := hcase.left
  cases hcloses : event.closes with
  | true =>
    rw [hcloses, Bool.toNat_true] at hleft
    omega
  | false =>
    cases step_move hstep with
    | worked hworker =>
      have htrue := hworker.left_closes
      rw [hcloses] at htrue
      cases htrue
    | left_scope howner =>
      rcases howner with howner | howner <;> rw [hd] at howner <;> cases howner
    | stopped howner =>
      rcases howner with howner | howner <;> rw [hd] at howner <;> cases howner
    | started howner => rw [hd] at howner; cases howner
    | launched howner => rw [hd] at howner; cases howner
    | thrown howner => rw [hd] at howner; cases howner
    | handled howner => rw [hd] at howner; cases howner
    | exchanged howner => rw [hd] at howner; cases howner
    | _ => cases hcloses

end closing

/-- While the owner listens every call of a handler returns. -/
theorem handler_returns {config : NodeConfig} {s : ServerProcess} (h : Coherent config s)
    (hpos : 0 < config.cacheCapacity) (howner : s.owner = .listening) (op : Op Bytes Bytes) :
    ∃ s', s.step (.handlerCall op) = some s' := by
  obtain ⟨cache, history, hop, _⟩ := (h.cache (by simp [howner])).step hpos [] op
  refine ⟨s.setCache cache, ?_⟩
  rw [step, if_pos howner, hop]
  rfl

/-- Once `stop` has been called on a server that was started, by its destructor or by another
thread while it listens, each background thread does at most the work it had come to, and at most
seven steps of the threads, the joins and the destructor follow, in whatever order and with
whatever requests among them. They can always be taken: the call returns with both threads
joined, in the destructor all members are destroyed, and then no thread is left to touch them and
every list node is freed. -/
theorem shutdown_clean {config : NodeConfig} {server : CacheServer}
    (hconstruct : CacheServer.construct config = .ok server)
    (htext : IsText config.nodeId ∧ IsText config.host ∧ IsText config.zone)
    {past rest : List ProcessEvent} {event : ProcessEvent} {mid s : ServerProcess}
    (hpast : runs step (init server) past = some mid) (hstarted : mid.owner.started = true)
    (hstop : event = .exchange ∨ event = .stop)
    (hrest : runs step mid (event :: rest) = some s) :
    (∀ t, rest.countP (ProcessEvent.works t) ≤ 1) ∧
      rest.countP ProcessEvent.closes + s.left ≤ 7 ∧
      (∃ more s', (∀ e ∈ more, e.closes = true) ∧ runs step s more = some s' ∧
        s'.stopper = none ∧ (∀ t, (s'.workers t).joinable = false) ∧
        (s.owner.closing = true → s'.owner = .destroyed)) ∧
      (∃ more s', runs step s more = some s' ∧ s'.owner = .destroyed) ∧
      (s.owner = .listening → ∀ op, ∃ s', s.step (.handlerCall op) = some s') ∧
      (s.owner = .destroyed → (∀ t, (s.workers t).joinable = false) ∧
        (∀ a, s.server.cache_.memory.cells a = none) ∧ ∀ event, s.step event = none) := by
  have hpos := (coherent_init hconstruct).2
  have hmid := coherent_run hconstruct hpast
  rw [runs_cons] at hrest
  obtain ⟨first, hfirst, hrest⟩ := Option.bind_eq_some_iff.mp hrest
  have hcalled := coherent_step hmid hpos hfirst
  have hs : Coherent config s := by
    refine runs_history (I := fun _ s => Coherent config s) hcalled ?_ hrest
    intro _ _ _ _ _ _ _ hbefore hstep
    exact coherent_step hbefore hpos hstep
  have hclosing : Closing first := stop_closing hstarted hstop hfirst
  obtain ⟨hend, hcount, hworks⟩ := closing_run hclosing hrest
  have hdue : ∀ w : Worker, w.due ≤ 1 := fun w => by cases w <;> decide
  obtain ⟨more, last, hall, hrun, hlast, hdone, hsettled, howner⟩ :=
    closing_ends hpos htext _ hs hend rfl
  refine ⟨fun t => ?_, ?_, ⟨more, last, hall, hrun, hsettled.1, settled_joined hlast hdone hsettled,
    fun hc => hsettled.2 (howner.trans hc)⟩, ?_, fun hl op => handler_returns hs hpos hl op,
    fun hd => ?_⟩
  · have hbefore := hworks t
    have hbound := hdue (first.workers t)
    omega
  · rw [hcount]
    exact left_le hcalled
  · obtain ⟨further, final, hfurther, hdestroyed⟩ := settled_destroyed hlast hpos hdone hsettled
    refine ⟨more ++ further, final, ?_, hdestroyed⟩
    rw [runs_append, hrun]
    exact hfurther
  · obtain ⟨hgone, hfinal⟩ := destroyed_final hs hd
    exact ⟨hgone, hs.freed hd, hfinal⟩

/-- Another thread calls `stop` while the purge thread is about to work. -/
def stoppedAtWork : List ProcessEvent :=
  [.start, .launch .heartbeat true, .launch .purge true, .check .purge, .wake .purge, .check .purge,
    .handlerCall (.put 0 (text "k") (text "v") 0)]

theorem shutdown_clean_stopped_at_work : ∃ server mid s,
    CacheServer.construct CacheServer.oneSlot = .ok server ∧
    runs step (init server) stoppedAtWork = some mid ∧
    runs step mid [.stop, .check .heartbeat, .handlerCall (.get 1 (text "k")),
      .purgeExpired fun _ => 1] = some s ∧
    s.left = 4 ∧ s.owner = .listening ∧ ∃ more s', (∀ e ∈ more, e.closes = true) ∧
      runs step s more = some s' ∧ s'.stopper = none ∧ ∀ t, (s'.workers t).joinable = false := by
  obtain ⟨server, hserver, mid, hmid, hstarted, s, hrun, hleft, howner⟩ : ∃ server,
      CacheServer.construct CacheServer.oneSlot = .ok server ∧ ∃ mid,
        runs step (init server) stoppedAtWork = some mid ∧ mid.owner.started = true ∧ ∃ s,
        runs step mid [.stop, .check .heartbeat, .handlerCall (.get 1 (text "k")),
          .purgeExpired fun _ => 1] = some s ∧ s.left = 4 ∧ s.owner = .listening :=
    ⟨_, rfl, _, rfl, rfl, _, rfl, rfl, rfl⟩
  obtain ⟨_, _, ⟨more, s', hall, hmore, hstopper, hjoined, _⟩, _⟩ := shutdown_clean hserver
    ⟨isText_text _, isText_text _, isText_text _⟩ hmid hstarted (Or.inr rfl) hrun
  exact ⟨server, mid, s, hserver, hmid, hrun, hleft, howner, more, s', hall, hmore, hstopper, hjoined⟩

end ServerProcess

end SelfHealingCache
