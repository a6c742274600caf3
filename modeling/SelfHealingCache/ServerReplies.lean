import SelfHealingCache.LruContents
import SelfHealingCache.ServerAtomicity

namespace SelfHealingCache

/-- A PUT between its two calls of the cache. -/
structure WaitingPut where
  key : Bytes
  value : Bytes
  ttl : UInt32
  existed : Bool
  deriving DecidableEq

/-- A request that has been answered, with the status. -/
inductive Answered
  | put (key : Bytes) (status : Nat)
  | delete (key : Bytes) (status : Nat)
  deriving DecidableEq

/-- A node with its requests in flight and the answers given. -/
structure InFlight where
  server : CacheServer
  waiting : List WaitingPut
  answers : List Answered

/-- What can happen next: each call of the cache is one step. -/
inductive RequestStep
  | putChecks (now : TimePoint) (key : Bytes) (body : Option Document)
  | putStores (now : TimePoint) (put : WaitingPut)
  | delete (key : Bytes)

def RequestStep.key : RequestStep → Bytes
  | .putChecks _ key _ => key
  | .putStores _ put => put.key
  | .delete key => key

/-- PUTs answered 201 less DELETEs answered 200. -/
def createdLessDeleted (key : Bytes) (answers : List Answered) : Int :=
  answers.count (.put key 201) - answers.count (.delete key 200)

namespace InFlight

def start (server : CacheServer) : InFlight := ⟨server, [], []⟩

/-- `handle_put` up to its call of `contains` and from its call of `put` on; `handle_delete`. -/
def step (s : InFlight) : RequestStep → Option InFlight
  | .putChecks now key body =>
    match parsePut body with
    | .error reply => some { s with answers := s.answers ++ [.put key reply.status] }
    | .ok (value, ttl) => do
      let existed ← s.server.cache_.contains now key
      some { s with waiting := s.waiting ++ [⟨key, value, ttl, existed⟩] }
  | .putStores now put =>
    if put ∈ s.waiting then do
      let cache ← s.server.cache_.put now put.key put.value put.ttl
      some
        { server := { s.server with cache_ := cache }
          waiting := s.waiting.erase put
          answers := s.answers ++
            [.put put.key (putReply s.server.config_ put.key put.existed).status] }
    else none
  | .delete key => do
    let (server, reply) ← s.server.handleDelete key
    some { s with server := server, answers := s.answers ++ [.delete key reply.status] }

/-- A put finds the key as its `contains` has seen it, and the answer can be written. -/
def Undisturbed (s : InFlight) : RequestStep → Prop
  | .putChecks _ _ _ => True
  | .putStores _ put =>
    put.existed = (s.server.cache_.entryFor put.key).isSome ∧ IsText put.key ∧
      IsText s.server.config_.nodeId
  | .delete key => s.server.cache_.entryFor key = none ∨ IsText key

end InFlight

/-- The two steps of a PUT that no other request separates are `handle_put`. -/
theorem InFlight.put_alone {s : InFlight} {checked now : TimePoint} {key value : Bytes}
    {ttl : UInt32} {body : Option Document} {server' : CacheServer} {reply : HttpReply}
    (hparse : parsePut body = .ok (value, ttl))
    (h : s.server.handlePut checked now key body = some (server', reply)) :
    ∃ put s₁ s₂, s.step (.putChecks checked key body) = some s₁ ∧
      s₁.step (.putStores now put) = some s₂ ∧ s₂.server = server' ∧
      s₂.answers = s.answers ++ [.put key reply.status] := by
  rw [CacheServer.handlePut, hparse] at h
  obtain ⟨existed, hexisted, h⟩ := Option.bind_eq_some_iff.mp h
  obtain ⟨cache, hput, h⟩ := Option.bind_eq_some_iff.mp h
  cases h
  let put : WaitingPut := ⟨key, value, ttl, existed⟩
  let answer := Answered.put key (putReply s.server.config_ key existed).status
  refine ⟨put, ⟨s.server, s.waiting ++ [put], s.answers⟩,
    ⟨⟨s.server.config_, cache⟩, (s.waiting ++ [put]).erase put, s.answers ++ [answer]⟩,
    ?_, ?_, rfl, rfl⟩
  · rw [step, hparse]
    dsimp only
    rw [hexisted]
    rfl
  · rw [step, if_pos (List.mem_append_right _ List.mem_cons_self), hput]
    rfl

section counts

theorem createdLessDeleted_snoc (key : Bytes) (answers : List Answered) (a : Answered) :
    createdLessDeleted key (answers ++ [a]) = createdLessDeleted key answers +
      (if a = .put key 201 then 1 else 0) - (if a = .delete key 200 then 1 else 0) := by
  simp only [createdLessDeleted, List.count_append, List.count_singleton, beq_iff_eq]
  split <;> split <;> omega

theorem putReply_status {config_ : NodeConfig} {key : Bytes} (hkey : IsText key)
    (hid : IsText config_.nodeId) (existed : Bool) :
    (putReply config_ key existed).status = if existed then 200 else 201 :=
  respond_status (putReply_success.mpr ⟨hkey, hid⟩)

theorem deleteReply_status {key : Bytes} {removed : Bool} (h : removed = true → IsText key) :
    (deleteReply key removed).status = 200 ↔ removed = true := by
  cases removed with
  | true =>
    have hsuccess := deleteReply_success.mpr ⟨rfl, h rfl⟩
    exact ⟨fun _ => rfl, fun _ => respond_status hsuccess⟩
  | false =>
    have hfailure : ¬(deleteReply key false).Success := by simp [deleteReply_success]
    simp [failure_status hfailure]

end counts

/-- While nothing is evicted, the answers given count the keys. -/
structure Counted (config : NodeConfig) (keys : Finset Bytes) (s : InFlight)
    (c : LruStore Bytes Bytes) : Prop where
  config : s.server.config_ = config
  holds : s.server.Holds c
  fits : c.Fits keys
  law : ∀ key, createdLessDeleted key s.answers = if (c.find? key).isSome then 1 else 0

namespace Counted

variable {config : NodeConfig} {keys : Finset Bytes} {s s' : InFlight}
  {c : LruStore Bytes Bytes}

theorem putChecks (h : Counted config keys s c) {now : TimePoint} {key : Bytes}
    {body : Option Document} (hstep : s.step (.putChecks now key body) = some s') :
    Counted config keys s' c := by
  rw [InFlight.step] at hstep
  cases hparse : parsePut body with
  | error reply =>
    rw [hparse] at hstep
    cases hstep
    refine ⟨h.config, h.holds, h.fits, fun k => ?_⟩
    have hstatus := failure_status (parsePut_failure hparse) (show 200 ≤ 201 ∧ 201 < 300 by decide)
    rw [createdLessDeleted_snoc, h.law k]
    simp [hstatus]
  | ok fields =>
    rw [hparse] at hstep
    obtain ⟨existed, _, hstep⟩ := Option.bind_eq_some_iff.mp hstep
    cases hstep
    exact ⟨h.config, h.holds, h.fits, h.law⟩

theorem putStores (h : Counted config keys s c) {now : TimePoint} {put : WaitingPut}
    (hkey : put.key ∈ keys) (hquiet : s.Undisturbed (.putStores now put))
    (hstep : s.step (.putStores now put) = some s') : ∃ c', Counted config keys s' c' := by
  rw [InFlight.step] at hstep
  obtain ⟨hwaiting, hstep⟩ := Option.ite_none_right_eq_some.mp hstep
  obtain ⟨cache, hput, hrefines⟩ := put_refines h.holds.refines now put.key put.value put.ttl
  rw [hput] at hstep
  cases hstep
  obtain ⟨hcap, httl⟩ := LruStore.put_sameConfig c now put.key put.value put.ttl
  refine ⟨c.put now put.key put.value put.ttl, h.config,
    ⟨hrefines, hcap.trans h.holds.capacity, httl.trans h.holds.defaultTtlS⟩,
    h.fits.put hkey now put.value put.ttl, fun k => ?_⟩
  obtain ⟨hexisted, htext, hid⟩ := hquiet
  rw [h.holds.refines.entryFor] at hexisted
  have hstatus := putReply_status htext hid put.existed
  rw [createdLessDeleted_snoc, h.law k, hstatus]
  by_cases hk : k = put.key
  · subst hk
    rw [LruStore.put_find?_self, ← hexisted]
    cases put.existed <;> simp
  · rw [h.fits.put_find? hkey now put.value put.ttl hk]
    simp [Ne.symm hk]

theorem delete (h : Counted config keys s c) {key : Bytes}
    (hquiet : s.Undisturbed (.delete key)) (hstep : s.step (.delete key) = some s') :
    ∃ c', Counted config keys s' c' := by
  obtain ⟨server', hhandle, hconfig, hholds⟩ := CacheServer.handle_holds h.holds (.delete key)
  rw [InFlight.step] at hstep
  change s.server.handleDelete key = _ at hhandle
  rw [hhandle] at hstep
  cases hstep
  have hfits : (c.remove key).1.Fits keys := by
    refine ⟨fun e he => ?_, by rw [(LruStore.remove_sameConfig c key).1]; exact h.fits.2⟩
    rw [LruStore.remove_entries] at he
    exact h.fits.1 e (mem_without.mp he).1
  have htext : (c.remove key).2 = true → IsText key := by
    intro hremoved
    rw [LruStore.remove_removed] at hremoved
    rcases hquiet with hnone | htext
    · rw [h.holds.refines.entryFor] at hnone
      rw [hnone] at hremoved
      cases hremoved
    · exact htext
  refine ⟨(c.remove key).1, hconfig.trans h.config, hholds, hfits, fun k => ?_⟩
  have hstatus : (deleteReply key (c.remove key).2).status = 200 ↔
      (c.find? key).isSome = true := by
    rw [← LruStore.remove_removed]
    exact deleteReply_status htext
  rw [createdLessDeleted_snoc, h.law k, LruStore.remove_find?]
  change _ + _ - (if Answered.delete key (deleteReply key (c.remove key).2).status = _ then 1
    else 0) = _
  by_cases hk : k = key
  · subst hk
    cases hf : c.find? k <;> simp [hf, hstatus]
  · simp [hk, Ne.symm hk]

end Counted

namespace InFlight

/-- As long as every put finds its key as its `contains` has seen it and all answers can be
written, the answers count the keys, however the requests interleave. -/
theorem answers_count_keys {config : NodeConfig} {server : CacheServer}
    {steps : List RequestStep} {s : InFlight} (hstart : CacheServer.construct config = .ok server)
    (hrun : runs step (start server) steps = some s) {keys : Finset Bytes}
    (hkeys : ∀ x ∈ steps, x.key ∈ keys) (hcap : keys.card ≤ config.cacheCapacity)
    (hquiet : ∀ past x rest mid, steps = past ++ x :: rest →
      runs step (start server) past = some mid → mid.Undisturbed x) (key : Bytes) :
    createdLessDeleted key s.answers =
      if (s.server.cache_.entryFor key).isSome then 1 else 0 := by
  obtain ⟨hpos, hconfig, hholds⟩ := CacheServer.construct_holds hstart
  have hcounted : ∃ c, Counted config keys s c := by
    refine runs_history (I := fun _ s => ∃ c, Counted config keys s c) ?_ ?_ hrun
    · exact ⟨_, hconfig, hholds, ⟨fun e he => absurd he List.not_mem_nil, hcap⟩, fun k => rfl⟩
    · intro past x rest mid s' hsplit hmid ⟨c, h⟩ hstep
      have hq := hquiet past x rest mid hsplit hmid
      have hx : x.key ∈ keys := hkeys x (by rw [hsplit]; simp)
      cases x with
      | putChecks now k body => exact ⟨c, h.putChecks hstep⟩
      | putStores now put => exact h.putStores hx hq hstep
      | delete k => exact h.delete hq hstep
  obtain ⟨c, h⟩ := hcounted
  rw [h.holds.refines.entryFor]
  exact h.law key

/-- One PUT. -/
def lonePut : List RequestStep :=
  [.putChecks 0 (text "k") (some CacheServer.valueBody),
    .putStores 0 ⟨text "k", text "v", 0, false⟩]

theorem answers_count_keys_lone_put : ∃ server s,
    CacheServer.construct CacheServer.oneSlot = .ok server ∧
    runs step (start server) lonePut = some s ∧
    createdLessDeleted (text "k") s.answers = 1 := by
  obtain ⟨server, s, hserver, hrun, hentry⟩ : ∃ server s,
      CacheServer.construct CacheServer.oneSlot = .ok server ∧
      runs step (start server) lonePut = some s ∧
      (s.server.cache_.entryFor (text "k")).isSome = true := ⟨_, _, rfl, rfl, rfl⟩
  refine ⟨server, s, hserver, hrun, ?_⟩
  have hkeys : ∀ x ∈ lonePut, x.key ∈ ({text "k"} : Finset Bytes) := by
    simp [lonePut, RequestStep.key]
  rw [answers_count_keys hserver hrun hkeys (by decide) ?_, if_pos hentry]
  intro past x rest mid hsplit hmid
  match past, hsplit with
  | [], hsplit =>
    cases hsplit
    trivial
  | [_], hsplit =>
    cases hsplit
    cases hserver
    cases hmid
    exact ⟨rfl, isText_text "k", isText_text "node-1"⟩
  | _ :: _ :: _ :: _, hsplit => simp [lonePut] at hsplit

/-- Two PUTs of one key that both look before either stores are both answered 201. -/
theorem two_puts_created : ∃ server s,
    CacheServer.construct CacheServer.oneSlot = .ok server ∧
    runs step (start server)
      [.putChecks 0 (text "k") (some CacheServer.valueBody),
        .putChecks 0 (text "k") (some CacheServer.valueBody),
        .putStores 0 ⟨text "k", text "v", 0, false⟩,
        .putStores 0 ⟨text "k", text "v", 0, false⟩] = some s ∧
    s.waiting = [] ∧ s.answers = [.put (text "k") 201, .put (text "k") 201] ∧
    (s.server.cache_.entryFor (text "k")).isSome = true ∧
    createdLessDeleted (text "k") s.answers = 2 :=
  ⟨_, _, rfl, rfl, rfl, rfl, rfl, rfl⟩

end InFlight

end SelfHealingCache
