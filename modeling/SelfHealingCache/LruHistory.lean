import SelfHealingCache.LruInvariant

namespace SelfHealingCache

variable {κ ν : Type} [DecidableEq κ]

/-- All clock readings of a call satisfy `R`. -/
def Op.Reads (R : TimePoint → Prop) : Op κ ν → Prop
  | .get now _ => R now
  | .put now _ _ _ => R now
  | .remove _ => True
  | .purgeExpired now => ∀ i, R (now i)
  | .bulkLoad now _ => ∀ i, R (now i)
  | .clear => True

/-- The calls after which the entry of `key` need not be the one before. -/
def Op.Writes (key : κ) : Op κ ν → Prop
  | .get _ _ => False
  | .put _ k _ _ => k = key
  | .remove k => k = key
  | .purgeExpired _ => False
  | .bulkLoad _ entries => key ∈ entries.map Prod.fst
  | .clear => True

namespace Happening

/-- The key whose entry moves to the front. -/
def touched : Happening κ ν → Option κ
  | .put _ key _ _ => some key
  | .hit key => some key
  | .remove _ => none
  | .clear => none

def Overwrites (key : κ) : Happening κ ν → Prop
  | .put _ k _ _ => k = key
  | .hit _ => False
  | .remove k => k = key
  | .clear => True

/-- `key` is touched, removed or cleared away. -/
def Concerns (key : κ) (h : Happening κ ν) : Prop := h.touched = some key ∨ h.Overwrites key

end Happening

/-- The touched keys of a history, in order. -/
def touches (history : List (Happening κ ν)) : List κ := history.filterMap Happening.touched

omit [DecidableEq κ] in
@[simp] theorem touches_snoc (history : List (Happening κ ν)) (x : Happening κ ν) :
    touches (history ++ [x]) = touches history ++ x.touched.toList := by
  cases h : x.touched <;> simp [touches, h]

/-- Time, value and TTL of the last put of `key` that no remove or clear followed. -/
def lastPut (key : κ) (history : List (Happening κ ν)) : Option (TimePoint × ν × UInt32) :=
  history.foldl (fun last h =>
    match h with
    | .put now k value ttl => if k = key then some (now, value, ttl) else last
    | .hit _ => last
    | .remove k => if k = key then none else last
    | .clear => none) none

/-- The other keys touched since the last touch of `key`; `none` when it was
never touched, or removed or cleared away after it. -/
def touchedSince (key : κ) (history : List (Happening κ ν)) : Option (List κ) :=
  history.foldl (fun since h =>
    match h with
    | .put _ k _ _ => if k = key then some [] else since.map (k :: ·)
    | .hit k => if k = key then some [] else since.map (k :: ·)
    | .remove k => if k = key then none else since
    | .clear => none) none

section Histories

variable (key : κ) (history : List (Happening κ ν))

@[simp] theorem lastPut_put (now : TimePoint) (k : κ) (value : ν) (ttl : UInt32) :
    lastPut key (history ++ [.put now k value ttl]) =
      if k = key then some (now, value, ttl) else lastPut key history := by
  simp [lastPut]

@[simp] theorem lastPut_hit (k : κ) :
    lastPut key (history ++ [.hit k]) = lastPut key history := by
  simp [lastPut]

@[simp] theorem lastPut_remove (k : κ) :
    lastPut key (history ++ [.remove k]) = if k = key then none else lastPut key history := by
  simp [lastPut]

@[simp] theorem lastPut_clear : lastPut key (history ++ [.clear]) = none := by simp [lastPut]

@[simp] theorem touchedSince_put (now : TimePoint) (k : κ) (value : ν) (ttl : UInt32) :
    touchedSince key (history ++ [.put now k value ttl]) =
      if k = key then some [] else (touchedSince key history).map (k :: ·) := by
  simp [touchedSince]

@[simp] theorem touchedSince_hit (k : κ) :
    touchedSince key (history ++ [.hit k]) =
      if k = key then some [] else (touchedSince key history).map (k :: ·) := by
  simp [touchedSince]

@[simp] theorem touchedSince_remove (k : κ) :
    touchedSince key (history ++ [.remove k]) =
      if k = key then none else touchedSince key history := by
  simp [touchedSince]

@[simp] theorem touchedSince_clear : touchedSince key (history ++ [.clear]) = none := by
  simp [touchedSince]

end Histories

/-- The put found by `lastPut`, with nothing overwriting the key after it. -/
theorem lastPut_split {key : κ} {history : List (Happening κ ν)} {now : TimePoint} {value : ν}
    {ttl : UInt32} (h : lastPut key history = some (now, value, ttl)) :
    ∃ before after, history = before ++ .put now key value ttl :: after ∧
      ∀ x ∈ after, ¬x.Overwrites key := by
  induction history using List.reverseRecOn with
  | nil => cases h
  | append_singleton history x ih =>
    have hkeep : ¬x.Overwrites key → lastPut key history = some (now, value, ttl) →
        ∃ before after, history ++ [x] = before ++ .put now key value ttl :: after ∧
          ∀ y ∈ after, ¬y.Overwrites key := by
      intro hx hlast
      obtain ⟨before, after, rfl, hafter⟩ := ih hlast
      refine ⟨before, after ++ [x], by simp, ?_⟩
      intro y hy
      rcases List.mem_append.mp hy with hy | hy
      · exact hafter y hy
      · rw [List.mem_singleton.mp hy]
        exact hx
    cases x with
    | put t k v s =>
      rw [lastPut_put] at h
      split at h
      next hk =>
        subst hk
        cases Option.some.inj h
        exact ⟨history, [], rfl, by simp⟩
      next hk => exact hkeep hk h
    | hit k => exact hkeep id (by simpa using h)
    | remove k =>
      rw [lastPut_remove] at h
      split at h
      next => cases h
      next hk => exact hkeep hk h
    | clear => simp at h

/-- After a touch, as long as the key itself is not concerned, the others touched
are collected. -/
theorem touchedSince_append {key : κ} {history after : List (Happening κ ν)} {others : List κ}
    (h : touchedSince key history = some others) (hafter : ∀ x ∈ after, ¬x.Concerns key) :
    touchedSince key (history ++ after) = some ((touches after).reverse ++ others) := by
  induction after using List.reverseRecOn with
  | nil => simpa [touches] using h
  | append_singleton after x ih =>
    have hx : ¬x.Concerns key := hafter x (by simp)
    have hrest := ih fun y hy => hafter y (List.mem_append_left _ hy)
    rw [← List.append_assoc]
    cases x with
    | put t k v s =>
      have hk : k ≠ key := fun e => hx (.inr e)
      rw [touchedSince_put, if_neg hk, hrest]
      simp [Happening.touched]
    | hit k =>
      have hk : k ≠ key := fun e => hx (.inl (congrArg some e))
      rw [touchedSince_hit, if_neg hk, hrest]
      simp [Happening.touched]
    | remove k =>
      have hk : k ≠ key := fun e => hx (.inr e)
      rw [touchedSince_remove, if_neg hk, hrest]
      simp [Happening.touched]
    | clear => exact absurd (.inr trivial) hx

/-- A touch restarts the collection. -/
theorem touchedSince_touch {key : κ} {history : List (Happening κ ν)} {x : Happening κ ν}
    (hx : x.touched = some key) : touchedSince key (history ++ [x]) = some [] := by
  cases x with
  | put t k v s => simp [Option.some.inj hx]
  | hit k => simp [Option.some.inj hx]
  | remove k => cases hx
  | clear => cases hx

/-- A relation between store and history that every call with readings in `R`
preserves. -/
structure HistoryInvariant (R : TimePoint → Prop)
    (I : LruStore κ ν → List (Happening κ ν) → Prop) : Prop where
  missed : ∀ c history now key, c.find? key = none → I c history → I (c.get now key).1 history
  expired : ∀ c history now key e, R now → c.find? key = some e → isExpired now e = true →
    I c history → I (c.get now key).1 history
  hit : ∀ c history now key e, R now → c.find? key = some e → isExpired now e = false →
    I c history → I (c.get now key).1 (history ++ [.hit key])
  put : ∀ c history now key value ttl, R now → I c history →
    I (c.put now key value ttl) (history ++ [.put now key value ttl])
  remove : ∀ c history key, I c history → I (c.remove key).1 (history ++ [.remove key])
  purgeExpired : ∀ c history now, (∀ i, R (now i)) → I c history → I (c.purgeExpired now).1 history
  clear : ∀ c history, I c history → I c.clear (history ++ [.clear])

namespace HistoryInvariant

variable {R : TimePoint → Prop} {I : LruStore κ ν → List (Happening κ ν) → Prop}

theorem bulkLoad (h : HistoryInvariant R I) (entries : List (κ × ν × UInt32))
    {now : Nat → TimePoint} (hnow : ∀ i, R (now i)) {c : LruStore κ ν}
    {history : List (Happening κ ν)} (hI : I c history) :
    I (LruStore.bulkLoad now entries c) (history ++ loadPuts now entries) := by
  induction entries generalizing now c history with
  | nil => simpa [loadPuts, LruStore.bulkLoad] using hI
  | cons entry entries ih =>
    obtain ⟨key, value, ttl⟩ := entry
    have hput := h.put c history (now 0) key value ttl (hnow 0) hI
    have hrest := ih (fun i => hnow (i + 1)) hput
    simpa [loadPuts, LruStore.bulkLoad] using hrest

theorem step (h : HistoryInvariant R I) {c : LruStore κ ν} {history : List (Happening κ ν)}
    {op : Op κ ν} (hop : op.Reads R) (hI : I c history) :
    I (LruStore.step (c, history) op).1 (LruStore.step (c, history) op).2 := by
  cases op with
  | get now key =>
    cases hf : c.find? key with
    | none =>
      have hm := h.missed c history now key hf hI
      simpa [LruStore.step, (LruStore.get_missing hf now).1] using hm
    | some e =>
      cases hexp : isExpired now e with
      | true =>
        have he := h.expired c history now key e hop hf hexp hI
        simpa [LruStore.step, (LruStore.get_expired hf hexp).1] using he
      | false =>
        have hh := h.hit c history now key e hop hf hexp hI
        simpa [LruStore.step, (LruStore.get_hit hf hexp).1] using hh
  | put now key value ttl => exact h.put c history now key value ttl hop hI
  | remove key => exact h.remove c history key hI
  | purgeExpired now => exact h.purgeExpired c history now hop hI
  | bulkLoad now entries => exact h.bulkLoad entries hop hI
  | clear => exact h.clear c history hI

theorem run (h : HistoryInvariant R I) {c : LruStore κ ν} {ops : List (Op κ ν)}
    (hops : ∀ op ∈ ops, op.Reads R) (hI : I c []) : I (c.run ops).1 (c.run ops).2 := by
  induction ops using List.reverseRecOn with
  | nil => exact hI
  | append_singleton past op ih =>
    have hmid := ih fun x hx => hops x (List.mem_append_left _ hx)
    rw [LruStore.run, List.foldl_append]
    exact h.step (hops op (by simp)) hmid

end HistoryInvariant

end SelfHealingCache
