import SelfHealingCache.ZoneRouter

namespace SelfHealingCache

/-- The calls that read or change the pins. -/
inductive PinCall where
  | pinWrite (key primary clientZone : String)
  | isPinnedToPrimary (key primary : String)
  | cleanupExpiredPins

namespace ZoneRouter

def call (zr : ZoneRouter) (now : Time) : PinCall → ZoneRouter
  | .pinWrite key primary clientZone => zr.pinWrite now key primary clientZone
  | .isPinnedToPrimary key primary => (zr.isPinnedToPrimary now key primary).1
  | .cleanupExpiredPins => (zr.cleanupExpiredPins now).1

def calls (zr : ZoneRouter) (history : List (Time × PinCall)) : ZoneRouter :=
  history.foldl (fun zr c => zr.call c.1 c.2) zr

/-- The writes of a history, each with its key, its primary and its instant. -/
def pinWrites (history : List (Time × PinCall)) : List (String × String × Time) :=
  history.filterMap fun c =>
    match c.2 with
    | .pinWrite key primary _ => some (key, primary, c.1)
    | _ => none

/-- The primary and the instant of the last write of a key. -/
def lastPin (history : List (Time × PinCall)) (key : String) : Option (String × Time) :=
  ((pinWrites history).filter fun w => w.1 = key).getLast?.map Prod.snd

/-- What is left of a pin at an instant. -/
def unexpired (now : Time) (pin : Option (String × Time)) : Option (String × Time) :=
  pin.filter fun p => ¬ Expired now p.2

theorem unexpired_none (now : Time) : unexpired now none = none := rfl

theorem unexpired_old {now : Time} {p : String × Time} (h : Expired now p.2) :
    unexpired now (some p) = none := by
  simp [unexpired, Option.filter, h]

theorem unexpired_young {now : Time} {p : String × Time} (h : ¬ Expired now p.2) :
    unexpired now (some p) = some p := by
  simp [unexpired, Option.filter, h]

theorem unexpired_eq_some {now : Time} {pin : Option (String × Time)} {p : String × Time} :
    unexpired now pin = some p ↔ pin = some p ∧ ¬ Expired now p.2 := by
  simp [unexpired, Option.filter_eq_some_iff]

theorem not_expired {now t₀ : Time} : ¬ Expired now t₀ ↔ (now - t₀) * 1000 ≤ 500 := by
  simp [Expired, readYourWritesPinMs]

theorem expired_mono {now later t₀ : Time} (hle : now ≤ later) (h : Expired now t₀) :
    Expired later t₀ := by
  have hstep : (now - t₀) * 1000 ≤ (later - t₀) * 1000 := by linarith
  exact lt_of_lt_of_le h hstep

/-- Dropping the expired pins at one instant drops nothing that a later instant would keep. -/
theorem unexpired_unexpired {now later : Time} (hle : now ≤ later) (pin : Option (String × Time)) :
    unexpired later (unexpired now pin) = unexpired later pin := by
  cases pin with
  | none => rfl
  | some p =>
    by_cases he : Expired now p.2
    · rw [unexpired_old he, unexpired_old (expired_mono hle he), unexpired_none]
    · rw [unexpired_young he]

theorem pinWrite_pin (zr : ZoneRouter) (now : Time) (key primary clientZone x : String) :
    (zr.pinWrite now key primary clientZone).recentWrites.get? x
      = if x = key then some (primary, now) else zr.recentWrites.get? x :=
  Dict.get?_set zr.recentWrites key x (primary, now)

/-- A query answers yes when an unexpired pin names its primary. -/
theorem is_pinned_iff {zr : ZoneRouter} {now : Time} {key primary : String} :
    (zr.isPinnedToPrimary now key primary).2 = true
      ↔ ∃ t₀, unexpired now (zr.recentWrites.get? key) = some (primary, t₀) := by
  unfold isPinnedToPrimary
  split
  next h => simp [h, unexpired_none]
  next pinnedNode writeTime h =>
    simp only [h, unexpired_eq_some, Option.some.injEq, Prod.mk.injEq]
    split
    next hne => simp [hne]
    next heq =>
      have heq : pinnedNode = primary := not_not.mp heq
      split
      next he => simp [he]
      next he => simp [heq, he]

/-- A query deletes only a pin that has expired. -/
theorem is_pinned_pin {zr : ZoneRouter} {now later : Time} (hle : now ≤ later)
    (key primary x : String) :
    unexpired later ((zr.isPinnedToPrimary now key primary).1.recentWrites.get? x)
      = unexpired later (zr.recentWrites.get? x) := by
  unfold isPinnedToPrimary
  split
  next => rfl
  next pinnedNode writeTime h =>
    split
    next => rfl
    next =>
      split
      next he =>
        have hl : Expired later writeTime := expired_mono hle he
        rw [Dict.get?_erase]
        by_cases hx : x = key
        · rw [if_pos hx, hx, h, unexpired_none, unexpired_old hl]
        · rw [if_neg hx]
      next => rfl

/-- The sweep keeps what its own test of the age keeps. -/
theorem cleanup_pin (zr : ZoneRouter) (now : Time) (x : String) :
    (zr.cleanupExpiredPins now).1.recentWrites.get? x
      = unexpired now (zr.recentWrites.get? x) := by
  have hmem : x ∈ ((zr.recentWrites.items.filter fun p => Expired now p.2.2).map Prod.fst)
      ↔ ∃ p, zr.recentWrites.get? x = some p ∧ Expired now p.2 := by
    simp only [List.mem_map, List.mem_filter, Dict.get?_eq_some, decide_eq_true_eq]
    constructor
    · rintro ⟨p, ⟨hp, he⟩, rfl⟩
      exact ⟨p.2, hp, he⟩
    · rintro ⟨p, hp, he⟩
      exact ⟨(x, p), ⟨hp, he⟩, rfl⟩
  unfold cleanupExpiredPins
  simp only [Dict.get?_foldl_erase, hmem]
  cases hg : zr.recentWrites.get? x with
  | none => simp [unexpired_none]
  | some p =>
    by_cases he : Expired now p.2
    · simp [he, unexpired_old he]
    · simp [he, unexpired_young he]

theorem lastPin_append (history : List (Time × PinCall)) (c : Time × PinCall) (key : String) :
    lastPin (history ++ [c]) key = (lastPin [c] key).or (lastPin history key) := by
  simp only [lastPin, pinWrites, List.filterMap_append, List.filter_append, List.getLast?_append,
    Option.map_or]

theorem last_pinWrite (now : Time) (k primary clientZone key : String) :
    lastPin [(now, .pinWrite k primary clientZone)] key
      = if key = k then some (primary, now) else none := by
  by_cases hk : key = k
  · simp [lastPin, pinWrites, hk]
  · have hk' : ¬ k = key := fun e => hk e.symm
    simp [lastPin, pinWrites, hk, hk']

/-- At every later instant the pins left are those of the last writes. -/
def Tracks (zr : ZoneRouter) (history : List (Time × PinCall)) (now : Time) : Prop :=
  ∀ key later, now ≤ later →
    unexpired later (zr.recentWrites.get? key) = unexpired later (lastPin history key)

theorem tracks_call {zr : ZoneRouter} {history : List (Time × PinCall)} {before now : Time}
    (h : zr.Tracks history before) (hle : before ≤ now) (c : PinCall) :
    (zr.call now c).Tracks (history ++ [(now, c)]) now := by
  intro key later hlater
  have hold := h key later (hle.trans hlater)
  rw [lastPin_append]
  cases c with
  | pinWrite k primary clientZone =>
    rw [call, pinWrite_pin, last_pinWrite]
    by_cases hk : key = k
    · rw [if_pos hk, if_pos hk, Option.some_or]
    · rw [if_neg hk, if_neg hk, Option.none_or, hold]
  | isPinnedToPrimary k primary =>
    rw [call, is_pinned_pin hlater, hold]
    rfl
  | cleanupExpiredPins =>
    rw [call, cleanup_pin, unexpired_unexpired hlater, hold]
    rfl

theorem tracks_calls {history : List (Time × PinCall)} {now : Time}
    (hclock : (history.map Prod.fst ++ [now]).Pairwise (· ≤ ·)) :
    (init.calls history).Tracks history now := by
  induction history using List.reverseRecOn generalizing now with
  | nil => intro key later _; rfl
  | append_singleton history c ih =>
    rw [List.map_append, List.pairwise_append] at hclock
    obtain ⟨hbefore, _, hlast⟩ := hclock
    have hle : c.1 ≤ now := hlast c.1 (by simp) now (by simp)
    have hcall := tracks_call (ih hbefore) le_rfl c.2
    have hrun : init.calls (history ++ [c]) = (init.calls history).call c.1 c.2 := by
      simp [calls]
    intro key later hlater
    rw [hrun]
    exact hcall key later (hle.trans hlater)

/-- The answer of a query after a history. -/
theorem pinned_iff_lastPin {history : List (Time × PinCall)} {now : Time}
    (hclock : (history.map Prod.fst ++ [now]).Pairwise (· ≤ ·)) (key primary : String) :
    ((init.calls history).isPinnedToPrimary now key primary).2 = true
      ↔ ∃ t₀, lastPin history key = some (primary, t₀) ∧ (now - t₀) * 1000 ≤ 500 := by
  simp only [is_pinned_iff, tracks_calls hclock key now le_rfl, unexpired_eq_some, not_expired]

/-- A query names the primary of the last write of its key until 500 ms after it, whatever queries
and sweeps came in between, and a sweep keeps the pins of the writes of the last 500 ms. -/
theorem pins_follow_last_writes {history : List (Time × PinCall)} {now : Time}
    (hclock : (history.map Prod.fst ++ [now]).Pairwise (· ≤ ·)) :
    (∀ key primary, ((init.calls history).isPinnedToPrimary now key primary).2 = true
      ↔ ∃ t₀, lastPin history key = some (primary, t₀) ∧ (now - t₀) * 1000 ≤ 500) ∧
    (∀ other : List (Time × PinCall), (other.map Prod.fst ++ [now]).Pairwise (· ≤ ·) →
      pinWrites other = pinWrites history → ∀ key primary,
        ((init.calls other).isPinnedToPrimary now key primary).2
          = ((init.calls history).isPinnedToPrimary now key primary).2) ∧
    ∀ key primary t₀,
      ((init.calls history).cleanupExpiredPins now).1.recentWrites.get? key = some (primary, t₀)
        ↔ lastPin history key = some (primary, t₀) ∧ (now - t₀) * 1000 ≤ 500 := by
  refine ⟨pinned_iff_lastPin hclock, ?_, ?_⟩
  · intro other hother hwrites key primary
    have hsame : lastPin other key = lastPin history key := by rw [lastPin, hwrites, lastPin]
    rw [Bool.eq_iff_iff, pinned_iff_lastPin hother, pinned_iff_lastPin hclock, hsame]
  · intro key primary t₀
    rw [cleanup_pin, tracks_calls hclock key now le_rfl, unexpired_eq_some, not_expired]

/-- The query half a second after the write is still answered with yes, although a query for
another primary and a sweep came in between. -/
theorem pinned_half_second :
    ((init.calls [(0, .pinWrite "k" "a" "z"), (1 / 4, .isPinnedToPrimary "k" "b"),
        (1 / 2, .cleanupExpiredPins)]).isPinnedToPrimary (1 / 2) "k" "a").2 = true := by
  have hclock : (([(0, .pinWrite "k" "a" "z"), (1 / 4, .isPinnedToPrimary "k" "b"),
      (1 / 2, .cleanupExpiredPins)] : List (Time × PinCall)).map Prod.fst ++ [1 / 2]).Pairwise
        (· ≤ ·) := by
    norm_num [Time]
  have hpins := (pins_follow_last_writes hclock).1 "k" "a"
  refine hpins.mpr ⟨0, ?_, by norm_num [Time]⟩
  rfl

end ZoneRouter

end SelfHealingCache
