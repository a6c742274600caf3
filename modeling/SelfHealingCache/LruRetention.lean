import Mathlib.Data.Finset.Card
import Mathlib.Data.Finset.Dedup
import SelfHealingCache.LruFreshness

namespace SelfHealingCache

variable {κ ν : Type}

/-- In the history `newer` was touched after the last touch of `older`. -/
def TouchedAfter (history : List (Happening κ ν)) (older newer : κ) : Prop :=
  ∃ before x after, history = before ++ x :: after ∧ x.touched = some newer ∧
    older ∈ touches before ∧ ∀ y ∈ x :: after, y.touched ≠ some older

theorem TouchedAfter.snoc {history : List (Happening κ ν)} {older newer : κ}
    (h : TouchedAfter history older newer) {x : Happening κ ν} (hx : x.touched ≠ some older) :
    TouchedAfter (history ++ [x]) older newer := by
  obtain ⟨before, y, after, rfl, hy, hbefore, hafter⟩ := h
  refine ⟨before, y, after ++ [x], by simp, hy, hbefore, ?_⟩
  intro z hz
  rw [← List.cons_append] at hz
  rcases List.mem_append.mp hz with hz | hz
  · exact hafter z hz
  · rw [List.mem_singleton.mp hz]
    exact hx

theorem touchedAfter_touch {history : List (Happening κ ν)} {older newer : κ} {x : Happening κ ν}
    (hx : x.touched = some newer) (hold : older ∈ touches history) (hne : newer ≠ older) :
    TouchedAfter (history ++ [x]) older newer := by
  refine ⟨history, x, [], rfl, hx, hold, ?_⟩
  intro y hy
  rw [List.mem_singleton.mp hy, hx]
  exact fun e => hne (Option.some.inj e)

namespace LruStore

/-- The list is ordered by last touch, most recent first. -/
structure Ordered (c : LruStore κ ν) (history : List (Happening κ ν)) : Prop where
  touched : ∀ e ∈ c.entries, e.key ∈ touches history
  order : c.entries.Pairwise fun newer older => TouchedAfter history older.key newer.key

theorem Ordered.sublist {c c' : LruStore κ ν} {history : List (Happening κ ν)}
    (h : c.Ordered history) (hsub : c'.entries.Sublist c.entries) : c'.Ordered history :=
  ⟨fun e he => h.touched e (hsub.subset he), h.order.sublist hsub⟩

/-- Dropping entries while something happens that touches no key. -/
theorem Ordered.snoc {c : LruStore κ ν} {history : List (Happening κ ν)} (h : c.Ordered history)
    {x : Happening κ ν} (hx : x.touched = none) : c.Ordered (history ++ [x]) := by
  refine ⟨?_, h.order.imp fun hab => hab.snoc (by simp [hx])⟩
  intro e he
  rw [touches_snoc]
  exact List.mem_append_left _ (h.touched e he)

/-- Moving the touched key to the front. -/
theorem Ordered.touch {c c' : LruStore κ ν} {history : List (Happening κ ν)} (h : c.Ordered history)
    {x : Happening κ ν} {e : CacheEntry κ ν} {others : List (CacheEntry κ ν)}
    (hx : x.touched = some e.key) (hentries : c'.entries = e :: others)
    (hsub : others.Sublist c.entries) (hne : ∀ y ∈ others, y.key ≠ e.key) :
    c'.Ordered (history ++ [x]) := by
  have htouched : ∀ y ∈ others, y.key ∈ touches history := fun y hy => h.touched y (hsub.subset hy)
  constructor
  · intro y hy
    rw [hentries] at hy
    rw [touches_snoc, hx]
    rcases List.mem_cons.mp hy with rfl | hy
    · simp
    · exact List.mem_append_left _ (htouched y hy)
  · rw [hentries]
    refine List.pairwise_cons.mpr ⟨?_, ?_⟩
    · intro y hy
      exact touchedAfter_touch hx (htouched y hy) (Ne.symm (hne y hy))
    · refine (h.order.sublist hsub).imp_of_mem fun {a b} _ hb hab => hab.snoc ?_
      rw [hx]
      exact fun heq => hne b hb (Option.some.inj heq).symm

/-- The entry of `key` is there, and whatever stands in front of it was touched
among `others`. -/
def Behind (key : κ) (others : List κ) (entries : List (CacheEntry κ ν)) : Prop :=
  ∃ before e after, entries = before ++ e :: after ∧ e.key = key ∧ ∀ x ∈ before, x.key ∈ others

theorem Behind.cons {key : κ} {others : List κ} {entries : List (CacheEntry κ ν)}
    (h : Behind key others entries) (x : CacheEntry κ ν) :
    Behind key (x.key :: others) (x :: entries) := by
  obtain ⟨before, e, after, rfl, hkey, hbefore⟩ := h
  refine ⟨x :: before, e, after, rfl, hkey, ?_⟩
  intro y hy
  rcases List.mem_cons.mp hy with rfl | hy
  · exact List.mem_cons_self
  · exact List.mem_cons_of_mem _ (hbefore y hy)

theorem Behind.dropLast {key : κ} {others : List κ} {entries : List (CacheEntry κ ν)}
    (h : Behind key others entries) (hlast : ∀ e, entries.getLast? = some e → e.key ≠ key) :
    Behind key others entries.dropLast := by
  obtain ⟨before, e, after, rfl, hkey, hbefore⟩ := h
  have hne : after ≠ [] := by
    intro hnil
    subst hnil
    exact hlast e (by simp) hkey
  refine ⟨before, e, after.dropLast, ?_, hkey, hbefore⟩
  rw [List.dropLast_append_of_ne_nil (by simp), List.dropLast_cons_of_ne_nil hne]

theorem unexpired_append (now : Nat → TimePoint) (l l' : List (CacheEntry κ ν)) :
    unexpired now (l ++ l') = unexpired now l ++ unexpired (fun i => now (i + l.length)) l' := by
  induction l generalizing now with
  | nil => rfl
  | cons e l ih =>
    have hrest := ih fun i => now (i + 1)
    cases hexp : isExpired (now 0) e <;> simp [unexpired, hexp, hrest, Nat.add_assoc]

theorem Behind.unexpired {key : κ} {others : List κ} {entries : List (CacheEntry κ ν)}
    (h : Behind key others entries) {now : Nat → TimePoint}
    (hnow : ∀ e ∈ entries, e.key = key → ∀ i, isExpired (now i) e = false) :
    Behind key others (unexpired now entries) := by
  obtain ⟨before, e, after, rfl, hkey, hbefore⟩ := h
  have hfresh := hnow e (by simp) hkey
  refine ⟨SelfHealingCache.unexpired now before, e,
    SelfHealingCache.unexpired (fun i => now (i + 1 + before.length)) after, ?_, hkey, ?_⟩
  · rw [unexpired_append]
    simp [SelfHealingCache.unexpired, hfresh]
  · intro x hx
    exact hbefore x ((unexpired_sublist now before).subset hx)

variable [DecidableEq κ]

theorem Behind.without {key k : κ} {others : List κ} {entries : List (CacheEntry κ ν)}
    (h : Behind key others entries) (hk : k ≠ key) : Behind key others (without k entries) := by
  obtain ⟨before, e, after, rfl, hkey, hbefore⟩ := h
  have hkeep : e.key ≠ k := fun heq => hk (heq.symm.trans hkey)
  refine ⟨SelfHealingCache.without k before, e, SelfHealingCache.without k after, ?_, hkey, ?_⟩
  · simp [SelfHealingCache.without, hkeep]
  · intro x hx
    exact hbefore x (mem_without.mp hx).1

theorem ordered_invariant : HistoryInvariant (κ := κ) (ν := ν) (fun _ => True) Ordered where
  missed := by
    intro c history now key hf h
    apply h.sublist
    rw [missed_entries hf]
  expired := by
    intro c history now key e _ hf hexp h
    apply h.sublist
    rw [expired_entries hf hexp]
    exact without_sublist key _
  hit := by
    intro c history now key e _ hf hexp h
    have hkey := (find?_eq_some.mp hf).2
    refine h.touch (by rw [hkey]; rfl) (hit_entries hf hexp) (without_sublist key _) ?_
    intro y hy
    rw [hkey]
    exact (mem_without.mp hy).2
  put := by
    intro c history now key value ttl _ h
    obtain ⟨others, hsub, hne, hentries⟩ := put_entries c now key value ttl
    exact h.touch rfl hentries hsub hne
  remove := by
    intro c history key h
    have hsnoc := h.snoc (x := .remove key) rfl
    apply hsnoc.sublist
    rw [remove_entries]
    exact without_sublist key _
  purgeExpired := fun c history now _ h => h.sublist (unexpired_sublist now c.entries)
  clear := by
    intro c history h
    have hsnoc := h.snoc (x := .clear) rfl
    exact hsnoc.sublist (List.nil_sublist _)

theorem ordered_run (c : LruStore κ ν) (hc : c.entries = []) (ops : List (Op κ ν)) :
    (c.run ops).1.Ordered (c.run ops).2 := by
  apply ordered_invariant.run
  · intro op _
    cases op <;> simp [Op.Reads]
  · constructor
    · intro e he
      rw [hc] at he
      cases he
    · rw [hc]
      exact List.Pairwise.nil

/-- The entry a put drops is the last one, all others being in front of it. -/
theorem put_dropped {c : LruStore κ ν} {now : TimePoint} {key : κ} {value : ν} {ttl : UInt32}
    {e : CacheEntry κ ν} (he : e ∈ c.entries)
    (hdrop : (c.put now key value ttl).find? e.key = none) :
    c.entries = c.entries.dropLast ++ [e] := by
  have hgone : ∀ x ∈ (c.put now key value ttl).entries, x.key ≠ e.key := find?_eq_none.mp hdrop
  cases hf : c.find? key with
  | some x =>
    have hentries := put_update_entries hf now value ttl
    rw [hentries] at hgone
    have hkey : e.key ≠ key := Ne.symm (hgone _ List.mem_cons_self)
    exact absurd rfl (hgone e (List.mem_cons_of_mem _ (mem_without.mpr ⟨he, hkey⟩)))
  | none =>
    have hentries := put_insert_entries hf now value ttl
    rw [hentries] at hgone
    have hnotin : e ∉ c.makeRoom := fun hm => hgone e (List.mem_cons_of_mem _ hm) rfl
    have hne : c.entries ≠ [] := List.ne_nil_of_mem he
    have hsplit := List.dropLast_append_getLast hne
    unfold makeRoom at hnotin
    split at hnotin
    next =>
      rw [← hsplit] at he
      rcases List.mem_append.mp he with hm | hm
      · exact absurd hm hnotin
      · rw [List.mem_singleton.mp hm]
        exact hsplit.symm
    next => exact absurd he hnotin

/-- The key a put drops is the one whose last touch is oldest. -/
theorem Ordered.dropped {c : LruStore κ ν} {history : List (Happening κ ν)} (h : c.Ordered history)
    {now : TimePoint} {key : κ} {value : ν} {ttl : UInt32} {e o : CacheEntry κ ν}
    (he : e ∈ c.entries) (hdrop : (c.put now key value ttl).find? e.key = none)
    (ho : o ∈ c.entries) (hne : o.key ≠ e.key) : TouchedAfter history e.key o.key := by
  have hlast := put_dropped he hdrop
  have horder := h.order
  rw [hlast] at horder ho
  rcases List.mem_append.mp ho with hm | hm
  · exact (List.pairwise_append.mp horder).2.2 o hm e (by simp)
  · rw [List.mem_singleton.mp hm] at hne
    exact absurd rfl hne

/-- When the entry of `key` is the last one, as many keys were touched as there are
other entries. -/
theorem Behind.length_le_card {key k : κ} {others : List κ} {entries : List (CacheEntry κ ν)}
    {e : CacheEntry κ ν} (h : Behind key others entries) (hn : (entries.map CacheEntry.key).Nodup)
    (hlast : entries.getLast? = some e) (hkey : e.key = key) (hk : ∀ x ∈ entries, x.key ≠ k) :
    entries.length ≤ (k :: others).toFinset.card := by
  obtain ⟨before, e', after, rfl, hkey', hbefore⟩ := h
  rw [List.map_append, List.map_cons] at hn
  obtain ⟨hn₁, hn₂, _⟩ := List.nodup_append'.mp hn
  have hafter : after = [] := by
    by_contra hne
    have hm : e ∈ after := by
      rw [List.getLast?_append_of_ne_nil _ (by simp), List.getLast?_cons_of_ne_nil hne] at hlast
      exact List.mem_of_getLast? hlast
    apply (List.nodup_cons.mp hn₂).1
    rw [hkey', ← hkey]
    exact List.mem_map_of_mem hm
  subst hafter
  have hnodup : (k :: before.map CacheEntry.key).Nodup := by
    refine List.nodup_cons.mpr ⟨?_, hn₁⟩
    intro hm
    obtain ⟨x, hx, hxk⟩ := List.mem_map.mp hm
    exact hk x (List.mem_append_left _ hx) hxk
  have hsub : (k :: before.map CacheEntry.key).toFinset ⊆ (k :: others).toFinset := by
    intro x hx
    rw [List.mem_toFinset] at hx ⊢
    rcases List.mem_cons.mp hx with rfl | hx
    · exact List.mem_cons_self
    · obtain ⟨y, hy, rfl⟩ := List.mem_map.mp hx
      exact List.mem_cons_of_mem _ (hbefore y hy)
  have hcard := Finset.card_le_card hsub
  rw [List.toFinset_card_of_nodup hnodup] at hcard
  simpa using hcard

/-- At the reading `t`: a key touched since which fewer than `capacity` others were
touched is still there, unless its deadline has passed. -/
def Retained (t : TimePoint) (c : LruStore κ ν) (history : List (Happening κ ν)) : Prop :=
  ∀ key others, touchedSince key history = some others →
    ∃ now value ttl, lastPut key history = some (now, value, ttl) ∧
      (others.toFinset.card < c.capacity →
        (effectiveTtl c.defaultTtlS ttl = 0 ∨
          t < now + seconds (effectiveTtl c.defaultTtlS ttl)) →
        Behind key others c.entries)

/-- A touch of another key adds that key to the ones touched since. -/
theorem touchedSince_other {key k : κ} {history : List (Happening κ ν)} {x : Happening κ ν}
    (hx : x.touched = some k) (hk : k ≠ key) :
    touchedSince key (history ++ [x]) = (touchedSince key history).map (k :: ·) := by
  cases x with
  | put now k' value ttl =>
    cases Option.some.inj hx
    rw [touchedSince_put, if_neg hk]
  | hit k' =>
    cases Option.some.inj hx
    rw [touchedSince_hit, if_neg hk]
  | remove k' => cases hx
  | clear => cases hx

theorem Retained.touch {t : TimePoint} {c c' : LruStore κ ν} {history : List (Happening κ ν)}
    (h : c.Retained t history) {x : Happening κ ν} {e : CacheEntry κ ν}
    {rest : List (CacheEntry κ ν)} (hconfig : SameConfig c c') (hx : x.touched = some e.key)
    (hself : ∃ now value ttl, lastPut e.key (history ++ [x]) = some (now, value, ttl))
    (hother : ∀ key, e.key ≠ key → lastPut key (history ++ [x]) = lastPut key history)
    (hentries : c'.entries = e :: rest)
    (hrest : ∀ key others, e.key ≠ key → (e.key :: others).toFinset.card < c.capacity →
      Behind key others c.entries → Behind key others rest) :
    c'.Retained t (history ++ [x]) := by
  intro key others hsince
  by_cases hk : e.key = key
  · subst hk
    obtain ⟨now, value, ttl, hlast⟩ := hself
    rw [touchedSince_touch hx] at hsince
    cases Option.some.inj hsince
    exact ⟨now, value, ttl, hlast, fun _ _ => ⟨[], e, rest, hentries, rfl, by simp⟩⟩
  · rw [touchedSince_other hx hk] at hsince
    obtain ⟨others₀, hsince₀, hothers⟩ := Option.map_eq_some_iff.mp hsince
    subst hothers
    obtain ⟨now, value, ttl, hlast, hbehind⟩ := h key others₀ hsince₀
    refine ⟨now, value, ttl, (hother key hk).trans hlast, ?_⟩
    intro hcard hfresh
    rw [hconfig.1] at hcard
    rw [hconfig.2] at hfresh
    have hsub : others₀.toFinset ⊆ (e.key :: others₀).toFinset := by
      intro y hy
      rw [List.mem_toFinset] at hy ⊢
      exact List.mem_cons_of_mem _ hy
    have hcard₀ := Nat.lt_of_le_of_lt (Finset.card_le_card hsub) hcard
    rw [hentries]
    exact (hrest key others₀ hk hcard (hbehind hcard₀ hfresh)).cons e

/-- Steps that touch nothing and keep what is not expired. -/
theorem Retained.keep {t : TimePoint} {c c' : LruStore κ ν} {history history' : List (Happening κ ν)}
    (h : c.Retained t history) (hstored : c.Stored history) (hconfig : SameConfig c c')
    (hpast : ∀ key others, touchedSince key history' = some others →
      touchedSince key history = some others ∧ lastPut key history' = lastPut key history ∧
        (Behind key others c.entries → (∀ e ∈ c.entries, e.key = key → isExpired t e = false) →
          Behind key others c'.entries)) :
    c'.Retained t history' := by
  intro key others hsince
  obtain ⟨hsince₀, hlast₀, hkept⟩ := hpast key others hsince
  obtain ⟨now, value, ttl, hlast, hbehind⟩ := h key others hsince₀
  refine ⟨now, value, ttl, hlast₀.trans hlast, ?_⟩
  intro hcard hfresh
  rw [hconfig.1] at hcard
  rw [hconfig.2] at hfresh
  refine hkept (hbehind hcard hfresh) ?_
  intro e he hkey
  obtain ⟨now', ttl', hlast', hdeadline⟩ := hstored e he
  rw [hkey, hlast] at hlast'
  cases Option.some.inj hlast'
  exact (putExpiry_unexpired hdeadline).mpr hfresh

/-- A retained key is read, with the value of its last put. -/
theorem Retained.readable {t : TimePoint} {c : LruStore κ ν} {history : List (Happening κ ν)}
    (h : c.Retained t history) (hstored : c.Stored history) {key : κ} {others : List κ}
    (hsince : touchedSince key history = some others)
    (hcard : others.toFinset.card < c.capacity) :
    ∃ now value ttl, lastPut key history = some (now, value, ttl) ∧
      ((effectiveTtl c.defaultTtlS ttl = 0 ∨
          t < now + seconds (effectiveTtl c.defaultTtlS ttl)) →
        (c.get t key).2 = some value) := by
  obtain ⟨now, value, ttl, hlast, hbehind⟩ := h key others hsince
  refine ⟨now, value, ttl, hlast, fun hfresh => ?_⟩
  obtain ⟨before, e, after, hentries, hkey, _⟩ := hbehind hcard hfresh
  have he : e ∈ c.entries := by
    rw [hentries]
    simp
  obtain ⟨now', ttl', hlast', hdeadline⟩ := hstored e he
  rw [hkey, hlast] at hlast'
  cases Option.some.inj hlast'
  have hfind := find?_eq_some.mpr ⟨he, hkey⟩
  exact (get_hit hfind ((putExpiry_unexpired hdeadline).mpr hfresh)).1

theorem retained_invariant (t : TimePoint) : HistoryInvariant (κ := κ) (ν := ν) (fun r => r ≤ t)
    (fun c history => c.Stored history ∧ c.Retained t history) where
  missed := by
    intro c history now key hf ⟨hs, hr⟩
    refine ⟨stored_invariant.missed c history now key hf hs, ?_⟩
    apply hr.keep hs (get_sameConfig c now key)
    intro k others hsince
    rw [missed_entries hf]
    exact ⟨hsince, rfl, fun hb _ => hb⟩
  expired := by
    intro c history now key e hnow hf hexp ⟨hs, hr⟩
    refine ⟨stored_invariant.expired c history now key e trivial hf hexp hs, ?_⟩
    obtain ⟨he, hkey⟩ := find?_eq_some.mp hf
    apply hr.keep hs (get_sameConfig c now key)
    intro k others hsince
    refine ⟨hsince, rfl, fun hb hfresh => ?_⟩
    rw [expired_entries hf hexp]
    apply hb.without
    rintro rfl
    have hcontra := not_expired_before hnow (hfresh e he hkey)
    rw [hexp] at hcontra
    cases hcontra
  hit := by
    intro c history now key e _ hf hexp ⟨hs, hr⟩
    refine ⟨stored_invariant.hit c history now key e trivial hf hexp hs, ?_⟩
    obtain ⟨he, rfl⟩ := find?_eq_some.mp hf
    refine hr.touch (get_sameConfig c now e.key) rfl ?_ ?_ (hit_entries hf hexp) ?_
    · obtain ⟨now', ttl, hlast, _⟩ := hs e he
      exact ⟨now', e.value, ttl, by rw [lastPut_hit, hlast]⟩
    · intro k _
      rw [lastPut_hit]
    · intro k others hk _ hb
      exact hb.without hk
  put := by
    intro c history now key value ttl _ ⟨hs, hr⟩
    refine ⟨stored_invariant.put c history now key value ttl trivial hs, ?_⟩
    have hconfig := put_sameConfig c now key value ttl
    have hself : ∃ now' value' ttl', lastPut key (history ++ [.put now key value ttl]) =
        some (now', value', ttl') := ⟨now, value, ttl, by simp⟩
    have hother : ∀ k, key ≠ k → lastPut k (history ++ [.put now key value ttl]) =
        lastPut k history := by
      intro k hk
      rw [lastPut_put, if_neg hk]
    cases hf : c.find? key with
    | some e =>
      have hentries := put_update_entries hf now value ttl
      exact hr.touch hconfig rfl hself hother hentries fun k others hk _ hb => hb.without hk
    | none =>
      have hentries := put_insert_entries hf now value ttl
      refine hr.touch hconfig rfl hself hother hentries ?_
      intro k others hk hcard hb
      have hnew := find?_eq_none.mp hf
      unfold makeRoom
      split
      next hfull =>
        apply hb.dropLast
        intro e hlast hkey
        have hle := hb.length_le_card c.keys_nodup hlast hkey hnew
        exact Nat.lt_irrefl _ (Nat.lt_of_le_of_lt (Nat.le_trans hfull hle) hcard)
      next => exact hb
  remove := by
    intro c history key ⟨hs, hr⟩
    refine ⟨stored_invariant.remove c history key hs, ?_⟩
    apply hr.keep hs (remove_sameConfig c key)
    intro k others hsince
    rw [touchedSince_remove] at hsince
    split at hsince
    next => cases hsince
    next hk =>
      refine ⟨hsince, by rw [lastPut_remove, if_neg hk], fun hb _ => ?_⟩
      rw [remove_entries]
      exact hb.without hk
  purgeExpired := by
    intro c history now hnow ⟨hs, hr⟩
    refine ⟨stored_invariant.purgeExpired c history now (fun _ => trivial) hs, ?_⟩
    apply hr.keep hs (purgeExpired_sameConfig c now)
    intro k others hsince
    refine ⟨hsince, rfl, fun hb hfresh => ?_⟩
    exact hb.unexpired fun e he hkey i => not_expired_before (hnow i) (hfresh e he hkey)
  clear := by
    intro c history ⟨hs, _⟩
    refine ⟨stored_invariant.clear c history hs, ?_⟩
    intro key others hsince
    simp at hsince

theorem retained_run (c : LruStore κ ν) (hc : c.entries = []) {t : TimePoint} {ops : List (Op κ ν)}
    (hops : ∀ op ∈ ops, op.Reads fun r => r ≤ t) : (c.run ops).1.Retained t (c.run ops).2 := by
  have hstart : c.Stored [] ∧ c.Retained t [] := by
    constructor
    · intro e he
      rw [hc] at he
      cases he
    · intro key others hsince
      cases hsince
  exact ((retained_invariant t).run hops hstart).2

end LruStore

variable [DecidableEq κ]

namespace LRUCache

/-- The key a put drops is the one whose last touch is oldest, and a key stays
readable until `capacity` others are touched. -/
theorem lru_retention (capacity : Nat) (defaultTtlS : UInt32) {start s : LRUCache κ ν}
    {ops : List (Op κ ν)} {history : List (Happening κ ν)}
    (hstart : construct capacity defaultTtlS = .ok start)
    (hrun : start.run ops = some (s, history)) :
    (∀ now key value ttl s' evicted, s.put now key value ttl = some s' →
      evicted ∈ s.map_.keys → evicted ∉ s'.map_.keys →
      ∀ other ∈ s.map_.keys, other ≠ evicted → TouchedAfter history evicted other) ∧
    ∀ t key before x after, (∀ op ∈ ops, op.Reads fun r => r ≤ t) →
      history = before ++ x :: after → x.touched = some key →
      (∀ y ∈ after, ¬y.Concerns key) → (touches after).toFinset.card < capacity →
      ∃ past t₀ value ttl later, history = past ++ .put t₀ key value ttl :: later ∧
        (∀ y ∈ later, ¬y.Overwrites key) ∧
        ((effectiveTtl defaultTtlS ttl = 0 ∨
          t < t₀ + seconds (effectiveTtl defaultTtlS ttl)) →
          ∃ s', s.get t key = some (s', some value)) := by
  obtain ⟨hcap, hinit⟩ := construct_ok hstart
  obtain ⟨s', hrun', hs⟩ := run_refines hinit ops
  rw [hrun] at hrun'
  cases hrun'
  have hstored := LruStore.stored_run (LruStore.init capacity defaultTtlS hcap) rfl ops
  have hordered := LruStore.ordered_run (LruStore.init capacity defaultTtlS hcap) rfl ops
  have hconfig := LruStore.run_sameConfig (LruStore.init capacity defaultTtlS hcap) ops
  constructor
  · intro now key value ttl s' evicted hput hres hgone other hother hne
    obtain ⟨s'', hput', hs'⟩ := put_refines hs now key value ttl
    rw [hput] at hput'
    cases Option.some.inj hput'
    obtain ⟨e, he, rfl⟩ := hs.mem_keys.mp hres
    obtain ⟨o, ho, rfl⟩ := hs.mem_keys.mp hother
    have hdrop : (((LruStore.init capacity defaultTtlS hcap).run ops).1.put now key value
        ttl).find? e.key = none := by
      apply LruStore.find?_eq_none.mpr
      intro y hy hkey
      exact hgone (hs'.mem_keys.mpr ⟨y, hy, hkey⟩)
    exact hordered.dropped he hdrop ho hne
  · intro t key before x after hops hhistory hx hafter hcard
    have hretained := LruStore.retained_run (LruStore.init capacity defaultTtlS hcap) rfl hops
    have hsince : touchedSince key (((LruStore.init capacity defaultTtlS hcap).run ops).2) =
        some ((touches after).reverse ++ []) := by
      rw [hhistory, ← List.singleton_append, ← List.append_assoc]
      exact touchedSince_append (touchedSince_touch hx) hafter
    have hcard' : ((touches after).reverse ++ []).toFinset.card <
        ((LruStore.init capacity defaultTtlS hcap).run ops).1.capacity := by
      rw [hconfig.1]
      show _ < capacity
      simpa using hcard
    obtain ⟨t₀, value, ttl, hlast, hread⟩ := hretained.readable hstored hsince hcard'
    rw [hconfig.2] at hread
    obtain ⟨past, later, hsplit, hlater⟩ := lastPut_split hlast
    refine ⟨past, t₀, value, ttl, later, hsplit, hlater, fun hfresh => ?_⟩
    obtain ⟨s', hget, _⟩ := get_refines hs t key
    rw [hread hfresh] at hget
    exact ⟨s', hget⟩

/-- With room for two keys, the third put drops key 2, as key 1 was read after it. -/
theorem lru_retention_two_keys : ∃ (start s : LRUCache Nat Nat) (history : List (Happening Nat Nat)),
    construct 2 0 = .ok start ∧
    start.run [.put 0 1 10 0, .put 1 2 20 0, .get 2 1, .put 3 3 30 0] = some (s, history) ∧
    ∃ past t₀ value ttl later, history = past ++ .put t₀ 1 value ttl :: later ∧
      (∀ y ∈ later, ¬y.Overwrites 1) ∧
      ((effectiveTtl 0 ttl = 0 ∨ 4 < t₀ + seconds (effectiveTtl 0 ttl)) →
        ∃ s', s.get 4 1 = some (s', some value)) := by
  refine ⟨_, _, [.put 0 1 10 0, .put 1 2 20 0, .hit 1, .put 3 3 30 0], rfl, rfl, ?_⟩
  refine (lru_retention 2 0 rfl (show run _ [.put 0 1 10 0, .put 1 2 20 0, .get 2 1,
    .put 3 3 30 0] = some (_, _) from rfl)).2 4 1 [.put 0 1 10 0, .put 1 2 20 0] (.hit 1)
    [.put 3 3 30 0] ?_ rfl rfl ?_ ?_
  · simp [Op.Reads]
  · simp [Happening.Concerns, Happening.Overwrites, Happening.touched]
  · decide

end LRUCache

end SelfHealingCache
