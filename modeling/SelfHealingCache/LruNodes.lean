import SelfHealingCache.Dict
import SelfHealingCache.LruMemory

namespace SelfHealingCache

variable {κ ν : Type}

/-- From `head_` to `tail_` the list visits the addresses `ps`, all allocated. -/
structure Shape (m : Memory κ ν) (ps : List Nat) : Prop where
  linked : Linked m.nextOf m.prevOf (.head :: (ps.map .node ++ [.tail]))
  nodup : ps.Nodup
  allocated : ∀ a ∈ ps, m.entryOf a ≠ none
  head_prev : m.prevOf .head = none
  tail_next : m.nextOf .tail = none

/-- The cell behind `head_`. -/
def firstPtr : List Nat → Ptr
  | [] => .tail
  | a :: _ => .node a

@[simp] theorem firstPtr_nil : firstPtr [] = .tail := rfl

@[simp] theorem firstPtr_cons (a : Nat) (ps : List Nat) : firstPtr (a :: ps) = .node a := rfl

theorem shape_init : Shape (Memory.init : Memory κ ν) [] := by
  refine ⟨?_, List.nodup_nil, by simp, rfl, rfl⟩
  exact List.isChain_cons_cons.mpr ⟨⟨rfl, rfl⟩, List.isChain_singleton _⟩

theorem map_node_append_tail (ps : List Nat) :
    ∃ l, ps.map Ptr.node ++ [.tail] = firstPtr ps :: l := by
  cases ps with
  | nil => exact ⟨[], rfl⟩
  | cons a ps => exact ⟨ps.map .node ++ [.tail], rfl⟩

theorem nodup_cells {ps : List Nat} (h : ps.Nodup) :
    (Ptr.head :: (ps.map Ptr.node ++ [.tail])).Nodup := by
  have hmap : (ps.map Ptr.node).Nodup := h.map fun _ _ hab => Ptr.node.inj hab
  have hcells : (ps.map Ptr.node ++ [Ptr.tail]).Nodup := by
    refine List.nodup_append'.mpr ⟨hmap, List.nodup_singleton Ptr.tail, ?_⟩
    intro p hp hq
    obtain ⟨a, _, rfl⟩ := List.mem_map.mp hp
    simp at hq
  exact List.nodup_cons.mpr ⟨by simp, hcells⟩

namespace Shape

variable {m m' : Memory κ ν} {ps qs : List Nat} {a : Nat}

theorem valid_cell (h : Shape m ps) {p : Ptr} (hp : p ∈ Ptr.head :: (ps.map .node ++ [.tail])) :
    m.Valid p := by
  cases p with
  | head => simp [Memory.Valid, Memory.links]
  | tail => simp [Memory.Valid, Memory.links]
  | node a =>
    have ha : a ∈ ps := by simpa using hp
    exact Memory.valid_node_iff.mpr (h.allocated a ha)

theorem head_next (h : Shape m ps) : m.nextOf .head = some (firstPtr ps) := by
  have hlinked := h.linked
  obtain ⟨l, hl⟩ := map_node_append_tail ps
  rw [hl] at hlinked
  exact (List.isChain_cons_cons.mp hlinked).1.1

theorem first_node (h : Shape m ps) : m.head_.next = some (firstPtr ps) := h.head_next

theorem node_next (h : Shape m (ps ++ a :: qs)) : m.nextOf (.node a) = some (firstPtr qs) := by
  have hlinked := h.linked
  obtain ⟨l, hl⟩ := map_node_append_tail qs
  have hcells : Ptr.head :: ((ps ++ a :: qs).map Ptr.node ++ [.tail]) =
      (.head :: ps.map .node) ++ .node a :: firstPtr qs :: l := by simp [← hl]
  rw [hcells] at hlinked
  exact (linked_split.mp hlinked).2.1.1

/-- `tail_.prev` is the last node, and `head_` when there is none. -/
theorem tail_prev (h : Shape m ps) :
    m.prevOf .tail = some ((ps.getLast?.map Ptr.node).getD .head) := by
  have hlinked := h.linked
  cases ps using List.reverseRecOn with
  | nil => exact (List.isChain_cons_cons.mp hlinked).1.2
  | append_singleton ps a =>
    have hcells : Ptr.head :: ((ps ++ [a]).map Ptr.node ++ [.tail]) =
        (.head :: ps.map .node) ++ .node a :: .tail :: [] := by simp
    rw [hcells] at hlinked
    simpa using (linked_split.mp hlinked).2.1.2

theorem mirror (h : Shape m ps) :
    ∀ p ∈ Ptr.head :: (ps.map .node ++ [.tail]), ∀ q ∈ Ptr.head :: (ps.map .node ++ [.tail]),
      m.nextOf p = some q ↔ m.prevOf q = some p := by
  apply h.linked.mirror
  · intro p hp
    cases Option.some.inj hp
    exact h.head_prev
  · intro p hp
    have hp' : ((Ptr.head :: ps.map Ptr.node) ++ [Ptr.tail]).getLast? = some p := hp
    rw [List.getLast?_concat] at hp'
    cases Option.some.inj hp'
    exact h.tail_next

/-- The shape only looks at the links of the cells it visits. -/
theorem congr (h : Shape m ps)
    (hlinks : ∀ p ∈ Ptr.head :: (ps.map .node ++ [.tail]), m'.links p = m.links p) :
    Shape m' ps := by
  have hnext : ∀ p ∈ Ptr.head :: (ps.map .node ++ [.tail]), m'.nextOf p = m.nextOf p := by
    intro p hp
    rw [Memory.nextOf, hlinks p hp, Memory.nextOf]
  have hprev : ∀ p ∈ Ptr.head :: (ps.map .node ++ [.tail]), m'.prevOf p = m.prevOf p := by
    intro p hp
    rw [Memory.prevOf, hlinks p hp, Memory.prevOf]
  refine ⟨?_, h.nodup, ?_, ?_, ?_⟩
  · apply h.linked.congr
    · intro p hp
      exact hnext p (List.dropLast_subset _ hp)
    · intro p hp
      exact hprev p (List.mem_of_mem_tail hp)
  · intro a ha
    have hvalid := Memory.valid_node_iff.mpr (h.allocated a ha)
    apply Memory.valid_node_iff.mp
    rw [Memory.Valid, hlinks (.node a) (by simp [ha])]
    exact hvalid
  · rw [hprev .head (by simp)]
    exact h.head_prev
  · rw [hnext .tail (by simp)]
    exact h.tail_next

theorem detach (h : Shape m (ps ++ a :: qs)) :
    ∃ m', m.detach (some (.node a)) = some m' ∧ Memory.SameNodes m m' ∧ Shape m' (ps ++ qs) := by
  obtain ⟨l, hl⟩ := map_node_append_tail qs
  obtain ⟨before, p, hp⟩ : ∃ before p, Ptr.head :: ps.map Ptr.node = before ++ [p] :=
    ⟨_, _, (List.dropLast_append_getLast (by simp)).symm⟩
  have hcells : Ptr.head :: ((ps ++ a :: qs).map Ptr.node ++ [.tail]) =
      before ++ p :: .node a :: firstPtr qs :: l := by
    have hsplit : Ptr.head :: ((ps ++ a :: qs).map Ptr.node ++ [.tail]) =
        (.head :: ps.map .node) ++ .node a :: (qs.map .node ++ [.tail]) := by simp
    rw [hsplit, hp, hl]
    simp
  have hcells' : Ptr.head :: ((ps ++ qs).map Ptr.node ++ [.tail]) =
      before ++ p :: firstPtr qs :: l := by
    have hsplit : Ptr.head :: ((ps ++ qs).map Ptr.node ++ [.tail]) =
        (.head :: ps.map .node) ++ (qs.map .node ++ [.tail]) := by simp
    rw [hsplit, hp, hl]
    simp
  have hlinked := h.linked
  have hnodup := nodup_cells h.nodup
  rw [hcells] at hlinked hnodup
  have hvalid : ∀ c ∈ before ++ p :: .node a :: firstPtr qs :: l, m.Valid c := by
    intro c hc
    exact h.valid_cell (by rw [hcells]; exact hc)
  obtain ⟨_, hpa, hright⟩ := linked_split.mp hlinked
  obtain ⟨haq, _⟩ := List.isChain_cons_cons.mp hright
  have hdistinct := (List.nodup_append'.mp hnodup).2.1
  simp only [List.nodup_cons, List.mem_cons, not_or] at hdistinct
  obtain ⟨⟨hap, hpq, _⟩, ⟨haq', _⟩, _⟩ := hdistinct
  obtain ⟨m', hm, hsame, hnp, hpq', hnext, hprev⟩ := Memory.detach_spec
    (hvalid _ (by simp)) (hvalid p (by simp)) (hvalid (firstPtr qs) (by simp))
    hpa.2 haq.1 (Ne.symm hap) haq'
  have hheadq : Ptr.head ≠ firstPtr qs := by cases qs <;> simp [firstPtr]
  have htailp : Ptr.tail ≠ p := by
    intro e
    have hm' : p ∈ Ptr.head :: ps.map Ptr.node := by rw [hp]; simp
    rw [← e] at hm'
    simp at hm'
  refine ⟨m', hm, hsame, ?_, ?_, ?_, ?_, ?_⟩
  · rw [hcells']
    exact hlinked.bypass hnodup hnp hpq' hnext hprev
  · exact h.nodup.sublist (List.Sublist.append_left (List.sublist_cons_self a qs) ps)
  · intro b hb
    rw [hsame.entries]
    apply h.allocated b
    rcases List.mem_append.mp hb with hb | hb
    · exact List.mem_append_left _ hb
    · exact List.mem_append_right _ (List.mem_cons_of_mem a hb)
  · rw [hprev .head hheadq (by simp)]
    exact h.head_prev
  · rw [hnext .tail htailp (by simp)]
    exact h.tail_next

theorem attachFront (h : Shape m ps) (ha : a ∉ ps) (hcell : m.entryOf a ≠ none) :
    ∃ m', m.attachFront (some (.node a)) = some m' ∧ Memory.SameNodes m m' ∧
      Shape m' (a :: ps) := by
  obtain ⟨l, hl⟩ := map_node_append_tail ps
  have hlinked := h.linked
  have hnodup := nodup_cells h.nodup
  have hvalid := h.valid_cell (p := firstPtr ps) (by rw [hl]; simp)
  have hfresh : Ptr.node a ∉ Ptr.head :: (ps.map Ptr.node ++ [.tail]) := by simpa using ha
  rw [hl] at hlinked hnodup hfresh
  have hne : Ptr.node a ≠ firstPtr ps := fun e => hfresh (by rw [e]; simp)
  obtain ⟨m', hm, hsame, hhead, hprev, hnext, hback, hnexts, hprevs⟩ :=
    Memory.attachFront_spec (Memory.valid_node_iff.mpr hcell) hvalid h.head_next (by simp) hne
  refine ⟨m', hm, hsame, ?_, List.nodup_cons.mpr ⟨ha, h.nodup⟩, ?_, ?_, ?_⟩
  · have hcells : Ptr.head :: ((a :: ps).map Ptr.node ++ [.tail]) =
        .head :: .node a :: firstPtr ps :: l := by simp [← hl]
    rw [hcells]
    exact hlinked.splice hnodup hfresh hhead hprev hnext hback hnexts hprevs
  · intro b hb
    rw [hsame.entries]
    rcases List.mem_cons.mp hb with rfl | hb
    · exact hcell
    · exact h.allocated b hb
  · have hheadp : Ptr.head ≠ firstPtr ps := by cases ps <;> simp [firstPtr]
    rw [hprevs .head hheadp (by simp)]
    exact h.head_prev
  · rw [hnexts .tail (by simp) (by simp)]
    exact h.tail_next

end Shape

variable [DecidableEq κ]

/-- The list holds the entries of `nodes` in this order, `map_` is its index,
and nothing else is allocated. -/
structure Represents (m : Memory κ ν) (map_ : Dict κ Nat) (nodes : List (Nat × CacheEntry κ ν)) :
    Prop where
  shape : Shape m (nodes.map Prod.fst)
  cells : ∀ p ∈ nodes, m.entryOf p.1 = some p.2
  keys_nodup : (nodes.map fun p => p.2.key).Nodup
  index : ∀ k a, map_.get? k = some a ↔ ∃ e, (a, e) ∈ nodes ∧ e.key = k
  owned : ∀ a, m.entryOf a ≠ none → a ∈ nodes.map Prod.fst

theorem represents_init : Represents (Memory.init : Memory κ ν) (∅ : Dict κ Nat) [] := by
  refine ⟨shape_init, by simp, List.nodup_nil, ?_, fun a ha => absurd rfl ha⟩
  intro k a
  simp [Dict.get?]

namespace Represents

variable {m : Memory κ ν} {map_ : Dict κ Nat} {nodes before after : List (Nat × CacheEntry κ ν)}
  {a : Nat} {e : CacheEntry κ ν}

theorem found (h : Represents m map_ nodes) {k : κ} (hk : map_.get? k = some a) :
    ∃ before e after, nodes = before ++ (a, e) :: after ∧ e.key = k := by
  obtain ⟨e, he, hkey⟩ := (h.index k a).mp hk
  obtain ⟨before, after, hsplit⟩ := List.append_of_mem he
  exact ⟨before, e, after, hsplit, hkey⟩

theorem missing (h : Represents m map_ nodes) {k : κ} (hk : map_.get? k = none) :
    ∀ p ∈ nodes, p.2.key ≠ k := by
  intro p hp hkey
  have hget := (h.index k p.1).mpr ⟨p.2, hp, hkey⟩
  rw [hk] at hget
  cases hget

theorem size_eq (h : Represents m map_ nodes) : map_.size = nodes.length := by
  have hperm : map_.keys.Perm (nodes.map fun p => p.2.key) := by
    refine (List.perm_ext_iff_of_nodup map_.keys_nodup h.keys_nodup).mpr fun k => ?_
    rw [Dict.mem_keys_iff, List.mem_map]
    constructor
    · rintro ⟨a, ha⟩
      obtain ⟨e, he, hkey⟩ := (h.index k a).mp ha
      exact ⟨(a, e), he, hkey⟩
    · rintro ⟨p, hp, hkey⟩
      exact ⟨p.1, (h.index k p.1).mpr ⟨p.2, hp, hkey⟩⟩
  have hlen := hperm.length_eq
  simpa [Dict.size, Dict.keys] using hlen

/-- Addresses are handed out in order, so their number bounds the list. -/
theorem length_le_nextAddr (h : Represents m map_ nodes) : nodes.length ≤ m.nextAddr := by
  have hlt : ∀ b ∈ nodes.map Prod.fst, b < m.nextAddr := by
    intro b hb
    by_contra hge
    have hcell := h.shape.allocated b hb
    rw [Memory.entryOf, m.unused b (by omega)] at hcell
    exact hcell rfl
  have hsub := List.subperm_of_subset h.shape.nodup fun b hb => List.mem_range.mpr (hlt b hb)
  simpa using hsub.length_le

theorem other_key (h : Represents m map_ (before ++ (a, e) :: after)) :
    ∀ p ∈ before ++ after, p.2.key ≠ e.key := by
  have hn := h.keys_nodup
  rw [List.map_append, List.map_cons] at hn
  have hnotin := (List.nodup_middle.mp hn)
  rw [List.nodup_cons] at hnotin
  intro p hp hkey
  apply hnotin.1
  rw [← List.map_append, ← hkey]
  exact List.mem_map_of_mem hp

theorem address_notMem (h : Represents m map_ (before ++ (a, e) :: after)) :
    a ∉ (before ++ after).map Prod.fst := by
  have hn := h.shape.nodup
  rw [List.map_append, List.map_cons] at hn
  rw [List.map_append]
  exact (List.nodup_cons.mp (List.nodup_middle.mp hn)).1

/-- Taking a node out of the list, freeing it and erasing its key. -/
theorem unlink (h : Represents m map_ (before ++ (a, e) :: after)) :
    ∃ m₁ m₂, m.detach (some (.node a)) = some m₁ ∧ m₁.delete (some (.node a)) = some m₂ ∧
      Represents m₂ (map_.erase e.key) (before ++ after) ∧ m₂.nextAddr = m.nextAddr := by
  have hshape := h.shape
  rw [List.map_append, List.map_cons] at hshape
  obtain ⟨m₁, h₁, hsame, hshape₁⟩ := hshape.detach
  have hcell : m₁.entryOf a = some e := by
    rw [hsame.entries]
    exact h.cells (a, e) (by simp)
  obtain ⟨m₂, h₂, hentries, hlinks, haddr⟩ := Memory.delete_spec (m := m₁) (a := a) (by simp [hcell])
  have hfresh := h.address_notMem
  have hkept : ∀ p ∈ before ++ after, m₂.entryOf p.1 = some p.2 := by
    intro p hp
    have hpa : p.1 ≠ a := fun heq => hfresh (heq ▸ List.mem_map_of_mem hp)
    rw [hentries, Function.update_of_ne hpa, hsame.entries]
    apply h.cells
    rcases List.mem_append.mp hp with hp | hp <;> simp [hp]
  refine ⟨m₁, m₂, h₁, h₂, ⟨?_, hkept, ?_, ?_, ?_⟩, haddr.trans hsame.nextAddr⟩
  · rw [List.map_append]
    apply hshape₁.congr
    intro p hp
    rw [← List.map_append] at hp
    apply hlinks
    rintro rfl
    exact hfresh (by simpa using hp)
  · have hsub := List.Sublist.append_left (List.sublist_cons_self (a, e) after) before
    exact h.keys_nodup.sublist (hsub.map _)
  · intro k b
    rw [Dict.get?_erase]
    constructor
    · intro hget
      split at hget
      next => cases hget
      next hk =>
        obtain ⟨e', he', hkey⟩ := (h.index k b).mp hget
        refine ⟨e', ?_, hkey⟩
        rcases List.mem_append.mp he' with hm | hm
        · exact List.mem_append_left _ hm
        · rcases List.mem_cons.mp hm with heq | hm
          · cases heq
            exact absurd hkey.symm hk
          · exact List.mem_append_right _ hm
    · rintro ⟨e', he', hkey⟩
      have hk : k ≠ e.key := fun heq => h.other_key (b, e') he' (hkey.trans heq)
      rw [if_neg hk]
      refine (h.index k b).mpr ⟨e', ?_, hkey⟩
      rcases List.mem_append.mp he' with hm | hm <;> simp [hm]
  · intro b hb
    have hba : b ≠ a := by
      rintro rfl
      rw [hentries, Function.update_self] at hb
      exact hb rfl
    rw [hentries, Function.update_of_ne hba, hsame.entries] at hb
    have hmem := h.owned b hb
    simp only [List.map_append, List.map_cons, List.mem_append, List.mem_cons] at hmem ⊢
    rcases hmem with hm | hm | hm
    · exact .inl hm
    · exact absurd hm hba
    · exact .inr hm

/-- Moving a node to the front. -/
theorem refresh (h : Represents m map_ (before ++ (a, e) :: after)) :
    ∃ m₁ m₂, m.detach (some (.node a)) = some m₁ ∧ m₁.attachFront (some (.node a)) = some m₂ ∧
      Represents m₂ map_ ((a, e) :: (before ++ after)) ∧ m₂.nextAddr = m.nextAddr := by
  have hshape := h.shape
  rw [List.map_append, List.map_cons] at hshape
  obtain ⟨m₁, h₁, hsame, hshape₁⟩ := hshape.detach
  have hfresh := h.address_notMem
  have hcell : m₁.entryOf a ≠ none := by
    rw [hsame.entries, h.cells (a, e) (by simp)]
    simp
  rw [List.map_append] at hfresh
  obtain ⟨m₂, h₂, hsame₂, hshape₂⟩ := hshape₁.attachFront hfresh hcell
  have hentries : m₂.entryOf = m.entryOf := hsame₂.entries.trans hsame.entries
  have hperm : ((a, e) :: (before ++ after)).Perm (before ++ (a, e) :: after) :=
    List.perm_middle.symm
  refine ⟨m₁, m₂, h₁, h₂, ⟨?_, ?_, ?_, ?_, ?_⟩, hsame₂.nextAddr.trans hsame.nextAddr⟩
  · rw [List.map_cons, List.map_append]
    exact hshape₂
  · intro p hp
    rw [hentries]
    exact h.cells p (hperm.mem_iff.mp hp)
  · exact (hperm.map _).nodup_iff.mpr h.keys_nodup
  · intro k b
    rw [h.index k b]
    exact exists_congr fun e' => and_congr_left fun _ => hperm.mem_iff.symm
  · intro b hb
    rw [hentries] at hb
    exact (hperm.map Prod.fst).mem_iff.mpr (h.owned b hb)

/-- Overwriting value and deadline of a node in place. -/
theorem overwrite (h : Represents m map_ (before ++ (a, e) :: after)) (value : ν)
    (expiry : Option TimePoint) :
    ∃ m', m.storeEntry a value expiry = some m' ∧
      Represents m' map_
        (before ++ (a, { e with value := value, expiresAt := expiry }) :: after) ∧
      m'.nextAddr = m.nextAddr := by
  obtain ⟨m', hm, hentries, hlinks, haddr⟩ :=
    Memory.storeEntry_spec (h.cells (a, e) (by simp)) value expiry
  have hfresh := h.address_notMem
  have haddrs : (before ++ (a, { e with value := value, expiresAt := expiry }) :: after).map
      Prod.fst = (before ++ (a, e) :: after).map Prod.fst := by simp
  have hcells : ∀ p ∈ before ++ (a, { e with value := value, expiresAt := expiry }) :: after,
      m'.entryOf p.1 = some p.2 := by
    intro p hp
    rcases List.mem_cons.mp (List.perm_middle.mem_iff.mp hp) with rfl | hm
    · rw [hentries, Function.update_self]
    · have hpa : p.1 ≠ a := fun heq => hfresh (heq ▸ List.mem_map_of_mem hm)
      rw [hentries, Function.update_of_ne hpa]
      exact h.cells p (List.perm_middle.mem_iff.mpr (List.mem_cons_of_mem _ hm))
  refine ⟨m', hm, ⟨?_, hcells, ?_, ?_, ?_⟩, haddr⟩
  · rw [haddrs]
    exact h.shape.congr fun p _ => congrFun hlinks p
  · have hkeys := h.keys_nodup
    simpa using hkeys
  · intro k b
    rw [h.index k b]
    constructor
    · rintro ⟨e', he', hkey⟩
      rcases List.mem_cons.mp (List.perm_middle.mem_iff.mp he') with heq | hm
      · cases heq
        exact ⟨{ e with value := value, expiresAt := expiry }, by simp, hkey⟩
      · exact ⟨e', List.perm_middle.mem_iff.mpr (List.mem_cons_of_mem _ hm), hkey⟩
    · rintro ⟨e', he', hkey⟩
      rcases List.mem_cons.mp (List.perm_middle.mem_iff.mp he') with heq | hm
      · cases heq
        exact ⟨e, by simp, hkey⟩
      · exact ⟨e', List.perm_middle.mem_iff.mpr (List.mem_cons_of_mem _ hm), hkey⟩
  · intro b hb
    rw [haddrs]
    apply h.owned
    rw [hentries] at hb
    by_cases hba : b = a
    · rw [hba, h.cells (a, e) (by simp)]
      simp
    · rwa [Function.update_of_ne hba] at hb

/-- Putting a new node in front and indexing its key. -/
theorem insert (h : Represents m map_ nodes) (hkey : ∀ p ∈ nodes, p.2.key ≠ e.key) :
    ∃ m', (m.newNode e).attachFront (some (.node m.nextAddr)) = some m' ∧
      Represents m' (map_.set e.key m.nextAddr) ((m.nextAddr, e) :: nodes) ∧
      m'.nextAddr = m.nextAddr + 1 := by
  obtain ⟨hentries, hlinks, haddr⟩ := Memory.newNode_spec m e
  have hfree : m.entryOf m.nextAddr = none := by
    rw [Memory.entryOf, m.unused m.nextAddr (Nat.le_refl _), Option.map_none]
  have hfresh : m.nextAddr ∉ nodes.map Prod.fst := fun hm => h.shape.allocated _ hm hfree
  have hne : ∀ p ∈ nodes, p.1 ≠ m.nextAddr := fun p hp heq => hfresh (heq ▸ List.mem_map_of_mem hp)
  have hshape : Shape (m.newNode e) (nodes.map Prod.fst) := by
    apply h.shape.congr
    intro p hp
    apply hlinks
    rintro rfl
    exact hfresh (by simpa using hp)
  obtain ⟨m', hm, hsame, hshape'⟩ := hshape.attachFront hfresh (by
    rw [hentries, Function.update_self]
    simp)
  refine ⟨m', hm, ⟨hshape', ?_, ?_, ?_, ?_⟩, hsame.nextAddr.trans haddr⟩
  · intro p hp
    rw [hsame.entries, hentries]
    rcases List.mem_cons.mp hp with rfl | hp
    · rw [Function.update_self]
    · rw [Function.update_of_ne (hne p hp)]
      exact h.cells p hp
  · refine List.nodup_cons.mpr ⟨?_, h.keys_nodup⟩
    intro hm
    obtain ⟨p, hp, hpk⟩ := List.mem_map.mp hm
    exact hkey p hp hpk
  · intro k b
    rw [Dict.get?_set]
    constructor
    · intro hget
      split at hget
      next hk =>
        cases hget
        exact ⟨e, by simp, hk.symm⟩
      next hk =>
        obtain ⟨e', he', hk'⟩ := (h.index k b).mp hget
        exact ⟨e', List.mem_cons_of_mem _ he', hk'⟩
    · rintro ⟨e', he', hk'⟩
      rcases List.mem_cons.mp he' with heq | hm
      · cases heq
        rw [if_pos hk'.symm]
      · rw [if_neg fun hk => hkey (b, e') hm (hk'.trans hk)]
        exact (h.index k b).mpr ⟨e', hm, hk'⟩
  · intro b hb
    rw [hsame.entries, hentries] at hb
    by_cases hba : b = m.nextAddr
    · simp [hba]
    · rw [Function.update_of_ne hba] at hb
      exact List.mem_cons_of_mem _ (h.owned b hb)

end Represents

end SelfHealingCache
