import SelfHealingCache.CacheEntry
import SelfHealingCache.Links

namespace SelfHealingCache

/-- A `ListNode*` that is not null: one of the two sentinels or a heap address. -/
inductive Ptr
  | head
  | tail
  | node (addr : Nat)
  deriving DecidableEq

/-- The pointer fields of a list node; `none` is `nullptr`. -/
structure LinkFields where
  prev : Option Ptr
  next : Option Ptr
  deriving DecidableEq

structure ListNode (κ ν : Type) where
  entry : CacheEntry κ ν
  links : LinkFields
  deriving DecidableEq

/-- The memory the cache works in: the sentinels and the nodes made by `new`.
A cell is `none` before `new` and after `delete`; addresses are not reused, so
a dangling pointer stays distinguishable. The entries of the sentinels are
never read and are left out. -/
structure Memory (κ ν : Type) where
  head_ : LinkFields
  tail_ : LinkFields
  cells : Nat → Option (ListNode κ ν)
  nextAddr : Nat
  unused : ∀ a, nextAddr ≤ a → cells a = none

namespace Memory

variable {κ ν : Type}

/-- The linked sentinels the constructor sets up. -/
def init : Memory κ ν where
  head_ := ⟨none, some .tail⟩
  tail_ := ⟨some .head, none⟩
  cells := fun _ => none
  nextAddr := 0
  unused := fun _ _ => rfl

/-- Reading through a pointer; `none` when the target is not allocated. -/
def links (m : Memory κ ν) : Ptr → Option LinkFields
  | .head => some m.head_
  | .tail => some m.tail_
  | .node a => (m.cells a).map ListNode.links

def modify (m : Memory κ ν) (a : Nat) (f : ListNode κ ν → ListNode κ ν) : Memory κ ν where
  head_ := m.head_
  tail_ := m.tail_
  cells := Function.update m.cells a ((m.cells a).map f)
  nextAddr := m.nextAddr
  unused := by
    intro b hb
    by_cases hba : b = a
    · rw [hba, Function.update_self, m.unused a (hba ▸ hb), Option.map_none]
    · rw [Function.update_of_ne hba, m.unused b hb]

def setLinks (m : Memory κ ν) (p : Ptr) (f : LinkFields → LinkFields) : Memory κ ν :=
  match p with
  | .head => { m with head_ := f m.head_ }
  | .tail => { m with tail_ := f m.tail_ }
  | .node a => m.modify a fun n => { n with links := f n.links }

/-- `p->next` and `p->prev` together; a null or dangling `p` faults. -/
def load (m : Memory κ ν) (p : Option Ptr) : Option LinkFields := p.bind m.links

/-- `p->next = v`. -/
def storeNext (m : Memory κ ν) (p v : Option Ptr) : Option (Memory κ ν) := do
  let p ← p
  let _ ← m.links p
  some (m.setLinks p fun l => { l with next := v })

/-- `p->prev = v`. -/
def storePrev (m : Memory κ ν) (p v : Option Ptr) : Option (Memory κ ν) := do
  let p ← p
  let _ ← m.links p
  some (m.setLinks p fun l => { l with prev := v })

/-- `p->entry`. -/
def entry (m : Memory κ ν) : Option Ptr → Option (CacheEntry κ ν)
  | some (.node a) => (m.cells a).map ListNode.entry
  | _ => none

/-- `p->entry.value = value; p->entry.expires_at = expiry`. -/
def storeEntry (m : Memory κ ν) (a : Nat) (value : ν) (expiry : Option TimePoint) :
    Option (Memory κ ν) := do
  let _ ← m.cells a
  some (m.modify a fun n =>
    { n with entry := { n.entry with value := value, expiresAt := expiry } })

/-- `new ListNode(entry)`. -/
def newNode (m : Memory κ ν) (entry : CacheEntry κ ν) : Memory κ ν where
  head_ := m.head_
  tail_ := m.tail_
  cells := Function.update m.cells m.nextAddr (some ⟨entry, none, none⟩)
  nextAddr := m.nextAddr + 1
  unused := by
    intro b hb
    rw [Function.update_of_ne (by omega), m.unused b (by omega)]

/-- `delete p`; deleting a sentinel or twice faults. -/
def delete (m : Memory κ ν) : Option Ptr → Option (Memory κ ν)
  | some (.node a) => do
    let _ ← m.cells a
    some
      { head_ := m.head_
        tail_ := m.tail_
        cells := Function.update m.cells a none
        nextAddr := m.nextAddr
        unused := by
          intro b hb
          by_cases hba : b = a
          · rw [hba, Function.update_self]
          · rw [Function.update_of_ne hba, m.unused b hb] }
  | _ => none

def detach (m : Memory κ ν) (node : Option Ptr) : Option (Memory κ ν) := do
  let n ← m.load node
  let m ← m.storeNext n.prev n.next
  let n ← m.load node
  let m ← m.storePrev n.next n.prev
  let m ← m.storePrev node none
  m.storeNext node none

def attachFront (m : Memory κ ν) (node : Option Ptr) : Option (Memory κ ν) := do
  let m ← m.storeNext node m.head_.next
  let m ← m.storePrev node (some .head)
  let m ← m.storePrev m.head_.next node
  m.storeNext (some .head) node

/-- The forward links as a function. -/
def nextOf (m : Memory κ ν) (p : Ptr) : Option Ptr := (m.links p).bind LinkFields.next

/-- The backward links as a function. -/
def prevOf (m : Memory κ ν) (p : Ptr) : Option Ptr := (m.links p).bind LinkFields.prev

def Valid (m : Memory κ ν) (p : Ptr) : Prop := m.links p ≠ none

/-- The entries of the allocated nodes. -/
def entryOf (m : Memory κ ν) (a : Nat) : Option (CacheEntry κ ν) := (m.cells a).map ListNode.entry

theorem valid_node_iff {m : Memory κ ν} {a : Nat} : m.Valid (.node a) ↔ m.entryOf a ≠ none := by
  simp [Valid, links, entryOf]

theorem links_setLinks (m : Memory κ ν) (p q : Ptr) (f : LinkFields → LinkFields) :
    (m.setLinks p f).links q = if q = p then (m.links p).map f else m.links q := by
  cases p <;> cases q <;> try rfl
  case node.node a b =>
    by_cases hb : b = a
    · subst hb
      simp [setLinks, links, modify, Function.comp_def]
    · simp [setLinks, links, modify, hb]

theorem entryOf_setLinks (m : Memory κ ν) (p : Ptr) (f : LinkFields → LinkFields) :
    (m.setLinks p f).entryOf = m.entryOf := by
  cases p with
  | head => rfl
  | tail => rfl
  | node a =>
    funext b
    by_cases hb : b = a
    · subst hb
      simp [setLinks, entryOf, modify, Function.comp_def]
    · simp [setLinks, entryOf, modify, hb]

theorem nextAddr_setLinks (m : Memory κ ν) (p : Ptr) (f : LinkFields → LinkFields) :
    (m.setLinks p f).nextAddr = m.nextAddr := by cases p <;> rfl

/-- `m'` differs from `m` in its links only. -/
structure SameNodes (m m' : Memory κ ν) : Prop where
  entries : m'.entryOf = m.entryOf
  valid : ∀ p, m'.Valid p ↔ m.Valid p
  nextAddr : m'.nextAddr = m.nextAddr

theorem SameNodes.trans {m m' m'' : Memory κ ν} (h : SameNodes m m') (h' : SameNodes m' m'') :
    SameNodes m m'' :=
  ⟨h'.entries.trans h.entries, fun p => (h'.valid p).trans (h.valid p),
    h'.nextAddr.trans h.nextAddr⟩

theorem sameNodes_setLinks (m : Memory κ ν) (p : Ptr) (f : LinkFields → LinkFields) :
    SameNodes m (m.setLinks p f) := by
  refine ⟨entryOf_setLinks m p f, fun q => ?_, nextAddr_setLinks m p f⟩
  unfold Valid
  rw [links_setLinks]
  by_cases hq : q = p <;> simp [hq]

/-- What a store to `next` through a valid pointer does. -/
theorem storeNext_spec {m : Memory κ ν} {p : Ptr} (hp : m.Valid p) (v : Option Ptr) :
    ∃ m', m.storeNext (some p) v = some m' ∧ SameNodes m m' ∧
      m'.nextOf = Function.update m.nextOf p v ∧ m'.prevOf = m.prevOf := by
  obtain ⟨l, hl⟩ := Option.ne_none_iff_exists'.mp hp
  refine ⟨m.setLinks p fun l => { l with next := v }, ?_, sameNodes_setLinks m p _, ?_, ?_⟩
  · simp [storeNext, hl]
  · funext q
    rw [nextOf, links_setLinks, Function.update_apply]
    by_cases hq : q = p <;> simp [hq, hl, nextOf]
  · funext q
    rw [prevOf, links_setLinks, prevOf]
    by_cases hq : q = p <;> simp [hq, hl]

theorem storePrev_spec {m : Memory κ ν} {p : Ptr} (hp : m.Valid p) (v : Option Ptr) :
    ∃ m', m.storePrev (some p) v = some m' ∧ SameNodes m m' ∧
      m'.nextOf = m.nextOf ∧ m'.prevOf = Function.update m.prevOf p v := by
  obtain ⟨l, hl⟩ := Option.ne_none_iff_exists'.mp hp
  refine ⟨m.setLinks p fun l => { l with prev := v }, ?_, sameNodes_setLinks m p _, ?_, ?_⟩
  · simp [storePrev, hl]
  · funext q
    rw [nextOf, links_setLinks, nextOf]
    by_cases hq : q = p <;> simp [hq, hl]
  · funext q
    rw [prevOf, links_setLinks, Function.update_apply]
    by_cases hq : q = p <;> simp [hq, hl, prevOf]

theorem load_spec {m : Memory κ ν} {p : Ptr} (hp : m.Valid p) :
    m.load (some p) = some ⟨m.prevOf p, m.nextOf p⟩ := by
  obtain ⟨l, hl⟩ := Option.ne_none_iff_exists'.mp hp
  simp [load, prevOf, nextOf, hl]

/-- `detach` of a cell between two distinct others joins these two. -/
theorem detach_spec {m : Memory κ ν} {x p q : Ptr} (hx : m.Valid x) (hp : m.Valid p)
    (hq : m.Valid q) (hprev : m.prevOf x = some p) (hnext : m.nextOf x = some q) (hxp : x ≠ p)
    (hxq : x ≠ q) :
    ∃ m', m.detach (some x) = some m' ∧ SameNodes m m' ∧ m'.nextOf p = some q ∧
      m'.prevOf q = some p ∧ (∀ y, y ≠ p → y ≠ x → m'.nextOf y = m.nextOf y) ∧
      ∀ y, y ≠ q → y ≠ x → m'.prevOf y = m.prevOf y := by
  obtain ⟨m₁, h₁, s₁, n₁, p₁⟩ := storeNext_spec hp (some q)
  obtain ⟨m₂, h₂, s₂, n₂, p₂⟩ := storePrev_spec ((s₁.valid q).mpr hq) (some p)
  have hx₂ : m₂.Valid x := ((s₁.trans s₂).valid x).mpr hx
  obtain ⟨m₃, h₃, s₃, n₃, p₃⟩ := storePrev_spec hx₂ none
  obtain ⟨m₄, h₄, s₄, n₄, p₄⟩ := storeNext_spec ((s₃.valid x).mpr hx₂) none
  refine ⟨m₄, ?_, ((s₁.trans s₂).trans s₃).trans s₄, ?_, ?_, ?_, ?_⟩
  · have hload := load_spec ((s₁.valid x).mpr hx)
    rw [n₁, p₁, Function.update_of_ne hxp, hprev, hnext] at hload
    rw [detach, load_spec hx, hprev, hnext]
    simp only [Option.bind_eq_bind, Option.bind_some, h₁, hload, h₂, h₃, h₄]
  · rw [n₄, Function.update_of_ne (Ne.symm hxp), n₃, n₂, n₁, Function.update_self]
  · rw [p₄, p₃, Function.update_of_ne (Ne.symm hxq), p₂, Function.update_self]
  · intro y hyp hyx
    rw [n₄, Function.update_of_ne hyx, n₃, n₂, n₁, Function.update_of_ne hyp]
  · intro y hyq hyx
    rw [p₄, p₃, Function.update_of_ne hyx, p₂, Function.update_of_ne hyq, p₁]

/-- `attach_front` puts a cell between the head and the old first cell. -/
theorem attachFront_spec {m : Memory κ ν} {x b : Ptr} (hx : m.Valid x) (hb : m.Valid b)
    (hnext : m.nextOf .head = some b) (hxh : x ≠ .head) (hxb : x ≠ b) :
    ∃ m', m.attachFront (some x) = some m' ∧ SameNodes m m' ∧ m'.nextOf .head = some x ∧
      m'.prevOf x = some .head ∧ m'.nextOf x = some b ∧ m'.prevOf b = some x ∧
      (∀ y, y ≠ .head → y ≠ x → m'.nextOf y = m.nextOf y) ∧
      ∀ y, y ≠ b → y ≠ x → m'.prevOf y = m.prevOf y := by
  obtain ⟨m₁, h₁, s₁, n₁, p₁⟩ := storeNext_spec hx (some b)
  obtain ⟨m₂, h₂, s₂, n₂, p₂⟩ := storePrev_spec ((s₁.valid x).mpr hx) (some .head)
  obtain ⟨m₃, h₃, s₃, n₃, p₃⟩ := storePrev_spec (((s₁.trans s₂).valid b).mpr hb) (some x)
  have hhead : m₃.Valid .head := by simp [Valid, links]
  obtain ⟨m₄, h₄, s₄, n₄, p₄⟩ := storeNext_spec hhead (some x)
  have hfirst : m.head_.next = some b := by simpa [nextOf, links] using hnext
  have hfirst₂ : m₂.head_.next = some b := by
    have h : m₂.nextOf .head = some b := by
      rw [n₂, n₁, Function.update_of_ne (Ne.symm hxh), hnext]
    simpa [nextOf, links] using h
  refine ⟨m₄, ?_, ((s₁.trans s₂).trans s₃).trans s₄, ?_, ?_, ?_, ?_, ?_, ?_⟩
  · rw [attachFront, hfirst, h₁]
    simp only [Option.bind_eq_bind, Option.bind_some, h₂, hfirst₂, h₃, h₄]
  · rw [n₄, Function.update_self]
  · rw [p₄, p₃, Function.update_of_ne hxb, p₂, Function.update_self]
  · rw [n₄, Function.update_of_ne hxh, n₃, n₂, n₁, Function.update_self]
  · rw [p₄, p₃, Function.update_self]
  · intro y hyh hyx
    rw [n₄, Function.update_of_ne hyh, n₃, n₂, n₁, Function.update_of_ne hyx]
  · intro y hyb hyx
    rw [p₄, p₃, Function.update_of_ne hyb, p₂, Function.update_of_ne hyx, p₁]

theorem newNode_spec (m : Memory κ ν) (entry : CacheEntry κ ν) :
    (m.newNode entry).entryOf = Function.update m.entryOf m.nextAddr (some entry) ∧
      (∀ p, p ≠ .node m.nextAddr → (m.newNode entry).links p = m.links p) ∧
      (m.newNode entry).nextAddr = m.nextAddr + 1 := by
  refine ⟨?_, ?_, rfl⟩
  · funext a
    by_cases ha : a = m.nextAddr
    · subst ha
      simp [entryOf, newNode]
    · simp [entryOf, newNode, ha]
  · intro p hp
    cases p with
    | head => rfl
    | tail => rfl
    | node a =>
      have ha : a ≠ m.nextAddr := fun e => hp (e ▸ rfl)
      simp [links, newNode, ha]

theorem delete_spec {m : Memory κ ν} {a : Nat} (ha : m.entryOf a ≠ none) :
    ∃ m', m.delete (some (.node a)) = some m' ∧
      m'.entryOf = Function.update m.entryOf a none ∧
      (∀ p, p ≠ .node a → m'.links p = m.links p) ∧ m'.nextAddr = m.nextAddr := by
  obtain ⟨cell, hcell⟩ : ∃ cell, m.cells a = some cell := by
    cases hc : m.cells a with
    | none => exact absurd (by simp [entryOf, hc]) ha
    | some cell => exact ⟨cell, rfl⟩
  simp only [delete, hcell, Option.bind_eq_bind, Option.bind_some]
  refine ⟨_, rfl, ?_, ?_, rfl⟩
  · funext b
    by_cases hb : b = a
    · subst hb
      simp [entryOf]
    · simp [entryOf, hb]
  · intro p hp
    cases p with
    | head => rfl
    | tail => rfl
    | node b =>
      have hb : b ≠ a := fun e => hp (e ▸ rfl)
      simp [links, hb]

theorem storeEntry_spec {m : Memory κ ν} {a : Nat} {entry : CacheEntry κ ν}
    (ha : m.entryOf a = some entry) (value : ν) (expiry : Option TimePoint) :
    ∃ m', m.storeEntry a value expiry = some m' ∧
      m'.entryOf = Function.update m.entryOf a
        (some { entry with value := value, expiresAt := expiry }) ∧
      m'.links = m.links ∧ m'.nextAddr = m.nextAddr := by
  obtain ⟨cell, hcell, rfl⟩ := Option.map_eq_some_iff.mp ha
  simp only [storeEntry, hcell, Option.bind_eq_bind, Option.bind_some]
  refine ⟨_, rfl, ?_, ?_, rfl⟩
  · funext b
    by_cases hb : b = a
    · subst hb
      simp [entryOf, modify, hcell]
    · simp [entryOf, modify, hb]
  · funext p
    cases p with
    | head => rfl
    | tail => rfl
    | node b =>
      by_cases hb : b = a
      · subst hb
        simp [links, modify, hcell]
      · simp [links, modify, hb]

end Memory

end SelfHealingCache
