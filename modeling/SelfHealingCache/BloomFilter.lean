import SelfHealingCache.Bytearray
import SelfHealingCache.PercentEncoding
import SelfHealingCache.Runs

namespace SelfHealingCache

structure BloomFilter where
  sizeBits : Nat
  numHashes : Int
  bitArray : Bytearray

/-- The calls that change a filter. -/
inductive FilterCall
  | add (key : String)
  | clear
  | loadFromSnapshot (keys : List String)

/-- `int.from_bytes(h, "big")`. -/
def fromBytes (h : List UInt8) : Nat := h.foldl (fun n b => 256 * n + b.toNat) 0

namespace BloomFilter

/-- The constructor; a negative size is a `ValueError`. -/
def init (sizeBytes numHashes : Int) : Option BloomFilter :=
  if sizeBytes < 0 then none
  else some
    { sizeBits := sizeBytes.toNat * 8
      numHashes := numHashes
      bitArray := Bytearray.zeros sizeBytes.toNat }

section filter

variable (sha256 : List UInt8 → List UInt8)

/-- The methods fail (`none`) where Python would raise: a division by zero here, an
index or a value out of range below. -/
def _hashes (f : BloomFilter) (key : String) : Option (List Nat) :=
  (List.range f.numHashes.toNat).mapM fun i =>
    let h := sha256 (utf8 (key ++ "|" ++ toString i).toList)
    if f.sizeBits = 0 then none else some (fromBytes (h.take 4) % f.sizeBits)

def add (f : BloomFilter) (key : String) : Option BloomFilter := do
  let hashes ← f._hashes sha256 key
  let bitArray ← hashes.foldlM Bytearray.setBit f.bitArray
  some { f with bitArray := bitArray }

/-- The loop of `might_exist`, which stops at the first bit not set. -/
def allSet (bitArray : Bytearray) : List Nat → Option Bool
  | [] => some true
  | bitPos :: rest => do
    let set ← bitArray.testBit bitPos
    if set then allSet bitArray rest else some false

def mightExist (f : BloomFilter) (key : String) : Option Bool := do
  let hashes ← f._hashes sha256 key
  allSet f.bitArray hashes

def clear (f : BloomFilter) : BloomFilter :=
  { f with bitArray := Bytearray.zeros f.bitArray.length }

def loadFromSnapshot (f : BloomFilter) (keys : List String) : Option BloomFilter :=
  keys.foldlM (add sha256) f.clear

def step (f : BloomFilter) : FilterCall → Option BloomFilter
  | .add key => f.add sha256 key
  | .clear => some f.clear
  | .loadFromSnapshot keys => f.loadFromSnapshot sha256 keys

def run (f : BloomFilter) (calls : List FilterCall) : Option BloomFilter :=
  runs (step sha256) f calls

end filter

/-- The keys a filter stands for: those added since the last clear, or loaded by the
last snapshot and added since. -/
def present (calls : List FilterCall) : List String :=
  calls.foldl (fun keys call =>
    match call with
    | .add key => keys ++ [key]
    | .clear => []
    | .loadFromSnapshot loaded => loaded) []

@[simp] theorem present_add (calls : List FilterCall) (key : String) :
    present (calls ++ [.add key]) = present calls ++ [key] := by simp [present]

@[simp] theorem present_clear (calls : List FilterCall) :
    present (calls ++ [.clear]) = [] := by simp [present]

@[simp] theorem present_load (calls : List FilterCall) (keys : List String) :
    present (calls ++ [.loadFromSnapshot keys]) = keys := by simp [present]

theorem present_adds (keys : List String) : present (keys.map .add) = keys := by
  induction keys using List.reverseRecOn with
  | nil => rfl
  | append_singleton keys key ih => rw [List.map_append, List.map_singleton, present_add, ih]

section exactness

variable (sha256 : List UInt8 → List UInt8) (sizeBytes numHashes : Int)

/-- The positions of a key in a filter of this size. -/
def positions (key : String) : List Nat :=
  (List.range numHashes.toNat).map fun i =>
    fromBytes ((sha256 (utf8 (key ++ "|" ++ toString i).toList)).take 4) %
      (sizeBytes.toNat * 8)

/-- A filter of this size whose set bits are the positions of these keys. -/
structure Holds (f : BloomFilter) (keys : List String) : Prop where
  same_size : f.sizeBits = sizeBytes.toNat * 8
  same_hashes : f.numHashes = numHashes
  length : f.bitArray.length = sizeBytes.toNat
  bits : ∀ pos, f.bitArray.bit pos = true ↔
    ∃ key ∈ keys, pos ∈ positions sha256 sizeBytes numHashes key

variable {sha256 sizeBytes numHashes} {f : BloomFilter} {keys : List String}

theorem positions_lt (hsize : 1 ≤ sizeBytes) {key : String} {pos : Nat}
    (h : pos ∈ positions sha256 sizeBytes numHashes key) : pos < sizeBytes.toNat * 8 := by
  obtain ⟨i, _, rfl⟩ := List.mem_map.mp h
  exact Nat.mod_lt _ (by omega)

theorem Holds.hashes (h : Holds sha256 sizeBytes numHashes f keys) (hsize : 1 ≤ sizeBytes)
    (key : String) : f._hashes sha256 key = some (positions sha256 sizeBytes numHashes key) := by
  have hne : ¬sizeBytes.toNat * 8 = 0 := by omega
  unfold _hashes positions
  rw [h.same_size, h.same_hashes]
  simp only [hne, ↓reduceIte]
  exact List.mapM_pure

theorem foldlM_setBit (positions : List Nat) {a : Bytearray}
    (h : ∀ pos ∈ positions, pos < 8 * a.length) :
    ∃ a', positions.foldlM Bytearray.setBit a = some a' ∧ a'.length = a.length ∧
      ∀ q, a'.bit q = true ↔ a.bit q = true ∨ q ∈ positions := by
  induction positions generalizing a with
  | nil => exact ⟨a, rfl, rfl, by simp⟩
  | cons pos positions ih =>
    obtain ⟨mid, hset, hlen, hbits⟩ := Bytearray.setBit_spec (h pos List.mem_cons_self)
    have hrest : ∀ q ∈ positions, q < 8 * mid.length := by
      intro q hq
      rw [hlen]
      exact h q (List.mem_cons_of_mem pos hq)
    obtain ⟨a', hfold, hlen', hbits'⟩ := ih hrest
    refine ⟨a', ?_, hlen'.trans hlen, ?_⟩
    · rw [List.foldlM_cons, hset]
      exact hfold
    · intro q
      rw [hbits', hbits, Bool.or_eq_true, decide_eq_true_iff, List.mem_cons, or_assoc]

theorem allSet_spec {positions : List Nat} {a : Bytearray}
    (h : ∀ pos ∈ positions, pos < 8 * a.length) :
    allSet a positions = some (positions.all a.bit) := by
  induction positions with
  | nil => rfl
  | cons pos positions ih =>
    have hrest := ih fun q hq => h q (List.mem_cons_of_mem pos hq)
    rw [allSet, Bytearray.testBit_spec (h pos List.mem_cons_self), List.all_cons]
    cases hbit : a.bit pos with
    | false => simp
    | true => simpa [hbit] using hrest

theorem Holds.in_range (h : Holds sha256 sizeBytes numHashes f keys) (hsize : 1 ≤ sizeBytes)
    (key : String) :
    ∀ pos ∈ positions sha256 sizeBytes numHashes key, pos < 8 * f.bitArray.length := by
  intro pos hpos
  have hlt := positions_lt hsize hpos
  rw [h.length]
  omega

theorem Holds.add (h : Holds sha256 sizeBytes numHashes f keys) (hsize : 1 ≤ sizeBytes)
    (key : String) : ∃ f', f.add sha256 key = some f' ∧
      Holds sha256 sizeBytes numHashes f' (keys ++ [key]) := by
  obtain ⟨a, hfold, hlen, hbits⟩ := foldlM_setBit _ (h.in_range hsize key)
  refine ⟨{ f with bitArray := a }, ?_, h.same_size, h.same_hashes, hlen.trans h.length, ?_⟩
  · rw [BloomFilter.add, h.hashes hsize]
    simp [hfold]
  · intro pos
    rw [hbits, h.bits]
    simp only [List.mem_append, List.mem_singleton, or_and_right, exists_or, exists_eq_left]

theorem Holds.clear (h : Holds sha256 sizeBytes numHashes f keys) :
    Holds sha256 sizeBytes numHashes f.clear [] where
  same_size := h.same_size
  same_hashes := h.same_hashes
  length := by
    rw [BloomFilter.clear, Bytearray.length_zeros]
    exact h.length
  bits := by
    intro pos
    rw [BloomFilter.clear, Bytearray.bit_zeros]
    simp

theorem Holds.foldlM_add (loaded : List String) {f : BloomFilter} {keys : List String}
    (h : Holds sha256 sizeBytes numHashes f keys) (hsize : 1 ≤ sizeBytes) :
    ∃ f', loaded.foldlM (BloomFilter.add sha256) f = some f' ∧
      Holds sha256 sizeBytes numHashes f' (keys ++ loaded) := by
  induction loaded generalizing f keys with
  | nil => exact ⟨f, rfl, by simpa using h⟩
  | cons key loaded ih =>
    obtain ⟨mid, hadd, hmid⟩ := h.add hsize key
    obtain ⟨f', hfold, h'⟩ := ih hmid
    refine ⟨f', ?_, by simpa using h'⟩
    rw [List.foldlM_cons, hadd]
    exact hfold

theorem Holds.step {calls : List FilterCall}
    (h : Holds sha256 sizeBytes numHashes f (present calls)) (hsize : 1 ≤ sizeBytes)
    (call : FilterCall) :
    ∃ f', f.step sha256 call = some f' ∧
      Holds sha256 sizeBytes numHashes f' (present (calls ++ [call])) := by
  cases call with
  | add key =>
    rw [present_add]
    exact h.add hsize key
  | clear =>
    rw [present_clear]
    exact ⟨f.clear, rfl, h.clear⟩
  | loadFromSnapshot loaded =>
    rw [present_load]
    exact h.clear.foldlM_add loaded hsize

theorem holds_init (hsize : 1 ≤ sizeBytes) : ∃ f, init sizeBytes numHashes = some f ∧
    Holds sha256 sizeBytes numHashes f [] := by
  refine ⟨_, if_neg (by omega), rfl, rfl, Bytearray.length_zeros _, ?_⟩
  intro pos
  rw [Bytearray.bit_zeros]
  simp

theorem Holds.run (h : Holds sha256 sizeBytes numHashes f []) (hsize : 1 ≤ sizeBytes)
    (calls : List FilterCall) : ∃ f', f.run sha256 calls = some f' ∧
      Holds sha256 sizeBytes numHashes f' (present calls) := by
  induction calls using List.reverseRecOn with
  | nil => exact ⟨f, rfl, h⟩
  | append_singleton past call ih =>
    obtain ⟨mid, hrun, hmid⟩ := ih
    obtain ⟨f', hstep, h'⟩ := hmid.step hsize call
    exact ⟨f', runs_snoc_eq_some.mpr ⟨mid, hrun, hstep⟩, h'⟩

/-- A filter is determined by the set of its keys. -/
theorem Holds.unique {f' : BloomFilter} {keys' : List String}
    (h : Holds sha256 sizeBytes numHashes f keys)
    (h' : Holds sha256 sizeBytes numHashes f' keys') (hkeys : ∀ key, key ∈ keys' ↔ key ∈ keys) :
    f' = f := by
  have harray : f'.bitArray = f.bitArray := by
    apply Bytearray.ext_bits (h'.length.trans h.length.symm)
    intro pos
    rw [Bool.eq_iff_iff, h.bits, h'.bits]
    exact exists_congr fun key => and_congr_left' (hkeys key)
  obtain ⟨sizeBits, hashes, array⟩ := f
  obtain ⟨sizeBits', hashes', array'⟩ := f'
  rw [mk.injEq]
  exact ⟨h'.same_size.trans h.same_size.symm, h'.same_hashes.trans h.same_hashes.symm, harray⟩

theorem Holds.mightExist (h : Holds sha256 sizeBytes numHashes f keys)
    (hsize : 1 ≤ sizeBytes) (key : String) :
    f.mightExist sha256 key =
      some ((positions sha256 sizeBytes numHashes key).all f.bitArray.bit) := by
  rw [BloomFilter.mightExist, h.hashes hsize]
  exact allSet_spec (h.in_range hsize key)

variable (sha256 numHashes)

/-- The set bits are exactly the hashes of the keys present, so no key present is ever
reported absent; order and repetition of the additions and the way the keys got
there leave no trace. -/
theorem bloom_exact (hsize : 1 ≤ sizeBytes) : ∃ f₀, init sizeBytes numHashes = some f₀ ∧
    ∀ calls : List FilterCall, ∃ f, f₀.run sha256 calls = some f ∧
      (∀ pos, f.bitArray.bit pos = true ↔ ∃ key ∈ present calls, ∃ hashes,
        f._hashes sha256 key = some hashes ∧ pos ∈ hashes) ∧
      (∀ b ∈ f.bitArray.bytes, b < 256) ∧
      (∀ key, ∃ hashes, f._hashes sha256 key = some hashes ∧
        f.mightExist sha256 key = some (hashes.all f.bitArray.bit)) ∧
      (∀ key ∈ present calls, f.mightExist sha256 key = some true) ∧
      (∀ calls', (∀ key, key ∈ present calls' ↔ key ∈ present calls) →
        f₀.run sha256 calls' = some f) ∧
      ∀ keys, f₀.run sha256 (calls ++ [.loadFromSnapshot keys]) =
        f₀.run sha256 (keys.map .add) := by
  obtain ⟨f₀, hinit, h₀⟩ : ∃ f₀, init sizeBytes numHashes = some f₀ ∧
      Holds sha256 sizeBytes numHashes f₀ [] := holds_init hsize
  refine ⟨f₀, hinit, fun calls => ?_⟩
  obtain ⟨f, hrun, h⟩ := h₀.run hsize calls
  have hbits : ∀ pos, f.bitArray.bit pos = true ↔ ∃ key ∈ present calls, ∃ hashes,
      f._hashes sha256 key = some hashes ∧ pos ∈ hashes := by
    intro pos
    rw [h.bits]
    refine exists_congr fun key => and_congr_right fun _ => ?_
    rw [h.hashes hsize]
    simp
  refine ⟨f, hrun, hbits, f.bitArray.lt_256, fun key => ⟨_, h.hashes hsize key, ?_⟩, ?_, ?_, ?_⟩
  · exact h.mightExist hsize key
  · intro key hkey
    have hall : (positions sha256 sizeBytes numHashes key).all f.bitArray.bit = true :=
      List.all_eq_true.mpr fun pos hpos => (h.bits pos).mpr ⟨key, hkey, hpos⟩
    rw [h.mightExist hsize, hall]
  · intro calls' hkeys
    obtain ⟨f', hrun', h'⟩ := h₀.run hsize calls'
    rw [hrun', h.unique h' hkeys]
  · intro keys
    obtain ⟨f₁, hload, h₁⟩ := h₀.run hsize (calls ++ [.loadFromSnapshot keys])
    obtain ⟨f₂, hadds, h₂⟩ := h₀.run hsize (keys.map .add)
    rw [present_load] at h₁
    rw [present_adds] at h₂
    rw [hload, hadds, h₂.unique h₁ fun _ => Iff.rfl]

/-- Two bytes, three hashes, and the identity in place of SHA-256. -/
theorem bloom_exact_two_bytes : ∃ f₀ f, init 2 3 = some f₀ ∧
    f₀.run id [.add "old", .loadFromSnapshot ["a"], .add "b", .add "a"] = some f ∧
    f.mightExist id "a" = some true ∧ f.mightExist id "b" = some true := by
  obtain ⟨f₀, hinit, hcalls⟩ := bloom_exact id 3 (show (1 : Int) ≤ 2 by decide)
  obtain ⟨f, hrun, _, _, _, hpresent, _, _⟩ :=
    hcalls [.add "old", .loadFromSnapshot ["a"], .add "b", .add "a"]
  exact ⟨f₀, f, hinit, hrun, hpresent "a" (by simp [present]), hpresent "b" (by simp [present])⟩

end exactness

end BloomFilter

end SelfHealingCache
