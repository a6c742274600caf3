import Mathlib.Data.List.Basic
import Mathlib.Data.Nat.Bitwise
import Mathlib.Tactic.Common

namespace SelfHealingCache

/-- `bytearray`; its elements are bytes. -/
@[ext] structure Bytearray where
  bytes : List Nat
  lt_256 : ∀ b ∈ bytes, b < 256

namespace Bytearray

/-- `bytearray(n)`. -/
def zeros (n : Nat) : Bytearray := ⟨List.replicate n 0, by simp⟩

def length (a : Bytearray) : Nat := a.bytes.length

/-- `a[i]`; an `IndexError` past the end. -/
def getitem (a : Bytearray) (i : Nat) : Option Nat := a.bytes[i]?

/-- `a[i] = value`; an `IndexError` past the end, a `ValueError` above 255. -/
def setitem (a : Bytearray) (i value : Nat) : Option Bytearray :=
  if h : i < a.bytes.length ∧ value < 256 then
    some ⟨a.bytes.set i value, fun b hb => by
      rcases List.mem_or_eq_of_mem_set hb with hb | rfl
      · exact a.lt_256 b hb
      · exact h.2⟩
  else none

/-- The bit at a position, the least significant bit of a byte first; no bit is set
past the end. -/
def bit (a : Bytearray) (pos : Nat) : Bool := (a.bytes[pos / 8]?.getD 0).testBit (pos % 8)

/-- `a[pos // 8] |= 1 << pos % 8`. -/
def setBit (a : Bytearray) (pos : Nat) : Option Bytearray := do
  let byte ← a.getitem (pos / 8)
  a.setitem (pos / 8) (byte ||| 1 <<< (pos % 8))

/-- `a[pos // 8] & (1 << pos % 8)` as a truth value. -/
def testBit (a : Bytearray) (pos : Nat) : Option Bool := do
  let byte ← a.getitem (pos / 8)
  some (byte &&& 1 <<< (pos % 8) != 0)

theorem length_zeros (n : Nat) : (zeros n).length = n := List.length_replicate

theorem bit_zeros (n pos : Nat) : (zeros n).bit pos = false := by
  have hget : ((zeros n).bytes[pos / 8]?).getD 0 = 0 := by
    by_cases h : pos / 8 < n <;> simp [zeros, h]
  rw [bit, hget, Nat.zero_testBit]

theorem bit_of_getElem? {a : Bytearray} {pos byte : Nat} (h : a.bytes[pos / 8]? = some byte) :
    a.bit pos = byte.testBit (pos % 8) := by
  rw [bit, h, Option.getD_some]

theorem getElem?_of_lt {a : Bytearray} {pos : Nat} (h : pos < 8 * a.length) :
    ∃ byte, a.bytes[pos / 8]? = some byte ∧ byte < 256 := by
  have hlt : pos / 8 < a.bytes.length := by
    unfold length at h
    omega
  refine ⟨a.bytes[pos / 8], List.getElem?_eq_getElem hlt, a.lt_256 _ (List.getElem_mem hlt)⟩

theorem setitem_spec {a : Bytearray} {i value : Nat} (hi : i < a.bytes.length)
    (hvalue : value < 256) :
    ∃ a', a.setitem i value = some a' ∧ a'.bytes = a.bytes.set i value := by
  unfold setitem
  rw [dif_pos ⟨hi, hvalue⟩]
  exact ⟨_, rfl, rfl⟩

/-- Setting a bit in range succeeds, sets that bit and keeps all others. -/
theorem setBit_spec {a : Bytearray} {pos : Nat} (h : pos < 8 * a.length) :
    ∃ a', a.setBit pos = some a' ∧ a'.length = a.length ∧
      ∀ q, a'.bit q = (a.bit q || decide (q = pos)) := by
  obtain ⟨byte, hbyte, hlt⟩ := getElem?_of_lt h
  have hlen : pos / 8 < a.bytes.length := (List.getElem?_eq_some_iff.mp hbyte).1
  have hmask : 2 ^ (pos % 8) < 2 ^ 8 := Nat.pow_lt_pow_right (by omega) (by omega)
  have hvalue : byte ||| 1 <<< (pos % 8) < 256 := by
    rw [Nat.one_shiftLeft]
    exact Nat.or_lt_two_pow hlt hmask
  obtain ⟨a', hset, hbytes⟩ := setitem_spec hlen hvalue
  refine ⟨a', ?_, ?_, ?_⟩
  · rw [setBit, getitem, hbyte]
    exact hset
  · rw [length, hbytes, List.length_set]
    rfl
  · intro q
    by_cases hq : q / 8 = pos / 8
    · have hset : a'.bytes[q / 8]? = some (byte ||| 1 <<< (pos % 8)) := by
        rw [hbytes, hq, List.getElem?_set_self hlen]
      have hsame : q = pos ↔ pos % 8 = q % 8 := by omega
      rw [bit_of_getElem? hset, bit_of_getElem? (hq ▸ hbyte), Nat.testBit_or, Nat.one_shiftLeft,
        Nat.testBit_two_pow, decide_eq_decide.mpr hsame]
    · have hne : q ≠ pos := fun he => hq (by rw [he])
      have hkept : a'.bytes[q / 8]? = a.bytes[q / 8]? := by
        rw [hbytes, List.getElem?_set_ne (Ne.symm hq)]
      rw [bit, hkept, decide_eq_false hne, Bool.or_false, bit]

theorem testBit_spec {a : Bytearray} {pos : Nat} (h : pos < 8 * a.length) :
    a.testBit pos = some (a.bit pos) := by
  obtain ⟨byte, hbyte, _⟩ := getElem?_of_lt h
  have hpow : 0 < 2 ^ (pos % 8) := Nat.two_pow_pos _
  rw [testBit, getitem, hbyte, Option.bind_eq_bind, Option.bind_some, bit_of_getElem? hbyte,
    Nat.one_shiftLeft, Nat.and_two_pow]
  cases byte.testBit (pos % 8) with
  | false => simp
  | true =>
    have hne : (2 ^ (pos % 8) != 0) = true := by simp
    simp [hne]

/-- Arrays of the same length with the same bits are the same. -/
theorem ext_bits {a a' : Bytearray} (hlen : a.length = a'.length) (h : ∀ q, a.bit q = a'.bit q) :
    a = a' := by
  have hbyte : ∀ {b : Nat}, b < 256 → ∀ i, 8 ≤ i → b.testBit i = false := by
    intro b hb i hi
    have hpow : 2 ^ 8 ≤ 2 ^ i := Nat.pow_le_pow_right (by omega) hi
    exact Nat.testBit_lt_two_pow (by omega)
  apply Bytearray.ext
  apply List.ext_getElem hlen
  intro i hi hi'
  apply Nat.eq_of_testBit_eq
  intro j
  by_cases hj : j < 8
  · have hq := h (8 * i + j)
    have hdiv : (8 * i + j) / 8 = i := by omega
    have hmod : (8 * i + j) % 8 = j := by omega
    rw [bit, bit, hdiv, hmod, List.getElem?_eq_getElem hi, List.getElem?_eq_getElem hi'] at hq
    exact hq
  · rw [hbyte (a.lt_256 _ (List.getElem_mem hi)) j (by omega),
      hbyte (a'.lt_256 _ (List.getElem_mem hi')) j (by omega)]

end Bytearray

end SelfHealingCache
