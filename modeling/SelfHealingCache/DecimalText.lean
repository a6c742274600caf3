import Mathlib.Data.List.TakeWhile
import SelfHealingCache.PercentEncoding

namespace SelfHealingCache

/-- `isspace` of the "C" locale. -/
def isspace (c : UInt8) : Bool := c = 32 ∨ 9 ≤ c ∧ c ≤ 13

def isdigit (c : UInt8) : Bool := 48 ≤ c ∧ c ≤ 57

/-- The number that decimal digits denote. -/
def digitsValue (digits : List UInt8) : Nat :=
  digits.foldl (fun n c => 10 * n + (c.toNat - 48)) 0

/-- An optional sign and the rest. -/
def splitSign : List UInt8 → List UInt8 × List UInt8
  | 45 :: rest => ([45], rest)
  | 43 :: rest => ([43], rest)
  | rest => ([], rest)

/-- `strtol` in base 10, without the bounds of `long`; `none` where it converts nothing. -/
def strtol (s : List UInt8) : Option Int :=
  let subject := splitSign (s.dropWhile isspace)
  let digits := subject.2.takeWhile isdigit
  if digits = [] then none
  else some (if subject.1 = [45] then -digitsValue digits else digitsValue digits)

/-- The text starts with the number: after spaces and a sign there are digits, as many as
possible. -/
def Denotes (s : List UInt8) (n : Int) : Prop :=
  ∃ spaces sign digits rest, s = spaces ++ (sign ++ (digits ++ rest)) ∧
    (∀ c ∈ spaces, isspace c = true) ∧ (sign = [] ∨ sign = [43] ∨ sign = [45]) ∧ digits ≠ [] ∧
    (∀ c ∈ digits, isdigit c = true) ∧ (∀ c, rest.head? = some c → isdigit c = false) ∧
    n = if sign = [45] then -(digitsValue digits : Int) else digitsValue digits

section spans

variable {α : Type} {p : α → Bool}

/-- A span ends where the first element outside the class stands. -/
theorem span_append {xs rest : List α} (hxs : ∀ x ∈ xs, p x = true)
    (hrest : ∀ x, rest.head? = some x → p x = false) :
    (xs ++ rest).takeWhile p = xs ∧ (xs ++ rest).dropWhile p = rest := by
  rw [List.takeWhile_append_of_pos hxs, List.dropWhile_append_of_pos hxs]
  cases rest with
  | nil => exact ⟨List.append_nil xs, rfl⟩
  | cons x rest =>
    have hx : ¬p x = true := by simp [hrest x rfl]
    rw [List.takeWhile_cons_of_neg hx, List.dropWhile_cons_of_neg hx, List.append_nil]
    exact ⟨rfl, rfl⟩

theorem head?_dropWhile {xs : List α} {x : α} (h : (xs.dropWhile p).head? = some x) :
    p x = false := by
  have hnot := List.head?_dropWhile_not p xs
  rw [h] at hnot
  exact hnot

end spans

theorem not_isspace_of_isdigit {c : UInt8} (h : isdigit c = true) : isspace c = false := by
  simp only [isdigit, isspace, decide_eq_true_eq, decide_eq_false_iff_not] at *
  grind

theorem splitSign_spec (s : List UInt8) : (splitSign s).1 ++ (splitSign s).2 = s ∧
    ((splitSign s).1 = [] ∨ (splitSign s).1 = [43] ∨ (splitSign s).1 = [45]) := by
  unfold splitSign
  split
  next => exact ⟨rfl, Or.inr (Or.inr rfl)⟩
  next => exact ⟨rfl, Or.inr (Or.inl rfl)⟩
  next => exact ⟨rfl, Or.inl rfl⟩

/-- A digit is no sign. -/
theorem splitSign_append {sign digits : List UInt8}
    (hsign : sign = [] ∨ sign = [43] ∨ sign = [45]) (rest : List UInt8)
    (hne : digits ≠ []) (hdigits : ∀ c ∈ digits, isdigit c = true) :
    splitSign (sign ++ (digits ++ rest)) = (sign, digits ++ rest) := by
  rcases hsign with rfl | rfl | rfl
  · cases digits with
    | nil => exact absurd rfl hne
    | cons c digits =>
      have hc := hdigits c List.mem_cons_self
      rw [List.nil_append, List.cons_append]
      unfold splitSign
      split
      next heq =>
        rw [(List.cons.inj heq).1] at hc
        cases hc
      next heq =>
        rw [(List.cons.inj heq).1] at hc
        cases hc
      next => rfl
  · rfl
  · rfl

/-- `strtol` converts the number that the text starts with. -/
theorem strtol_iff {s : List UInt8} {n : Int} : strtol s = some n ↔ Denotes s n := by
  constructor
  · intro h
    unfold strtol at h
    dsimp only at h
    split at h
    next => cases h
    next hne =>
      obtain ⟨hsplit, hsign⟩ := splitSign_spec (s.dropWhile isspace)
      refine ⟨s.takeWhile isspace, _, _, (splitSign (s.dropWhile isspace)).2.dropWhile isdigit,
        ?_, fun c hc => List.mem_takeWhile_imp hc, hsign, hne,
        fun c hc => List.mem_takeWhile_imp hc, fun c hc => head?_dropWhile hc,
        (Option.some.inj h).symm⟩
      rw [List.takeWhile_append_dropWhile, hsplit, List.takeWhile_append_dropWhile]
  · rintro ⟨spaces, sign, digits, rest, rfl, hspaces, hsign, hne, hdigits, hrest, rfl⟩
    have hafter : ∀ c, (sign ++ (digits ++ rest)).head? = some c → isspace c = false := by
      intro c hc
      rcases hsign with rfl | rfl | rfl
      · cases digits with
        | nil => exact absurd rfl hne
        | cons d digits =>
          cases hc
          exact not_isspace_of_isdigit (hdigits c List.mem_cons_self)
      · cases hc
        rfl
      · cases hc
        rfl
    unfold strtol
    dsimp only
    rw [(span_append hspaces hafter).2, splitSign_append hsign rest hne hdigits]
    dsimp only
    rw [(span_append hdigits hrest).1, if_neg hne]

theorem denotes_unique {s : List UInt8} {n m : Int} (hn : Denotes s n) (hm : Denotes s m) :
    n = m :=
  Option.some.inj ((strtol_iff.mpr hn).symm.trans (strtol_iff.mpr hm))

/-- Digits are encoded as they are. -/
theorem utf8_of_digits {cs : List Char} (h : ∀ c ∈ cs, c.isDigit = true) :
    (∀ b ∈ utf8 cs, isdigit b = true) ∧ ∀ init,
      (utf8 cs).foldl (fun n b => 10 * n + (b.toNat - 48)) init = Nat.ofDigitChars 10 cs init := by
  induction cs with
  | nil => exact ⟨fun b hb => absurd hb List.not_mem_nil, fun init => rfl⟩
  | cons c cs ih =>
    obtain ⟨hdigits, hvalue⟩ := ih fun d hd => h d (List.mem_cons_of_mem c hd)
    have hc : 48 ≤ c.toNat ∧ c.toNat ≤ 57 := Char.isDigit_iff_toNat.mp (h c List.mem_cons_self)
    have hbyte : (UInt8.ofNat c.toNat).toNat = c.toNat := by
      rw [UInt8.toNat_ofNat', Nat.mod_eq_of_lt (by omega)]
    have hcons : utf8 (c :: cs) = UInt8.ofNat c.toNat :: utf8 cs := by
      rw [utf8, List.flatMap_cons, utf8EncodeChar_ascii (by omega)]
      rfl
    rw [hcons]
    refine ⟨fun b hb => ?_, fun init => ?_⟩
    · rcases List.mem_cons.mp hb with rfl | hb
      · have h48 : (48 : UInt8).toNat = 48 := rfl
        have h57 : (57 : UInt8).toNat = 57 := rfl
        simp only [isdigit, decide_eq_true_eq, UInt8.le_iff_toNat_le, hbyte, h48, h57]
        exact hc
      · exact hdigits b hb
    · rw [List.foldl_cons, hvalue, Nat.ofDigitChars_cons, hbyte]
      rfl

/-- The decimal text of an integer denotes it. -/
theorem denotes_toString (n : Int) : Denotes (utf8 (toString n).toList) n := by
  have hdigits : ∀ m : Nat, utf8 (Nat.toDigits 10 m) ≠ [] ∧
      (∀ b ∈ utf8 (Nat.toDigits 10 m), isdigit b = true) ∧
        digitsValue (utf8 (Nat.toDigits 10 m)) = m := by
    intro m
    obtain ⟨hall, hvalue⟩ := @utf8_of_digits (Nat.toDigits 10 m) fun c hc =>
      Nat.isDigit_of_mem_toDigits (by decide) (by decide) hc
    refine ⟨fun hnil => ?_, hall, (hvalue 0).trans Nat.ofDigitChars_ten_toDigits⟩
    obtain ⟨c, hc⟩ := List.exists_mem_of_ne_nil _ (@Nat.toDigits_ne_nil m 10)
    exact String.utf8EncodeChar_ne_nil (List.flatMap_eq_nil_iff.mp hnil c hc)
  cases n with
  | ofNat m =>
    obtain ⟨hne, hall, hvalue⟩ := hdigits m
    refine ⟨[], [], utf8 (Nat.toDigits 10 m), [], ?_, by simp, Or.inl rfl, hne, hall, by simp, ?_⟩
    · have htext : (toString (Int.ofNat m)).toList = Nat.toDigits 10 m := Nat.toList_repr
      rw [htext, List.append_nil]
      rfl
    · rw [hvalue]
      rfl
  | negSucc m =>
    obtain ⟨hne, hall, hvalue⟩ := hdigits (m + 1)
    refine ⟨[], [45], utf8 (Nat.toDigits 10 (m + 1)), [], ?_, by simp, Or.inr (Or.inr rfl), hne,
      hall, by simp, ?_⟩
    · have htext : (toString (Int.negSucc m)).toList = '-' :: Nat.toDigits 10 (m + 1) := by
        change ("-" ++ toString (m + 1)).toList = _
        rw [String.toList_append]
        exact congrArg _ Nat.toList_repr
      rw [htext, List.append_nil]
      rfl
    · rw [hvalue]
      rfl

end SelfHealingCache
