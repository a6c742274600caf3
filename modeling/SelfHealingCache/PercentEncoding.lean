import Mathlib.Data.List.Basic
import Mathlib.Data.List.Infix
import Mathlib.Tactic.Common

namespace SelfHealingCache

/-- The value of a hexadecimal digit, by its code. -/
def hexValue (n : Nat) : Option Nat :=
  if 48 ≤ n ∧ n ≤ 57 then some (n - 48)
  else if 65 ≤ n ∧ n ≤ 70 then some (n - 55)
  else if 97 ≤ n ∧ n ≤ 102 then some (n - 87)
  else none

/-- The digits of an upper case escape. -/
def hexDigit (n : Nat) : UInt8 := UInt8.ofNat (if n < 10 then n + 48 else n + 55)

/-- `%XX`. -/
def percent (b : UInt8) : List UInt8 := [37, hexDigit (b.toNat / 16), hexDigit (b.toNat % 16)]

def IsHex (c : Char) : Prop := (hexValue c.toNat).isSome = true

instance (c : Char) : Decidable (IsHex c) :=
  inferInstanceAs (Decidable ((hexValue c.toNat).isSome = true))

/-- The pieces of a text: a valid escape, or a character outside of one. -/
inductive Token
  | escaped (h l : Char)
  | char (c : Char)
  deriving DecidableEq

def tokens : List Char → List Token
  | c :: h :: l :: rest =>
    if c = '%' ∧ IsHex h ∧ IsHex l then .escaped h l :: tokens rest
    else .char c :: tokens (h :: l :: rest)
  | [c, d] => [.char c, .char d]
  | [c] => [.char c]
  | [] => []

def utf8 (s : List Char) : List UInt8 := s.flatMap String.utf8EncodeChar

/-- Quoting keeps valid escapes and legal characters and escapes everything else. -/
def Token.quote (legal : Char → Bool) : Token → List UInt8
  | .escaped h l => [37, UInt8.ofNat h.toNat, UInt8.ofNat l.toNat]
  | .char c => if legal c then String.utf8EncodeChar c else (String.utf8EncodeChar c).flatMap percent

def quote (legal : Char → Bool) (s : List Char) : List UInt8 := (tokens s).flatMap (Token.quote legal)

/-- The legal characters are ASCII, and the percent sign is not one of them. -/
def LegalSet (legal : Char → Bool) : Prop := ∀ c, legal c = true → c.toNat < 128 ∧ c ≠ '%'

/-- A function that decodes the escapes of well-formed texts. -/
structure PercentDecodes (decode : List UInt8 → List UInt8) : Prop where
  nil : decode [] = []
  plain : ∀ b rest, b ≠ 37 → decode (b :: rest) = b :: decode rest
  escaped : ∀ h l rest x y, hexValue h.toNat = some x → hexValue l.toNat = some y →
    decode (37 :: h :: l :: rest) = UInt8.ofNat (16 * x + y) :: decode rest

/-- What the quoted form of a piece is decoded to. -/
def Token.bytes : Token → List UInt8
  | .escaped h l =>
    [UInt8.ofNat (16 * (hexValue h.toNat).getD 0 + (hexValue l.toNat).getD 0)]
  | .char c => String.utf8EncodeChar c

/-- A valid escape stands somewhere in the text. -/
def HasEscape (s : List Char) : Prop := ∃ h l, IsHex h ∧ IsHex l ∧ ['%', h, l] <:+: s

section digits

theorem hexDigit_toNat {n : Nat} (h : n < 16) :
    (hexDigit n).toNat = if n < 10 then n + 48 else n + 55 := by
  have hsmall : (if n < 10 then n + 48 else n + 55) < 256 := by
    split <;> omega
  rw [hexDigit, UInt8.toNat_ofNat', Nat.mod_eq_of_lt hsmall]

theorem hexValue_hexDigit {n : Nat} (h : n < 16) : hexValue (hexDigit n).toNat = some n := by
  rw [hexDigit_toNat h, hexValue]
  by_cases hn : n < 10
  · have hlow : 48 ≤ n + 48 ∧ n + 48 ≤ 57 := by omega
    rw [if_pos hn, if_pos hlow]
    simp
  · have hlow : ¬(48 ≤ n + 55 ∧ n + 55 ≤ 57) := by omega
    have hhigh : 65 ≤ n + 55 ∧ n + 55 ≤ 70 := by omega
    rw [if_neg hn, if_neg hlow, if_pos hhigh]
    simp

theorem hexValue_lt {n x : Nat} (h : hexValue n = some x) : n < 128 ∧ x < 16 := by
  unfold hexValue at h
  split at h
  next =>
    cases Option.some.inj h
    omega
  next =>
    split at h
    next =>
      cases Option.some.inj h
      omega
    next =>
      split at h
      next =>
        cases Option.some.inj h
        omega
      next => cases h

end digits

section bytes

theorem utf8EncodeChar_ascii {c : Char} (h : c.toNat < 128) :
    String.utf8EncodeChar c = [UInt8.ofNat c.toNat] := by
  have hle : c.val.toNat ≤ 127 := by
    have hc : c.val.toNat < 128 := h
    omega
  unfold String.utf8EncodeChar
  exact if_pos hle

/-- The ASCII bytes of an encoded character are the character itself. -/
theorem ascii_of_mem_utf8EncodeChar {c : Char} {b : UInt8} (h : b ∈ String.utf8EncodeChar c)
    (hb : b.toNat < 128) : c.toNat = b.toNat := by
  have hc : c.val.toNat = c.toNat := rfl
  unfold String.utf8EncodeChar at h
  dsimp only at h
  rw [hc] at h
  have hhigh : ∀ n, 128 ≤ n → n < 256 → ¬(UInt8.ofNat n).toNat < 128 := by
    intro n hlow hup
    rw [UInt8.toNat_ofNat', Nat.mod_eq_of_lt hup]
    omega
  split at h
  next hle =>
    have hbc : b = UInt8.ofNat c.toNat := List.eq_of_mem_singleton h
    rw [hbc, UInt8.toNat_ofNat', Nat.mod_eq_of_lt (by omega)]
  next =>
    exfalso
    split at h
    next =>
      rcases List.mem_cons.mp h with hx | h
      · exact hhigh _ (by omega) (by omega) (hx ▸ hb)
      · exact hhigh _ (by omega) (by omega) (List.eq_of_mem_singleton h ▸ hb)
    next =>
      split at h
      next =>
        rcases List.mem_cons.mp h with hx | h
        · exact hhigh _ (by omega) (by omega) (hx ▸ hb)
        rcases List.mem_cons.mp h with hx | h
        · exact hhigh _ (by omega) (by omega) (hx ▸ hb)
        · exact hhigh _ (by omega) (by omega) (List.eq_of_mem_singleton h ▸ hb)
      next =>
        rcases List.mem_cons.mp h with hx | h
        · exact hhigh _ (by omega) (by omega) (hx ▸ hb)
        rcases List.mem_cons.mp h with hx | h
        · exact hhigh _ (by omega) (by omega) (hx ▸ hb)
        rcases List.mem_cons.mp h with hx | h
        · exact hhigh _ (by omega) (by omega) (hx ▸ hb)
        · exact hhigh _ (by omega) (by omega) (List.eq_of_mem_singleton h ▸ hb)

/-- An ASCII character occurs in a text exactly where its byte does. -/
theorem mem_utf8_iff {s : List Char} {c : Char} (h : c.toNat < 128) :
    UInt8.ofNat c.toNat ∈ utf8 s ↔ c ∈ s := by
  rw [utf8, List.mem_flatMap]
  constructor
  · intro ⟨d, hd, hb⟩
    have hsmall : (UInt8.ofNat c.toNat).toNat = c.toNat := by
      rw [UInt8.toNat_ofNat', Nat.mod_eq_of_lt (by omega)]
    have hdc := ascii_of_mem_utf8EncodeChar hb (by omega)
    rw [hsmall] at hdc
    have heq : d = c := Char.toNat_inj.mp hdc
    rw [← heq]
    exact hd
  · intro hc
    refine ⟨c, hc, ?_⟩
    rw [utf8EncodeChar_ascii h]
    exact List.mem_singleton_self _

theorem utf8_append (s t : List Char) : utf8 (s ++ t) = utf8 s ++ utf8 t := List.flatMap_append

theorem length_utf8EncodeChar_pos (c : Char) : 0 < (String.utf8EncodeChar c).length :=
  List.length_pos_iff.mpr String.utf8EncodeChar_ne_nil

/-- Different texts have different encodings. -/
theorem utf8_injective {s t : String} (h : utf8 s.toList = utf8 t.toList) : s = t := by
  have hbytes : s.toList.utf8Encode = t.toList.utf8Encode := congrArg List.toByteArray h
  rw [String.utf8Encode_toList, String.utf8Encode_toList] at hbytes
  exact String.toByteArray_inj.mp hbytes

end bytes

section decoding

variable {decode : List UInt8 → List UInt8}

/-- Decoding copies what comes before the first percent sign. -/
theorem PercentDecodes.append (h : PercentDecodes decode) {l : List UInt8} (hl : 37 ∉ l)
    (rest : List UInt8) : decode (l ++ rest) = l ++ decode rest := by
  induction l with
  | nil => rfl
  | cons b l ih =>
    have hb : b ≠ 37 := fun he => hl (he ▸ List.mem_cons_self)
    have hrest : 37 ∉ l := fun hm => hl (List.mem_cons_of_mem b hm)
    rw [List.cons_append, h.plain b _ hb, ih hrest, List.cons_append]

theorem PercentDecodes.plain_eq (h : PercentDecodes decode) {l : List UInt8} (hl : 37 ∉ l) :
    decode l = l := by
  have happ := h.append hl []
  rw [List.append_nil, h.nil, List.append_nil] at happ
  exact happ

theorem PercentDecodes.percent (h : PercentDecodes decode) (b : UInt8) (rest : List UInt8) :
    decode (percent b ++ rest) = b :: decode rest := by
  have hb : b.toNat < 256 := UInt8.toNat_lt_size b
  have hhigh := hexValue_hexDigit (show b.toNat / 16 < 16 by omega)
  have hlow := hexValue_hexDigit (show b.toNat % 16 < 16 by omega)
  have hsum : 16 * (b.toNat / 16) + b.toNat % 16 = b.toNat := Nat.div_add_mod b.toNat 16
  refine (h.escaped _ _ rest _ _ hhigh hlow).trans ?_
  rw [hsum, UInt8.ofNat_toNat]

theorem PercentDecodes.percents (h : PercentDecodes decode) (bs rest : List UInt8) :
    decode (bs.flatMap SelfHealingCache.percent ++ rest) = bs ++ decode rest := by
  induction bs with
  | nil => rfl
  | cons b bs ih => rw [List.flatMap_cons, List.append_assoc, h.percent, ih, List.cons_append]

/-- A piece with a valid escape, if it is one. -/
def Token.Valid : Token → Prop
  | .escaped h l => IsHex h ∧ IsHex l
  | .char _ => True

theorem tokens_valid (s : List Char) : ∀ t ∈ tokens s, t.Valid := by
  fun_induction tokens s with
  | case1 c h l rest hc ih => exact List.forall_mem_cons.mpr ⟨hc.2, ih⟩
  | case2 c h l rest hc ih => exact List.forall_mem_cons.mpr ⟨trivial, ih⟩
  | case3 c d => exact List.forall_mem_cons.mpr ⟨trivial, List.forall_mem_singleton.mpr trivial⟩
  | case4 c => exact List.forall_mem_singleton.mpr trivial
  | case5 => exact fun t ht => absurd ht List.not_mem_nil

theorem PercentDecodes.token (h : PercentDecodes decode) {legal : Char → Bool}
    (hlegal : LegalSet legal) {t : Token} (ht : t.Valid) (rest : List UInt8) :
    decode (t.quote legal ++ rest) = t.bytes ++ decode rest := by
  cases t with
  | escaped d l =>
    obtain ⟨x, hx⟩ := Option.isSome_iff_exists.mp ht.1
    obtain ⟨y, hy⟩ := Option.isSome_iff_exists.mp ht.2
    have hdx : (UInt8.ofNat d.toNat).toNat = d.toNat := by
      have hlt := (hexValue_lt hx).1
      rw [UInt8.toNat_ofNat', Nat.mod_eq_of_lt (by omega)]
    have hly : (UInt8.ofNat l.toNat).toNat = l.toNat := by
      have hlt := (hexValue_lt hy).1
      rw [UInt8.toNat_ofNat', Nat.mod_eq_of_lt (by omega)]
    rw [Token.bytes, hx, hy]
    exact h.escaped _ _ rest x y (by rw [hdx]; exact hx) (by rw [hly]; exact hy)
  | char c =>
    rw [Token.quote, Token.bytes]
    by_cases hc : legal c = true
    · obtain ⟨hascii, hne⟩ := hlegal c hc
      rw [if_pos hc, utf8EncodeChar_ascii hascii]
      apply h.append
      intro hm
      have hcode := congrArg UInt8.toNat (List.eq_of_mem_singleton hm)
      rw [UInt8.toNat_ofNat', Nat.mod_eq_of_lt (by omega)] at hcode
      exact hne (Char.toNat_inj.mp hcode.symm)
    · rw [if_neg hc]
      exact h.percents _ rest

/-- Decoding a quoted text decodes its pieces. -/
theorem PercentDecodes.quote (h : PercentDecodes decode) {legal : Char → Bool}
    (hlegal : LegalSet legal) (s : List Char) :
    decode (SelfHealingCache.quote legal s) = (tokens s).flatMap Token.bytes := by
  have hall : ∀ ts : List Token, (∀ t ∈ ts, t.Valid) →
      decode (ts.flatMap (Token.quote legal)) = ts.flatMap Token.bytes := by
    intro ts hts
    induction ts with
    | nil => exact h.nil
    | cons t ts ih =>
      obtain ⟨ht, hrest⟩ := List.forall_mem_cons.mp hts
      rw [List.flatMap_cons, h.token hlegal ht, ih hrest, List.flatMap_cons]
  exact hall (tokens s) (tokens_valid s)

end decoding

section escapes

theorem hasEscape_cons {c : Char} {s : List Char} : HasEscape (c :: s) ↔
    (∃ h l rest, c = '%' ∧ s = h :: l :: rest ∧ IsHex h ∧ IsHex l) ∨ HasEscape s := by
  constructor
  · intro ⟨h, l, hh, hl, hinfix⟩
    rcases List.infix_cons_iff.mp hinfix with ⟨rest, hpre⟩ | htail
    · obtain ⟨hc, hs⟩ := List.cons.inj hpre
      exact Or.inl ⟨h, l, rest, hc.symm, hs.symm, hh, hl⟩
    · exact Or.inr ⟨h, l, hh, hl, htail⟩
  · intro hor
    rcases hor with ⟨h, l, rest, hc, hs, hh, hl⟩ | ⟨h, l, hh, hl, htail⟩
    · rw [hc, hs]
      exact ⟨h, l, hh, hl, [], rest, rfl⟩
    · exact ⟨h, l, hh, hl, List.infix_cons_iff.mpr (Or.inr htail)⟩

theorem not_hasEscape_nil : ¬HasEscape [] := by
  intro ⟨h, l, _, _, hinfix⟩
  have hlen := hinfix.length_le
  simp at hlen

/-- A text without valid escapes falls into its characters. -/
theorem tokens_of_not_hasEscape {s : List Char} (hs : ¬HasEscape s) :
    tokens s = s.map Token.char := by
  fun_induction tokens s with
  | case1 c h l rest hc ih =>
    exact absurd (hasEscape_cons.mpr (Or.inl ⟨h, l, rest, hc.1, rfl, hc.2⟩)) hs
  | case2 c h l rest hc ih =>
    rw [ih fun hrest => hs (hasEscape_cons.mpr (Or.inr hrest))]
    rfl
  | case3 c d => rfl
  | case4 c => rfl
  | case5 => rfl

/-- Every valid escape costs two bytes when it is decoded. -/
theorem length_bytes_tokens (s : List Char) :
    ((tokens s).flatMap Token.bytes).length ≤ (utf8 s).length ∧
      (HasEscape s → ((tokens s).flatMap Token.bytes).length < (utf8 s).length) := by
  fun_induction tokens s with
  | case1 c h l rest hc ih =>
    have hshort : (Token.bytes (.escaped h l)).length = 1 := rfl
    have hlong : 3 ≤ (utf8 [c, h, l]).length := by
      have hcpos := length_utf8EncodeChar_pos c
      have hhpos := length_utf8EncodeChar_pos h
      have hlpos := length_utf8EncodeChar_pos l
      simp only [utf8, List.flatMap_cons, List.flatMap_nil, List.length_append, List.length_nil]
      omega
    have hsplit : utf8 (c :: h :: l :: rest) = utf8 [c, h, l] ++ utf8 rest :=
      utf8_append [c, h, l] rest
    rw [List.flatMap_cons, List.length_append, hshort, hsplit, List.length_append]
    exact ⟨by omega, fun _ => by omega⟩
  | case2 c h l rest hc ih =>
    have hsplit : utf8 (c :: h :: l :: rest) = String.utf8EncodeChar c ++ utf8 (h :: l :: rest) := rfl
    have hsame : Token.bytes (.char c) = String.utf8EncodeChar c := rfl
    rw [List.flatMap_cons, List.length_append, hsame, hsplit, List.length_append]
    refine ⟨by omega, fun hesc => ?_⟩
    rcases hasEscape_cons.mp hesc with ⟨h', l', rest', hc', hs', hex⟩ | htail
    · cases hs'
      exact absurd ⟨hc', hex⟩ hc
    · have hlt := ih.2 htail
      omega
  | case3 c d =>
    refine ⟨le_refl _, fun hesc => ?_⟩
    obtain ⟨h, l, _, _, hinfix⟩ := hesc
    have hlen := hinfix.length_le
    simp at hlen
  | case4 c =>
    refine ⟨le_refl _, fun hesc => ?_⟩
    obtain ⟨h, l, _, _, hinfix⟩ := hesc
    have hlen := hinfix.length_le
    simp at hlen
  | case5 => exact ⟨le_refl _, fun hesc => absurd hesc not_hasEscape_nil⟩

theorem tokens_cons_of_ne {c : Char} (hc : c ≠ '%') (s : List Char) :
    tokens (c :: s) = .char c :: tokens s := by
  cases s with
  | nil => rfl
  | cons h s =>
    cases s with
    | nil => rfl
    | cons l rest => exact if_neg fun hesc => hc hesc.1

/-- Legal characters are copied. -/
theorem quote_append {legal : Char → Bool} (hlegal : LegalSet legal) {l : List Char}
    (hl : ∀ c ∈ l, legal c = true) (s : List Char) :
    quote legal (l ++ s) = utf8 l ++ quote legal s := by
  induction l with
  | nil => rfl
  | cons c l ih =>
    obtain ⟨hc, hrest⟩ := List.forall_mem_cons.mp hl
    rw [List.cons_append, quote, tokens_cons_of_ne (hlegal c hc).2, List.flatMap_cons, Token.quote,
      if_pos hc]
    exact (congrArg (String.utf8EncodeChar c ++ ·) (ih hrest)).trans (List.append_assoc _ _ _).symm

variable {decode : List UInt8 → List UInt8}

/-- Decoding undoes quoting on texts without valid escapes. -/
theorem PercentDecodes.roundtrip (h : PercentDecodes decode) {legal : Char → Bool}
    (hlegal : LegalSet legal) {s : List Char} (hs : ¬HasEscape s) :
    decode (SelfHealingCache.quote legal s) = utf8 s := by
  rw [h.quote hlegal, tokens_of_not_hasEscape hs, List.flatMap_map]
  rfl

/-- It never makes a text longer, and makes one with a valid escape shorter. -/
theorem PercentDecodes.length_le (h : PercentDecodes decode) {legal : Char → Bool}
    (hlegal : LegalSet legal) (s : List Char) :
    (decode (SelfHealingCache.quote legal s)).length ≤ (utf8 s).length := by
  rw [h.quote hlegal]
  exact (length_bytes_tokens s).1

theorem PercentDecodes.length_lt (h : PercentDecodes decode) {legal : Char → Bool}
    (hlegal : LegalSet legal) {s : List Char} (hs : HasEscape s) :
    (decode (SelfHealingCache.quote legal s)).length < (utf8 s).length := by
  rw [h.quote hlegal]
  exact (length_bytes_tokens s).2 hs

end escapes

end SelfHealingCache
