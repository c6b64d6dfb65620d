import Libexcept.Lib.CString
import Mathlib.Algebra.Group.Int.Defs
import Mathlib.Algebra.Group.Nat.Defs

/-! Numerals as bytes, and their reading back. A numeral is made of the digits of its base only, so a
    scan for another character passes over it; a decimal numeral is read back by `value`, which stops
    at the first byte that is no digit. -/

namespace Digits

def decimal (n : Nat) : List UInt8 := (Nat.toDigits 10 n).map Char.toUInt8

def hexadecimal (n : Nat) : List UInt8 := (Nat.toDigits 16 n).map Char.toUInt8

def isDigit (c : UInt8) : Bool := '0'.toUInt8 ≤ c && c ≤ '9'.toUInt8

/-- The number that the digits ahead of the first other byte stand for, after those of `n`. -/
def value : List UInt8 → Nat → Nat
  | [], n => n
  | c :: s, n => if isDigit c then value s (10 * n + (c.toNat - 48)) else n

theorem mem_toDigits {b n : Nat} {c : Char} (hb : 1 < b) (h : c ∈ Nat.toDigits b n) : ∃ d < b, c = Nat.digitChar d := by
  induction n using Nat.base_induction b hb with
  | single m hm =>
    rw [Nat.toDigits_of_lt_base hm, List.mem_singleton] at h
    exact ⟨m, hm, h⟩
  | digit m k hk hm ih =>
    rw [← Nat.toDigits_append_toDigits hb hm hk, Nat.toDigits_of_lt_base hk] at h
    rcases List.mem_append.mp h with h | h
    · exact ih h
    · exact ⟨k, hk, List.mem_singleton.mp h⟩

theorem mem_numeral {b n : Nat} {c : UInt8} (hb : 1 < b) (h : c ∈ (Nat.toDigits b n).map Char.toUInt8) :
    ∃ d < b, c = (Nat.digitChar d).toUInt8 := by
  obtain ⟨x, hx, rfl⟩ := List.mem_map.mp h
  obtain ⟨d, hd, rfl⟩ := mem_toDigits hb hx
  exact ⟨d, hd, rfl⟩

theorem notMem_numeral {b : Nat} {c : UInt8} (hb : 1 < b) (n : Nat) (h : ∀ d < b, (Nat.digitChar d).toUInt8 ≠ c) :
    c ∉ (Nat.toDigits b n).map Char.toUInt8 := by
  intro hc
  obtain ⟨d, hd, rfl⟩ := mem_numeral hb hc
  exact h d hd rfl

theorem notMem_hexadecimal {c : UInt8} (n : Nat) (h : ∀ d < 16, (Nat.digitChar d).toUInt8 ≠ c) : c ∉ hexadecimal n :=
  notMem_numeral (by decide) n h

theorem notMem_decimal {c : UInt8} (n : Nat) (h : ∀ d < 10, (Nat.digitChar d).toUInt8 ≠ c) : c ∉ decimal n :=
  notMem_numeral (by decide) n h

theorem decimal_ne_nil (n : Nat) : decimal n ≠ [] := by
  intro h
  exact Nat.toDigits_ne_nil (List.map_eq_nil_iff.mp h)

/-- A decimal numeral is read back. -/
theorem value_decimal (n : Nat) : value (decimal n) 0 = n := by
  have hread : ∀ (l : List Char) (m : Nat), (∀ c ∈ l, ∃ d < 10, c = Nat.digitChar d) →
      value (l.map Char.toUInt8) m = Nat.ofDigitChars 10 l m := by
    intro l
    induction l with
    | nil =>
      intro m _
      rw [Nat.ofDigitChars_nil]
      rfl
    | cons c l ih =>
      intro m hl
      obtain ⟨⟨d, hd, rfl⟩, hrest⟩ := List.forall_mem_cons.mp hl
      have hdigit : ∀ d < 10, isDigit (Nat.digitChar d).toUInt8 = true ∧ (Nat.digitChar d).toUInt8.toNat - 48 = d := by
        decide
      obtain ⟨hisDigit, hval⟩ := hdigit d hd
      rw [List.map_cons, value, if_pos hisDigit, hval, ih _ hrest, Nat.ofDigitChars_cons_digitChar_of_lt_ten hd]
  rw [decimal, hread _ _ fun c hc => mem_toDigits (by decide) hc, Nat.ofDigitChars_ten_toDigits]

/-! ### `std::to_string()` -/

section Integers
open CString (bytes)

theorem bytes_append (s t : String) : bytes (s ++ t) = bytes s ++ bytes t := by
  simp [bytes]

theorem bytes_toString_natCast (n : Nat) : bytes (toString (n : Int)) = decimal n := by
  have hrepr : toString (n : Int) = Nat.repr n := rfl
  rw [hrepr]
  simp [bytes, Nat.repr, decimal]

theorem bytes_toString_negSucc (n : Nat) : bytes (toString (Int.negSucc n)) = '-'.toUInt8 :: decimal (n + 1) :=
  (bytes_append "-" (toString (n + 1))).trans (congrArg _ (bytes_toString_natCast (n + 1)))

theorem notMem_bytes_toString {c : UInt8} (n : Int) (hminus : c ≠ '-'.toUInt8)
    (hdigits : ∀ d < 10, (Nat.digitChar d).toUInt8 ≠ c) : c ∉ bytes (toString n) := by
  cases n with
  | ofNat n =>
    rw [Int.ofNat_eq_natCast, bytes_toString_natCast]
    exact notMem_decimal n hdigits
  | negSucc n =>
    rw [bytes_toString_negSucc, List.mem_cons, not_or]
    exact ⟨hminus, notMem_decimal (n + 1) hdigits⟩

theorem decimal_inj {m n : Nat} (h : decimal m = decimal n) : m = n := by
  rw [← value_decimal m, h, value_decimal]

/-- An integer is told by its text. -/
theorem bytes_toString_inj {m n : Int} (h : bytes (toString m) = bytes (toString n)) : m = n := by
  have hminus : ∀ n l, decimal n ≠ '-'.toUInt8 :: l := fun n l hn =>
    notMem_decimal (c := '-'.toUInt8) n (by decide) (hn ▸ List.mem_cons_self)
  cases m with
  | ofNat m =>
    cases n with
    | ofNat n =>
      rw [Int.ofNat_eq_natCast, Int.ofNat_eq_natCast, bytes_toString_natCast, bytes_toString_natCast] at h
      rw [decimal_inj h]
    | negSucc n =>
      rw [Int.ofNat_eq_natCast, bytes_toString_natCast, bytes_toString_negSucc] at h
      exact absurd h (hminus m _)
  | negSucc m =>
    cases n with
    | ofNat n =>
      rw [Int.ofNat_eq_natCast, bytes_toString_natCast, bytes_toString_negSucc] at h
      exact absurd h.symm (hminus n _)
    | negSucc n =>
      rw [bytes_toString_negSucc, bytes_toString_negSucc] at h
      rw [Nat.succ.inj (decimal_inj (List.cons.inj h).2)]

end Integers

/-! ### `atoi()` -/

def isSpace (c : UInt8) : Bool := c == ' '.toUInt8 || (9 ≤ c && c ≤ 13)

/-- The conversion to `int` of what `strtol()` returns, which stays within the bounds of `long`. -/
def toInt (n : Int) : Int := (max (-2 ^ 63) (min n (2 ^ 63 - 1))).bmod (2 ^ 32)

def atoi (s : List UInt8) : Int :=
  match s.dropWhile isSpace with
  | [] => 0
  | c :: rest =>
    if c = '-'.toUInt8 then toInt (-(value rest 0 : Int))
    else if c = '+'.toUInt8 then toInt (value rest 0)
    else toInt (value (c :: rest) 0)

theorem toInt_eq {n : Int} (hlow : -2 ^ 31 ≤ n) (hhigh : n < 2 ^ 31) : toInt n = n := by
  unfold toInt
  have hclamp : max (-2 ^ 63) (min n (2 ^ 63 - 1)) = n := by omega
  rw [hclamp]
  exact Int.bmod_eq_of_le (by omega) (by omega)

theorem atoi_decimal {n : Nat} (h : n < 2 ^ 31) : atoi (decimal n) = n := by
  obtain ⟨c, rest, hcons⟩ := List.exists_cons_of_ne_nil (decimal_ne_nil n)
  obtain ⟨d, hd, hc⟩ := mem_numeral (by decide) (show c ∈ decimal n by rw [hcons]; exact List.mem_cons_self)
  have hfirst : ∀ d < 10, isSpace (Nat.digitChar d).toUInt8 = false ∧ (Nat.digitChar d).toUInt8 ≠ '-'.toUInt8 ∧
      (Nat.digitChar d).toUInt8 ≠ '+'.toUInt8 := by decide
  obtain ⟨hspace, hminus, hplus⟩ := hfirst d hd
  rw [← hc] at hspace hminus hplus
  unfold atoi
  rw [hcons, List.dropWhile_cons_of_neg (by simp [hspace])]
  simp only [if_neg hminus, if_neg hplus]
  rw [← hcons, value_decimal, toInt_eq (by omega) (by omega)]

end Digits
