import Libexcept.Lib.Delimited
import Libexcept.Lib.Except

/-! Zero-terminated strings read through a moving pointer. A pointer is an index into the characters;
    every read and every copied range is checked against the terminator, so a program that never
    faults never leaves its string. A loop that looks for a delimiter stops at the terminator at the
    latest (`skip_eq`), and what it passed over is the part of the string ahead of the delimiter. -/

/-- The characters of a zero-terminated string, none of which is the terminator that follows them. -/
structure CString where
  chars : List UInt8
  noNul : (0 : UInt8) ∉ chars
deriving DecidableEq

namespace CString
open Except (ok_bind pure_ok)

/-- The bytes of an ASCII literal. -/
def bytes (s : String) : List UInt8 := s.toList.map Char.toUInt8

/-- What an access beyond the string does, and what a loop does that never ends. -/
inductive Fault
  | outOfBounds (index : Nat)
  | badRange (start stop : Nat)
  | endless
deriving DecidableEq

def length (c : CString) : Nat := c.chars.length

/-- The characters from a pointer on. -/
def suffix (c : CString) (s : Nat) : List UInt8 := c.chars.drop s

/-- `*s`. The terminator is the last byte that may be read. -/
def read (c : CString) (s : Nat) : Except Fault UInt8 :=
  match (c.chars ++ [0])[s]? with
  | some ch => .ok ch
  | none => .error (.outOfBounds s)

/-- `while(!stop(*s) && *s != '\0') ++s;` for at most `fuel` tests. -/
def skipFrom (c : CString) (stop : UInt8 → Bool) : Nat → Nat → Except Fault Nat
  | 0, _ => .error .endless
  | fuel + 1, s => do
    let ch ← c.read s
    if stop ch || ch == 0 then return s else skipFrom c stop fuel (s + 1)

/-- The loop above: a string of `n` characters is left after `n + 1` tests. -/
def skip (c : CString) (stop : UInt8 → Bool) (s : Nat) : Except Fault Nat := c.skipFrom stop (c.length + 1) s

/-- `std::string(start, s - start)`. -/
def copy (c : CString) (start s : Nat) : Except Fault (List UInt8) :=
  if start ≤ s ∧ s ≤ c.length then .ok ((c.suffix start).take (s - start)) else .error (.badRange start s)

/-- `*s == p[0] && s[1] == p[1] && ...`: the tests after the first one that fails are not made. -/
def looksAt (c : CString) : Nat → List UInt8 → Except Fault Bool
  | _, [] => .ok true
  | s, p :: pattern => do
    if (← c.read s) == p then looksAt c (s + 1) pattern else return false

variable {c : CString} {s : Nat} {stop : UInt8 → Bool}

/-! ### The suffix at a pointer -/

@[simp] theorem length_suffix : (c.suffix s).length = c.length - s := List.length_drop

@[simp] theorem suffix_zero : c.suffix 0 = c.chars := rfl

theorem suffix_add (n : Nat) : c.suffix (s + n) = (c.suffix s).drop n := by
  unfold suffix
  rw [List.drop_drop]

theorem noNul_suffix : (0 : UInt8) ∉ c.suffix s := fun h => c.noNul (List.mem_of_mem_drop h)

theorem read_eq (h : s ≤ c.length) : c.read s = .ok ((c.suffix s).headD 0) := by
  have hget : (c.chars ++ [0])[s]? = some ((c.suffix s).headD 0) := by
    rw [List.headD_eq_head?_getD, suffix, List.head?_drop]
    by_cases hs : s < c.chars.length
    · rw [List.getElem?_append_left hs, List.getElem?_eq_getElem hs, Option.getD_some]
    · have hlen : s = c.chars.length := Nat.le_antisymm h (Nat.le_of_not_lt hs)
      subst hlen
      simp
  simp [read, hget]

/-- A read does not fault exactly where it is not beyond the terminator. -/
theorem read_returns_iff : (∃ ch, c.read s = .ok ch) ↔ s ≤ c.length := by
  constructor
  · rintro ⟨ch, h⟩
    unfold read at h
    split at h
    case h_1 hget =>
      obtain ⟨hlt, -⟩ := List.getElem?_eq_some_iff.mp hget
      rw [List.length_append, List.length_singleton] at hlt
      exact Nat.le_of_lt_succ hlt
    case h_2 => cases h
  · intro h
    exact ⟨_, read_eq h⟩

/-- A copy does not fault exactly where its range lies within the string. -/
theorem copy_returns_iff {start : Nat} : (∃ l, c.copy start s = .ok l) ↔ start ≤ s ∧ s ≤ c.length := by
  unfold copy
  split
  case isTrue h => exact ⟨fun _ => h, fun _ => ⟨_, rfl⟩⟩
  case isFalse h => exact ⟨fun ⟨_, hl⟩ => (by cases hl), fun hrange => absurd hrange h⟩

theorem suffix_cons {ch : UInt8} {rest : List UInt8} (h : c.suffix s = ch :: rest) :
    s + 1 ≤ c.length ∧ ch ≠ 0 ∧ c.suffix (s + 1) = rest := by
  have hlen := congrArg List.length h
  rw [length_suffix, List.length_cons] at hlen
  refine ⟨by omega, fun h0 => ?_, ?_⟩
  · have hmem : ch ∈ c.suffix s := by rw [h]; exact List.mem_cons_self
    exact noNul_suffix (h0 ▸ hmem)
  · rw [suffix_add, h, List.drop_succ_cons, List.drop_zero]

/-! ### The delimiter loop -/

/-- The loop runs to the first delimiter, or to the terminator: by induction on what is left of the
    string, which the number of tests exceeds. -/
theorem skipFrom_eq {fuel : Nat} (hs : s ≤ c.length) (hf : c.length - s < fuel) :
    c.skipFrom stop fuel s = .ok (s + (Delimited.before stop (c.suffix s)).length) := by
  induction fuel generalizing s with
  | zero => omega
  | succ fuel ih =>
    rw [skipFrom, read_eq hs, ok_bind]
    cases hsuf : c.suffix s with
    | nil => simp [Delimited.before, pure_ok]
    | cons ch rest =>
      obtain ⟨hs', hne, hrest⟩ := suffix_cons hsuf
      have hnul : (ch == 0) = false := by simpa using hne
      cases hstop : stop ch with
      | true => simp [Delimited.before, hstop, pure_ok]
      | false =>
        have hnext := ih hs' (by omega)
        rw [hrest] at hnext
        simp only [List.headD_cons, hstop, hnul, Bool.or_self, Bool.false_eq_true, ↓reduceIte, hnext]
        simp [Delimited.before, hstop]
        omega

theorem skip_eq (hs : s ≤ c.length) :
    c.skip stop s = .ok (s + (Delimited.before stop (c.suffix s)).length) :=
  skipFrom_eq hs (by omega)

/-- The loop ends within the string, after one test for each character left and one for the terminator. -/
theorem skipFrom_returns {fuel : Nat} (hs : s ≤ c.length) (hf : c.length - s < fuel) :
    ∃ t, c.skipFrom stop fuel s = .ok t ∧ s ≤ t ∧ t ≤ c.length := by
  have hpassed : (Delimited.before stop (c.suffix s)).length ≤ (c.suffix s).length :=
    (List.takeWhile_prefix _).length_le
  rw [length_suffix] at hpassed
  exact ⟨_, skipFrom_eq hs hf, Nat.le_add_right _ _, by omega⟩

/-! ### The loop over a suffix in its parts -/

variable {xs ys : List UInt8} {ch : UInt8}

theorem suffix_of_append (h : c.suffix s = xs ++ ys) : c.suffix (s + xs.length) = ys := by
  rw [suffix_add, h, List.drop_left]

theorem le_of_append (hs : s ≤ c.length) (h : c.suffix s = xs ++ ys) : s + xs.length ≤ c.length := by
  have hlen := congrArg List.length h
  rw [length_suffix, List.length_append] at hlen
  omega

theorem copy_of_append (hs : s ≤ c.length) (h : c.suffix s = xs ++ ys) : c.copy s (s + xs.length) = .ok xs := by
  rw [copy, if_pos ⟨Nat.le_add_right _ _, le_of_append hs h⟩, Nat.add_sub_cancel_left, h, List.take_left]

theorem read_of_cons (hs : s ≤ c.length) (h : c.suffix s = ch :: ys) : c.read s = .ok ch := by
  rw [read_eq hs, h, List.headD_cons]

theorem skip_of_cut (hs : s ≤ c.length) (h : c.suffix s = xs ++ ch :: ys) (hx : ∀ x ∈ xs, stop x = false)
    (hc : stop ch = true) : c.skip stop s = .ok (s + xs.length) := by
  rw [skip_eq hs, h, Delimited.before_of_cut hx hc]

theorem skip_of_end (hs : s ≤ c.length) (h : ∀ x ∈ c.suffix s, stop x = false) : c.skip stop s = .ok c.length := by
  have hall : Delimited.before stop (c.suffix s) = c.suffix s := by
    have happ := Delimited.before_append (l := []) h
    simpa [Delimited.before] using happ
  rw [skip_eq hs, hall, length_suffix]
  congr 1
  omega

@[simp] theorem suffix_length : c.suffix c.length = [] := List.drop_length

theorem read_length : c.read c.length = .ok 0 := by
  rw [read_eq (Nat.le_refl _), suffix_length, List.headD_nil]

/-! ### The look-ahead -/

theorem looksAt_eq {pattern : List UInt8} (hs : s ≤ c.length) (hp : (0 : UInt8) ∉ pattern) :
    c.looksAt s pattern = .ok (pattern.isPrefixOf (c.suffix s)) := by
  induction pattern generalizing s with
  | nil => simp [looksAt]
  | cons p pattern ih =>
    simp only [List.mem_cons, not_or] at hp
    rw [looksAt, read_eq hs, ok_bind]
    cases hsuf : c.suffix s with
    | nil => simp [hp.1, pure_ok]
    | cons ch rest =>
      obtain ⟨hs', -, hrest⟩ := suffix_cons hsuf
      by_cases hch : ch = p
      · simp [hch, ih hs' hp.2, hrest]
      · have hpc : (p == ch) = false := by simpa using fun h : p = ch => hch h.symm
        simp [hch, hpc, pure_ok, List.isPrefixOf]

end CString
