import Libexcept.Lib.Digits
import Libexcept.Theorems.Frame

/-! The command run for a frame. The scanner commits to the first `(` of the line, so the address it
    finds is the one of the frame unless the file name itself holds `(`, and ahead of its next `)`
    nothing but that parenthesis keeps the scanner from ` [0x`: then the address is taken from the file
    name, and what stands there up to a `]` is handed to the shell. -/

namespace Libexcept
open CString (bytes)
open Digits (hexadecimal)

def isIdentifier (c : UInt8) : Bool :=
  ('a'.toUInt8 ≤ c && c ≤ 'z'.toUInt8) || ('A'.toUInt8 ≤ c && c ≤ 'Z'.toUInt8) || Digits.isDigit c || c == '_'.toUInt8

theorem notMem_of_identifier {l : List UInt8} {c : UInt8} (h : l.all isIdentifier = true) (hc : isIdentifier c = false) :
    c ∉ l := fun hmem => by
  rw [List.all_eq_true.mp h c hmem] at hc
  cases hc

/-- A captured frame, as `backtrace_symbols()` renders it. The symbol is empty when there is none. -/
structure CapturedFrame where
  file : List UInt8
  symbol : List UInt8
  offset : Nat
  address : Nat
  file_nul : (0 : UInt8) ∉ file
  symbol_ident : symbol.all isIdentifier = true

namespace CapturedFrame

theorem hexadecimal_noNul (n : Nat) : (0 : UInt8) ∉ hexadecimal n := Digits.notMem_hexadecimal n (by decide)

theorem symbol_lacks (f : CapturedFrame) {c : UInt8} (hc : isIdentifier c = false) : c ∉ f.symbol :=
  notMem_of_identifier f.symbol_ident hc

def inner (f : CapturedFrame) : List UInt8 := f.symbol ++ bytes "+0x" ++ hexadecimal f.offset

/-- The raw line of the frame: `<file>(<symbol>+0x<offset>) [0x<address>]`. -/
def line (f : CapturedFrame) : CString where
  chars := f.file ++ bytes "(" ++ f.inner ++ bytes ") [0x" ++ hexadecimal f.address ++ bytes "]"
  noNul := by
    simp only [inner, List.mem_append, not_or]
    exact ⟨⟨⟨⟨⟨f.file_nul, by decide⟩, ⟨⟨f.symbol_lacks (by decide), by decide⟩, hexadecimal_noNul _⟩⟩, by decide⟩,
      hexadecimal_noNul _⟩, by decide⟩

theorem line_chars (f : CapturedFrame) :
    f.line.chars = f.file ++ bytes "(" ++ f.inner ++ bytes ") [0x" ++ hexadecimal f.address ++ bytes "]" := rfl

theorem inner_paren (f : CapturedFrame) : ')'.toUInt8 ∉ f.inner := by
  simp only [inner, List.mem_append, not_or]
  exact ⟨⟨f.symbol_lacks (by decide), by decide⟩, Digits.notMem_hexadecimal _ (by decide)⟩

end CapturedFrame

def commands {α : Type} (r : Run α) : List (List UInt8) :=
  r.calls.filterMap fun
    | .popen command => some command
    | _ => none

/-- The command run for a frame is sound: the line is not parsed and there is none, or the only one
    looks up the address of the frame, copied from behind the file name and the symbol. -/
def CommandSound (p : Process) (idx : Nat) (f : CapturedFrame) : Prop :=
  scanFrameLine f.line = .ok none ∧ commands (frameEntry p idx f.line) = [] ∨
    commands (frameEntry p idx f.line) =
      [bytes "eu-addr2line --pid=" ++ toBytes p.getpid ++ bytes " " ++ hexadecimal f.address] ∧
    ∃ frame, scanFrameLine f.line = .ok (some frame) ∧ f.file.length + 1 + f.symbol.length ≤ frame.start

/-- The file name holds what the scanner takes for the end of the parentheses and the start of the
    address. -/
def Misleads (file : List UInt8) : Prop :=
  ∃ head inside rest, file = head ++ bytes "(" ++ inside ++ bytes ") [0x" ++ rest ∧
    '('.toUInt8 ∉ head ∧ ')'.toUInt8 ∉ inside

variable {p : Process} {idx : Nat} {f : CapturedFrame} {raw : CString}

theorem commands_of_none (h : scanFrameLine raw = .ok none) : commands (frameEntry p idx raw) = [] := by
  rw [frameEntry_of_none h]
  rfl

theorem commands_of_some {frame : ScannedFrame} (h : scanFrameLine raw = .ok (some frame)) :
    commands (frameEntry p idx raw) = [addr2line p frame.addr] := by
  cases hp : p.popen idx (addr2line p frame.addr) with
  | none =>
    rw [frameEntry_of_null h hp]
    rfl
  | some stream =>
    rw [frameEntry_of_some h hp]
    rfl

/-- A line whose parentheses enclose `inside`, up to the address that follows them. -/
theorem scan_of_inside {file inside addr tail : List UInt8} (hfile : '('.toUInt8 ∉ file) (hinside : ')'.toUInt8 ∉ inside)
    (haddr : ']'.toUInt8 ∉ addr)
    (h : raw.chars = file ++ bytes "(" ++ inside ++ bytes ") [0x" ++ addr ++ bytes "]" ++ tail) :
    ∃ frame, scanFrameLine raw = .ok (some frame) ∧ frame.addr = addr ∧
      frame.start = file.length + 1 + inside.length + 5 := by
  obtain ⟨name, offset, rest, hcut, hplus, hparen, hoff⟩ :=
    exists_name (l := inside ++ [')'.toUInt8]) (List.mem_append_right _ List.mem_cons_self)
  let x : FrameParts := ⟨file, name, offset, addr, tail, hfile, hplus, hparen, hoff, haddr⟩
  obtain ⟨hin, -⟩ := Delimited.cut_inj hinside x.inside_paren hcut
  have hx : x.text = raw.chars := by
    rw [h, hin]
    simp only [FrameParts.text, x, List.append_assoc]
  refine ⟨x.scanned, FrameParts.scan hx, rfl, ?_⟩
  rw [hin]
  rfl

/-- A file name that misleads the scanner provides the start of the address itself. -/
theorem scan_of_misleads (h : Misleads f.file) :
    ∃ frame, scanFrameLine f.line = .ok (some frame) ∧ frame.start ≤ f.file.length := by
  obtain ⟨head, inside, rest, hfile, hhead, hinside⟩ := h
  have hmem : ']'.toUInt8 ∈ rest ++ bytes "(" ++ f.inner ++ bytes ") [0x" ++ hexadecimal f.address ++ bytes "]" :=
    List.mem_append_right _ (by decide)
  obtain ⟨addr, tail, hrest, haddr⟩ := List.eq_append_cons_of_mem hmem
  have hline : f.line.chars = head ++ bytes "(" ++ inside ++ bytes ") [0x" ++ addr ++ bytes "]" ++ tail := by
    have hcut : addr ++ (bytes "]" ++ tail) = addr ++ ']'.toUInt8 :: tail := rfl
    simp only [f.line_chars, hfile, List.append_assoc] at hrest ⊢
    rw [hcut, ← hrest]
  obtain ⟨frame, hscan, -, hstart⟩ := scan_of_inside hhead hinside haddr hline
  refine ⟨frame, hscan, ?_⟩
  have hopen : (bytes "(").length = 1 := by decide
  have hclose : (bytes ") [0x").length = 5 := by decide
  rw [hstart, hfile]
  simp only [List.length_append, hopen, hclose]
  omega

/-- A file name without parentheses ahead of the rendered ones leaves the address of the frame to be
    found. -/
theorem scan_of_inner {head inside : List UInt8} (hhead : '('.toUInt8 ∉ head) (hinside : ')'.toUInt8 ∉ inside)
    (h : f.file ++ bytes "(" ++ f.inner = head ++ bytes "(" ++ inside) :
    ∃ frame, scanFrameLine f.line = .ok (some frame) ∧ frame.addr = hexadecimal f.address ∧
      f.file.length + 1 + f.symbol.length ≤ frame.start := by
  have hline : f.line.chars =
      head ++ bytes "(" ++ inside ++ bytes ") [0x" ++ hexadecimal f.address ++ bytes "]" ++ [] := by
    rw [← h, List.append_nil]
    rfl
  obtain ⟨frame, hscan, haddr, hstart⟩ :=
    scan_of_inside hhead hinside (Digits.notMem_hexadecimal f.address (by decide)) hline
  refine ⟨frame, hscan, haddr, ?_⟩
  have hlen := congrArg List.length h
  have hopen : (bytes "(").length = 1 := by decide
  simp only [CapturedFrame.inner, List.length_append, hopen] at hlen
  omega

/-- A file name that closes its first parenthesis without misleading the scanner leaves the line
    unparsed. -/
theorem scan_of_closed {head inside rest : List UInt8} (hfile : f.file = head ++ bytes "(" ++ inside ++ bytes ")" ++ rest)
    (hhead : '('.toUInt8 ∉ head) (hinside : ')'.toUInt8 ∉ inside) (h : ¬ Misleads f.file) :
    scanFrameLine f.line = .ok none := by
  refine scan_none fun x hx => h ?_
  have htext : x.text = head ++ '('.toUInt8 :: (inside ++ ')'.toUInt8 ::
      (rest ++ '('.toUInt8 :: (f.inner ++ (bytes ") [0x" ++ (hexadecimal f.address ++ bytes "]"))))) := by
    rw [hx, f.line_chars, hfile]
    simp only [List.append_assoc]
    rfl
  rw [FrameParts.text_eq] at htext
  obtain ⟨-, htext⟩ := Delimited.cut_inj x.file_paren hhead htext
  obtain ⟨-, htext⟩ := Delimited.cut_inj x.inside_paren hinside htext
  -- What follows the parenthesis begins with ` [0x`, which cannot reach into the rendered `(`.
  have hprefix : bytes " [0x" <+: rest := by
    rcases List.append_eq_append_iff.mp htext with ⟨t, ht, -⟩ | ⟨t, ht, hrest⟩
    · exact ⟨t, ht.symm⟩
    · cases t with
      | nil => exact ⟨[], by rw [ht, List.append_nil, List.append_nil]⟩
      | cons c t =>
        have hc : c = '('.toUInt8 := (List.cons.inj hrest).1.symm
        have hmem : '('.toUInt8 ∈ bytes " [0x" := by
          rw [ht, ← hc]
          exact List.mem_append_right _ List.mem_cons_self
        exact absurd hmem (by decide)
  obtain ⟨t, rfl⟩ := hprefix
  refine ⟨head, inside, t, ?_, hhead, hinside⟩
  rw [hfile]
  simp only [List.append_assoc]
  rfl

/-- The command run for a frame is sound exactly when the file name does not mislead the scanner. -/
theorem commandSound_iff (p : Process) (idx : Nat) (f : CapturedFrame) : CommandSound p idx f ↔ ¬ Misleads f.file := by
  constructor
  · rintro hsound hmis
    obtain ⟨frame, hscan, hstart⟩ := scan_of_misleads hmis
    rcases hsound with ⟨hnone, -⟩ | ⟨-, frame', hscan', hstart'⟩
    · rw [hscan] at hnone
      cases hnone
    · obtain rfl : frame = frame' := Option.some.inj (Except.ok.inj (hscan.symm.trans hscan'))
      omega
  · intro h
    by_cases hopen : '('.toUInt8 ∈ f.file
    · obtain ⟨head, after, hfile, hhead⟩ := List.eq_append_cons_of_mem hopen
      by_cases hclose : ')'.toUInt8 ∈ after
      · obtain ⟨inside, rest, hafter, hinside⟩ := List.eq_append_cons_of_mem hclose
        have hclosed : f.file = head ++ bytes "(" ++ inside ++ bytes ")" ++ rest := by
          rw [hfile, hafter]
          simp only [List.append_assoc]
          rfl
        have hnone := scan_of_closed hclosed hhead hinside h
        exact Or.inl ⟨hnone, commands_of_none hnone⟩
      · have hinside : ')'.toUInt8 ∉ after ++ bytes "(" ++ f.inner := by
          simp only [List.mem_append, not_or]
          exact ⟨⟨hclose, by decide⟩, f.inner_paren⟩
        obtain ⟨frame, hscan, haddr, hstart⟩ := scan_of_inner hhead hinside (by
          rw [hfile]
          simp only [List.append_assoc, List.cons_append]
          rfl)
        refine Or.inr ⟨?_, frame, hscan, hstart⟩
        rw [commands_of_some hscan, haddr]
        rfl
    · obtain ⟨frame, hscan, haddr, hstart⟩ := scan_of_inner hopen f.inner_paren rfl
      refine Or.inr ⟨?_, frame, hscan, hstart⟩
      rw [commands_of_some hscan, haddr]
      rfl

/-- The main program, started with a file name that holds a command. -/
def shellFrame : CapturedFrame where
  file := bytes "x() [0x;id;]"
  symbol := bytes "main"
  offset := 29
  address := 21969
  file_nul := by decide
  symbol_ident := by decide

theorem scan_shellFrame : scanFrameLine shellFrame.line = .ok (some ⟨bytes "x", [], bytes ";id;", 7⟩) := by decide

theorem shellFrame_runs_command :
    commands (frameEntry silentTool 0 shellFrame.line) = [bytes "eu-addr2line --pid=7 ;id;"] ∧
      ¬ CommandSound silentTool 0 shellFrame := by
  have hcommand : commands (frameEntry silentTool 0 shellFrame.line) = [bytes "eu-addr2line --pid=7 ;id;"] :=
    commands_of_some scan_shellFrame
  refine ⟨hcommand, ?_⟩
  rintro (⟨hnone, -⟩ | ⟨hsame, -⟩)
  · rw [scan_shellFrame] at hnone
    cases hnone
  · rw [hcommand] at hsame
    exact absurd hsame (by decide)

end Libexcept
