import Libexcept.StackTrace

/-! The frame line scanner accepts exactly the lines `file(name+offset) [0xaddr]tail` whose parts lack
    the characters that would end them earlier, and extracts the parts.

Each stage is described by the part of the line ahead of its pointer (`CString.suffix`): where the
delimiter of the stage is there, the stage yields the part ahead of it; where it is not, the stage runs
to the terminator and no address is found. -/

namespace Libexcept
open CString (bytes)
open Except (ok_bind pure_ok)

/-- A frame line in its parts. The offset, with the `+` ahead of it, may be missing. -/
structure FrameParts where
  file : List UInt8
  name : List UInt8
  offset : Option (List UInt8)
  addr : List UInt8
  tail : List UInt8
  file_paren : '('.toUInt8 ∉ file
  name_plus : '+'.toUInt8 ∉ name
  name_paren : ')'.toUInt8 ∉ name
  offset_paren : ∀ o, offset = some o → ')'.toUInt8 ∉ o
  addr_bracket : ']'.toUInt8 ∉ addr

namespace FrameParts

def plus (offset : Option (List UInt8)) : List UInt8 :=
  match offset with
  | some o => '+'.toUInt8 :: o
  | none => []

def text (x : FrameParts) : List UInt8 :=
  x.file ++ bytes "(" ++ x.name ++ plus x.offset ++ bytes ") [0x" ++ x.addr ++ bytes "]" ++ x.tail

theorem text_eq (x : FrameParts) : x.text = x.file ++ '('.toUInt8 :: ((x.name ++ plus x.offset) ++
    ')'.toUInt8 :: (bytes " [0x" ++ (x.addr ++ ']'.toUInt8 :: x.tail))) := by
  simp only [text, List.append_assoc]
  rfl

def start (x : FrameParts) : Nat := x.file.length + 1 + (x.name ++ plus x.offset).length + 5

theorem inside_paren (x : FrameParts) : ')'.toUInt8 ∉ x.name ++ plus x.offset := by
  obtain ⟨_, name, offset, _, _, _, _, hparen, hoff, _⟩ := x
  cases offset with
  | none => simpa [plus] using hparen
  | some o =>
    simp only [plus, List.mem_append, List.mem_cons, not_or]
    exact ⟨hparen, by decide, hoff o rfl⟩

/-- What the scanner extracts: the name only when an offset follows it. -/
def scanned (x : FrameParts) : ScannedFrame where
  filename := x.file
  rawFunctionName := if x.offset.isSome then x.name else []
  addr := x.addr
  start := x.start

end FrameParts

variable {raw : CString} {start s : Nat}

/-! ### The function name -/

theorem bytes_close : bytes ") [0x" = ')'.toUInt8 :: bytes " [0x" := by decide

theorem scanFunctionName_of_cut {name rest : List UInt8} {offset : Option (List UInt8)} (hs : start ≤ raw.length)
    (hplus : '+'.toUInt8 ∉ name) (hparen : ')'.toUInt8 ∉ name) (hoff : ∀ o, offset = some o → ')'.toUInt8 ∉ o)
    (h : raw.suffix start = name ++ FrameParts.plus offset ++ ')'.toUInt8 :: rest) :
    scanFunctionName raw start =
      .ok (if offset.isSome then name else [], start + (name ++ FrameParts.plus offset).length) := by
  have hname : ∀ x ∈ name, (x == '+'.toUInt8 || x == ')'.toUInt8) = false := fun x hx => by
    rw [Delimited.beq_of_notMem hplus x hx, Delimited.beq_of_notMem hparen x hx, Bool.or_self]
  cases offset with
  | none =>
    simp only [FrameParts.plus, List.append_nil] at h ⊢
    have hend := CString.suffix_of_append h
    rw [scanFunctionName, CString.skip_of_cut hs h hname (by decide), ok_bind,
      CString.read_of_cons (CString.le_of_append hs h) hend, ok_bind]
    rfl
  | some o =>
    simp only [FrameParts.plus, List.append_assoc, List.cons_append] at h
    have hle := CString.le_of_append hs h
    have hend := CString.suffix_of_append h
    obtain ⟨hle', -, hoffset⟩ := CString.suffix_cons hend
    rw [scanFunctionName, CString.skip_of_cut hs h hname (by decide), ok_bind, CString.read_of_cons hle hend, ok_bind,
      if_pos (by decide), CString.copy_of_append hs h, ok_bind,
      CString.skip_of_cut hle' hoffset (Delimited.beq_of_notMem (hoff o rfl)) (by decide), ok_bind, pure_ok]
    simp [FrameParts.plus]
    omega

theorem scanFunctionName_of_end (hs : start ≤ raw.length) (h : ')'.toUInt8 ∉ raw.suffix start) :
    ∃ name, scanFunctionName raw start = .ok (name, raw.length) := by
  have hparen := Delimited.beq_of_notMem h
  by_cases hplus : '+'.toUInt8 ∈ raw.suffix start
  · obtain ⟨name, rest, hsuf, hname⟩ := List.eq_append_cons_of_mem hplus
    have hstop : ∀ x ∈ name, (x == '+'.toUInt8 || x == ')'.toUInt8) = false := fun x hx => by
      rw [Delimited.beq_of_notMem hname x hx, hparen x (by rw [hsuf]; exact List.mem_append_left _ hx), Bool.or_self]
    have hle := CString.le_of_append hs hsuf
    have hend := CString.suffix_of_append hsuf
    obtain ⟨hle', -, hoffset⟩ := CString.suffix_cons hend
    have hrest : ∀ x ∈ raw.suffix (start + name.length + 1), (x == ')'.toUInt8) = false := fun x hx => by
      rw [hoffset] at hx
      exact hparen x (by rw [hsuf]; exact List.mem_append_right _ (List.mem_cons_of_mem _ hx))
    refine ⟨name, ?_⟩
    rw [scanFunctionName, CString.skip_of_cut hs hsuf hstop (by decide), ok_bind, CString.read_of_cons hle hend, ok_bind,
      if_pos (by decide), CString.copy_of_append hs hsuf, ok_bind, CString.skip_of_end hle' hrest, ok_bind, pure_ok]
  · have hstop : ∀ x ∈ raw.suffix start, (x == '+'.toUInt8 || x == ')'.toUInt8) = false := fun x hx => by
      rw [Delimited.beq_of_notMem hplus x hx, hparen x hx, Bool.or_self]
    refine ⟨[], ?_⟩
    rw [scanFunctionName, CString.skip_of_end hs hstop, ok_bind, CString.read_length, ok_bind]
    rfl

/-- A part that holds a closing parenthesis starts with a name and an optional offset ahead of the
    first one. -/
theorem exists_name {l : List UInt8} (h : ')'.toUInt8 ∈ l) : ∃ name offset rest,
    l = name ++ FrameParts.plus offset ++ ')'.toUInt8 :: rest ∧ '+'.toUInt8 ∉ name ∧ ')'.toUInt8 ∉ name ∧
      ∀ o, offset = some o → ')'.toUInt8 ∉ o := by
  obtain ⟨part, rest, hl, hparen⟩ := List.eq_append_cons_of_mem h
  by_cases hplus : '+'.toUInt8 ∈ part
  · obtain ⟨name, o, rfl, hname⟩ := List.eq_append_cons_of_mem hplus
    simp only [List.mem_append, List.mem_cons, not_or] at hparen
    refine ⟨name, some o, rest, by rw [hl]; rfl, hname, hparen.1, fun o' ho => ?_⟩
    exact Option.some.inj ho ▸ hparen.2.2
  · exact ⟨part, none, rest, by rw [hl, FrameParts.plus, List.append_nil], hplus, hparen, fun _ ho => by cases ho⟩

/-! ### The address -/

theorem scanAddr_of_cut {addr tail : List UInt8} (hs : s ≤ raw.length) (haddr : ']'.toUInt8 ∉ addr)
    (h : raw.suffix s = bytes ") [0x" ++ addr ++ bytes "]" ++ tail) : scanAddr raw s = .ok (some (addr, s + 5)) := by
  have hlook : raw.looksAt s (bytes ") [0x") = .ok true := by
    rw [CString.looksAt_eq hs (by decide), h, List.isPrefixOf_iff_prefix.mpr ⟨_, by rw [List.append_assoc, List.append_assoc]⟩]
  rw [List.append_assoc, List.append_assoc] at h
  have hle := CString.le_of_append hs h
  have hsuf := CString.suffix_of_append h
  have hlen : (bytes ") [0x").length = 5 := by decide
  rw [hlen] at hle hsuf
  have hbracket : raw.suffix (s + 5) = addr ++ ']'.toUInt8 :: tail := hsuf
  rw [scanAddr, hlook, ok_bind, if_pos rfl]
  dsimp only
  rw [CString.skip_of_cut hle hbracket (Delimited.beq_of_notMem haddr) (by decide), ok_bind,
    CString.read_of_cons (CString.le_of_append hle hbracket) (CString.suffix_of_append hbracket), ok_bind,
    if_pos (by decide), CString.copy_of_append hle hbracket, ok_bind, pure_ok]

theorem scanAddr_of_none (hs : s ≤ raw.length)
    (h : ∀ addr tail, ']'.toUInt8 ∉ addr → raw.suffix s ≠ bytes ") [0x" ++ addr ++ bytes "]" ++ tail) :
    scanAddr raw s = .ok none := by
  rw [scanAddr, CString.looksAt_eq hs (by decide), ok_bind]
  by_cases hlook : (bytes ") [0x").isPrefixOf (raw.suffix s) = true
  · obtain ⟨rest, hrest⟩ := List.isPrefixOf_iff_prefix.mp hlook
    have hle := CString.le_of_append hs hrest.symm
    have hsuf := CString.suffix_of_append hrest.symm
    have hlen : (bytes ") [0x").length = 5 := by decide
    rw [hlen] at hle hsuf
    have hend : ∀ x ∈ raw.suffix (s + 5), (x == ']'.toUInt8) = false := by
      by_contra hex
      push Not at hex
      obtain ⟨x, hx, hne⟩ := hex
      obtain rfl : x = ']'.toUInt8 := by simpa using hne
      obtain ⟨addr, tail, hcut, haddr⟩ := List.eq_append_cons_of_mem hx
      refine h addr tail haddr ?_
      rw [← hrest, ← hsuf, hcut, List.append_assoc, List.append_assoc]
      rfl
    rw [if_pos hlook]
    dsimp only
    rw [CString.skip_of_end hle hend, ok_bind, CString.read_length, ok_bind]
    rfl
  · rw [if_neg hlook, pure_ok]

/-! ### The line -/

theorem FrameParts.plus_inj {name name' : List UInt8} {offset offset' : Option (List UInt8)} (h : '+'.toUInt8 ∉ name)
    (h' : '+'.toUInt8 ∉ name') (heq : name ++ plus offset = name' ++ plus offset') : name = name' ∧ offset = offset' := by
  cases offset with
  | none =>
    cases offset' with
    | none => simpa [plus] using heq
    | some o' =>
      simp only [plus, List.append_nil] at heq
      exact absurd (heq ▸ List.mem_append_right _ List.mem_cons_self) h
  | some o =>
    cases offset' with
    | none =>
      simp only [plus, List.append_nil] at heq
      exact absurd (heq ▸ List.mem_append_right _ List.mem_cons_self) h'
    | some o' =>
      obtain ⟨rfl, rfl⟩ := Delimited.cut_inj h h' heq
      exact ⟨rfl, rfl⟩

/-- A line has such parts in one way only: each part ends at the first of its delimiters. -/
theorem FrameParts.text_inj {x y : FrameParts} (h : x.text = y.text) : x = y := by
  simp only [text_eq] at h
  obtain ⟨hfile, h⟩ := Delimited.cut_inj x.file_paren y.file_paren h
  obtain ⟨hinside, h⟩ := Delimited.cut_inj x.inside_paren y.inside_paren h
  obtain ⟨haddr, htail⟩ := Delimited.cut_inj x.addr_bracket y.addr_bracket (List.append_cancel_left h)
  obtain ⟨hname, hoffset⟩ := plus_inj x.name_plus y.name_plus hinside
  cases x
  cases y
  subst hfile hname hoffset haddr htail
  rfl

theorem FrameParts.scan {x : FrameParts} (h : x.text = raw.chars) : scanFrameLine raw = .ok (some x.scanned) := by
  have hfile : raw.suffix 0 = x.file ++ '('.toUInt8 :: (x.name ++ plus x.offset ++ bytes ") [0x" ++ x.addr ++ bytes "]" ++ x.tail) := by
    rw [CString.suffix_zero, ← h, text]
    simp only [List.append_assoc]
    rfl
  have hle := CString.le_of_append (Nat.zero_le _) hfile
  have hopen := CString.suffix_of_append hfile
  obtain ⟨hle', -, hname⟩ := CString.suffix_cons hopen
  have hcut : raw.suffix (0 + x.file.length + 1) =
      x.name ++ plus x.offset ++ ')'.toUInt8 :: (bytes " [0x" ++ x.addr ++ bytes "]" ++ x.tail) := by
    rw [hname, bytes_close]
    simp only [List.append_assoc, List.cons_append]
  have hclose := CString.suffix_of_append hcut
  have haddr : raw.suffix (0 + x.file.length + 1 + (x.name ++ plus x.offset).length) =
      bytes ") [0x" ++ x.addr ++ bytes "]" ++ x.tail := by
    rw [hclose, bytes_close]
    simp only [List.cons_append]
  rw [scanFrameLine, CString.skip_of_cut (Nat.zero_le _) hfile (Delimited.beq_of_notMem x.file_paren) (by decide), ok_bind,
    CString.read_of_cons hle hopen, ok_bind, if_pos (by decide), CString.copy_of_append (Nat.zero_le _) hfile, ok_bind,
    scanFunctionName_of_cut hle' x.name_plus x.name_paren x.offset_paren hcut, ok_bind]
  dsimp only
  rw [scanAddr_of_cut (CString.le_of_append hle' hcut) x.addr_bracket haddr, ok_bind, Nat.zero_add]
  rfl

theorem scan_none (h : ∀ x : FrameParts, x.text ≠ raw.chars) : scanFrameLine raw = .ok none := by
  by_cases hopen : '('.toUInt8 ∈ raw.chars
  · obtain ⟨file, rest, hfile, hnofile⟩ := List.eq_append_cons_of_mem hopen
    rw [← CString.suffix_zero] at hfile
    have hle := CString.le_of_append (Nat.zero_le _) hfile
    have hsuf := CString.suffix_of_append hfile
    obtain ⟨hle', -, hrest⟩ := CString.suffix_cons hsuf
    rw [scanFrameLine, CString.skip_of_cut (Nat.zero_le _) hfile (Delimited.beq_of_notMem hnofile) (by decide), ok_bind,
      CString.read_of_cons hle hsuf, ok_bind, if_pos (by decide), CString.copy_of_append (Nat.zero_le _) hfile, ok_bind]
    by_cases hclose : ')'.toUInt8 ∈ rest
    · obtain ⟨name, offset, after, hcut, hplus, hparen, hoff⟩ := exists_name hclose
      have hname := hrest.trans hcut
      have hend := CString.suffix_of_append hname
      rw [scanFunctionName_of_cut hle' hplus hparen hoff hname, ok_bind]
      dsimp only
      rw [scanAddr_of_none (CString.le_of_append hle' hname), ok_bind, pure_ok]
      intro addr tail haddr hsame
      refine h ⟨file, name, offset, addr, tail, hnofile, hplus, hparen, hoff, haddr⟩ ?_
      rw [CString.suffix_zero] at hfile
      rw [hend] at hsame
      rw [hfile, hcut, hsame]
      simp only [FrameParts.text, List.append_assoc]
      rfl
    · obtain ⟨name, hname⟩ := scanFunctionName_of_end hle' (hrest ▸ hclose)
      rw [hname, ok_bind]
      dsimp only
      rw [scanAddr_of_none (Nat.le_refl _), ok_bind, pure_ok]
      intro addr tail _ hsame
      rw [CString.suffix_length] at hsame
      simp [bytes_close] at hsame
  · have hstop := Delimited.beq_of_notMem hopen
    rw [← CString.suffix_zero] at hstop
    rw [scanFrameLine, CString.skip_of_end (Nat.zero_le _) hstop, ok_bind, CString.read_length, ok_bind]
    rfl

/-- The scanner never faults: a line is not parsed, or it is parsed into its parts. -/
theorem scan_cases (raw : CString) : scanFrameLine raw = .ok none ∧ (∀ x : FrameParts, x.text ≠ raw.chars) ∨
    ∃ x : FrameParts, x.text = raw.chars ∧ scanFrameLine raw = .ok (some x.scanned) := by
  by_cases h : ∃ x : FrameParts, x.text = raw.chars
  · obtain ⟨x, hx⟩ := h
    exact Or.inr ⟨x, hx, FrameParts.scan hx⟩
  · push Not at h
    exact Or.inl ⟨scan_none h, h⟩

/-- A line rendered from a name and an offset, with nothing after the address, has them for its parts. -/
theorem FrameParts.exists_of_line {file name offset addr : List UInt8} (hfile : '('.toUInt8 ∉ file)
    (hplus : '+'.toUInt8 ∉ name) (hparen : ')'.toUInt8 ∉ name) (hoffset : ')'.toUInt8 ∉ offset)
    (haddr : ']'.toUInt8 ∉ addr)
    (hraw : raw.chars = file ++ bytes "(" ++ name ++ bytes "+" ++ offset ++ bytes ") [0x" ++ addr ++ bytes "]") :
    ∃ x : FrameParts, x.text = raw.chars ∧ x.file = file ∧ x.name = name ∧ x.offset = some offset ∧ x.addr = addr := by
  have hoff : ∀ o, some offset = some o → ')'.toUInt8 ∉ o := fun o ho => Option.some.inj ho ▸ hoffset
  refine ⟨⟨file, name, some offset, addr, [], hfile, hplus, hparen, hoff, haddr⟩, ?_, rfl, rfl, rfl, rfl⟩
  rw [hraw]
  simp only [text, plus, List.append_assoc, List.append_nil]
  rfl

/-- The scanner accepts exactly the lines that have parts, in one way only, and extracts the file, the
    address and the name that an offset follows; a line rendered from such parts gives them back. -/
theorem scanFrameLine_grammar (raw : CString) :
    ((∃ frame, scanFrameLine raw = .ok (some frame)) ↔ ∃ x : FrameParts, x.text = raw.chars) ∧
    (∀ x y : FrameParts, x.text = raw.chars → y.text = raw.chars → x = y) ∧
    (∀ x : FrameParts, x.text = raw.chars → ∃ frame, scanFrameLine raw = .ok (some frame) ∧
      frame.filename = x.file ∧ frame.addr = x.addr ∧
        frame.rawFunctionName = if x.offset.isSome then x.name else []) ∧
    (∀ file name offset addr : List UInt8, '('.toUInt8 ∉ file → '+'.toUInt8 ∉ name → ')'.toUInt8 ∉ name →
      ')'.toUInt8 ∉ offset → ']'.toUInt8 ∉ addr →
      raw.chars = file ++ bytes "(" ++ name ++ bytes "+" ++ offset ++ bytes ") [0x" ++ addr ++ bytes "]" →
      ∃ frame, scanFrameLine raw = .ok (some frame) ∧
        frame.filename = file ∧ frame.rawFunctionName = name ∧ frame.addr = addr) := by
  refine ⟨⟨?_, ?_⟩, ?_, ?_, ?_⟩
  · rintro ⟨frame, hframe⟩
    rcases scan_cases raw with ⟨hnone, -⟩ | ⟨x, hx, -⟩
    · rw [hnone] at hframe
      cases hframe
    · exact ⟨x, hx⟩
  · rintro ⟨x, hx⟩
    exact ⟨x.scanned, FrameParts.scan hx⟩
  · intro x y hx hy
    exact FrameParts.text_inj (hx.trans hy.symm)
  · intro x hx
    exact ⟨x.scanned, FrameParts.scan hx, rfl, rfl, rfl⟩
  · intro file name offset addr hfile hplus hparen hoff haddr hraw
    obtain ⟨x, hx, rfl, rfl, hoffset, rfl⟩ := FrameParts.exists_of_line hfile hplus hparen hoff haddr hraw
    have hname : x.scanned.rawFunctionName = x.name := if_pos (by rw [hoffset]; rfl)
    exact ⟨x.scanned, FrameParts.scan hx, rfl, hname, rfl⟩

/-- The scanner always ends and never leaves its string: it does not fault, where a read beyond the
    terminator, a copy of a range that is not within the string and a loop that does not end are the
    faults. -/
theorem scanFrameLine_inBounds (raw : CString) :
    (∃ r, scanFrameLine raw = .ok r) ∧
    raw.read raw.length = .ok 0 ∧
    (∀ s, (∃ ch, raw.read s = .ok ch) ↔ s ≤ raw.length) ∧
    (∀ start s, (∃ l, raw.copy start s = .ok l) ↔ start ≤ s ∧ s ≤ raw.length) ∧
    ∀ (stop : UInt8 → Bool) (s fuel : Nat), s ≤ raw.length → raw.length - s < fuel →
      ∃ t, raw.skipFrom stop fuel s = .ok t ∧ s ≤ t ∧ t ≤ raw.length := by
  refine ⟨?_, CString.read_length, fun s => CString.read_returns_iff, fun start s => CString.copy_returns_iff,
    fun stop s fuel hs hf => CString.skipFrom_returns hs hf⟩
  rcases scan_cases raw with ⟨hnone, -⟩ | ⟨x, -, hsome⟩
  · exact ⟨none, hnone⟩
  · exact ⟨some x.scanned, hsome⟩

end Libexcept
