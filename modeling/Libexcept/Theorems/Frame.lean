import Libexcept.Theorems.Scanner

/-! What one frame adds to a complete trace: the calls made for it and its entry, by the outcome of the
    scanner and of `popen()`. A frame loses its location exactly when its line was parsed and the tool
    wrote nothing but newlines: the suffix is appended before the result is tested for emptiness. -/

namespace Libexcept
open CString (bytes)

variable {p : Process} {idx : Nat} {raw : CString} {frame : ScannedFrame} {stream : List UInt8}

/-! ### The pieces of an entry -/

theorem readLine_eq (stream line : List UInt8) :
    readLine stream line = line ++ stream.filter fun c => c != '\n'.toUInt8 := by
  induction stream generalizing line with
  | nil => simp [readLine]
  | cons c stream ih =>
    rw [readLine, List.filter_cons]
    split
    · rw [ih, List.append_assoc, List.singleton_append]
    · exact ih line

theorem functionSuffix_ne_nil (p : Process) (name : List UInt8) : functionSuffix p name ≠ [] := by
  unfold functionSuffix
  split
  · exact List.append_ne_nil_of_left_ne_nil (by decide) _
  · decide

theorem fallbackLocation_ne_nil (frame : ScannedFrame) : fallbackLocation frame ≠ [] :=
  List.append_ne_nil_of_right_ne_nil _ (by decide)

/-! ### The calls and the entry of a frame -/

theorem frameEntry_of_none (h : scanFrameLine raw = .ok none) : frameEntry p idx raw = ⟨[], .ok raw.chars⟩ := by
  unfold frameEntry frameResult
  rw [h]
  rfl

theorem frameEntry_of_null (h : scanFrameLine raw = .ok (some frame)) (hp : p.popen idx (addr2line p frame.addr) = none) :
    frameEntry p idx raw = ⟨[.popen (addr2line p frame.addr)], .error .nullStream⟩ := by
  have hlookup : lookup p idx frame.addr = ⟨[.popen (addr2line p frame.addr)], .error .nullStream⟩ := by
    unfold lookup
    rw [hp]
    rfl
  unfold frameEntry frameResult
  rw [h]
  show (lookup p idx frame.addr >>= _) >>= _ = _
  rw [hlookup]
  rfl

theorem frameEntry_of_some (h : scanFrameLine raw = .ok (some frame))
    (hp : p.popen idx (addr2line p frame.addr) = some stream) :
    frameEntry p idx raw = ⟨[.popen (addr2line p frame.addr)],
      .ok (location frame (stream.filter fun c => c != '\n'.toUInt8) ++ functionSuffix p frame.rawFunctionName)⟩ := by
  have hlookup : lookup p idx frame.addr =
      ⟨[.popen (addr2line p frame.addr)], .ok (stream.filter fun c => c != '\n'.toUInt8)⟩ := by
    unfold lookup
    rw [hp]
    show (⟨[.popen (addr2line p frame.addr)], .ok (readLine stream [])⟩ : Run _) = _
    rw [readLine_eq, List.nil_append]
  have hne : location frame (stream.filter fun c => c != '\n'.toUInt8) ++ functionSuffix p frame.rawFunctionName ≠ [] :=
    List.append_ne_nil_of_right_ne_nil _ (functionSuffix_ne_nil p _)
  unfold frameEntry frameResult
  rw [h]
  show (lookup p idx frame.addr >>= _) >>= _ = _
  rw [hlookup]
  simp [bind, hne, pure]

/-- A frame is the end of the trace only where its line was parsed and `popen()` returned NULL. -/
theorem frameEntry_returns : (∃ entry, (frameEntry p idx raw).result = .ok entry) ↔
    ∀ x : FrameParts, x.text = raw.chars → p.popen idx (addr2line p x.addr) ≠ none := by
  rcases scan_cases raw with ⟨hnone, hnot⟩ | ⟨x, hx, hsome⟩
  · exact iff_of_true ⟨_, congrArg Exec.result (frameEntry_of_none hnone)⟩ fun x hx => absurd hx (hnot x)
  · have hparts : (∀ y : FrameParts, y.text = raw.chars → p.popen idx (addr2line p y.addr) ≠ none) ↔
        p.popen idx (addr2line p x.addr) ≠ none :=
      ⟨fun h => h x hx, fun h y hy => FrameParts.text_inj (hx.trans hy.symm) ▸ h⟩
    have haddr : x.scanned.addr = x.addr := rfl
    rw [hparts, ← haddr]
    cases hp : p.popen idx (addr2line p x.scanned.addr) with
    | none => simp [frameEntry_of_null hsome hp]
    | some stream => simp [frameEntry_of_some hsome hp]

theorem mem_calls_frameEntry {c : Call} (h : c ∈ (frameEntry p idx raw).calls) : ∃ command, c = .popen command := by
  rcases scan_cases raw with ⟨hnone, -⟩ | ⟨x, -, hsome⟩
  · rw [frameEntry_of_none hnone] at h
    cases h
  · cases hp : p.popen idx (addr2line p x.scanned.addr) with
    | none =>
      rw [frameEntry_of_null hsome hp] at h
      exact ⟨_, List.mem_singleton.mp h⟩
    | some stream =>
      rw [frameEntry_of_some hsome hp] at h
      exact ⟨_, List.mem_singleton.mp h⟩

/-! ### The location of a frame -/

/-- The entry of frame `idx` keeps its location: it begins with the output of the tool, or it holds the
    file name and the address; it is not only the function name. -/
def KeepsLocation (p : Process) (idx : Nat) (raw : CString) (stream : List UInt8) : Prop :=
  ∃ entry, (frameEntry p idx raw).result = .ok entry ∧
    ((∃ loc, loc = stream.filter (fun c => c != '\n'.toUInt8) ∧ loc ≠ [] ∧ loc ≠ bytes "??:0" ∧ loc <+: entry) ∨
      (∃ frame, scanFrameLine raw = .ok (some frame) ∧
        frame.filename ++ bytes "[" ++ frame.addr ++ bytes "]" <:+: entry) ∨
      entry = raw.chars) ∧
    ∀ frame, scanFrameLine raw = .ok (some frame) → entry ≠ functionSuffix p frame.rawFunctionName

theorem frameEntry_of_silent (h : scanFrameLine raw = .ok (some frame))
    (hp : p.popen idx (addr2line p frame.addr) = some stream) (hs : ∀ c ∈ stream, c = '\n'.toUInt8) :
    (frameEntry p idx raw).result = .ok (functionSuffix p frame.rawFunctionName) := by
  have hempty : stream.filter (fun c => c != '\n'.toUInt8) = [] :=
    List.filter_eq_nil_iff.mpr fun c hc => by simpa using hs c hc
  rw [frameEntry_of_some h hp, hempty]
  rfl

/-- A frame keeps its location exactly when its line is none of a frame in its parts, or the tool wrote a byte
    that is not a newline. -/
theorem keepsLocation_iff (p : Process) (idx : Nat) (raw : CString) (stream : List UInt8)
    (hp : ∀ command, p.popen idx command = some stream) :
    KeepsLocation p idx raw stream ↔ (∀ x : FrameParts, x.text ≠ raw.chars) ∨ ∃ c ∈ stream, c ≠ '\n'.toUInt8 := by
  constructor
  · rintro ⟨entry, hentry, -, honly⟩
    rcases scan_cases raw with ⟨-, hnot⟩ | ⟨x, -, hsome⟩
    · exact Or.inl hnot
    · by_contra hlost
      push Not at hlost
      rw [frameEntry_of_silent hsome (hp _) hlost.2] at hentry
      exact honly _ hsome (Except.ok.inj hentry).symm
  · intro h
    rcases scan_cases raw with ⟨hnone, -⟩ | ⟨x, hx, hsome⟩
    · refine ⟨raw.chars, by rw [frameEntry_of_none hnone], Or.inr (Or.inr rfl), fun frame hframe => ?_⟩
      rw [hnone] at hframe
      cases hframe
    · obtain ⟨c, hc, hne⟩ := h.resolve_left fun hnot => hnot x hx
      have hloc : stream.filter (fun c => c != '\n'.toUInt8) ≠ [] := by
        refine List.ne_nil_of_mem (List.mem_filter.mpr ⟨hc, ?_⟩)
        simpa using hne
      refine ⟨_, by rw [frameEntry_of_some hsome (hp _)], ?_, fun frame hframe => ?_⟩
      · by_cases hfail : stream.filter (fun c => c != '\n'.toUInt8) = bytes "??:0"
        · refine Or.inr (Or.inl ⟨_, hsome, ?_⟩)
          rw [location, if_pos hfail]
          exact (List.prefix_append _ _).isInfix
        · refine Or.inl ⟨_, rfl, hloc, hfail, ?_⟩
          rw [location, if_neg hfail]
          exact List.prefix_append _ _
      · obtain rfl : x.scanned = frame := Option.some.inj (Except.ok.inj (hsome.symm.trans hframe))
        have hpart : location x.scanned (stream.filter fun c => c != '\n'.toUInt8) ≠ [] := by
          rw [location]
          split
          · exact fallbackLocation_ne_nil _
          · exact hloc
        exact fun hsame => hpart (List.append_left_eq_self.mp hsame)

/-- A process in which the address lookup writes nothing, as it does where the tool is not installed. -/
def silentTool : Process where
  getpid := 7
  stack := []
  symbolTable := true
  popen := fun _ _ => some []
  cxaDemangle := fun _ => none
  gCollectStack := .collectStackComplete

def mainFrame : CString := ⟨bytes "prog(main+0x1d) [0x55d1]", by decide⟩

theorem scan_mainFrame : scanFrameLine mainFrame = .ok (some ⟨bytes "prog", bytes "main", bytes "55d1", 19⟩) := by decide

theorem keepsLocation_iff_mainFrame :
    KeepsLocation silentTool 0 mainFrame [] ↔
      (∀ x : FrameParts, x.text ≠ mainFrame.chars) ∨ ∃ c ∈ ([] : List UInt8), c ≠ '\n'.toUInt8 :=
  keepsLocation_iff silentTool 0 mainFrame [] fun _ => rfl

theorem mainFrame_loses_location :
    (frameEntry silentTool 0 mainFrame).result = .ok (bytes " in main") ∧ ¬ KeepsLocation silentTool 0 mainFrame [] := by
  have hentry : (frameEntry silentTool 0 mainFrame).result = .ok (functionSuffix silentTool (bytes "main")) :=
    frameEntry_of_silent scan_mainFrame rfl fun _ hc => by cases hc
  refine ⟨hentry, ?_⟩
  rintro ⟨entry, h, -, honly⟩
  rw [hentry] at h
  exact honly _ scan_mainFrame (Except.ok.inj h).symm

end Libexcept
