import Libexcept.Theorems.Command
import Libexcept.Theorems.Complete
import Mathlib.Data.List.Enum

/-! The lookups of a complete trace, as a whole: which commands are run, in which order, up to which one,
    and what the trace is then. A deeper trace only goes on where a shallower one ends. -/

namespace Libexcept
open CString (bytes)

variable {p : Process} {d d' : Int} {idx : Nat} {raw : CString}

/-! ### Frames -/

/-- The command that is run for a frame, when its line is parsed. -/
def Process.command? (p : Process) (raw : CString) : Option (List UInt8) :=
  match scanFrameLine raw with
  | .ok (some frame) => some (addr2line p frame.addr)
  | _ => none

/-- The commands of the captured frames, each with the index of its frame. -/
def Process.lookups (p : Process) (d : Int) : List (Nat × List UInt8) :=
  (p.captured d).zipIdx.filterMap fun (raw, idx) => (p.command? raw).map fun command => (idx, command)

/-- `popen()` returns NULL. -/
def Process.refuses (p : Process) (l : Nat × List UInt8) : Bool := (p.popen l.1 l.2).isNone

theorem frameEntry_lookup (p : Process) (idx : Nat) (raw : CString) :
    (frameEntry p idx raw).calls = ((p.command? raw).map fun command => Call.popen command).toList ∧
      (frameEntry p idx raw).faults = (p.command? raw).any fun command => p.refuses (idx, command) := by
  unfold Process.command?
  rcases scan_cases raw with ⟨hnone, -⟩ | ⟨x, -, hsome⟩
  · rw [frameEntry_of_none hnone, hnone]
    exact ⟨rfl, rfl⟩
  · rw [hsome]
    cases hp : p.popen idx (addr2line p x.scanned.addr) with
    | none =>
      rw [frameEntry_of_null hsome hp]
      simp [Exec.faults, Except.toOption, Process.refuses, hp]
    | some stream =>
      rw [frameEntry_of_some hsome hp]
      simp [Exec.faults, Except.toOption, Process.refuses, hp]

theorem frameEntry_error {e : Fault} (h : (frameEntry p idx raw).result = .error e) : e = .nullStream := by
  rcases scan_cases raw with ⟨hnone, -⟩ | ⟨x, -, hsome⟩
  · rw [frameEntry_of_none hnone] at h
    cases h
  · cases hp : p.popen idx (addr2line p x.scanned.addr) with
    | none =>
      rw [frameEntry_of_null hsome hp] at h
      exact (Except.error.inj h).symm
    | some stream =>
      rw [frameEntry_of_some hsome hp] at h
      cases h

/-! ### The loop -/

/-- With a table, the loop is over its strings. -/
theorem pushFrames_zipIdx (entry : Nat → CString → Run (List UInt8)) (array : List CString) :
    pushFrames entry (some array) array.length = Exec.collect (fun x => entry x.2 x.1) array.zipIdx [] := by
  have hrange : List.range array.length = array.zipIdx.map Prod.snd := by
    rw [List.zipIdx_map_snd, List.range_eq_range']
  unfold pushFrames
  rw [hrange, Exec.collect_map]
  refine Exec.collect_congr fun x hx => ?_
  exact tableEntry_bind (List.mem_zipIdx_iff_getElem?.mp hx)

/-- The commands that are run: those of the frames, up to the first that cannot be. -/
def Process.ran (p : Process) (d : Int) : List (Nat × List UInt8) := Delimited.upTo p.refuses (p.lookups d)

theorem faults_lookup (p : Process) (x : CString × Nat) : (frameEntry p x.2 x.1).faults =
    ((p.command? x.1).map fun command => (x.2, command)).any p.refuses := by
  rw [(frameEntry_lookup p x.2 x.1).2]
  cases p.command? x.1 <;> rfl

theorem calls_pushFrames (p : Process) (d : Int) :
    (pushFrames (frameEntry p) (some (p.captured d)) (p.captured d).length).calls =
      (p.ran d).map fun l => .popen l.2 := by
  rw [pushFrames_zipIdx, Exec.calls_collect, Process.ran, Process.lookups, ← Delimited.filterMap_upTo (faults_lookup p),
    List.map_filterMap, List.filterMap_eq_flatMap_toList]
  congr 1
  funext x
  rw [(frameEntry_lookup p x.2 x.1).1, Option.map_map]
  rfl

theorem pushFrames_eq_error {e : Fault} :
    (pushFrames (frameEntry p) (some (p.captured d)) (p.captured d).length).result = .error e ↔
      (∃ l ∈ p.lookups d, p.refuses l = true) ∧ e = .nullStream := by
  rw [pushFrames_zipIdx, Exec.collect_eq_error]
  constructor
  · rintro ⟨x, hfind, he⟩
    refine ⟨?_, frameEntry_error he⟩
    have hfaults := List.find?_some hfind
    rw [faults_lookup] at hfaults
    obtain ⟨l, hl, hrefuses⟩ := (Option.any_eq_true _ _).mp hfaults
    exact ⟨l, List.mem_filterMap.mpr ⟨x, List.mem_of_find?_eq_some hfind, hl⟩, hrefuses⟩
  · rintro ⟨⟨l, hl, hrefuses⟩, rfl⟩
    obtain ⟨x, hx, hl⟩ := List.mem_filterMap.mp hl
    have hfaults : (frameEntry p x.2 x.1).faults = true := by
      rw [faults_lookup]
      exact (Option.any_eq_true _ _).mpr ⟨l, hl, hrefuses⟩
    have hsome : ((p.captured d).zipIdx.find? fun x => (frameEntry p x.2 x.1).faults).isSome = true := by
      rw [List.find?_isSome]
      exact ⟨x, hx, hfaults⟩
    obtain ⟨y, hy⟩ := Option.isSome_iff_exists.mp hsome
    refine ⟨y, hy, ?_⟩
    have hfirst := List.find?_some hy
    cases hresult : (frameEntry p y.2 y.1).result with
    | ok entry => simp [Exec.faults, hresult, Except.toOption] at hfirst
    | error e => rw [frameEntry_error hresult]

/-- Without a table, the first round ends the loop. -/
theorem pushFrames_none {entry : Nat → CString → Run (List UInt8)} {size : Nat} :
    (pushFrames entry none size).calls = [] ∧
      ∀ e, (pushFrames entry none size).result = .error e ↔ size ≠ 0 ∧ e = .nullTable := by
  have hround : ∀ idx, (tableEntry none idx >>= fun raw => entry idx raw) = ⟨[], .error .nullTable⟩ := fun _ => rfl
  unfold pushFrames
  refine ⟨?_, fun e => ?_⟩
  · rw [Exec.calls_collect, List.flatMap_eq_nil_iff]
    intro idx _
    rw [hround]
  · rw [Exec.collect_eq_error]
    simp only [hround]
    cases size with
    | zero => simp
    | succ size => simp [List.range_succ_eq_map, Exec.faults, Except.toOption, eq_comm]

/-! ### The trace -/

theorem complete_calls (p : Process) (d : Int) : (collectStackTraceWithLineNumbers p d).calls =
    if 0 < d then
      .resize d.toNat :: .backtrace d.toNat d :: .backtraceSymbols (p.captured d).length ::
        if p.symbolTable then (p.ran d).map fun l => .popen l.2 else []
    else [] := by
  by_cases hd : 0 < d
  · rw [if_pos hd, collectStackTraceWithLineNumbers_eq hd]
    cases ht : p.symbolTable with
    | true =>
      have htable : p.table d = some (p.captured d) := if_pos ht
      rw [htable, if_pos rfl, calls_pushFrames]
    | false =>
      have htable : p.table d = none := if_neg (by simp [ht])
      rw [htable, if_neg Bool.false_ne_true, pushFrames_none.1]
  · rw [if_neg hd, collectStackTraceWithLineNumbers_nonpos (Int.not_lt.mp hd)]

theorem complete_eq_error {fault : Fault} : (collectStackTraceWithLineNumbers p d).result = .error fault ↔
    (p.symbolTable = false ∧ p.captured d ≠ [] ∧ fault = .nullTable) ∨
      (p.symbolTable = true ∧ (∃ l ∈ p.lookups d, p.refuses l = true) ∧ fault = .nullStream) := by
  by_cases hd : 0 < d
  · rw [collectStackTraceWithLineNumbers_eq hd]
    cases ht : p.symbolTable with
    | true =>
      have htable : p.table d = some (p.captured d) := if_pos ht
      simp [htable, pushFrames_eq_error]
    | false =>
      have htable : p.table d = none := if_neg (by simp [ht])
      simp [htable, pushFrames_none.2]
  · have hempty := captured_of_nonpos (p := p) (Int.not_lt.mp hd)
    rw [collectStackTraceWithLineNumbers_nonpos (Int.not_lt.mp hd)]
    simp [hempty, Process.lookups]

/-- The commands are those of the captured frames, in order, up to the first that cannot be run; the trace
    fails at that one, or at the first frame of a missing table, and nowhere else. -/
theorem complete_lookups (p : Process) (d : Int) :
    (collectStackTraceWithLineNumbers p d).calls =
      (if 0 < d then
        .resize d.toNat :: .backtrace d.toNat d :: .backtraceSymbols (p.captured d).length ::
          if p.symbolTable then (Delimited.upTo p.refuses (p.lookups d)).map fun l => .popen l.2 else []
      else []) ∧
    ∀ fault, (collectStackTraceWithLineNumbers p d).result = .error fault ↔
      (p.symbolTable = false ∧ p.captured d ≠ [] ∧ fault = .nullTable) ∨
        (p.symbolTable = true ∧ (∃ l ∈ p.lookups d, p.refuses l = true) ∧ fault = .nullStream) :=
  ⟨complete_calls p d, fun _ => complete_eq_error⟩

/-! ### Depths -/

theorem captured_take (p : Process) (h : d ≤ d') : p.captured d = (p.captured d').take d.toNat := by
  have hmin : min d.toNat d'.toNat = d.toNat := Nat.min_eq_left (Int.toNat_le_toNat h)
  rw [Process.captured, Process.captured, List.take_take, hmin]

theorem captured_getElem? {i : Nat} (h : d ≤ d') (hi : (p.captured d)[i]? = some raw) :
    (p.captured d')[i]? = some raw := by
  rw [captured_take p h, List.getElem?_take] at hi
  split at hi
  · exact hi
  · cases hi

theorem lookups_mono (p : Process) (h : d ≤ d') : p.lookups d <+: p.lookups d' := by
  obtain ⟨rest, hrest⟩ := captured_take p h ▸ List.take_prefix d.toNat (p.captured d')
  unfold Process.lookups
  rw [← hrest, List.zipIdx_append, List.filterMap_append]
  exact List.prefix_append _ _

theorem commands_complete (p : Process) (d : Int) : commands (collectStackTraceWithLineNumbers p d) =
    if p.symbolTable then (p.ran d).map Prod.snd else [] := by
  unfold commands
  rw [complete_calls]
  by_cases hd : 0 < d
  · rw [if_pos hd]
    cases p.symbolTable
    · rfl
    · simp [List.filterMap_map]
  · have hempty := captured_of_nonpos (p := p) (Int.not_lt.mp hd)
    rw [if_neg hd]
    simp [Process.ran, Process.lookups, hempty, Delimited.upTo]

theorem commands_mono (p : Process) (h : d ≤ d') :
    commands (collectStackTraceWithLineNumbers p d) <+: commands (collectStackTraceWithLineNumbers p d') := by
  obtain ⟨rest, hrest⟩ := lookups_mono p h
  rw [commands_complete, commands_complete]
  split
  · unfold Process.ran
    rw [← hrest]
    exact (Delimited.upTo_mono _ _).map _
  · exact List.prefix_rfl

/-- A failure at a depth is one at any deeper one. -/
theorem complete_error_mono {fault : Fault} (h : d ≤ d')
    (hd : (collectStackTraceWithLineNumbers p d).result = .error fault) :
    (collectStackTraceWithLineNumbers p d').result = .error fault := by
  rw [complete_eq_error] at hd ⊢
  refine hd.imp ?_ ?_
  · rintro ⟨ht, hne, hfault⟩
    refine ⟨ht, fun hempty => hne ?_, hfault⟩
    rw [captured_take p h, hempty, List.take_nil]
  · rintro ⟨ht, ⟨l, hl, hrefuses⟩, hfault⟩
    exact ⟨ht, ⟨l, (lookups_mono p h).subset hl, hrefuses⟩, hfault⟩

theorem complete_take {out' : List (List UInt8)} (h : d ≤ d')
    (hout' : (collectStackTraceWithLineNumbers p d').result = .ok out') :
    (collectStackTraceWithLineNumbers p d).result = .ok (out'.take d.toNat) := by
  cases hd : (collectStackTraceWithLineNumbers p d).result with
  | error fault =>
    rw [complete_error_mono h hd] at hout'
    cases hout'
  | ok out =>
    congr 1
    by_cases hempty : p.captured d' = []
    · have hempty' : p.captured d = [] := by rw [captured_take p h, hempty, List.take_nil]
      rw [complete_of_empty hempty] at hout'
      rw [complete_of_empty hempty'] at hd
      cases hout'
      cases hd
      rw [List.take_nil]
    · have ht := symbolTable_of_ok hempty hout'
      obtain ⟨hlen, hentries⟩ := complete_entries ht hd
      obtain ⟨hlen', hentries'⟩ := complete_entries ht hout'
      have hsame : out.length = (out'.take d.toNat).length := by
        rw [hlen, List.length_take, hlen', captured_take p h, List.length_take]
      refine List.ext_getElem? fun i => ?_
      cases hi : (p.captured d)[i]? with
      | none =>
        have hle : out.length ≤ i := hlen ▸ List.getElem?_eq_none_iff.mp hi
        rw [List.getElem?_eq_none_iff.mpr hle, List.getElem?_eq_none_iff.mpr (hsame ▸ hle)]
      | some raw =>
        obtain ⟨e, he, hentry⟩ := hentries i raw hi
        obtain ⟨e', he', hentry'⟩ := hentries' i raw (captured_getElem? h hi)
        obtain ⟨hlt, -⟩ := List.getElem?_eq_some_iff.mp he
        have hlt' : i < d.toNat := by
          rw [hsame, List.length_take] at hlt
          omega
        rw [List.getElem?_take, if_pos hlt', he, he', Except.ok.inj (hentry.symm.trans hentry')]

/-- A trace is the start of any deeper one of the same stack, plain or complete, and so are the commands
    that it runs; where the deeper one does not fail, it does not either. -/
theorem traces_nest (p : Process) (d d' : Int) (h : d ≤ d') :
    (∃ out', (collectStackTrace p d').result = .ok out' ∧ (collectStackTrace p d).result = .ok (out'.take d.toNat)) ∧
    commands (collectStackTraceWithLineNumbers p d) <+: commands (collectStackTraceWithLineNumbers p d') ∧
    ∀ out', (collectStackTraceWithLineNumbers p d').result = .ok out' →
      (collectStackTraceWithLineNumbers p d).result = .ok (out'.take d.toNat) := by
  refine ⟨⟨_, plain_result p d', ?_⟩, commands_mono p h, fun out' => complete_take h⟩
  rw [plain_result, Process.plainTrace, Process.plainTrace]
  split
  · rw [captured_take p h, List.map_take]
  · rw [List.take_nil]

/-- The first of two frames. -/
theorem traces_nest_two :
    (collectStackTraceWithLineNumbers { silentTool with stack := [mainFrame, mainFrame] } 1).result =
      .ok [bytes " in main"] := by
  obtain ⟨-, -, hcomplete⟩ := traces_nest { silentTool with stack := [mainFrame, mainFrame] } 1 20 (by decide)
  exact hcomplete [bytes " in main", bytes " in main"] (by decide)

/-! ### Lines -/

def OneLine (l : List UInt8) : Prop := '\n'.toUInt8 ∉ l

instance (l : List UInt8) : Decidable (OneLine l) := inferInstanceAs (Decidable ('\n'.toUInt8 ∉ l))

theorem OneLine.append {l l' : List UInt8} (h : OneLine l) (h' : OneLine l') : OneLine (l ++ l') := fun hmem =>
  (List.mem_append.mp hmem).elim h h'

theorem FrameParts.scanned_notMem {x : FrameParts} {c : UInt8} (h : c ∉ x.text) :
    c ∉ x.scanned.filename ∧ c ∉ x.scanned.rawFunctionName ∧ c ∉ x.scanned.addr := by
  simp only [text, List.mem_append, not_or] at h
  obtain ⟨⟨⟨⟨⟨⟨⟨hfile, -⟩, hname⟩, -⟩, -⟩, haddr⟩, -⟩, -⟩ := h
  refine ⟨hfile, ?_, haddr⟩
  unfold scanned
  dsimp only
  split
  · exact hname
  · simp

theorem location_oneLine {frame : ScannedFrame} {stream : List UInt8} (hfile : OneLine frame.filename)
    (haddr : OneLine frame.addr) : OneLine (location frame (stream.filter fun c => c != '\n'.toUInt8)) := by
  unfold location fallbackLocation
  split
  · exact ((hfile.append (by decide)).append haddr).append (by decide)
  · exact fun hmem => by simpa using List.of_mem_filter hmem

theorem functionSuffix_oneLine {name : List UInt8} (hname : OneLine name)
    (hdemangle : ∀ res, p.cxaDemangle name = some res → OneLine res) : OneLine (functionSuffix p name) := by
  unfold functionSuffix demangleCppName
  split
  · refine OneLine.append (by decide) ?_
    split
    · exact hdemangle _ ‹_›
    · exact hname
  · decide

theorem frameEntry_oneLine {e : List UInt8} (hraw : OneLine raw.chars)
    (hdemangle : ∀ name res, OneLine name → p.cxaDemangle name = some res → OneLine res)
    (he : (frameEntry p idx raw).result = .ok e) : OneLine e := by
  rcases scan_cases raw with ⟨hnone, -⟩ | ⟨x, hx, hsome⟩
  · rw [frameEntry_of_none hnone] at he
    exact Except.ok.inj he ▸ hraw
  · obtain ⟨hfile, hname, haddr⟩ := FrameParts.scanned_notMem (hx ▸ hraw)
    cases hp : p.popen idx (addr2line p x.scanned.addr) with
    | none =>
      rw [frameEntry_of_null hsome hp] at he
      cases he
    | some stream =>
      rw [frameEntry_of_some hsome hp] at he
      rw [← Except.ok.inj he]
      exact (location_oneLine hfile haddr).append (functionSuffix_oneLine hname fun res => hdemangle _ res hname)

/-- An entry of a complete trace is that of a captured frame. -/
theorem complete_mem {out : List (List UInt8)} {e : List UInt8}
    (hout : (collectStackTraceWithLineNumbers p d).result = .ok out) (he : e ∈ out) :
    ∃ i raw, (p.captured d)[i]? = some raw ∧ (frameEntry p i raw).result = .ok e := by
  by_cases hempty : p.captured d = []
  · rw [complete_of_empty hempty] at hout
    cases hout
    cases he
  · obtain ⟨hlen, hentries⟩ := complete_entries (symbolTable_of_ok hempty hout) hout
    obtain ⟨i, hi, rfl⟩ := List.getElem_of_mem he
    obtain ⟨e', he', hentry⟩ := hentries i _ (List.getElem?_eq_getElem (hlen ▸ hi))
    cases (List.getElem?_eq_getElem hi).symm.trans he'
    exact ⟨i, _, List.getElem?_eq_getElem _, hentry⟩

/-- Whatever the tool writes, an entry of a trace is one line, as the reports print it. -/
theorem traces_oneLine (p : Process) (d : Int) (hraw : ∀ raw ∈ p.stack, OneLine raw.chars)
    (hdemangle : ∀ name res, OneLine name → p.cxaDemangle name = some res → OneLine res) :
    (∀ out, (collectStackTrace p d).result = .ok out → ∀ e ∈ out, OneLine e) ∧
      ∀ out, (collectStackTraceWithLineNumbers p d).result = .ok out → ∀ e ∈ out, OneLine e := by
  have hcaptured : ∀ raw ∈ p.captured d, OneLine raw.chars := fun raw h => hraw raw (List.mem_of_mem_take h)
  refine ⟨fun out hout e he => ?_, fun out hout e he => ?_⟩
  · rw [plain_result] at hout
    cases hout
    unfold Process.plainTrace at he
    split at he
    · obtain ⟨raw, hmem, rfl⟩ := List.mem_map.mp he
      exact hcaptured raw hmem
    · cases he
  · obtain ⟨i, raw, hi, hentry⟩ := complete_mem hout he
    exact frameEntry_oneLine (hcaptured raw (List.mem_of_getElem? hi)) hdemangle hentry

/-- A process in which the tool writes two lines for the frame. -/
def inlinedFrame : Process :=
  { silentTool with stack := [mainFrame], popen := fun _ _ => some (bytes "a.cpp:1\n(inlined)\n") }

theorem traces_oneLine_inlined : ∃ out, (collectStackTraceWithLineNumbers inlinedFrame 20).result = .ok out ∧
    ∀ e ∈ out, OneLine e := by
  have hout : (collectStackTraceWithLineNumbers inlinedFrame 20).result = .ok [bytes "a.cpp:1(inlined) in main"] := by decide
  obtain ⟨-, hcomplete⟩ := traces_oneLine inlinedFrame 20 (by decide) fun _ _ _ h => nomatch h
  exact ⟨_, hout, hcomplete _ hout⟩

end Libexcept
