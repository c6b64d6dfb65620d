import Libexcept.Theorems.Collect

/-! The complete trace next to the plain one, and what becomes of it when a call fails. The entries of
    a complete trace are those of its frames, each from its own raw line and reply; the table is used
    without a test, and so is the stream of each lookup. -/

namespace Libexcept
open CString (bytes)

variable {p : Process} {d : Int}

/-! ### The exception -/

theorem exceptionBase_yes (p : Process) (d : Int) : exceptionBase (setCollectStack p .collectStackYes) d =
    (collectStackTrace p d >>= fun out => pure { fStackTrace := out }) := rfl

theorem exceptionBase_complete (p : Process) (d : Int) : exceptionBase (setCollectStack p .collectStackComplete) d =
    (collectStackTraceWithLineNumbers p d >>= fun out => pure { fStackTrace := out }) := rfl

theorem exceptionBase_complete_eq_ok {e : ExceptionBase} :
    (exceptionBase (setCollectStack p .collectStackComplete) d).result = .ok e ↔
      (collectStackTraceWithLineNumbers p d).result = .ok e.fStackTrace := by
  rw [exceptionBase_complete, Exec.bind_eq_ok]
  constructor
  · rintro ⟨out, hout, he⟩
    rw [hout, ← Except.ok.inj he]
  · intro h
    exact ⟨e.fStackTrace, h, rfl⟩

/-! ### Failures -/

/-- The complete trace, and the exception that collects it, survive what fails: there is a trace, empty
    without a table of strings, and of one entry for each captured frame otherwise. -/
def SurvivesFailures (p : Process) (d : Int) : Prop :=
  (∃ out, (collectStackTraceWithLineNumbers p d).result = .ok out ∧ (p.symbolTable = false → out = []) ∧
    (p.symbolTable = true → out.length = (p.captured d).length)) ∧
  ∃ e, (exceptionBase (setCollectStack p .collectStackComplete) d).result = .ok e

/-- `popen()` returns a stream for each captured frame whose line has the parts of one. -/
def StreamsOpen (p : Process) (d : Int) : Prop :=
  ∀ idx raw (x : FrameParts), (p.captured d)[idx]? = some raw → x.text = raw.chars →
    p.popen idx (addr2line p x.addr) ≠ none

theorem complete_returns (hd : 0 < d) (ht : p.symbolTable = true) :
    (∃ out, (collectStackTraceWithLineNumbers p d).result = .ok out) ↔ StreamsOpen p d := by
  have htable : p.table d = some (p.captured d) := if_pos ht
  rw [collectStackTraceWithLineNumbers_eq hd, htable, pushFrames_returns]
  constructor
  · intro h idx raw x hraw
    exact frameEntry_returns.mp (h idx raw hraw) x
  · intro h idx raw hraw
    exact frameEntry_returns.mpr fun x => h idx raw x hraw

theorem complete_eq_ok {out : List (List UInt8)} (hd : 0 < d) (ht : p.symbolTable = true) :
    (collectStackTraceWithLineNumbers p d).result = .ok out ↔ out.length = (p.captured d).length ∧
      ∀ i raw, (p.captured d)[i]? = some raw → ∃ e, out[i]? = some e ∧ (frameEntry p i raw).result = .ok e := by
  have htable : p.table d = some (p.captured d) := if_pos ht
  rw [collectStackTraceWithLineNumbers_eq hd, htable]
  exact pushFrames_eq_ok

theorem complete_null_returns (hd : 0 < d) (ht : p.symbolTable = false) :
    (∃ out, (collectStackTraceWithLineNumbers p d).result = .ok out) ↔ p.captured d = [] := by
  have htable : p.table d = none := if_neg (by simp [ht])
  rw [collectStackTraceWithLineNumbers_eq hd, htable, pushFrames_null, List.length_eq_zero_iff]

theorem complete_of_empty (h : p.captured d = []) : (collectStackTraceWithLineNumbers p d).result = .ok [] := by
  by_cases hd : 0 < d
  · rw [collectStackTraceWithLineNumbers_eq hd, h]
    rfl
  · rw [collectStackTraceWithLineNumbers_nonpos (by omega)]

theorem survives_of_empty (h : p.captured d = []) : SurvivesFailures p d := by
  have hout := complete_of_empty h
  refine ⟨⟨[], hout, fun _ => rfl, fun _ => ?_⟩, ⟨[]⟩, exceptionBase_complete_eq_ok.mpr hout⟩
  rw [h]
  rfl

/-- A complete trace survives exactly when no frame is captured, or the table is there and so are the
    streams of the lookups. -/
theorem survivesFailures_iff (p : Process) (d : Int) :
    SurvivesFailures p d ↔ p.captured d = [] ∨ p.symbolTable = true ∧ StreamsOpen p d := by
  by_cases hd : 0 < d
  · constructor
    · rintro ⟨⟨out, hout, -, -⟩, -⟩
      cases ht : p.symbolTable with
      | true => exact Or.inr ⟨rfl, (complete_returns hd ht).mp ⟨out, hout⟩⟩
      | false => exact Or.inl ((complete_null_returns hd ht).mp ⟨out, hout⟩)
    · rintro (hempty | ⟨ht, hstreams⟩)
      · exact survives_of_empty hempty
      · obtain ⟨out, hout⟩ := (complete_returns hd ht).mpr hstreams
        have hlen := ((complete_eq_ok hd ht).mp hout).1
        refine ⟨⟨out, hout, fun hf => ?_, fun _ => hlen⟩, ⟨out⟩, exceptionBase_complete_eq_ok.mpr hout⟩
        rw [ht] at hf
        cases hf
  · have hempty := captured_of_nonpos (p := p) (Int.not_lt.mp hd)
    exact ⟨fun _ => Or.inl hempty, fun _ => survives_of_empty hempty⟩

/-- A process that is short of memory: there is no table for its frame. -/
def noTable : Process := { silentTool with stack := [mainFrame], symbolTable := false }

/-- A process that is short of descriptors: no lookup can be started. -/
def noStream : Process := { silentTool with stack := [mainFrame], popen := fun _ _ => none }

theorem failures_crash :
    (collectStackTraceWithLineNumbers noTable 20).result = .error .nullTable ∧ ¬ SurvivesFailures noTable 20 ∧
    (collectStackTraceWithLineNumbers noStream 20).result = .error .nullStream ∧ ¬ SurvivesFailures noStream 20 := by
  have htable : (collectStackTraceWithLineNumbers noTable 20).result = .error .nullTable := by decide
  have hstream : (collectStackTraceWithLineNumbers noStream 20).result = .error .nullStream := by decide
  refine ⟨htable, ?_, hstream, ?_⟩
  · rintro ⟨⟨out, hout, -⟩, -⟩
    rw [htable] at hout
    cases hout
  · rintro ⟨⟨out, hout, -⟩, -⟩
    rw [hstream] at hout
    cases hout

/-! ### Agreement -/

/-- An entry depends on the raw line, the reply to its lookup and the demangler. -/
theorem frameEntry_congr {p' : Process} {idx : Nat} {raw : CString} {e e' : List UInt8}
    (hdem : p'.cxaDemangle = p.cxaDemangle)
    (hreply : ∀ frame, scanFrameLine raw = .ok (some frame) →
      p'.popen idx (addr2line p' frame.addr) = p.popen idx (addr2line p frame.addr))
    (he : (frameEntry p idx raw).result = .ok e) (he' : (frameEntry p' idx raw).result = .ok e') : e' = e := by
  rcases scan_cases raw with ⟨hnone, -⟩ | ⟨x, -, hsome⟩
  · rw [frameEntry_of_none hnone] at he he'
    exact (Except.ok.inj he').symm.trans (Except.ok.inj he)
  · have hsame := hreply _ hsome
    cases hp : p.popen idx (addr2line p x.scanned.addr) with
    | none =>
      rw [frameEntry_of_null hsome hp] at he
      cases he
    | some stream =>
      rw [frameEntry_of_some hsome hp] at he
      rw [frameEntry_of_some hsome (hsame.trans hp)] at he'
      rw [← Except.ok.inj he', ← Except.ok.inj he]
      simp only [functionSuffix, demangleCppName, hdem]

theorem frameEntry_ne_nil {idx : Nat} {raw : CString} {e : List UInt8} (hraw : raw.chars ≠ [])
    (he : (frameEntry p idx raw).result = .ok e) : e ≠ [] := by
  rcases scan_cases raw with ⟨hnone, -⟩ | ⟨x, -, hsome⟩
  · rw [frameEntry_of_none hnone] at he
    exact Except.ok.inj he ▸ hraw
  · cases hp : p.popen idx (addr2line p x.scanned.addr) with
    | none =>
      rw [frameEntry_of_null hsome hp] at he
      cases he
    | some stream =>
      rw [frameEntry_of_some hsome hp] at he
      rw [← Except.ok.inj he]
      exact List.append_ne_nil_of_right_ne_nil _ (functionSuffix_ne_nil p _)

theorem plain_eq (ht : p.symbolTable = true) :
    (collectStackTrace p d).result = .ok ((p.captured d).map CString.chars) := by
  by_cases hd : 0 < d
  · rw [collectStackTrace_eq hd ht]
  · rw [collectStackTrace_nonpos (by omega), captured_of_nonpos (by omega)]
    rfl

/-- What `collect_stack_trace()` returns. -/
def Process.plainTrace (p : Process) (d : Int) : List (List UInt8) :=
  if p.symbolTable then (p.captured d).map CString.chars else []

theorem plain_result (p : Process) (d : Int) : (collectStackTrace p d).result = .ok (p.plainTrace d) := by
  unfold Process.plainTrace
  cases ht : p.symbolTable with
  | true => exact plain_eq ht
  | false =>
    by_cases hd : 0 < d
    · have hslots : d.toNat ≤ (max d 1000).toNat := by omega
      have htable : p.table d = none := if_neg (by simp [ht])
      unfold collectStackTrace
      rw [if_pos hd, resize_eq, Exec.ok_bind, backtrace_eq hslots, Exec.ok_bind, backtraceSymbols_eq, Exec.ok_bind, htable]
      rfl
    · rw [collectStackTrace_nonpos (by omega)]
      rfl

theorem plainTrace_length_le (p : Process) (d : Int) : (p.plainTrace d).length ≤ d.toNat := by
  unfold Process.plainTrace
  split
  · rw [List.length_map]
    exact List.length_take_le _ _
  · exact Nat.zero_le _

theorem complete_entries {out : List (List UInt8)} (ht : p.symbolTable = true)
    (hout : (collectStackTraceWithLineNumbers p d).result = .ok out) : out.length = (p.captured d).length ∧
      ∀ i raw, (p.captured d)[i]? = some raw → ∃ e, out[i]? = some e ∧ (frameEntry p i raw).result = .ok e := by
  by_cases hd : 0 < d
  · exact (complete_eq_ok hd ht).mp hout
  · have hempty := captured_of_nonpos (p := p) (Int.not_lt.mp hd)
    rw [complete_of_empty hempty] at hout
    rw [hempty, ← Except.ok.inj hout]
    exact ⟨rfl, fun i raw hraw => by simp at hraw⟩

/-- A trace of some frames was made with a table. -/
theorem symbolTable_of_ok {out : List (List UInt8)} (hne : p.captured d ≠ [])
    (hout : (collectStackTraceWithLineNumbers p d).result = .ok out) : p.symbolTable = true := by
  by_contra ht
  by_cases hd : 0 < d
  · exact hne ((complete_null_returns hd (by simpa using ht)).mp ⟨out, hout⟩)
  · exact hne (captured_of_nonpos (Int.not_lt.mp hd))

theorem complete_length_le {out : List (List UInt8)} (hout : (collectStackTraceWithLineNumbers p d).result = .ok out) :
    out.length ≤ d.toNat := by
  by_cases hempty : p.captured d = []
  · rw [complete_of_empty hempty] at hout
    cases hout
    exact Nat.zero_le _
  · rw [(complete_entries (symbolTable_of_ok hempty hout) hout).1]
    exact List.length_take_le _ _

/-- A trace with a frame was made with a table, and has the frame's entry at its place. -/
theorem complete_entry {out : List (List UInt8)} {i : Nat} {raw : CString}
    (hout : (collectStackTraceWithLineNumbers p d).result = .ok out) (hi : (p.captured d)[i]? = some raw) :
    ∃ e, out[i]? = some e ∧ (frameEntry p i raw).result = .ok e := by
  have hne : p.captured d ≠ [] := fun hempty => by simp [hempty] at hi
  cases ht : p.symbolTable with
  | true => exact (complete_entries ht hout).2 i raw hi
  | false =>
    have hd : 0 < d := by
      by_contra hd
      exact hne (captured_of_nonpos (Int.not_lt.mp hd))
    exact absurd ((complete_null_returns hd ht).mp ⟨out, hout⟩) hne

/-- The plain and the complete trace of an exception agree frame by frame, and an entry of the complete
    one depends on its own frame only. -/
theorem traces_agree (p : Process) (d : Int) (ht : p.symbolTable = true)
    (hpopen : ∀ idx command, p.popen idx command ≠ none) (hraw : ∀ raw ∈ p.stack, raw.chars ≠ []) :
    ∃ plain complete,
      (exceptionBase (setCollectStack p .collectStackYes) d).result = .ok plain ∧
      (exceptionBase (setCollectStack p .collectStackComplete) d).result = .ok complete ∧
      complete.fStackTrace.length = plain.fStackTrace.length ∧
      (d ≤ 0 → plain.fStackTrace = [] ∧ complete.fStackTrace = []) ∧
      (∀ (i : Nat) (raw : CString), (p.captured d)[i]? = some raw → scanFrameLine raw = .ok none →
        plain.fStackTrace[i]? = some raw.chars ∧ complete.fStackTrace[i]? = some raw.chars) ∧
      (∀ e ∈ plain.fStackTrace ++ complete.fStackTrace, e ≠ []) ∧
      ∀ (p' : Process) (d' : Int) (complete' : ExceptionBase) (i : Nat) (raw : CString),
        p'.cxaDemangle = p.cxaDemangle → p'.symbolTable = true →
        (exceptionBase (setCollectStack p' .collectStackComplete) d').result = .ok complete' →
        (p.captured d)[i]? = some raw → (p'.captured d')[i]? = some raw →
        (∀ frame, scanFrameLine raw = .ok (some frame) →
          p'.popen i (addr2line p' frame.addr) = p.popen i (addr2line p frame.addr)) →
        complete'.fStackTrace[i]? = complete.fStackTrace[i]? := by
  have hstreams : StreamsOpen p d := fun idx _ frame _ _ => hpopen idx _
  obtain ⟨out, hout⟩ : ∃ out, (collectStackTraceWithLineNumbers p d).result = .ok out := by
    by_cases hd : 0 < d
    · exact (complete_returns hd ht).mpr hstreams
    · exact ⟨[], complete_of_empty (captured_of_nonpos (Int.not_lt.mp hd))⟩
  obtain ⟨hlen, hentries⟩ := complete_entries ht hout
  have hyes : (exceptionBase (setCollectStack p .collectStackYes) d).result =
      .ok ⟨(p.captured d).map CString.chars⟩ := by
    rw [exceptionBase_yes, Exec.result_bind_ok (plain_eq ht)]
    rfl
  have hcaptured : ∀ raw ∈ p.captured d, raw.chars ≠ [] := fun raw h => hraw raw (List.mem_of_mem_take h)
  refine ⟨⟨(p.captured d).map CString.chars⟩, ⟨out⟩, hyes, exceptionBase_complete_eq_ok.mpr hout, ?_, ?_, ?_, ?_, ?_⟩
  · rw [hlen, List.length_map]
  · intro hd
    have hempty := captured_of_nonpos (p := p) hd
    rw [hempty] at hlen ⊢
    exact ⟨rfl, List.length_eq_zero_iff.mp hlen⟩
  · intro i raw hi hnone
    obtain ⟨e, he, hentry⟩ := hentries i raw hi
    rw [frameEntry_of_none hnone] at hentry
    refine ⟨?_, by rw [he, ← Except.ok.inj hentry]⟩
    rw [List.getElem?_map, hi]
    rfl
  · intro e he
    rcases List.mem_append.mp he with he | he
    · obtain ⟨raw, hmem, rfl⟩ := List.mem_map.mp he
      exact hcaptured raw hmem
    · obtain ⟨i, hi⟩ := List.mem_iff_getElem?.mp he
      obtain ⟨hlt, -⟩ := List.getElem?_eq_some_iff.mp hi
      have hraw' := List.getElem?_eq_getElem (hlen ▸ hlt : i < (p.captured d).length)
      obtain ⟨e', he', hentry⟩ := hentries i _ hraw'
      obtain rfl := Option.some.inj (hi.symm.trans he')
      exact frameEntry_ne_nil (hcaptured _ (List.getElem_mem _)) hentry
  · intro p' d' complete' i raw hdem ht' hcomplete' hi hi' hreply
    obtain ⟨e, he, hentry⟩ := hentries i raw hi
    obtain ⟨e', he', hentry'⟩ := (complete_entries ht' (exceptionBase_complete_eq_ok.mp hcomplete')).2 i raw hi'
    rw [he, he', frameEntry_congr hdem hreply hentry hentry']

/-- A frame of code that is in no file. -/
def bareFrame : CString := ⟨bytes "[0x55e9]", by decide⟩

/-- A process with three frames, the second of which is not parsed. -/
def threeFrames : Process :=
  { silentTool with stack := [mainFrame, bareFrame, mainFrame], popen := fun _ _ => some (bytes "a.cpp:7\n") }

/-- Another process that has the last of the frames at the same place. -/
def otherFrames : Process := { threeFrames with getpid := 8, stack := [bareFrame, bareFrame, mainFrame, mainFrame] }

theorem scan_bareFrame : scanFrameLine bareFrame = .ok none := by decide

theorem traces_agree_threeFrames :
    ∃ plain complete complete',
      (exceptionBase (setCollectStack threeFrames .collectStackYes) 3).result = .ok plain ∧
      (exceptionBase (setCollectStack threeFrames .collectStackComplete) 3).result = .ok complete ∧
      (exceptionBase (setCollectStack otherFrames .collectStackComplete) 20).result = .ok complete' ∧
      complete.fStackTrace.length = plain.fStackTrace.length ∧
      plain.fStackTrace[1]? = some bareFrame.chars ∧ complete.fStackTrace[1]? = some bareFrame.chars ∧
      (∀ e ∈ plain.fStackTrace ++ complete.fStackTrace, e ≠ []) ∧
      complete'.fStackTrace[2]? = complete.fStackTrace[2]? := by
  obtain ⟨plain, complete, hplain, hcomplete, hlen, -, hraw, hne, hother⟩ :=
    traces_agree threeFrames 3 rfl (fun _ _ h => nomatch h) (by decide)
  obtain ⟨-, complete', -, hcomplete', -⟩ :=
    traces_agree otherFrames 20 rfl (fun _ _ h => nomatch h) (by decide)
  obtain ⟨hplain1, hcomplete1⟩ := hraw 1 bareFrame rfl scan_bareFrame
  exact ⟨plain, complete, complete', hplain, hcomplete, hcomplete', hlen, hplain1, hcomplete1, hne,
    hother otherFrames 20 complete' 2 mainFrame rfl rfl hcomplete' rfl rfl fun _ _ => rfl⟩

end Libexcept
