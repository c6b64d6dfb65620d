import Libexcept.Theorems.ReportSignal
import Mathlib.Algebra.GroupWithZero.Nat

/-! A crash is reported, and then the process aborts, unless its handlers wait. Collecting the plain trace
    never faults, so a handler that comes to no lock comes to its `abort()`, after a few steps for each line it
    prints; and the signals that interrupt it enter no more handlers than were registered. -/

namespace Libexcept

/-- The steps of a line: that to it, and its insertions. -/
def lineSteps : Nat := 6

/-- The steps of a statement: those of the lines that it collects are for the next one to do. -/
def Statement.steps : Statement → Nat
  | .collectTrace => 1 + lineSteps * STACK_TRACE_DEPTH.toNat
  | .printTrace => 1
  | .abort => 0

/-- The steps of a handler ahead of its `abort()`, at most. -/
def Activation.steps (a : Activation) : Nat :=
  (a.rest.map Statement.steps).sum + lineSteps * a.trace.length + a.line.length

/-- What is left to a handler, with the step that it ends with: its `abort()`, or that to a lock. -/
def Activation.left (a : Activation) : Nat := if a.waits then 0 else a.steps + 1

namespace Reports

variable {s t : Reports} {op : Op} {initial : Dispositions} {thread : Nat} {p : Process} {a b : Activation}
  {text : List UInt8} {inner outer : List Activation}

/-! ### Steps -/

/-- A handler comes to a lock, or it is a step closer to its `abort()`. -/
theorem Move.progress (h : Move a op b text) :
    (op = .wait a.thread ∧ b.waits = true ∧ b.steps = a.steps) ∨ b.waits = a.waits ∧ b.steps < a.steps := by
  unfold Activation.steps
  cases h with
  | wait => exact Or.inl ⟨rfl, rfl, rfl⟩
  | collect p hrest =>
    have hlength := plainTrace_length_le p STACK_TRACE_DEPTH
    rw [hrest, List.map_cons, List.sum_cons, Statement.steps, lineSteps]
    dsimp only
    exact Or.inr ⟨rfl, by omega⟩
  | next p hrest hline htrace =>
    have hline' : ∀ stackLine, (backtraceLine a.sig stackLine).length = 5 := fun _ => rfl
    rw [hline, htrace, List.length_cons, hline', lineSteps]
    exact Or.inr ⟨rfl, by simp only [List.length_nil]; omega⟩
  | insert p hrest hline =>
    rw [hline, List.length_cons]
    exact Or.inr ⟨rfl, Nat.lt_succ_self _⟩
  | printed p hrest hline htrace =>
    rw [hrest, List.map_cons, List.sum_cons, Statement.steps]
    dsimp only
    exact Or.inr ⟨rfl, by omega⟩

theorem Move.steps_le (h : Move a op b text) : b.steps ≤ a.steps := by
  rcases h.progress with ⟨-, -, hsame⟩ | ⟨-, hless⟩
  · exact Nat.le_of_eq hsame
  · exact Nat.le_of_lt hless

theorem Move.left_lt (h : Move a op b text) (hwaits : a.waits = false) : b.left < a.left := by
  unfold Activation.left
  rw [hwaits]
  rcases h.progress with ⟨-, hwait, -⟩ | ⟨hsame, hless⟩
  · rw [hwait]
    exact Nat.succ_pos _
  · rw [hsame, hwaits]
    exact Nat.succ_lt_succ hless

/-! ### Runs -/

/-- What a run of reports keeps: the handlers that were entered are distinct, and each has no more to do
    than it had at first. -/
structure Reporting (initial : Dispositions) (s : Reports) : Prop where
  crashing : Crashing initial s
  accounted : OneShot.Accounted crashSignals s.view
  steps : ∀ a ∈ s.activations, a.steps ≤ 122

theorem Reporting.start (table : SignalTable) : Reporting table.dispositions (start (initReportSignal table)) where
  crashing := .start table
  accounted := view_start table ▸ .start _
  steps _ h := nomatch h

theorem Reporting.step (h : step s op = some t) (hs : Reporting initial s) : Reporting initial t := by
  refine ⟨hs.crashing.step h, hs.accounted.run (view_step h hs.crashing).to_reflTransGen, ?_⟩
  refine (step_transition h).2.forall_activations hs.steps (fun thread sig hcaught => ?_)
    fun hmove ha => hmove.steps_le.trans ha
  rw [(hs.crashing.crash sig sig.property).resolve_right hcaught]
  exact Nat.le_refl _

theorem Reporting.run {table : SignalTable} {ops : List Op}
    (hrun : Machine.run Reports.step (Reports.start (initReportSignal table)) ops = some s) :
    Reporting table.dispositions s :=
  Machine.run_invariant Reporting.step hrun (.start table)

theorem Reporting.fired (hs : Reporting initial s) : s.view.fired = s.activations.map Activation.sig :=
  hs.crashing.reported

theorem Reporting.nodup (hs : Reporting initial s) : (s.activations.map Activation.sig).Nodup :=
  hs.fired ▸ hs.accounted.nodup

theorem Reporting.length_le (hs : Reporting initial s) : s.activations.length ≤ 6 := by
  have hlength := hs.accounted.length_le
  rw [hs.fired, List.length_map] at hlength
  exact hlength

/-- What is left of a run: the end of the process, what the handlers still do, and for each handler that
    may still be entered its entry and what it does. -/
def budget (s : Reports) : Nat :=
  if s.alive then 1 + (s.activations.map Activation.left).sum + 124 * (6 - s.activations.length) else 0

theorem budget_lt (h : step s op = some t) (hs : Reporting initial s) : t.budget < s.budget := by
  obtain ⟨halive, hstep⟩ := crashStep hs.crashing h
  have hlength := (hs.step h).length_le
  unfold budget
  rw [if_pos halive]
  cases hstep with
  | ended ht =>
    subst ht
    simp only [Bool.false_eq_true, if_false]
    omega
  | entered thread sig _ harmed ht =>
    have hbody : Activation.left { thread, handler := .reportSignal, sig, rest := Handler.reportSignal.body } = 123 := rfl
    subst ht
    dsimp only at hlength ⊢
    rw [List.length_cons] at hlength ⊢
    rw [if_pos halive, List.map_cons, List.sum_cons, hbody]
    omega
  | moved a b text inner outer hsplit hinner hwaits hmove ht =>
    have hused := hmove.left_lt hwaits
    subst ht
    rw [hsplit]
    simp only [halive, if_true, List.map_append, List.map_cons, List.sum_append, List.sum_cons, List.length_append,
      List.length_cons]
    omega

/-! ### One handler -/

/-- The innermost handler of a thread, which does not wait, comes to its `abort()` next, or later. -/
structure Handling (initial : Dispositions) (thread : Nat) (sig : Int) (aborts : Bool) (s : Reports) : Prop where
  alive : s.alive = true
  reporting : Reporting initial s
  active : ∃ a, s.activations.find? (·.thread == thread) = some a ∧ a.sig = sig ∧ a.waits = false ∧
    (aborts = true ↔ ∃ rest, a.rest = .abort :: rest)

variable {sig : Int}

/-- What is left to the innermost handler of a thread. -/
def threadSteps (thread : Nat) (s : Reports) : Nat :=
  (s.activations.find? (·.thread == thread)).elim 0 Activation.steps

theorem Handling.aborts (hs : Handling initial thread sig true s) (p : Process) :
    Reports.step s (.advance thread p) = some { s with alive := false } := by
  obtain ⟨a, ha, -, hwaits, hcomes⟩ := hs.active
  obtain ⟨rest, hrest⟩ := hcomes.mp rfl
  exact (if_pos hs.alive).trans (advance_abort ha hwaits hrest p)

/-- A handler that is not interrupted moves on, until it comes there. -/
theorem Handling.progress (hop : ∃ p, op = .advance thread p) (hs : Handling initial thread sig false s) :
    ∃ t, step s op = some t ∧ t.threadSteps thread < s.threadSteps thread ∧
      (Handling initial thread sig true t ∨ Handling initial thread sig false t) := by
  obtain ⟨p, rfl⟩ := hop
  obtain ⟨halive, hreporting, a, ha, hsig, hwaits, hcomes⟩ := hs
  obtain ⟨rfl, inner, outer, hsplit, hinner⟩ := innermost_split ha
  have hadvance : step s (.advance a.thread p) = s.advance a.thread p := if_pos halive
  rcases advance_cases hsplit hinner hwaits p with ⟨hnil, -⟩ | ⟨habort, -⟩ | ⟨b, text, hmove, hmoved⟩
  · obtain ⟨-, habort⟩ := hreporting.crashing.active a (List.mem_of_find?_eq_some ha)
    rw [hnil] at habort
    cases habort
  · cases hcomes.mpr habort
  · rw [← hadvance] at hmoved
    obtain ⟨hthread, -, hsame, -⟩ := hmove.kept
    obtain ⟨hgoes, hless⟩ := hmove.progress.resolve_left fun h => nomatch h.1
    have hfind : (inner ++ b :: outer).find? (·.thread == a.thread) = some b := by
      rw [List.find?_append, List.find?_eq_none.mpr fun c hc => by simpa using hinner c hc, Option.none_or,
        List.find?_cons_of_pos (by simpa using hthread)]
    refine ⟨_, hmoved, ?_, ?_⟩
    · unfold threadSteps
      dsimp only
      rw [hfind, ha]
      exact hless
    · by_cases hnext : ∃ rest, b.rest = .abort :: rest
      · exact Or.inl ⟨halive, hreporting.step hmoved, b, hfind, hsame.trans hsig, hgoes.trans hwaits, by simpa using hnext⟩
      · exact Or.inr ⟨halive, hreporting.step hmoved, b, hfind, hsame.trans hsig, hgoes.trans hwaits, by simpa using hnext⟩

end Reports

open Reports in
/-- Crash reporting ends: no run has more than 745 steps, whatever signals interrupt the reports and wherever
    they come to locks. A handler that does not wait and is not interrupted any more comes to its `abort()` in
    at most 122 steps of its thread; one that waits has no step. -/
theorem reportSignal_ends (table : SignalTable) (ops : List Op) (s : Reports)
    (hrun : Machine.run step (start (initReportSignal table)) ops = some s) :
    ops.length ≤ 745 ∧
    ∀ a thread, s.alive = true → s.activations.find? (·.thread == thread) = some a →
      (a.waits = false → ∀ ps : Nat → Process, ∃ n t b rest, n ≤ 122 ∧
        Machine.run step s ((List.range n).map fun k => .advance thread (ps k)) = some t ∧
        t.activations.find? (·.thread == thread) = some b ∧ b.sig = a.sig ∧ b.rest = .abort :: rest ∧
        ∀ p, step t (.advance thread p) = some { t with alive := false }) ∧
      (a.waits = true → ∀ p, step s (.advance thread p) = none) := by
  have hstart : Reporting table.dispositions (start (initReportSignal table)) := .start table
  have hs : Reporting table.dispositions s := .run hrun
  refine ⟨?_, fun a thread halive ha => ⟨fun hwaits ps => ?_, fun hwaits p => ?_⟩⟩
  · have hlength := Machine.run_length_le Reporting.step budget_lt hrun hstart
    have hbudget : (start (initReportSignal table)).budget = 745 := rfl
    omega
  · have hreaches : ∃ n t, n ≤ s.threadSteps thread ∧
        Machine.run step s ((List.range n).map fun k => .advance thread (ps k)) = some t ∧
        Handling table.dispositions thread a.sig true t := by
      by_cases hcomes : ∃ rest, a.rest = .abort :: rest
      · exact ⟨0, s, Nat.zero_le _, rfl, halive, hs, a, ha, rfl, hwaits, by simpa using hcomes⟩
      · have hhandling : Handling table.dispositions thread a.sig false s :=
          ⟨halive, hs, a, ha, rfl, hwaits, by simpa using hcomes⟩
        exact Machine.run_reaches Handling.progress (fun k => ⟨ps k, rfl⟩) hhandling
    obtain ⟨n, t, hn, hsteps, hends⟩ := hreaches
    obtain ⟨b, hb, hsig, -, hcomes⟩ := hends.active
    obtain ⟨rest, hrest⟩ := hcomes.mp rfl
    refine ⟨n, t, b, rest, ?_, hsteps, hb, hsig, hrest, hends.aborts⟩
    have hbound := hs.steps a (List.mem_of_find?_eq_some ha)
    unfold threadSteps at hn
    rw [ha, Option.elim_some] at hn
    omega
  · exact (if_pos halive).trans (advance_waits ha hwaits p)

/-- The report of a `SIGSEGV` came to a lock, and a `SIGFPE` has interrupted it there. -/
theorem reportSignal_ends_interrupted : ∃ s,
    Machine.run Reports.step (.start (initReportSignal programTable))
      [.raise 0 sigsegv, .wait 0, .raise 0 sigfpe, .advance 0 crashingProcess] = some s ∧
    ∃ n t, n ≤ 122 ∧ Machine.run Reports.step s ((List.range n).map fun _ => .advance 0 crashingProcess) = some t ∧
      Reports.step t (.advance 0 crashingProcess) = some { t with alive := false } := by
  have hinterrupted : (Machine.run Reports.step (.start (initReportSignal programTable))
      [.raise 0 sigsegv, .wait 0, .raise 0 sigfpe, .advance 0 crashingProcess]).any
        (fun s => s.alive && (s.activations.find? (·.thread == 0)).any fun a => !a.waits) = true := by decide
  obtain ⟨s, hs, hstate⟩ := (Option.any_eq_true _ _).mp hinterrupted
  obtain ⟨halive, hactive⟩ := Bool.and_eq_true_iff.mp hstate
  obtain ⟨a, ha, hwaits⟩ := (Option.any_eq_true _ _).mp hactive
  obtain ⟨n, t, -, -, hn, hrun, -, -, -, hends⟩ :=
    ((reportSignal_ends programTable _ s hs).2 a 0 halive ha).1 (by simpa using hwaits) fun _ => crashingProcess
  exact ⟨s, hs, n, t, hn, hrun, hends crashingProcess⟩

end Libexcept
