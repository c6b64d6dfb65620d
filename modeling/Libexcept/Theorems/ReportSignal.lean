import Libexcept.ReportSignal
import Libexcept.Theorems.Complete
import Libexcept.Lib.Loop
import Libexcept.Lib.Machine
import Libexcept.Lib.OneShot

/-! Crash reporting cannot loop. The handlers that `init_report_signal()` registers are shots: entering
    one resets its signal to the default action, which terminates the process, and none of them returns,
    so the activations are the shots that were fired. -/

namespace Libexcept
open CString (bytes)

/-! ### The registration -/

/-- The bits that the loop tests are those of the signals of a crash. -/
theorem sigs_bit (i : Fin 64) : sigs &&& 1#64 <<< i.val ≠ 0 ↔ (i.val : Int) ∈ Reports.crashSignals := by
  revert i
  decide

theorem sigaction_crash {sig : Int} (h : sig ∈ Reports.crashSignals) (action : Sigaction) (dispositions : Dispositions) :
    sigaction sig action dispositions = some (dispositions sig, dispositions.set sig action) := by
  have hvalid : ∀ sig ∈ Reports.crashSignals, 1 ≤ sig ∧ sig ≤ 64 ∧ sig ∉ unblockable ∧ sig ≠ 32 ∧ sig ≠ 33 := by decide
  exact if_pos (hvalid sig h)

theorem registerSignal_of_mem {i : Fin 64} (h : (i.val : Int) ∈ Reports.crashSignals) (table : SignalTable) :
    registerSignal table i =
      { dispositions := table.dispositions.set i.val reportAction
        gSignalActions := fun j => if j = i then some (table.dispositions i.val) else table.gSignalActions j } := by
  unfold registerSignal
  rw [if_pos ((sigs_bit i).mpr h), sigaction_crash h]
  rfl

theorem registerSignal_of_notMem {i : Fin 64} (h : (i.val : Int) ∉ Reports.crashSignals) (table : SignalTable) :
    registerSignal table i = table := if_neg fun hbit => h ((sigs_bit i).mp hbit)

/-- What the table has for a signal: its disposition, and the action that was saved for it. -/
def SignalTable.place (table : SignalTable) (i : Fin 64) : Sigaction × Option Sigaction :=
  (table.dispositions i.val, table.gSignalActions i)

theorem registerSignal_dispositions {i : Fin 64} {sig : Int} (h : sig ≠ i.val) (table : SignalTable) :
    (registerSignal table i).dispositions sig = table.dispositions sig := by
  by_cases hi : (i.val : Int) ∈ Reports.crashSignals
  · rw [registerSignal_of_mem hi]
    exact if_neg h
  · rw [registerSignal_of_notMem hi]

theorem place_other (table : SignalTable) (i j : Fin 64) (h : i ≠ j) : (registerSignal table j).place i = table.place i := by
  by_cases hj : (j.val : Int) ∈ Reports.crashSignals
  · have hsig : (i.val : Int) ≠ j.val := fun hsame => h (Fin.ext (Int.ofNat_inj.mp hsame))
    rw [registerSignal_of_mem hj]
    exact Prod.ext (if_neg hsig) (if_neg h)
  · rw [registerSignal_of_notMem hj]

theorem place_own (table : SignalTable) (i : Fin 64) : (registerSignal table i).place i =
    if (i.val : Int) ∈ Reports.crashSignals then (reportAction, some (table.place i).1) else table.place i := by
  by_cases hi : (i.val : Int) ∈ Reports.crashSignals
  · rw [registerSignal_of_mem hi, if_pos hi]
    exact Prod.ext (if_pos rfl) (if_pos rfl)
  · rw [registerSignal_of_notMem hi, if_neg hi]

theorem place_initReportSignal (table : SignalTable) (i : Fin 64) : (initReportSignal table).place i =
    if (i.val : Int) ∈ Reports.crashSignals then (reportAction, some (table.place i).1) else table.place i := by
  have hown : ∀ {s s' : SignalTable}, s.place i = s'.place i →
      (registerSignal s i).place i = (registerSignal s' i).place i := fun hsame => by
    rw [place_own, place_own, hsame]
  exact (Loop.foldl_own place_other hown (List.nodup_finRange 64) (List.mem_finRange i)).trans (place_own table i)

/-- The signals of a crash are registered, and no other disposition changes. -/
theorem initReportSignal_dispositions (table : SignalTable) (sig : Int) :
    (initReportSignal table).dispositions sig =
      if sig ∈ Reports.crashSignals then reportAction else table.dispositions sig := by
  have hrange : ∀ sig ∈ Reports.crashSignals, 0 ≤ sig ∧ sig < 64 := by decide
  by_cases h : 0 ≤ sig ∧ sig < 64
  · obtain ⟨i, rfl⟩ : ∃ i : Fin 64, sig = i.val := ⟨⟨sig.toNat, by omega⟩, by simp [h.1]⟩
    have hplace := congrArg Prod.fst (place_initReportSignal table i)
    rw [apply_ite Prod.fst] at hplace
    exact hplace
  · rw [if_neg fun hsig => h (hrange sig hsig)]
    have hkeeps : ∀ table, ∀ i ∈ List.finRange 64, (registerSignal table i).dispositions sig = table.dispositions sig :=
      fun table i _ => registerSignal_dispositions (fun hsame => h (by omega)) table
    exact Loop.foldl_keeps (g := fun table : SignalTable => table.dispositions sig) hkeeps

/-- The actions that were replaced are saved, each at the place of its signal. -/
theorem initReportSignal_saved (table : SignalTable) (i : Fin 64) :
    (initReportSignal table).gSignalActions i =
      if (i.val : Int) ∈ Reports.crashSignals then some (table.dispositions i.val) else table.gSignalActions i := by
  have hplace := congrArg Prod.snd (place_initReportSignal table i)
  rw [apply_ite Prod.snd] at hplace
  exact hplace

def Activation.entry (a : Activation) : Reports.Event := .entered a.thread a.handler a.sig

namespace Reports

variable {s t : Reports} {op : Op} {initial : Dispositions} {thread : Nat} {p : Process} {a b : Activation}
  {text : List UInt8} {inner outer : List Activation}

/-- The signal that `report_signal()` was entered for. -/
def Event.reported? : Event → Option Int
  | .entered _ .reportSignal sig => some sig
  | _ => none

/-! ### Steps -/

/-- What a handler does ahead of its end, and what it inserts into `std::cerr`. -/
inductive Move (a : Activation) : Op → Activation → List UInt8 → Prop
  | wait : Move a (.wait a.thread) { a with waits := true } []
  | collect {rest : List Statement} (p : Process) (hrest : a.rest = .collectTrace :: rest) :
      Move a (.advance a.thread p) { a with rest, trace := p.plainTrace STACK_TRACE_DEPTH } []
  | next {rest : List Statement} {stackLine : List UInt8} {trace : List (List UInt8)} (p : Process)
      (hrest : a.rest = .printTrace :: rest) (hline : a.line = []) (htrace : a.trace = stackLine :: trace) :
      Move a (.advance a.thread p) { a with trace, line := backtraceLine a.sig stackLine } []
  | insert {rest : List Statement} {text : List UInt8} {line : List (List UInt8)} (p : Process)
      (hrest : a.rest = .printTrace :: rest) (hline : a.line = text :: line) :
      Move a (.advance a.thread p) { a with line } text
  | printed {rest : List Statement} (p : Process) (hrest : a.rest = .printTrace :: rest) (hline : a.line = [])
      (htrace : a.trace = []) : Move a (.advance a.thread p) { a with rest } []

/-- What a step does, whatever the handlers are. -/
inductive Transition (s t : Reports) (op : Op) : Prop
  | ended (ht : t = { s with alive := false })
  | ignored (sig : crashSignals) (hignored : (s.dispositions sig).saSigaction = .sigIgn) (ht : t = s)
  | entered (thread : Nat) (sig : crashSignals) (hop : op = .raise thread sig)
      (hcaught : (s.dispositions sig).saSigaction ≠ .sigDfl)
      (ht : t = { s with
        dispositions :=
          if (s.dispositions sig).saFlags &&& SA_RESETHAND ≠ 0 then
            s.dispositions.set sig { s.dispositions sig with saSigaction := .sigDfl }
          else s.dispositions
        activations :=
          { thread, handler := (s.dispositions sig).saSigaction, sig, rest := (s.dispositions sig).saSigaction.body } ::
            s.activations
        log := .entered thread (s.dispositions sig).saSigaction sig :: s.log })
  | returned (a : Activation) (inner outer : List Activation) (hs : s.activations = inner ++ a :: outer)
      (hrest : a.rest = [])
      (ht : t = { s with activations := inner ++ outer, log := .returned a.thread a.handler a.sig :: s.log })
  | moved (a b : Activation) (text : List UInt8) (inner outer : List Activation)
      (hs : s.activations = inner ++ a :: outer) (hinner : ∀ c ∈ inner, c.thread ≠ a.thread) (hwaits : a.waits = false)
      (hmove : Move a op b text)
      (ht : t = { s with activations := inner ++ b :: outer, cerr := s.cerr ++ text })

theorem transition_raise (s : Reports) (thread : Nat) (sig : crashSignals) :
    Transition s (s.raise thread sig) (.raise thread sig) := by
  unfold raise
  cases h : (s.dispositions sig).saSigaction with
  | sigDfl => exact .ended rfl
  | sigIgn => exact .ignored sig h rfl
  | reportSignal => exact .entered thread sig rfl (by rw [h]; decide) (by rw [h])
  | other address => exact .entered thread sig rfl (by rw [h]; exact fun heq => nomatch heq) (by rw [h])

theorem innermost_split (ha : s.activations.find? (·.thread == thread) = some a) :
    a.thread = thread ∧ ∃ inner outer, s.activations = inner ++ a :: outer ∧ ∀ c ∈ inner, c.thread ≠ thread := by
  obtain ⟨hthread, inner, outer, hsplit, hinner⟩ := List.find?_eq_some_iff_append.mp ha
  exact ⟨beq_iff_eq.mp hthread, inner, outer, hsplit, fun c hc => by simpa using hinner c hc⟩

theorem find_of_split (hs : s.activations = inner ++ a :: outer) (hinner : ∀ c ∈ inner, c.thread ≠ a.thread) :
    s.activations.find? (·.thread == a.thread) = some a := by
  rw [hs, List.find?_append, List.find?_eq_none.mpr fun c hc => by simpa using hinner c hc, Option.none_or]
  exact List.find?_cons_of_pos (beq_self_eq_true _)

theorem update_split (hs : s.activations = inner ++ a :: outer) (hinner : ∀ c ∈ inner, c.thread ≠ a.thread)
    (hthread : b.thread = a.thread) : s.update b = { s with activations := inner ++ b :: outer } := by
  unfold update
  rw [hs, hthread]
  clear hs
  congr 1
  induction inner with
  | nil => simp
  | cons c inner ih =>
    obtain ⟨hc, hrest⟩ := List.forall_mem_cons.mp hinner
    rw [List.cons_append, List.cons_append, List.replaceF_cons, if_neg hc, ih hrest]

theorem Move.kept (h : Move a op b text) :
    b.thread = a.thread ∧ b.handler = a.handler ∧ b.sig = a.sig ∧ (.abort ∈ a.rest → .abort ∈ b.rest) := by
  cases h with
  | collect p hrest => exact ⟨rfl, rfl, rfl, by simp [hrest]⟩
  | printed p hrest _ _ => exact ⟨rfl, rfl, rfl, by simp [hrest]⟩
  | _ => exact ⟨rfl, rfl, rfl, id⟩

/-- The innermost handler of a thread returns, calls `abort()` or moves on, unless it waits. -/
theorem advance_cases (hs : s.activations = inner ++ a :: outer) (hinner : ∀ c ∈ inner, c.thread ≠ a.thread)
    (hwaits : a.waits = false) (p : Process) :
    (a.rest = [] ∧ s.advance a.thread p =
      some { s with activations := inner ++ outer, log := .returned a.thread a.handler a.sig :: s.log }) ∨
    ((∃ rest, a.rest = .abort :: rest) ∧ s.advance a.thread p = some { s with alive := false }) ∨
    ∃ b text, Move a (.advance a.thread p) b text ∧
      s.advance a.thread p = some { s with activations := inner ++ b :: outer, cerr := s.cerr ++ text } := by
  have hmoves : ∀ b, b.thread = a.thread → s.update b = { s with activations := inner ++ b :: outer } :=
    fun b hb => update_split hs hinner hb
  have hgoes : ¬ a.waits = true := by simp [hwaits]
  unfold advance
  rw [find_of_split hs hinner]
  dsimp only
  rw [if_neg hgoes]
  cases hrest : a.rest with
  | nil =>
    refine Or.inl ⟨rfl, ?_⟩
    rw [hs, List.eraseP_append_right _ (fun c hc => by simpa using hinner c hc), List.eraseP_cons_of_pos (by simp)]
  | cons statement rest =>
    cases statement with
    | collectTrace =>
      refine Or.inr (Or.inr ⟨_, [], .collect p hrest, ?_⟩)
      dsimp only
      rw [plain_result, List.append_nil]
      exact congrArg some (hmoves _ rfl)
    | printTrace =>
      refine Or.inr (Or.inr ?_)
      cases hline : a.line with
      | nil =>
        cases htrace : a.trace with
        | nil =>
          refine ⟨_, [], .printed p hrest hline htrace, ?_⟩
          have hmoved := hmoves { a with rest } rfl
          simp only [hline, htrace, List.append_nil] at hmoved ⊢
          rw [hmoved]
        | cons stackLine trace =>
          refine ⟨_, [], .next p hrest hline htrace, ?_⟩
          have hmoved := hmoves { a with trace, line := backtraceLine a.sig stackLine } rfl
          simp only [hrest, List.append_nil] at hmoved ⊢
          rw [hmoved]
      | cons text line =>
        refine ⟨_, text, .insert p hrest hline, ?_⟩
        have hmoved := hmoves { a with line } rfl
        simp only [hrest] at hmoved ⊢
        rw [hmoved]
    | abort => exact Or.inr (Or.inl ⟨⟨rest, rfl⟩, rfl⟩)

theorem advance_abort {rest : List Statement} (ha : s.activations.find? (·.thread == thread) = some a)
    (hwaits : a.waits = false) (hrest : a.rest = .abort :: rest) (p : Process) :
    s.advance thread p = some { s with alive := false } := by
  unfold advance
  rw [ha]
  simp [hwaits, hrest]

theorem advance_waits (ha : s.activations.find? (·.thread == thread) = some a) (hwaits : a.waits = true) (p : Process) :
    s.advance thread p = none := by
  unfold advance
  rw [ha]
  simp [hwaits]

theorem transition_advance (h : s.advance thread p = some t) : Transition s t (.advance thread p) := by
  cases ha : s.activations.find? (·.thread == thread) with
  | none =>
    unfold advance at h
    rw [ha] at h
    cases h
  | some a =>
    obtain ⟨rfl, inner, outer, hs, hinner⟩ := innermost_split ha
    cases hwaits : a.waits with
    | true =>
      rw [advance_waits ha hwaits] at h
      cases h
    | false =>
      rcases advance_cases hs hinner hwaits p with ⟨hrest, hreturned⟩ | ⟨-, hended⟩ | ⟨b, text, hmove, hmoved⟩
      · exact .returned a inner outer hs hrest (Option.some.inj (h.symm.trans hreturned))
      · exact .ended (Option.some.inj (h.symm.trans hended))
      · exact .moved a b text inner outer hs hinner hwaits hmove (Option.some.inj (h.symm.trans hmoved))

theorem transition_wait (h : s.wait thread = some t) : Transition s t (.wait thread) := by
  unfold wait at h
  split at h
  · cases h
  · rename_i a ha
    obtain ⟨rfl, inner, outer, hs, hinner⟩ := innermost_split ha
    split at h
    · cases h
    · rename_i hwaits
      cases h
      refine .moved a { a with waits := true } [] inner outer hs hinner (by simpa using hwaits) .wait ?_
      have hmoved := update_split (b := { a with waits := true }) hs hinner rfl
      rw [hmoved, List.append_nil]

theorem step_transition (h : step s op = some t) : s.alive = true ∧ Transition s t op := by
  unfold step at h
  split at h
  · rename_i halive
    refine ⟨halive, ?_⟩
    cases op with
    | raise thread sig =>
      cases h
      exact transition_raise s thread sig
    | advance thread p => exact transition_advance h
    | wait thread => exact transition_wait h
  · cases h

/-- What holds of the handlers of a state, of a handler that is entered, and after each of its moves, holds
    of the handlers of the next state. -/
theorem Transition.forall_activations {P : Activation → Prop} (h : Transition s t op) (hs : ∀ a ∈ s.activations, P a)
    (hentered : ∀ (thread : Nat) (sig : crashSignals), (s.dispositions sig).saSigaction ≠ .sigDfl →
      P { thread, handler := (s.dispositions sig).saSigaction, sig, rest := (s.dispositions sig).saSigaction.body })
    (hmoved : ∀ {a b text}, Move a op b text → P a → P b) : ∀ a ∈ t.activations, P a := by
  cases h with
  | ended ht =>
    subst ht
    exact hs
  | ignored sig _ ht =>
    subst ht
    exact hs
  | entered thread sig hop hcaught ht =>
    subst ht
    exact List.forall_mem_cons.mpr ⟨hentered thread sig hcaught, hs⟩
  | returned a inner outer hsplit _ ht =>
    subst ht
    rw [hsplit, List.forall_mem_append, List.forall_mem_cons] at hs
    exact List.forall_mem_append.mpr ⟨hs.1, hs.2.2⟩
  | moved a b text inner outer hsplit _ _ hmove ht =>
    subst ht
    rw [hsplit, List.forall_mem_append, List.forall_mem_cons] at hs
    exact List.forall_mem_append.mpr ⟨hs.1, List.forall_mem_cons.mpr ⟨hmoved hmove hs.2.1, hs.2.2⟩⟩

/-! ### Runs -/

/-- What a run keeps: a signal of a crash has its handler until that is entered, every handler that was
    entered is still there, ahead of its `abort()`, and nothing else is entered. -/
structure Crashing (initial : Dispositions) (s : Reports) : Prop where
  crash : ∀ sig ∈ crashSignals, s.dispositions sig = reportAction ∨ (s.dispositions sig).saSigaction = .sigDfl
  other : ∀ sig, sig ∉ crashSignals → s.dispositions sig = initial sig
  active : ∀ a ∈ s.activations, a.handler = .reportSignal ∧ .abort ∈ a.rest
  log : s.log = s.activations.map Activation.entry

/-- The steps of such a run: none is ignored, and no handler returns. -/
inductive CrashStep (s t : Reports) (op : Op) : Prop
  | ended (ht : t = { s with alive := false })
  | entered (thread : Nat) (sig : crashSignals) (hop : op = .raise thread sig) (harmed : s.dispositions sig = reportAction)
      (ht : t = { s with
        dispositions := s.dispositions.set sig { reportAction with saSigaction := .sigDfl }
        activations := { thread, handler := .reportSignal, sig, rest := Handler.reportSignal.body } :: s.activations
        log := .entered thread .reportSignal sig :: s.log })
  | moved (a b : Activation) (text : List UInt8) (inner outer : List Activation)
      (hs : s.activations = inner ++ a :: outer) (hinner : ∀ c ∈ inner, c.thread ≠ a.thread) (hwaits : a.waits = false)
      (hmove : Move a op b text)
      (ht : t = { s with activations := inner ++ b :: outer, cerr := s.cerr ++ text })

theorem crashStep (hs : Crashing initial s) (h : step s op = some t) : s.alive = true ∧ CrashStep s t op := by
  obtain ⟨halive, htransition⟩ := step_transition h
  refine ⟨halive, ?_⟩
  cases htransition with
  | ended ht => exact .ended ht
  | ignored sig hignored _ =>
    rcases hs.crash sig sig.property with harmed | hdfl
    · rw [harmed] at hignored
      cases hignored
    · rw [hdfl] at hignored
      cases hignored
  | entered thread sig hop hcaught ht =>
    have harmed := (hs.crash sig sig.property).resolve_right hcaught
    rw [harmed] at ht
    exact .entered thread sig hop harmed ht
  | returned a inner outer hsplit hrest _ =>
    obtain ⟨-, habort⟩ := hs.active a (hsplit ▸ List.mem_append_right _ List.mem_cons_self)
    rw [hrest] at habort
    cases habort
  | moved a b text inner outer hsplit hinner hwaits hmove ht =>
    exact .moved a b text inner outer hsplit hinner hwaits hmove ht

theorem Move.entry (h : Move a op b text) : b.entry = a.entry := by
  obtain ⟨hthread, hhandler, hsig, -⟩ := h.kept
  unfold Activation.entry
  rw [hthread, hhandler, hsig]

theorem Crashing.step (h : step s op = some t) (hs : Crashing initial s) : Crashing initial t := by
  have hactive : ∀ a ∈ t.activations, a.handler = .reportSignal ∧ .abort ∈ a.rest := by
    refine (step_transition h).2.forall_activations hs.active (fun thread sig hcaught => ?_) fun hmove ha => ?_
    · rw [(hs.crash sig sig.property).resolve_right hcaught]
      exact ⟨rfl, List.mem_of_getLast? rfl⟩
    · obtain ⟨-, hhandler, -, habort⟩ := hmove.kept
      exact ⟨hhandler.trans ha.1, habort ha.2⟩
  cases (crashStep hs h).2 with
  | ended ht =>
    subst ht
    exact ⟨hs.crash, hs.other, hactive, hs.log⟩
  | entered thread sig _ harmed ht =>
    subst ht
    refine ⟨fun sig' hsig' => ?_, fun sig' hsig' => ?_, hactive, congrArg _ hs.log⟩
    · dsimp only [Dispositions.set]
      split
      · exact Or.inr rfl
      · exact hs.crash sig' hsig'
    · have hne : sig' ≠ sig := fun hsame => hsig' (hsame ▸ sig.property)
      exact (if_neg hne).trans (hs.other sig' hsig')
  | moved a b text inner outer hsplit _ _ hmove ht =>
    subst ht
    refine ⟨hs.crash, hs.other, hactive, ?_⟩
    have hlog := hs.log
    rw [hsplit, List.map_append, List.map_cons, ← hmove.entry] at hlog
    rw [hlog, List.map_append, List.map_cons]

theorem Crashing.start (table : SignalTable) : Crashing table.dispositions (start (initReportSignal table)) where
  crash sig hsig := Or.inl ((initReportSignal_dispositions table sig).trans (if_pos hsig))
  other sig hsig := (initReportSignal_dispositions table sig).trans (if_neg hsig)
  active _ h := nomatch h
  log := rfl

/-- The signals whose handler is registered, and those it was entered for. -/
def view (s : Reports) : OneShot.State Int where
  armed := crashSignals.filter fun sig => (s.dispositions sig).saSigaction = .reportSignal
  fired := s.log.filterMap Event.reported?

theorem view_start (table : SignalTable) : (start (initReportSignal table)).view = ⟨crashSignals, []⟩ := by
  have harmed : crashSignals.filter (fun sig => ((initReportSignal table).dispositions sig).saSigaction = .reportSignal) =
      crashSignals := Finset.filter_true_of_mem fun sig hsig => by
    rw [initReportSignal_dispositions, if_pos hsig]
    rfl
  exact congrArg (OneShot.State.mk · []) harmed

/-- Each step fires one shot, or none. -/
theorem view_step (h : step s op = some t) (hs : Crashing initial s) :
    Relation.ReflGen OneShot.Step s.view t.view := by
  cases (crashStep hs h).2 with
  | ended ht =>
    subst ht
    exact .refl
  | entered thread sig _ harmed ht =>
    have hmem : (sig : Int) ∈ s.view.armed := Finset.mem_filter.mpr ⟨sig.property, by rw [harmed]; rfl⟩
    have hview : t.view = ⟨s.view.armed.erase sig, ↑sig :: s.view.fired⟩ := by
      subst ht
      unfold view
      congr 1
      ext sig'
      unfold Dispositions.set
      by_cases hsame : sig' = sig <;> simp [hsame]
    rw [hview]
    exact .single (.fire hmem)
  | moved a b text inner outer _ _ _ _ ht =>
    subst ht
    exact .refl

theorem Crashing.reported (hs : Crashing initial s) :
    s.log.filterMap Event.reported? = s.activations.map Activation.sig := by
  rw [hs.log, List.filterMap_map, List.filterMap_eq_map_iff_forall_eq_some]
  intro a ha
  rw [Function.comp_apply, Activation.entry, (hs.active a ha).1, Event.reported?]

end Reports

open Reports in
/-- Crash reporting cannot loop: `report_signal()` is entered at most once for each signal and never
    returns, no more of its activations are there than signals were registered, and what was not
    registered stays as it was. -/
theorem reportSignal_bounded (table : SignalTable) (ops : List Op) (s : Reports)
    (hrun : Machine.run step (start (initReportSignal table)) ops = some s) :
    (∀ sig, (initReportSignal table).dispositions sig =
      if sig ∈ crashSignals then reportAction else table.dispositions sig) ∧
    (s.log.filterMap Event.reported?).Nodup ∧
    (∀ thread handler sig, .returned thread handler sig ∉ s.log) ∧
    s.activations.length ≤ crashSignals.card ∧
    ∀ sig, sig ∉ crashSignals → s.dispositions sig = table.dispositions sig := by
  have hcrashing : Crashing table.dispositions s := Machine.run_invariant Crashing.step hrun (.start table)
  have hshots : Relation.ReflTransGen OneShot.Step ⟨crashSignals, []⟩ s.view := by
    rw [← view_start table]
    exact Machine.run_refines view Crashing.step view_step hrun (.start table)
  have haccounted : OneShot.Accounted crashSignals s.view := (OneShot.Accounted.start _).run hshots
  refine ⟨initReportSignal_dispositions table, haccounted.nodup, fun thread handler sig h => ?_, ?_, hcrashing.other⟩
  · rw [hcrashing.log] at h
    obtain ⟨a, -, hentry⟩ := List.mem_map.mp h
    cases hentry
  · have hlength := haccounted.length_le
    rw [view, hcrashing.reported, List.length_map] at hlength
    exact hlength

/-- A table in which `SIGSEGV` is ignored, and another signal has a handler of the program. -/
def programTable : SignalTable where
  dispositions sig := if sig = SIGSEGV then { saSigaction := .sigIgn } else if sig = 10 then { saSigaction := .other 0 } else {}
  gSignalActions _ := none

def crashingProcess : Process where
  getpid := 7
  stack := [⟨bytes "prog(crash+0x2a) [0x55e2]", by decide⟩]
  symbolTable := true
  popen := fun _ _ => none
  cxaDemangle := fun _ => none
  gCollectStack := .collectStackYes

def sigsegv : Reports.crashSignals := ⟨SIGSEGV, by decide⟩

def sigfpe : Reports.crashSignals := ⟨SIGFPE, by decide⟩

/-- The report of a `SIGSEGV` raises a `SIGFPE`, and the report of that one a `SIGSEGV` again. -/
theorem reportSignal_bounded_nested : ∃ s,
    Machine.run Reports.step (.start (initReportSignal programTable))
      [.raise 0 sigsegv, .advance 0 crashingProcess, .advance 0 crashingProcess, .raise 0 sigfpe,
        .advance 0 crashingProcess, .raise 0 sigsegv] = some s ∧
      (s.log.filterMap Reports.Event.reported?).Nodup ∧ s.dispositions 10 = { saSigaction := .other 0 } := by
  refine (Option.isSome_iff_exists.mp ?_).imp fun s hs =>
    ⟨hs, (reportSignal_bounded _ _ s hs).2.1, (reportSignal_bounded _ _ s hs).2.2.2.2 10 (by decide)⟩
  decide

end Libexcept
