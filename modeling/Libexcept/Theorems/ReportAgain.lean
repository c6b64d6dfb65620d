import Libexcept.Theorems.ReportSignal

/-! Processes that register the reports more than once. A call arms the handlers again, so the reports of a
    signal are no more than the calls; and from the second call on, what is saved for a signal is the
    report itself, or what is left of it, and no action of the program. -/

namespace Libexcept

namespace Reports

variable {s t : Reports} {op : Op}

/-- The signals that were reported, the newest first. -/
def reported (s : Reports) : List Int := s.log.filterMap Event.reported?

/-! ### Steps from any table -/

/-- What a step does to the table and to the reports: nothing, or it enters a handler. -/
theorem Transition.table (h : Transition s t op) :
    (t.dispositions = s.dispositions ∧ t.reported = s.reported) ∨
    ∃ sig : crashSignals, (t.dispositions =
        if (s.dispositions sig).saFlags &&& SA_RESETHAND ≠ 0 then
          s.dispositions.set sig { s.dispositions sig with saSigaction := .sigDfl }
        else s.dispositions) ∧
      t.reported = if (s.dispositions sig).saSigaction = .reportSignal then ↑sig :: s.reported else s.reported := by
  cases h with
  | entered thread sig hop hcaught ht =>
    subst ht
    refine Or.inr ⟨sig, rfl, ?_⟩
    unfold reported
    cases hhandler : (s.dispositions sig).saSigaction <;> rfl
  | ended ht | ignored _ _ ht | returned _ _ _ _ _ ht | moved _ _ _ _ _ _ _ _ _ ht =>
    subst ht
    exact Or.inl ⟨rfl, rfl⟩

theorem Transition.reset (h : Transition s t op) (sig : Int) :
    t.dispositions sig = s.dispositions sig ∨ (t.dispositions sig).saSigaction = .sigDfl := by
  rcases h.table with ⟨hsame, -⟩ | ⟨sig', hentered, -⟩
  · rw [hsame]
    exact Or.inl rfl
  · rw [hentered]
    split
    · unfold Dispositions.set
      split
      · exact Or.inr rfl
      · exact Or.inl rfl
    · exact Or.inl rfl

/-- The reports of a signal that there were, and the one that its handler is registered for. -/
def shots (s : Reports) (sig : Int) : Nat :=
  s.reported.count sig + if (s.dispositions sig).saSigaction = .reportSignal then 1 else 0

/-- A report that is entered is one that was registered: the handler is reset before it is entered. -/
theorem Transition.shots_le (h : Transition s t op)
    (hown : ∀ sig, (s.dispositions sig).saSigaction = .reportSignal → s.dispositions sig = reportAction) (sig : Int) :
    t.shots sig ≤ s.shots sig := by
  unfold shots
  rcases h.table with ⟨hsame, hreported⟩ | ⟨sig', hentered, hreported⟩
  · rw [hsame, hreported]
  · by_cases hreport : (s.dispositions sig').saSigaction = .reportSignal
    · have hreset : t.dispositions = s.dispositions.set sig' { reportAction with saSigaction := .sigDfl } := by
        rw [hentered, hown sig' hreport]
        rfl
      rw [hreset, hreported, if_pos hreport, List.count_cons]
      unfold Dispositions.set
      by_cases hsame : sig = sig'
      · subst hsame
        simp [hreport]
      · simp [hsame, Ne.symm hsame]
    · rw [hreported, if_neg hreport]
      rcases h.reset sig with hsame | hreset
      · rw [hsame]
      · rw [hreset]
        simp

/-- No report has returned, and none will: its `abort()` is ahead. -/
structure Held (s : Reports) : Prop where
  active : ∀ a ∈ s.activations, a.handler = .reportSignal → .abort ∈ a.rest
  returned : ∀ thread sig, .returned thread .reportSignal sig ∉ s.log

theorem Held.step (h : Transition s t op) (hs : Held s) : Held t := by
  refine ⟨h.forall_activations hs.active (fun thread sig _ hhandler => ?_) fun hmove ha hhandler => ?_,
    fun thread' sig' hreturned => ?_⟩
  · dsimp only at hhandler ⊢
    rw [hhandler]
    decide
  · obtain ⟨-, hsame, -, habort⟩ := hmove.kept
    exact habort (ha (hsame ▸ hhandler))
  · cases h with
    | entered thread sig _ _ ht =>
      subst ht
      exact hs.returned thread' sig' ((List.mem_cons.mp hreturned).resolve_left fun heq => nomatch heq)
    | returned a inner outer hsplit hrest ht =>
      subst ht
      rcases List.mem_cons.mp hreturned with heq | hreturned
      · obtain ⟨-, hhandler, -⟩ := Event.returned.inj heq
        have habort := hs.active a (hsplit ▸ List.mem_append_right _ List.mem_cons_self) hhandler.symm
        rw [hrest] at habort
        cases habort
      · exact hs.returned thread' sig' hreturned
    | ended ht | ignored _ _ ht | moved _ _ _ _ _ _ _ _ _ ht =>
      subst ht
      exact hs.returned thread' sig' hreturned

end Reports

/-- The handlers that are there in place of an action of the program. -/
def Handler.Replaces (handler : Handler) : Prop := handler = .reportSignal ∨ handler = .sigDfl

namespace Registering

variable {s t : Registering} {op : Op}

structure Counted (s : Registering) : Prop where
  own : ∀ sig, (s.reports.dispositions sig).saSigaction = .reportSignal → s.reports.dispositions sig = reportAction
  shots : ∀ sig, s.reports.shots sig ≤ s.calls
  held : s.reports.Held
  replaced : 0 < s.calls → ∀ sig ∈ Reports.crashSignals, (s.reports.dispositions sig).saSigaction.Replaces
  saved : 1 < s.calls → ∀ i : Fin 64, (i.val : Int) ∈ Reports.crashSignals →
    ∃ action, s.gSignalActions i = some action ∧ action.saSigaction.Replaces

theorem Counted.start {table : SignalTable} (hown : ∀ sig, (table.dispositions sig).saSigaction ≠ .reportSignal) :
    Counted (start table) where
  own sig h := absurd h (hown sig)
  shots sig := by
    show 0 + (if (table.dispositions sig).saSigaction = .reportSignal then 1 else 0) ≤ 0
    rw [if_neg (hown sig)]
  held := ⟨fun _ h => (by cases h), fun _ _ h => (by cases h)⟩
  replaced h := absurd h (Nat.lt_irrefl 0)
  saved h := absurd h (Nat.not_lt_zero 1)

theorem Counted.step (h : step s op = some t) (hs : Counted s) : Counted t := by
  cases op with
  | initReportSignal =>
    simp only [Registering.step] at h
    split at h
    · cases h
      have hdispositions := initReportSignal_dispositions s.table
      refine ⟨fun sig hreport => ?_, fun sig => ?_, ⟨hs.held.active, hs.held.returned⟩, fun _ sig hsig => ?_,
        fun hcalls i hi => ?_⟩
      · dsimp only at hreport ⊢
        rw [hdispositions] at hreport ⊢
        split
        · rfl
        · rename_i hsig
          rw [if_neg hsig] at hreport
          exact hs.own sig hreport
      · have hcount := hs.shots sig
        unfold Reports.shots at hcount ⊢
        dsimp only [Reports.reported] at hcount ⊢
        split <;> omega
      · dsimp only
        rw [hdispositions, if_pos hsig]
        exact Or.inl rfl
      · refine ⟨s.reports.dispositions i.val, ?_, hs.replaced (by dsimp only at hcalls; omega) _ hi⟩
        exact (initReportSignal_saved s.table i).trans (if_pos hi)
    · cases h
  | report op =>
    simp only [Registering.step] at h
    obtain ⟨reports, hstep, rfl⟩ := Option.map_eq_some_iff.mp h
    obtain ⟨-, htransition⟩ := Reports.step_transition hstep
    refine ⟨fun sig hreport => ?_, fun sig => (htransition.shots_le hs.own sig).trans (hs.shots sig),
      .step htransition hs.held, fun hcalls sig hsig => ?_, hs.saved⟩
    · rcases htransition.reset sig with hsame | hreset
      · dsimp only at hreport ⊢
        rw [hsame] at hreport ⊢
        exact hs.own sig hreport
      · cases hreset.symm.trans hreport
    · rcases htransition.reset sig with hsame | hreset
      · dsimp only
        rw [hsame]
        exact hs.replaced hcalls sig hsig
      · exact Or.inr hreset

end Registering

open Reports in
/-- A signal is reported no more often than `init_report_signal()` was called, no report ever returns, and
    from the second call on no action of the program is saved any more. -/
theorem reportSignal_again (table : SignalTable) (hown : ∀ sig, (table.dispositions sig).saSigaction ≠ .reportSignal)
    (ops : List Registering.Op) (s : Registering) (hrun : Machine.run Registering.step (.start table) ops = some s) :
    (∀ sig, (s.reports.log.filterMap Event.reported?).count sig ≤ s.calls) ∧
    (∀ thread sig, .returned thread .reportSignal sig ∉ s.reports.log) ∧
    (1 < s.calls → ∀ i : Fin 64, (i.val : Int) ∈ crashSignals →
      ∃ action, s.gSignalActions i = some action ∧ (action.saSigaction = .reportSignal ∨ action.saSigaction = .sigDfl)) := by
  have hs : Registering.Counted s := Machine.run_invariant Registering.Counted.step hrun (.start hown)
  exact ⟨fun sig => (Nat.le_add_right _ _).trans (hs.shots sig), hs.held.returned, hs.saved⟩

/-- The reports are registered again while a `SIGSEGV` is reported, and another one is. -/
theorem reportSignal_again_twice : ∃ s,
    Machine.run Registering.step (.start programTable)
      [.initReportSignal, .report (.raise 0 sigsegv), .initReportSignal, .report (.raise 0 sigsegv)] = some s ∧
    ∃ action, s.gSignalActions 11 = some action ∧ (action.saSigaction = .reportSignal ∨ action.saSigaction = .sigDfl) := by
  have hown : ∀ sig, (programTable.dispositions sig).saSigaction ≠ .reportSignal := by
    intro sig
    unfold programTable
    dsimp only
    split
    · decide
    · split <;> decide
  have htwice : (Machine.run Registering.step (.start programTable)
      [.initReportSignal, .report (.raise 0 sigsegv), .initReportSignal, .report (.raise 0 sigsegv)]).any
        (fun s => decide (1 < s.calls)) = true := by decide
  obtain ⟨s, hs, hcalls⟩ := (Option.any_eq_true _ _).mp htwice
  exact ⟨s, hs, (reportSignal_again programTable hown _ s hs).2.2 (of_decide_eq_true hcalls) 11 (by decide)⟩

end Libexcept
