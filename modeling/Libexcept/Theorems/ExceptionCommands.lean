import Libexcept.Theorems.Exception
import Libexcept.Theorems.Lookups

/-! The commands that a program runs by the exceptions it builds. None is run but for a complete trace, and
    one that cannot be run is the last. -/

namespace Libexcept
open CString (bytes)

namespace Exceptions

variable {s t : Exceptions} {op : Op} {ops : List Op}

/-- The commands that an action runs. -/
def ran (s : Exceptions) : Op → List (List UInt8)
  | .construct std p what depth => commands (Libexcept.construct std (setCollectStack p s.gCollectStack) what depth)
  | .constructClass cls p msg => commands (cls.construct (setCollectStack p s.gCollectStack) msg)
  | _ => []

/-- The complete traces that a program collects: of which stack, and to which depth. -/
def completeTraces (ops : List Op) : List (Process × Int) :=
  Machine.emitted (fun collectStack op => some (Op.flag collectStack op))
    (fun collectStack op => if collectStack = .collectStackComplete then op.collects.toList else []) .collectStackYes ops

/-! ### One exception -/

theorem commands_bind_pure {α β : Type} (r : Run α) (f : α → β) : commands (r >>= fun a => pure (f a)) = commands r := by
  unfold commands
  cases hr : r.result with
  | ok a =>
    have hpure : (pure (f a) : Run β).calls = [] := rfl
    rw [Exec.calls_bind_ok hr, hpure, List.append_nil]
  | error e => rw [Exec.calls_bind_error hr]

theorem commands_plain (p : Process) (d : Int) : commands (collectStackTrace p d) = [] := by
  by_cases hd : 0 < d
  · cases ht : p.symbolTable with
    | true =>
      rw [collectStackTrace_eq hd ht]
      rfl
    | false =>
      have hslots : d.toNat ≤ (max d 1000).toNat := by omega
      have htable : p.table d = none := if_neg (by simp [ht])
      unfold collectStackTrace
      rw [if_pos hd, resize_eq, Exec.ok_bind, backtrace_eq hslots, Exec.ok_bind, backtraceSymbols_eq, Exec.ok_bind, htable]
      rfl
  · rw [collectStackTrace_nonpos (Int.not_lt.mp hd)]
    rfl

/-- The commands of a trace: those of the captured frames, up to the first that cannot be run. -/
def traceCommands (x : Process × Int) : List (List UInt8) :=
  if x.1.symbolTable then (x.1.ran x.2).map Prod.snd else []

theorem commands_construct (std : StdException) (p : Process) (what : CString) (d : Int) (collectStack : CollectStack) :
    commands (construct std (setCollectStack p collectStack) what d) =
      if collectStack = .collectStackComplete then traceCommands (p, d) else [] := by
  unfold construct
  rw [commands_bind_pure]
  unfold exceptionBase getCollectStack setCollectStack
  cases collectStack with
  | collectStackNo => rfl
  | collectStackYes => exact (commands_bind_pure _ _).trans (commands_plain _ d)
  | collectStackComplete => exact (commands_bind_pure _ _).trans (commands_complete _ d)

theorem ran_eq (s : Exceptions) (op : Op) : s.ran op =
    (if s.gCollectStack = .collectStackComplete then op.collects.toList else []).flatMap traceCommands := by
  cases op with
  | construct std p what depth =>
    refine (commands_construct std p what depth _).trans ?_
    split <;> simp [Op.collects]
  | constructClass cls p msg =>
    rw [ran, Class.construct_eq, commands_construct]
    split <;> simp [Op.collects]
  | setCollectStack | copy | setParameter | destroy => simp [ran, Op.collects]

/-! ### Runs -/

theorem emitted_ran (h : Machine.run step .start ops = some s) :
    Machine.emitted step ran .start ops = (completeTraces ops).flatMap traceCommands := by
  unfold completeTraces
  rw [Machine.flatMap_emitted]
  refine Machine.emitted_lockstep (S := fun s collectStack => s.gCollectStack = collectStack) ?_ h rfl
  rintro s t op _ hstep rfl
  exact ⟨ran_eq s op, _, rfl, (step_crashes hstep).2.1⟩

theorem run_flags (collectStack : CollectStack) (ops : List Op) :
    Machine.run (fun collectStack op => some (Op.flag collectStack op)) collectStack ops =
      some (ops.foldl Op.flag collectStack) := by
  induction ops generalizing collectStack with
  | nil => rfl
  | cons op ops ih => exact ih (op.flag collectStack)

/-- A complete trace is collected by a constructor, after the flag was set for it. -/
theorem mem_completeTraces {x : Process × Int} (h : x ∈ completeTraces ops) : ∃ before op after,
    ops = before ++ op :: after ∧ before.foldl Op.flag .collectStackYes = .collectStackComplete ∧
      op.collects = some x := by
  obtain ⟨before, op, after, flag, _, hops, hbefore, -, -, hx⟩ := Machine.mem_emitted (run_flags _ ops) h
  rw [run_flags] at hbefore
  cases hbefore
  split at hx
  · exact ⟨before, op, after, hops, ‹_›, Option.mem_toList.mp hx⟩
  · cases hx

theorem alive_of_run (h : Machine.run step s ops = some t) (halive : t.alive = true) : s.alive = true := by
  cases ops with
  | nil =>
    cases h
    exact halive
  | cons op ops =>
    obtain ⟨u, hu, -⟩ := Machine.run_cons.mp h
    exact (step_crashes hu).1

/-- Where the program goes on, no lookup was refused. -/
theorem not_refused {x : Process × Int} (h : Machine.run step .start ops = some s) (halive : s.alive = true)
    (hx : x ∈ completeTraces ops) : ∀ l ∈ x.1.lookups x.2, x.1.symbolTable = true ∧ x.1.refuses l = false := by
  obtain ⟨before, op, after, rfl, hflag, hcollects⟩ := mem_completeTraces hx
  obtain ⟨u, hbefore, hrest⟩ := Machine.run_append.mp h
  obtain ⟨v, hv, hafter⟩ := Machine.run_cons.mp hrest
  have hreturns : ¬ Crashes u.gCollectStack op := by
    rw [← (step_crashes hv).2.2, alive_of_run hafter halive]
    exact Bool.noConfusion
  have hcomplete : ∀ fault, (collectStackTraceWithLineNumbers x.1 x.2).result ≠ .error fault := fun fault hfault =>
    hreturns ⟨(run_flag hbefore).trans hflag, x.1, x.2, hcollects, complete_fails.mp ⟨fault, hfault⟩⟩
  intro l hl
  have hcaptured : x.1.captured x.2 ≠ [] := by
    intro hempty
    simp [Process.lookups, hempty] at hl
  cases htable : x.1.symbolTable with
  | false => exact absurd (complete_eq_error.mpr (Or.inl ⟨htable, hcaptured, rfl⟩)) (hcomplete .nullTable)
  | true =>
    refine ⟨rfl, Bool.eq_false_iff.mpr fun hrefuses => ?_⟩
    exact hcomplete .nullStream (complete_eq_error.mpr (Or.inr ⟨htable, ⟨l, hl, hrefuses⟩, rfl⟩))

theorem traceCommands_of_run {x : Process × Int} (h : Machine.run step .start ops = some s) (halive : s.alive = true)
    (hx : x ∈ completeTraces ops) : traceCommands x = (x.1.lookups x.2).map Prod.snd := by
  have hlookups := not_refused h halive hx
  unfold traceCommands Process.ran
  rw [Delimited.upTo_eq_self fun l hl => (hlookups l hl).2]
  split
  · rfl
  · have hnone : x.1.lookups x.2 = [] := List.eq_nil_iff_forall_not_mem.mpr fun l hl => ‹¬ _› (hlookups l hl).1
    rw [hnone, List.map_nil]

theorem completeTraces_eq_nil (h : ∀ op ∈ ops, op ≠ .setCollectStack .collectStackComplete) : completeTraces ops = [] := by
  refine List.eq_nil_iff_forall_not_mem.mpr fun x hx => ?_
  obtain ⟨before, op, after, rfl, hflag, -⟩ := mem_completeTraces hx
  have hstep : ∀ {flag flag' : CollectStack} {op : Op}, op ≠ .setCollectStack .collectStackComplete →
      some (Op.flag flag op) = some flag' → flag ≠ .collectStackComplete → flag' ≠ .collectStackComplete := by
    rintro flag _ op hop ⟨⟩ hne
    cases op with
    | setCollectStack collectStack => exact fun hset => hop (congrArg _ hset)
    | construct | constructClass | copy | setParameter | destroy => exact hne
  refine Machine.run_invariant_of hstep (fun op hop => h op ?_) (run_flags .collectStackYes before) (by decide) hflag
  exact List.mem_append_left _ hop

end Exceptions

/-- The commands of a program are those of the complete traces it collects, each up to the first that cannot
    be run; while the program has not crashed all of them were run, and without that flag there are none. -/
theorem exceptions_commands (ops : List Exceptions.Op) (s : Exceptions)
    (hrun : Machine.run Exceptions.step .start ops = some s) :
    Machine.emitted Exceptions.step Exceptions.ran .start ops =
      (Exceptions.completeTraces ops).flatMap (fun (p, d) =>
        if p.symbolTable then (Delimited.upTo p.refuses (p.lookups d)).map Prod.snd else []) ∧
    (s.alive = true → Machine.emitted Exceptions.step Exceptions.ran .start ops =
      (Exceptions.completeTraces ops).flatMap fun (p, d) => (p.lookups d).map Prod.snd) ∧
    ((∀ op ∈ ops, op ≠ .setCollectStack .collectStackComplete) →
      Machine.emitted Exceptions.step Exceptions.ran .start ops = []) := by
  have hran := Exceptions.emitted_ran hrun
  refine ⟨hran, fun halive => ?_, fun hflag => ?_⟩
  · rw [hran]
    exact List.flatMap_congr fun x hx => Exceptions.traceCommands_of_run hrun halive hx
  · rw [hran, Exceptions.completeTraces_eq_nil hflag, List.flatMap_nil]

/-- Two exceptions are built, the second with a complete trace of a frame of `main()`. -/
theorem exceptions_commands_main : ∃ s,
    Machine.run Exceptions.step .start
      [.constructClass fixmeClass inlinedFrame (bytes "what"), .setCollectStack .collectStackComplete,
        .constructClass fixmeClass inlinedFrame (bytes "what")] = some s ∧
    Machine.emitted Exceptions.step Exceptions.ran .start
      [.constructClass fixmeClass inlinedFrame (bytes "what"), .setCollectStack .collectStackComplete,
        .constructClass fixmeClass inlinedFrame (bytes "what")] = [bytes "eu-addr2line --pid=7 55d1"] := by
  have hruns : (Machine.run Exceptions.step .start
      [.constructClass fixmeClass inlinedFrame (bytes "what"), .setCollectStack .collectStackComplete,
        .constructClass fixmeClass inlinedFrame (bytes "what")]).any (fun s => s.alive) = true := by decide
  obtain ⟨s, hs, halive⟩ := (Option.any_eq_true _ _).mp hruns
  exact ⟨s, hs, ((exceptions_commands _ s hs).2.1 halive).trans (by decide)⟩

end Libexcept
